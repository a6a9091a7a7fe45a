/-
**Collecting from logs that grow (`collect/mod.rs`, `run_target`).**

A tool only adds to its logs, so that a run finds the first lines of a log and perhaps a part of the
next one. What it reads of them may still depend on when the file was changed last.

* **`delivered_rounds`**: the runs deliver keys that a visit read, and all that a complete one read.
-/

import Toard.Shim.Cursor

namespace Toard.Shim

/-- How an adapter reads a file, of lines or of characters, that was changed last at a time. -/
structure LogReader (L : Type*) where
  keys : String → Int → List L → List String
  isError : L → Bool
  torn : List L

/-- What a run finds of a log: some lines, and perhaps a part of the next one. -/
structure Visit where
  path : String
  seen : Nat
  torn : Bool
  stamp : FileStamp
  stored : Option Nat

inductive Round where
  | read (visit : Visit)
  | forget (alivePaths : List String)

variable {L : Type*}

section Rounds

variable (reader : LogReader L) (logs : String → List L)

namespace Visit

def lines (visit : Visit) : List L :=
  (logs visit.path).take visit.seen ++ if visit.torn then reader.torn else []

structure IsWhole (visit : Visit) : Prop where
  seen : (logs visit.path).length ≤ visit.seen
  torn : visit.torn = false
  stored : visit.stored = none

def keys (visit : Visit) : List String :=
  reader.keys visit.path visit.stamp.mtimeMs (visit.lines reader logs)

/-- Of a file with an error the records are stored, but the cursor is not saved. -/
def step (visit : Visit) : Collecting :=
  .file visit.path visit.stamp (visit.keys reader logs)
    (if (visit.lines reader logs).any reader.isError then
      some (visit.stored.getD (visit.keys reader logs).length)
    else visit.stored)

end Visit

def Round.step : Round → Collecting
  | .read visit => visit.step reader logs
  | .forget alivePaths => .forget alivePaths

def delivered (sha256Hex : String → String) (cursor : Cursor) (rounds : List Round) : List String :=
  (Collector.after sha256Hex cursor (rounds.map (Round.step reader logs))).delivered

end Rounds

variable {reader : LogReader L} {logs : String → List L}

theorem Visit.IsWhole.keys {visit : Visit} (whole : visit.IsWhole logs) :
    visit.keys reader logs = reader.keys visit.path visit.stamp.mtimeMs (logs visit.path) := by
  rw [Visit.keys, Visit.lines, whole.torn, List.take_of_length_le whole.seen, if_neg (by decide),
    List.append_nil]

theorem Visit.step_isComplete {visit : Visit} (stored : visit.stored = none) :
    (visit.step reader logs).IsComplete := by
  intro count isCount
  rw [stored] at isCount
  split at isCount
  · exact (Option.some.inj isCount).le
  · cases isCount

/-- **What the rounds deliver**: keys that a visit read, and all keys of a visit that was not
interrupted. -/
theorem delivered_rounds {sha256Hex : String → String} (digest : CollisionFree sha256Hex)
    {cursor : Cursor} (legacy : ∀ path state, cursor.files path = some state → state.sent = 0)
    (plain : ∀ path mtimeMs lines, OneLine (reader.keys path mtimeMs lines)) (rounds : List Round) :
    (∀ key ∈ delivered reader logs sha256Hex cursor rounds,
      ∃ visit, .read visit ∈ rounds ∧ key ∈ visit.keys reader logs) ∧
    ∀ visit, .read visit ∈ rounds → visit.stored = none →
      ∀ key ∈ visit.keys reader logs, key ∈ delivered reader logs sha256Hex cursor rounds := by
  have plainSteps : ∀ step ∈ rounds.map (Round.step reader logs), OneLine step.keys := by
    intro step isStep
    obtain ⟨round, -, rfl⟩ := List.mem_map.mp isStep
    cases round with
    | read visit => exact plain _ _ _
    | forget alivePaths => simp [Round.step, Collecting.keys, OneLine]
  obtain ⟨known, complete⟩ := Collector.mem_after digest legacy plainSteps
  constructor
  · intro key among
    obtain ⟨step, isStep, inside⟩ := known key among
    obtain ⟨round, isRound, rfl⟩ := List.mem_map.mp isStep
    cases round with
    | read visit => exact ⟨visit, isRound, inside⟩
    | forget alivePaths => cases inside
  · intro visit isRound stored key among
    exact complete _ (List.mem_map_of_mem isRound) (visit.step_isComplete stored) key among

def ReadWhole (logs : String → List L) (rounds : List Round) (final : String → Visit) : Prop :=
  ∀ visit, .read visit ∈ rounds → .read (final visit.path) ∈ rounds ∧
    (final visit.path).path = visit.path ∧ (final visit.path).IsWhole logs

/-- The queue has the keys of the whole logs, as the last runs read them, and no others. -/
def DeliversWhole (reader : LogReader L) (logs : String → List L) (sha256Hex : String → String)
    (cursor : Cursor) (rounds : List Round) (final : String → Visit) : Prop :=
  ∀ key, key ∈ delivered reader logs sha256Hex cursor rounds ↔ ∃ visit, .read visit ∈ rounds ∧
    key ∈ reader.keys visit.path (final visit.path).stamp.mtimeMs (logs visit.path)

theorem delivered_whole {sha256Hex : String → String} (digest : CollisionFree sha256Hex)
    {cursor : Cursor} (legacy : ∀ path state, cursor.files path = some state → state.sent = 0)
    (plain : ∀ path mtimeMs lines, OneLine (reader.keys path mtimeMs lines)) {rounds : List Round}
    {final : String → Visit} (whole : ReadWhole logs rounds final)
    (kept : ∀ visit, .read visit ∈ rounds → ∀ key ∈ visit.keys reader logs,
      key ∈ reader.keys visit.path (final visit.path).stamp.mtimeMs (logs visit.path)) :
    DeliversWhole reader logs sha256Hex cursor rounds final := by
  intro key
  obtain ⟨known, complete⟩ := delivered_rounds digest legacy plain rounds
  constructor
  · intro among
    obtain ⟨visit, isRound, inside⟩ := known key among
    exact ⟨visit, isRound, kept visit isRound key inside⟩
  · rintro ⟨visit, isRound, inside⟩
    obtain ⟨isFinal, samePath, isWhole⟩ := whole visit isRound
    refine complete (final visit.path) isFinal isWhole.stored key ?_
    rw [isWhole.keys, samePath]
    exact inside

end Toard.Shim
