/-
**The cursor of a collector (`collect/cursor.rs`, `collect/fanout.rs`, `collect/mod.rs`).**

A file is parsed as a whole each time that it changed. Of its records the cursor remembers their
number and one digest of all their keys, and what comes behind them is sent.

* **`resumes`**: over any commits each record is sent, and of records that are only added to, each
  once.
-/

import Mathlib.Logic.Equiv.List
import Toard.Library.Canonical
import Toard.Library.Resumption

namespace Toard.Shim

open Toard.Library

/-! ### The source -/

structure FileStamp where
  mtimeMs : Int
  size : Nat
deriving DecidableEq

structure FileState extends FileStamp where
  sent : Nat
  sentHash : String

def keysHash (sha256Hex : String → String) (keys : List String) : String :=
  sha256Hex (String.ofList (keys.flatMap fun key => key.toList ++ ['\n']))

def resumeIndex (sha256Hex : String → String) (prevSent : Nat) (prevHash : String)
    (keys : List String) : Nat :=
  if prevSent = 0 ∨ prevHash.toList = [] ∨ keys.length < prevSent then 0
  else if keysHash sha256Hex (keys.take prevSent) = prevHash then prevSent
  else 0

structure Cursor where
  files : String → Option FileState

namespace Cursor

def insert (cursor : Cursor) (update : String × FileState) : Cursor where
  files path := if path = update.1 then some update.2 else cursor.files path

def retain (cursor : Cursor) (alivePaths : List String) : Cursor where
  files path := if path ∈ alivePaths then cursor.files path else none

end Cursor

structure TargetCursorPlan (T : Type*) where
  pending : List T
  updates : List (String × FileState)
  alivePaths : List String

section Plans

variable {T : Type*}

def planRecords (sha256Hex : String → String) (path : String) (stamp : FileStamp) (cursor : Cursor)
    (records : List (String × T)) : TargetCursorPlan T :=
  let keys := records.map Prod.fst
  let previous := cursor.files path
  let start := resumeIndex sha256Hex ((previous.map FileState.sent).getD 0)
    ((previous.map FileState.sentHash).getD "") keys
  { pending := (records.drop start).map Prod.snd
    updates := [(path, ⟨stamp, keys.length, keysHash sha256Hex keys⟩)]
    alivePaths := [path] }

def commitCursorPlan (cursor : Cursor) (plan : TargetCursorPlan T) : Cursor :=
  (plan.updates.foldl Cursor.insert cursor).retain plan.alivePaths

end Plans

/-! ### The keys that a cursor tells of -/

structure CollisionFree (sha256Hex : String → String) : Prop where
  injective : Function.Injective sha256Hex
  nonempty : ∀ text, sha256Hex text ≠ ""
  oneLine : ∀ text, '\n' ∉ (sha256Hex text).toList

def OneLine (keys : List String) : Prop := ∀ key ∈ keys, '\n' ∉ key.toList

theorem keysHash_inj {sha256Hex : String → String} (free : Function.Injective sha256Hex)
    {keys keys' : List String} (plain : ∀ key ∈ keys, '\n' ∉ key.toList)
    (plain' : ∀ key ∈ keys', '\n' ∉ key.toList)
    (same : keysHash sha256Hex keys = keysHash sha256Hex keys') : keys = keys' := by
  have texts := String.ofList_injective (free same)
  clear same
  induction keys generalizing keys' with
  | nil =>
    cases keys' with
    | nil => rfl
    | cons key' rest' => simp at texts
  | cons key rest ih =>
    cases keys' with
    | nil => simp at texts
    | cons key' rest' =>
      rw [List.forall_mem_cons] at plain plain'
      rw [List.flatMap_cons, List.flatMap_cons, List.append_assoc, List.append_assoc] at texts
      obtain ⟨first, later⟩ := append_separator_inj plain.1 plain'.1 texts
      rw [String.toList_inj.mp first, ih plain.2 plain'.2 later]

/-- **The states of a cursor**, with the keys that were sent of each file. A new cursor knows no
file, and one of an older version has sent nothing that it could tell. -/
inductive Committed (sha256Hex : String → String) : Cursor → (String → List String) → Prop where
  | start (cursor : Cursor)
      (legacy : ∀ path state, cursor.files path = some state → state.sent = 0) :
      Committed sha256Hex cursor fun _ => []
  | insert {cursor : Cursor} {sent : String → List String}
      (before : Committed sha256Hex cursor sent) (path : String) (stamp : FileStamp)
      (keys : List String) (plain : OneLine keys) :
      Committed sha256Hex (cursor.insert (path, ⟨stamp, keys.length, keysHash sha256Hex keys⟩))
        fun other => if other = path then keys else sent other
  | retain {cursor : Cursor} {sent : String → List String}
      (before : Committed sha256Hex cursor sent) (alivePaths : List String) :
      Committed sha256Hex (cursor.retain alivePaths)
        fun path => if path ∈ alivePaths then sent path else []

structure TellsFile (sha256Hex : String → String) (file : Option FileState) (sent : List String) :
    Prop where
  plain : OneLine sent
  count : (file.map FileState.sent).getD 0 = sent.length
  hash : sent = [] ∨ (file.map FileState.sentHash).getD "" = keysHash sha256Hex sent

theorem Committed.tells {sha256Hex : String → String} {cursor : Cursor} {sent : String → List String}
    (committed : Committed sha256Hex cursor sent) (path : String) :
    TellsFile sha256Hex (cursor.files path) (sent path) := by
  induction committed with
  | start cursor legacy =>
    refine ⟨by simp [OneLine], ?_, .inl rfl⟩
    cases isFile : cursor.files path with
    | none => rfl
    | some state => exact legacy path state isFile
  | insert before file stamp keys plain ih =>
    simp only [Cursor.insert]
    by_cases same : path = file
    · rw [if_pos same, if_pos same]
      exact ⟨plain, rfl, .inr rfl⟩
    · rw [if_neg same, if_neg same]
      exact ih
  | retain before alivePaths ih =>
    simp only [Cursor.retain]
    by_cases alive : path ∈ alivePaths
    · rw [if_pos alive, if_pos alive]
      exact ih
    · rw [if_neg alive, if_neg alive]
      exact ⟨by simp [OneLine], rfl, .inl rfl⟩

/-! ### What is sent -/

section Resuming

variable {sha256Hex : String → String} {T : Type*}

/-- **Where a file is taken up again**: behind the keys that were sent, if it begins with them. -/
theorem resumeIndex_eq (digest : CollisionFree sha256Hex) {file : Option FileState}
    {sent : List String} (tells : TellsFile sha256Hex file sent) {keys : List String}
    (plain : OneLine keys) :
    resumeIndex sha256Hex ((file.map FileState.sent).getD 0)
      ((file.map FileState.sentHash).getD "") keys
      = if sent <+: keys then sent.length else 0 := by
  rw [tells.count]
  rcases tells.hash with rfl | hash
  · rw [resumeIndex, if_pos (.inl rfl), if_pos List.nil_prefix]
    rfl
  · have named : (keysHash sha256Hex sent).toList ≠ [] := fun empty =>
      digest.nonempty _ (String.toList_eq_nil_iff.mp empty)
    rw [hash, resumeIndex]
    by_cases grown : sent <+: keys
    · have whole : keys.take sent.length = sent := (List.prefix_iff_eq_take.mp grown).symm
      rw [if_pos grown, whole, if_pos rfl]
      split
      · next none =>
        rcases none with none | empty | short
        · exact none.symm
        · exact absurd empty named
        · exact absurd grown.length_le (by omega)
      · rfl
    · rw [if_neg grown]
      split
      · rfl
      · refine if_neg fun same => grown ?_
        have isTaken := keysHash_inj digest.injective
          (fun key among => plain key (List.mem_of_mem_take among)) tells.plain same
        rw [← isTaken]
        exact List.take_prefix _ _

/-- **A plan sends what comes behind the records that were sent**, or all of them. -/
theorem pending_planRecords (digest : CollisionFree sha256Hex) {cursor : Cursor}
    {sent : String → List String} (committed : Committed sha256Hex cursor sent) (path : String)
    (stamp : FileStamp) {records : List (String × T)} (plain : OneLine (records.map Prod.fst)) :
    (planRecords sha256Hex path stamp cursor records).pending
      = if sent path <+: records.map Prod.fst
        then (records.drop (sent path).length).map Prod.snd else records.map Prod.snd := by
  simp only [planRecords, resumeIndex_eq digest (committed.tells path) plain]
  split
  · rfl
  · rw [List.drop_zero]

theorem Committed.commitCursorPlan {cursor : Cursor} {sent : String → List String}
    (committed : Committed sha256Hex cursor sent) (path : String) (stamp : FileStamp)
    (records : List (String × T)) (plain : OneLine (records.map Prod.fst)) :
    Committed sha256Hex
      (commitCursorPlan cursor (planRecords sha256Hex path stamp cursor records)) fun other =>
        if other ∈ [path] then (if other = path then records.map Prod.fst else sent other) else [] :=
  (committed.insert path stamp (records.map Prod.fst) plain).retain [path]

def keyed (records : List (String × T)) : List (String × String × T) :=
  records.map fun record => (record.1, record)

theorem keys_keyed (records : List (String × T)) :
    (keyed records).map Prod.fst = records.map Prod.fst := by
  rw [keyed, List.map_map]
  rfl

/-- The records that the plans of one file send, when each of them is committed. -/
def sendAll (sha256Hex : String → String) (path : String) :
    Cursor → List (FileStamp × List (String × T)) → List (String × T)
  | _, [] => []
  | cursor, run :: rest =>
    let plan := planRecords sha256Hex path run.1 cursor (keyed run.2)
    plan.pending ++ sendAll sha256Hex path (Shim.commitCursorPlan cursor plan) rest

theorem keys_pending (digest : CollisionFree sha256Hex) {cursor : Cursor}
    {sent : String → List String} (committed : Committed sha256Hex cursor sent) (path : String)
    (stamp : FileStamp) {records : List (String × T)} (plain : OneLine (records.map Prod.fst)) :
    ((planRecords sha256Hex path stamp cursor (keyed records)).pending.map Prod.fst)
      = unsent (sent path) (records.map Prod.fst) := by
  rw [pending_planRecords digest committed path stamp (by rwa [keys_keyed]), keys_keyed, unsent]
  have whole : (keyed records).map Prod.snd = records := by
    rw [keyed, List.map_map]
    exact List.map_id _
  split
  · rw [List.map_drop, whole, List.map_drop]
  · rw [whole]

/-- **The plans of a file follow the general rule.** -/
theorem keys_sendAll (digest : CollisionFree sha256Hex) {cursor : Cursor}
    {sent : String → List String} (committed : Committed sha256Hex cursor sent) (path : String)
    {runs : List (FileStamp × List (String × T))}
    (plain : ∀ run ∈ runs, OneLine (run.2.map Prod.fst)) :
    (sendAll sha256Hex path cursor runs).map Prod.fst
      = sentOf (sent path) (runs.map fun run => run.2.map Prod.fst) := by
  induction runs generalizing cursor sent with
  | nil => rfl
  | cons run rest ih =>
    have first := plain run List.mem_cons_self
    have after := committed.commitCursorPlan path run.1 (keyed run.2)
      (by rwa [keys_keyed])
    have later := ih after fun run among => plain run (List.mem_cons_of_mem _ among)
    rw [if_pos (List.mem_singleton.mpr rfl), if_pos rfl, keys_keyed] at later
    rw [sendAll, List.map_append, keys_pending digest committed path run.1 first, later,
      List.map_cons, sentOf]

/-- **Taking up a file again.** From any state of the cursor, a plan sends the records behind those
that were sent if the file begins with them, and all of its records otherwise. Over any commits each
record is sent, and the records of a file that is only added to are sent once each. -/
theorem resumes (digest : CollisionFree sha256Hex) {cursor : Cursor} {sent : String → List String}
    (committed : Committed sha256Hex cursor sent) (path : String) :
    (∀ (stamp : FileStamp) (records : List (String × T)), OneLine (records.map Prod.fst) →
      (planRecords sha256Hex path stamp cursor records).pending
        = if sent path <+: records.map Prod.fst
          then (records.drop (sent path).length).map Prod.snd else records.map Prod.snd) ∧
    ∀ runs : List (FileStamp × List (String × T)), (∀ run ∈ runs, OneLine (run.2.map Prod.fst)) →
      (∀ run ∈ runs, ∀ record ∈ run.2, record.1 ∈ sent path ∨
        record.1 ∈ (sendAll sha256Hex path cursor runs).map Prod.fst) ∧
      (List.IsChain (· <+: ·) (sent path :: runs.map fun run => run.2.map Prod.fst) →
        sent path ++ (sendAll sha256Hex path cursor runs).map Prod.fst
          = (sent path :: runs.map fun run => run.2.map Prod.fst).getLast
              (List.cons_ne_nil _ _)) := by
  refine ⟨fun stamp records plain => pending_planRecords digest committed path stamp plain,
    fun runs plain => ?_⟩
  rw [keys_sendAll digest committed path plain]
  refine ⟨fun run isRun record among => ?_, append_sentOf⟩
  exact mem_sentOf (List.mem_map_of_mem isRun) (List.mem_map_of_mem among)

/-! ### Runs that may be interrupted -/

/-- The cursor, and the keys of the records that were stored in the queue. -/
structure Collector where
  cursor : Cursor
  delivered : List String

inductive Collecting where
  /-- A file is parsed, and its records are stored. If not all of them are, or if its text has an
  error, the cursor stays as it is. -/
  | file (path : String) (stamp : FileStamp) (keys : List String) (reached : Option Nat)
  /-- Files that are gone are forgotten. -/
  | forget (alivePaths : List String)

namespace Collecting

def keys : Collecting → List String
  | .file _ _ keys _ => keys
  | .forget _ => []

def IsComplete : Collecting → Prop
  | .file _ _ keys reached => ∀ count, reached = some count → keys.length ≤ count
  | .forget _ => False

end Collecting

namespace Collector

def next (sha256Hex : String → String) (collector : Collector) : Collecting → Collector
  | .file path stamp keys reached =>
    let plan := planRecords sha256Hex path stamp collector.cursor (keys.map fun key => (key, key))
    { cursor := if reached.isSome then collector.cursor
        else plan.updates.foldl Cursor.insert collector.cursor
      delivered := collector.delivered ++ plan.pending.take (reached.getD plan.pending.length) }
  | .forget alivePaths => { collector with cursor := collector.cursor.retain alivePaths }

def after (sha256Hex : String → String) (cursor : Cursor) (steps : List Collecting) : Collector :=
  steps.foldl (next sha256Hex) ⟨cursor, []⟩

def Sound (sha256Hex : String → String) (collector : Collector) : Prop :=
  ∃ sent, Committed sha256Hex collector.cursor sent ∧
    ∀ path, ∀ key ∈ sent path, key ∈ collector.delivered

variable {collector : Collector}

theorem map_pair (keys : List String) :
    (keys.map fun key => (key, key)).map Prod.fst = keys ∧
      (keys.map fun key => (key, key)).map Prod.snd = keys := by
  simp [Function.comp_def]

theorem pending_next (digest : CollisionFree sha256Hex) {sent : String → List String}
    (committed : Committed sha256Hex collector.cursor sent) (path : String) (stamp : FileStamp)
    {keys : List String} (plain : OneLine keys) :
    (planRecords sha256Hex path stamp collector.cursor (keys.map fun key => (key, key))).pending
      = unsent (sent path) keys := by
  obtain ⟨own, own'⟩ := map_pair keys
  rw [pending_planRecords digest committed path stamp (by rwa [own]), own, List.map_drop, own',
    unsent]

/-- **One step**: what was delivered stays, only keys of the step are added, and a complete step has
delivered all of its keys. -/
theorem next_sound (digest : CollisionFree sha256Hex) (sound : collector.Sound sha256Hex)
    {step : Collecting} (plain : OneLine step.keys) :
    (collector.next sha256Hex step).Sound sha256Hex ∧
    (∀ key ∈ collector.delivered, key ∈ (collector.next sha256Hex step).delivered) ∧
    (∀ key ∈ (collector.next sha256Hex step).delivered, key ∈ collector.delivered ∨ key ∈ step.keys) ∧
    (step.IsComplete → ∀ key ∈ step.keys, key ∈ (collector.next sha256Hex step).delivered) := by
  obtain ⟨sent, committed, known⟩ := sound
  cases step with
  | forget alivePaths =>
    refine ⟨⟨_, committed.retain alivePaths, fun path key among => ?_⟩, fun key among => among,
      fun key among => .inl among, False.elim⟩
    split at among
    · exact known path key among
    · cases among
  | file path stamp keys reached =>
    replace plain : OneLine keys := plain
    have pending := pending_next digest committed path stamp plain
    have stays : ∀ key ∈ collector.delivered,
        key ∈ (collector.next sha256Hex (.file path stamp keys reached)).delivered :=
      fun key among => List.mem_append_left _ among
    have complete (all : ∀ count, reached = some count → keys.length ≤ count) : ∀ key ∈ keys,
        key ∈ (collector.next sha256Hex (.file path stamp keys reached)).delivered := by
      intro key among
      rcases mem_or_unsent (sent path) among with before | now
      · exact stays key (known path key before)
      · refine List.mem_append_right _ ?_
        rw [pending, List.take_of_length_le]
        · exact now
        · cases reached with
          | none => exact le_rfl
          | some count => exact (length_unsent_le _ _).trans (all count rfl)
    refine ⟨?_, stays, fun key among => ?_, complete⟩
    · cases reached with
      | some count => exact ⟨sent, committed, fun path key among => stays key (known path key among)⟩
      | none =>
        have stored := committed.insert path stamp keys plain
        have isStored : (collector.next sha256Hex (.file path stamp keys none)).cursor
            = collector.cursor.insert (path, ⟨stamp, keys.length, keysHash sha256Hex keys⟩) := by
          simp only [next, planRecords, (map_pair keys).1]
          rfl
        refine ⟨_, isStored ▸ stored, fun other key among => ?_⟩
        split at among
        · exact complete (by simp) key among
        · exact stays key (known other key among)
    · refine (List.mem_append.mp among).imp_right fun new => ?_
      have added := List.mem_of_mem_take new
      rw [pending] at added
      exact mem_of_mem_unsent added

/-- **What runs deliver**: keys of the files as they were parsed, and all keys of every file that was
stored completely. -/
theorem mem_after (digest : CollisionFree sha256Hex) {cursor : Cursor}
    (legacy : ∀ path state, cursor.files path = some state → state.sent = 0)
    {steps : List Collecting} (plain : ∀ step ∈ steps, OneLine step.keys) :
    (∀ key ∈ (after sha256Hex cursor steps).delivered, ∃ step ∈ steps, key ∈ step.keys) ∧
    ∀ step ∈ steps, step.IsComplete → ∀ key ∈ step.keys,
      key ∈ (after sha256Hex cursor steps).delivered := by
  suffices (after sha256Hex cursor steps).Sound sha256Hex ∧
      (∀ key ∈ (after sha256Hex cursor steps).delivered, ∃ step ∈ steps, key ∈ step.keys) ∧
      ∀ step ∈ steps, step.IsComplete → ∀ key ∈ step.keys,
        key ∈ (after sha256Hex cursor steps).delivered from this.2
  induction steps using List.reverseRecOn with
  | nil => exact ⟨⟨_, .start cursor legacy, by simp⟩, by simp [after], by simp⟩
  | append_singleton steps step ih =>
    obtain ⟨sound, known, complete⟩ :=
      ih fun step among => plain step (List.mem_append_left _ among)
    obtain ⟨sound', stays, added, own⟩ := next_sound digest sound (plain step (by simp))
    have isNext : after sha256Hex cursor (steps ++ [step])
        = (after sha256Hex cursor steps).next sha256Hex step := by
      rw [after, List.foldl_append]
      rfl
    rw [isNext]
    refine ⟨sound', fun key among => ?_, fun other among isComplete key inside => ?_⟩
    · rcases added key among with before | now
      · obtain ⟨other, isStep, inside⟩ := known key before
        exact ⟨other, List.mem_append_left _ isStep, inside⟩
      · exact ⟨step, by simp, now⟩
    · rcases List.mem_append.mp among with before | last
      · exact stays key (complete other before isComplete key inside)
      · obtain rfl := List.mem_singleton.mp last
        exact own isComplete key inside

end Collector

end Resuming

def unary (text : String) : String :=
  String.ofList (List.replicate (Encodable.encode (text.toList.map Char.toNat) + 1) 'x')

theorem unary_injective : Function.Injective unary := by
  intro left right same
  have lengths := congrArg List.length (String.ofList_injective same)
  rw [List.length_replicate, List.length_replicate, Nat.succ_inj] at lengths
  have codes := Encodable.encode_injective lengths
  exact String.toList_inj.mp (List.map_injective_iff.mpr (fun _ _ => Char.toNat_inj.mp) codes)

theorem collisionFree_unary : CollisionFree unary where
  injective := unary_injective
  nonempty text empty := by simpa [unary, List.replicate_succ] using congrArg String.toList empty
  oneLine text among := by
    rw [unary, String.toList_ofList] at among
    exact absurd (List.eq_of_mem_replicate among) (by decide)

/-- A file of one record, and of two. -/
theorem resumes_appended : (sendAll unary "a.jsonl" ⟨fun _ => none⟩
    [(⟨1, 20⟩, [("a", 1)]), (⟨2, 40⟩, [("a", 1), ("b", 2)])]).map Prod.fst = ["a", "b"] := by
  have sent := ((resumes collisionFree_unary (.start ⟨fun _ => none⟩ (by simp)) "a.jsonl").2
    [(⟨1, 20⟩, [("a", 1)]), (⟨2, 40⟩, [("a", 1), ("b", 2)])] (by simp only [OneLine]; decide)).2
    (by decide)
  exact sent

end Toard.Shim
