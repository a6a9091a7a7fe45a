/-
**Retraction of usage events.**

`reconcileUsageEvents` deletes events of a user from the outbox, looks for them in ClickHouse, marks
their buckets, deletes them there, and marks the buckets again. A flush that read an event before
its deletion from the outbox still holds it, and may insert it at any later time.

* **`retraction_is_final`**: in a run in which each insert of a retracted event comes before the
  retraction's delete, no retracted event is in the store.
* **`flush_resurrects_event`**: the run that shows that the condition is needed.
-/

import Toard.Storage.Ingest

namespace Toard.Storage

open Toard.Library

/-! ### The retraction -/

structure UsageEventReconciliationRequest where
  userId : String
  providerKey : String
  logAdapter : String
  dedupKeys : List String
deriving DecidableEq

namespace UsageEventReconciliationRequest

variable (request : UsageEventReconciliationRequest)

def keys : List String := request.dedupKeys.eraseDups.take 1000

/-- The outbox row is the user's, of the provider and the log adapter. -/
def ownsOutbox (row : OutboxRow) : Bool :=
  row.userId == some request.userId && row.providerKey == request.providerKey &&
    row.logAdapter == some request.logAdapter

/-- The raw event is the user's, of the provider and the log adapter. -/
def ownsRaw (row : UsageRow) : Bool :=
  row.userId == request.userId && row.providerKey == request.providerKey &&
    row.logAdapter == request.logAdapter

end UsageEventReconciliationRequest

structure RetractionCandidate where
  dedupKey : String
  ts : Int
deriving DecidableEq

def OutboxRow.candidate (row : OutboxRow) : RetractionCandidate := ⟨row.dedupKey, row.ts⟩

def UsageRow.candidate (row : UsageRow) : RetractionCandidate := ⟨row.dedupKey, row.ts⟩

/-- `candidateByKey`: the events found in ClickHouse, and those found in the outbox only. -/
def candidateByKey (outbox raw : List RetractionCandidate) : List RetractionCandidate :=
  outbox.filter (fun candidate => candidate.dedupKey ∉ raw.map RetractionCandidate.dedupKey) ++ raw

theorem mem_candidateByKey_of_raw {outbox raw : List RetractionCandidate}
    {candidate : RetractionCandidate} (among : candidate ∈ raw) :
    candidate ∈ candidateByKey outbox raw :=
  List.mem_append_right _ among

inductive RetractionPhase where
  | started
  | cleared
  | selected
  | marked
  | deleted
deriving DecidableEq

/-- A call of `reconcileUsageEvents` in progress. `pending` are its keys that have not been ingested
again since it deleted them from the outbox. -/
structure RetractionRun where
  request : UsageEventReconciliationRequest
  outboxRows : List RetractionCandidate
  candidates : List RetractionCandidate
  phase : RetractionPhase
  pending : List String
deriving DecidableEq

def RetractionRun.candidateKeys (run : RetractionRun) : List String :=
  run.candidates.map RetractionCandidate.dedupKey

def RetractionRun.Passed (run : RetractionRun) (key : String) : Prop :=
  run.phase = .deleted ∨ ((run.phase = .selected ∨ run.phase = .marked) ∧ key ∉ run.candidateKeys)

/-! ### The system -/

/-- The store, the retractions in progress, and what has been retracted and not ingested again. -/
structure RetractionSystem where
  ingest : Ingest
  retractions : List RetractionRun
  retracted : List (UsageEventReconciliationRequest × String)
deriving DecidableEq

def RetractionSystem.initial (now : Int) : RetractionSystem where
  ingest := .initial now
  retractions := []
  retracted := []

inductive RetractionAction where
  | enqueue (events : List OutboxRow)
  | flush (action : FlushAction)
  | start (request : UsageEventReconciliationRequest)
  | clearOutbox (retraction : Nat)
  | selectRaw (retraction : Nat)
  | markFirst (retraction : Nat)
  | deleteRaw (retraction : Nat)
  | finish (retraction : Nat)
  | crash (retraction : Nat)

def RetractionRun.reingest (run : RetractionRun) (keys : List String) : RetractionRun :=
  { run with pending := run.pending.filter fun key => key ∉ keys }

def UsageEventReconciliationRequest.deletes (request : UsageEventReconciliationRequest)
    (row : OutboxRow) : Bool :=
  request.ownsOutbox row && decide (row.dedupKey ∈ request.keys)

def Batch.without (drops : OutboxRow → Bool) (batch : Batch) : Batch :=
  { batch with rows := batch.rows.filter fun row => !drops row }

def RetractionRun.entries (run : RetractionRun) :
    List (UsageEventReconciliationRequest × String) :=
  run.pending.map fun key => (run.request, key)

def nextRetraction (s : RetractionSystem) : RetractionAction → Option RetractionSystem
  | .enqueue events =>
    let keys := (s.ingest.fresh events).map OutboxRow.dedupKey
    some
      { ingest := s.ingest.enqueue events
        retractions := s.retractions.map fun run => run.reingest keys
        retracted := s.retracted.filter fun entry => entry.2 ∉ keys }
  | .flush action => (s.ingest.next action).map fun ingest => { s with ingest := ingest }
  | .start request =>
    if request.keys = [] then none
    else some { s with retractions := s.retractions ++ [⟨request, [], [], .started, []⟩] }
  | .clearOutbox index =>
    match s.retractions[index]? with
    | some ⟨request, _, candidates, .started, _⟩ => some { s with
        ingest := { s.ingest with batches := s.ingest.batches.map (Batch.without request.deletes) }
        retractions := s.retractions.set index
          ⟨request, (s.ingest.outboxRows.filter request.deletes).map OutboxRow.candidate, candidates,
            .cleared, request.keys⟩ }
    | _ => none
  | .selectRaw index =>
    match s.retractions[index]? with
    | some ⟨request, outboxRows, _, .cleared, pending⟩ =>
      let found := s.ingest.raw.filter fun row =>
        request.ownsRaw row && decide (row.dedupKey ∈ request.keys)
      let candidates := candidateByKey outboxRows (found.map UsageRow.candidate)
      let run : RetractionRun := ⟨request, outboxRows, candidates, .selected, pending⟩
      if candidates = [] then
        some { s with
          retractions := s.retractions.eraseIdx index
          retracted := run.entries ++ s.retracted }
      else some { s with retractions := s.retractions.set index run }
    | _ => none
  | .markFirst index =>
    match s.retractions[index]? with
    | some ⟨request, outboxRows, candidates, .selected, pending⟩ => some { s with
        ingest := { s.ingest with
          dirty := (candidates.map fun candidate => fifteenMinuteBucket candidate.ts) ∪
            s.ingest.dirty }
        retractions := s.retractions.set index ⟨request, outboxRows, candidates, .marked, pending⟩ }
    | _ => none
  | .deleteRaw index =>
    match s.retractions[index]? with
    | some ⟨request, outboxRows, candidates, .marked, pending⟩ =>
      let run : RetractionRun := ⟨request, outboxRows, candidates, .deleted, pending⟩
      some { s with
        ingest := { s.ingest with
          raw := s.ingest.raw.filter fun row =>
            !(request.ownsRaw row && decide (row.dedupKey ∈ run.candidateKeys)) }
        retractions := s.retractions.set index run }
    | _ => none
  | .finish index =>
    match s.retractions[index]? with
    | some ⟨request, outboxRows, candidates, .deleted, pending⟩ =>
      let run : RetractionRun := ⟨request, outboxRows, candidates, .deleted, pending⟩
      some
        { ingest := { s.ingest with
            dirty := (candidates.map fun candidate => fifteenMinuteBucket candidate.ts) ∪
              s.ingest.dirty }
          retractions := s.retractions.eraseIdx index
          retracted := run.entries ++ s.retracted }
    | _ => none
  | .crash index =>
    if s.retractions[index]?.isSome then
      some { s with retractions := s.retractions.eraseIdx index }
    else none

/-! ### The condition and the invariant -/

/-- The raw event was retracted, and no retraction in progress will delete it. -/
def RetractionSystem.Retracted (s : RetractionSystem) (row : UsageRow) : Prop :=
  (∃ entry ∈ s.retracted, entry.1.ownsRaw row ∧ entry.2 = row.dedupKey) ∨
    ∃ run ∈ s.retractions, run.request.ownsRaw row ∧ row.dedupKey ∈ run.pending ∧
      run.Passed row.dedupKey

/-- A flush inserts no event that was retracted after its read, unless the retraction is still to
delete it from ClickHouse. -/
def InsertsInTime (s : RetractionSystem) : RetractionAction → Prop
  | .flush action => ∀ rows, s.ingest.Inserts action rows → ∀ row ∈ rows, ¬ s.Retracted row
  | _ => True

structure RetractionKept (s : RetractionSystem) : Prop where
  keys : ∀ run ∈ s.retractions, ∀ key ∈ run.pending, key ∈ run.request.keys
  outbox : ∀ row ∈ s.ingest.outboxRows,
    (∀ entry ∈ s.retracted, entry.1.ownsOutbox row → entry.2 ≠ row.dedupKey) ∧
      ∀ run ∈ s.retractions, run.request.ownsOutbox row → row.dedupKey ∉ run.pending
  raw : ∀ row ∈ s.ingest.raw, ¬ s.Retracted row

theorem RetractionKept.initial (now : Int) : RetractionKept (.initial now) where
  keys := by simp [RetractionSystem.initial]
  outbox := by simp [RetractionSystem.initial, Ingest.outboxRows, Ingest.initial]
  raw := by simp [RetractionSystem.initial, Ingest.initial]

theorem RetractionSystem.Retracted.mono {s after : RetractionSystem} {row : UsageRow}
    (retracted : after.Retracted row) (entries : ∀ entry ∈ after.retracted, entry ∈ s.retracted)
    (runs : ∀ run ∈ after.retractions, run.request.ownsRaw row → row.dedupKey ∈ run.pending →
      run.Passed row.dedupKey → s.Retracted row) : s.Retracted row := by
  rcases retracted with ⟨entry, among, own⟩ | ⟨run, among, own, pending, passed⟩
  · exact Or.inl ⟨entry, entries entry among, own⟩
  · exact runs run among own pending passed

theorem RetractionKept.enqueue {s after : RetractionSystem} {events : List OutboxRow}
    (kept : RetractionKept s) (moved : nextRetraction s (.enqueue events) = some after) :
    RetractionKept after := by
  cases moved
  refine ⟨fun run among key pending => ?_, fun row among => ⟨?_, ?_⟩, fun row among retracted => ?_⟩
  · obtain ⟨before, beforeAmong, rfl⟩ := List.mem_map.mp among
    exact kept.keys before beforeAmong key (List.mem_filter.mp pending).1
  · intro entry entryAmong own same
    obtain ⟨old, known⟩ := List.mem_filter.mp entryAmong
    simp only [outboxRows_enqueue, List.mem_append] at among
    rcases among with before | fresh
    · exact (kept.outbox row before).1 entry old own same
    · exact of_decide_eq_true known (same ▸ List.mem_map_of_mem fresh)
  · intro run runAmong own pending
    obtain ⟨before, beforeAmong, rfl⟩ := List.mem_map.mp runAmong
    obtain ⟨old, known⟩ := List.mem_filter.mp pending
    simp only [outboxRows_enqueue, List.mem_append] at among
    rcases among with earlier | fresh
    · exact (kept.outbox row earlier).2 before beforeAmong own old
    · exact of_decide_eq_true known (List.mem_map_of_mem fresh)
  · simp only [raw_enqueue] at among
    refine kept.raw row among (retracted.mono (fun entry old => (List.mem_filter.mp old).1) ?_)
    intro run runAmong own pending passed
    obtain ⟨before, beforeAmong, rfl⟩ := List.mem_map.mp runAmong
    exact Or.inr ⟨before, beforeAmong, own, (List.mem_filter.mp pending).1, passed⟩

theorem RetractionKept.flush {s after : RetractionSystem} {action : FlushAction}
    (kept : RetractionKept s) (timely : InsertsInTime s (.flush action))
    (moved : nextRetraction s (.flush action) = some after) : RetractionKept after := by
  obtain ⟨ingest, stepped, rfl⟩ := Option.map_eq_some_iff.mp moved
  have step := Ingest.next_step stepped
  refine ⟨kept.keys, fun row among => ?_, fun row among => ?_⟩
  · exact kept.outbox row (step.outbox ▸ among)
  · rcases step.raw with same | ⟨rows, inserts, replaced⟩
    · exact kept.raw row (same ▸ among)
    · rw [replaced] at among
      rcases mem_replaceRows UsageRow.dedupKey among with old | new
      · exact kept.raw row old
      · exact timely rows inserts row new

theorem RetractionKept.start {s after : RetractionSystem}
    {request : UsageEventReconciliationRequest} (kept : RetractionKept s)
    (moved : nextRetraction s (.start request) = some after) : RetractionKept after := by
  simp only [nextRetraction] at moved
  split at moved
  · cases moved
  · cases moved
    have added : ∀ run ∈ s.retractions ++ [⟨request, [], [], .started, []⟩],
        run ∈ s.retractions ∨ run.pending = [] := by
      intro run among
      rcases List.mem_append.mp among with old | new
      · exact Or.inl old
      · rw [List.mem_singleton.mp new]
        exact Or.inr rfl
    refine ⟨fun run among key pending => ?_, fun row among => ⟨(kept.outbox row among).1, ?_⟩,
      fun row among retracted => ?_⟩
    · rcases added run among with old | none
      · exact kept.keys run old key pending
      · rw [none] at pending
        cases pending
    · intro run runAmong own pending
      rcases added run runAmong with old | none
      · exact (kept.outbox row among).2 run old own pending
      · rw [none] at pending
        cases pending
    · refine kept.raw row among (retracted.mono (fun entry old => old) ?_)
      intro run runAmong own pending passed
      rcases added run runAmong with old | none
      · exact Or.inr ⟨run, old, own, pending, passed⟩
      · rw [none] at pending
        cases pending

theorem flatMap_rows_without (batches : List Batch) (drops : OutboxRow → Bool) :
    (batches.map (Batch.without drops)).flatMap Batch.rows
      = (batches.flatMap Batch.rows).filter fun row => !drops row := by
  induction batches with
  | nil => rfl
  | cons head rest ih => simp [Batch.without, ih]

theorem RetractionKept.clearOutbox {s after : RetractionSystem} {index : Nat}
    (kept : RetractionKept s) (moved : nextRetraction s (.clearOutbox index) = some after) :
    RetractionKept after := by
  simp only [nextRetraction] at moved
  split at moved
  · next request _ candidates _ here =>
    cases moved
    refine ⟨fun run among key pending => ?_, fun row among => ?_, fun row among retracted => ?_⟩
    · rcases List.mem_or_eq_of_mem_set among with old | rfl
      · exact kept.keys run old key pending
      · exact pending
    · simp only [Ingest.outboxRows, flatMap_rows_without] at among
      obtain ⟨old, spared⟩ := List.mem_filter.mp among
      refine ⟨(kept.outbox row old).1, fun run runAmong own pending => ?_⟩
      rcases List.mem_or_eq_of_mem_set runAmong with before | rfl
      · exact (kept.outbox row old).2 run before own pending
      · simp [UsageEventReconciliationRequest.deletes, own, pending] at spared
    · refine kept.raw row among (retracted.mono (fun entry old => old) ?_)
      intro run runAmong own pending passed
      rcases List.mem_or_eq_of_mem_set runAmong with old | rfl
      · exact Or.inr ⟨run, old, own, pending, passed⟩
      · simp [RetractionRun.Passed] at passed
  · cases moved

theorem RetractionKept.advance {s : RetractionSystem} {index : Nat} {run : RetractionRun}
    (kept : RetractionKept s) (here : s.retractions[index]? = some run) (later : RetractionRun)
    (request : later.request = run.request) (pending : later.pending = run.pending)
    (dirty : List Int) {raw : List UsageRow}
    (passed : ∀ row ∈ raw, row ∈ s.ingest.raw ∧ (run.request.ownsRaw row →
      row.dedupKey ∈ run.pending → later.Passed row.dedupKey → run.Passed row.dedupKey)) :
    RetractionKept { s with
      ingest := { s.ingest with dirty, raw }
      retractions := s.retractions.set index later } := by
  have own := List.mem_of_getElem? here
  refine ⟨fun other among key isPending => ?_,
    fun row among => ⟨(kept.outbox row among).1, fun other otherAmong owned isPending => ?_⟩,
    fun row among retracted => ?_⟩
  · rcases List.mem_or_eq_of_mem_set among with old | rfl
    · exact kept.keys other old key isPending
    · rw [request]
      exact kept.keys run own key (pending ▸ isPending)
  · rcases List.mem_or_eq_of_mem_set otherAmong with old | rfl
    · exact (kept.outbox row among).2 other old owned isPending
    · exact (kept.outbox row among).2 run own (request ▸ owned) (pending ▸ isPending)
  · obtain ⟨among, passed⟩ := passed row among
    refine kept.raw row among (retracted.mono (fun entry old => old) ?_)
    intro other otherAmong owned isPending isPassed
    rcases List.mem_or_eq_of_mem_set otherAmong with old | rfl
    · exact Or.inr ⟨other, old, owned, isPending, isPassed⟩
    · exact Or.inr ⟨run, own, request ▸ owned, pending ▸ isPending,
        passed (request ▸ owned) (pending ▸ isPending) isPassed⟩

/-- A retraction returns: what it has left to delete is no raw event. -/
theorem RetractionKept.leave {s : RetractionSystem} {index : Nat} {run : RetractionRun}
    (kept : RetractionKept s) (here : s.retractions[index]? = some run) (dirty : List Int)
    (gone : ∀ row ∈ s.ingest.raw, run.request.ownsRaw row → row.dedupKey ∉ run.pending) :
    RetractionKept
      { ingest := { s.ingest with dirty }
        retractions := s.retractions.eraseIdx index
        retracted := run.entries ++ s.retracted } := by
  have own := List.mem_of_getElem? here
  refine ⟨fun run among => kept.keys run (List.mem_of_mem_eraseIdx among),
    fun row among => ⟨fun entry entryAmong owned same => ?_, fun run runAmong =>
      (kept.outbox row among).2 run (List.mem_of_mem_eraseIdx runAmong)⟩,
    fun row among retracted => ?_⟩
  · rcases List.mem_append.mp entryAmong with new | old
    · obtain ⟨key, isPending, rfl⟩ := List.mem_map.mp new
      exact (kept.outbox row among).2 _ own owned (same ▸ isPending)
    · exact (kept.outbox row among).1 entry old owned same
  · rcases retracted with ⟨entry, entryAmong, owned, same⟩ | ⟨run, runAmong, rest⟩
    · rcases List.mem_append.mp entryAmong with new | old
      · obtain ⟨key, isPending, rfl⟩ := List.mem_map.mp new
        exact gone row among owned (same ▸ isPending)
      · exact kept.raw row among (Or.inl ⟨entry, old, owned, same⟩)
    · exact kept.raw row among (Or.inr ⟨run, List.mem_of_mem_eraseIdx runAmong, rest⟩)

theorem RetractionKept.selectRaw {s after : RetractionSystem} {index : Nat}
    (kept : RetractionKept s) (moved : nextRetraction s (.selectRaw index) = some after) :
    RetractionKept after := by
  simp only [nextRetraction] at moved
  split at moved
  · next request outboxRows _ pending here =>
    -- A raw event that the retraction is to delete is a candidate.
    have found : ∀ row ∈ s.ingest.raw, request.ownsRaw row → row.dedupKey ∈ pending →
        row.candidate ∈ candidateByKey outboxRows ((s.ingest.raw.filter fun row =>
          request.ownsRaw row && decide (row.dedupKey ∈ request.keys)).map UsageRow.candidate) := by
      intro row among owned isPending
      refine mem_candidateByKey_of_raw (List.mem_map_of_mem (List.mem_filter.mpr ⟨among, ?_⟩))
      simp [owned, kept.keys _ (List.mem_of_getElem? here) _ isPending]
    split at moved
    · next none =>
      cases moved
      refine kept.leave here s.ingest.dirty fun row among owned isPending => ?_
      have candidate := found row among owned isPending
      rw [none] at candidate
      cases candidate
    · cases moved
      refine kept.advance here ⟨request, outboxRows, _, .selected, pending⟩ rfl rfl s.ingest.dirty
        fun row among => ⟨among, fun owned isPending passed => ?_⟩
      rcases passed with deleted | ⟨_, absent⟩
      · cases deleted
      · exact absurd (List.mem_map_of_mem (found row among owned isPending)) absent
  · cases moved

theorem RetractionKept.deleteRaw {s after : RetractionSystem} {index : Nat}
    (kept : RetractionKept s) (moved : nextRetraction s (.deleteRaw index) = some after) :
    RetractionKept after := by
  simp only [nextRetraction] at moved
  split at moved
  · next request outboxRows candidates pending here =>
    cases moved
    refine kept.advance here ⟨request, outboxRows, candidates, .deleted, pending⟩ rfl rfl
      s.ingest.dirty fun row among => ?_
    obtain ⟨old, spared⟩ := List.mem_filter.mp among
    -- A pending key that the run would not delete was passed before.
    refine ⟨old, fun owned _ _ => Or.inr ⟨Or.inr rfl, fun candidate => ?_⟩⟩
    have isCandidate : row.dedupKey ∈ RetractionRun.candidateKeys
        ⟨request, outboxRows, candidates, .deleted, pending⟩ := candidate
    simp only [isCandidate, decide_true, Bool.and_true] at spared
    simp only [owned] at spared
    cases spared
  · cases moved

theorem RetractionKept.finish {s after : RetractionSystem} {index : Nat}
    (kept : RetractionKept s) (moved : nextRetraction s (.finish index) = some after) :
    RetractionKept after := by
  simp only [nextRetraction] at moved
  split at moved
  · next request outboxRows candidates pending here =>
    cases moved
    exact kept.leave here _ fun row among owned isPending => kept.raw row among
      (Or.inr ⟨_, List.mem_of_getElem? here, owned, isPending, Or.inl rfl⟩)
  · cases moved

theorem RetractionKept.step {s after : RetractionSystem} {action : RetractionAction}
    (kept : RetractionKept s) (timely : InsertsInTime s action)
    (moved : nextRetraction s action = some after) : RetractionKept after := by
  cases action with
  | enqueue events => exact kept.enqueue moved
  | flush action => exact kept.flush timely moved
  | start request => exact kept.start moved
  | clearOutbox index => exact kept.clearOutbox moved
  | selectRaw index => exact kept.selectRaw moved
  | markFirst index =>
    simp only [nextRetraction] at moved
    split at moved
    · next request outboxRows candidates pending here =>
      cases moved
      refine kept.advance here ⟨request, outboxRows, candidates, .marked, pending⟩ rfl rfl _
        fun row among => ⟨among, fun _ _ passed => ?_⟩
      rcases passed with deleted | ⟨_, absent⟩
      · cases deleted
      · exact Or.inr ⟨Or.inl rfl, absent⟩
    · cases moved
  | deleteRaw index => exact kept.deleteRaw moved
  | finish index => exact kept.finish moved
  | crash index =>
    simp only [nextRetraction] at moved
    split at moved
    · cases moved
      refine ⟨fun run among => kept.keys run (List.mem_of_mem_eraseIdx among),
        fun row among => ⟨(kept.outbox row among).1, fun run runAmong =>
          (kept.outbox row among).2 run (List.mem_of_mem_eraseIdx runAmong)⟩,
        fun row among retracted => kept.raw row among (retracted.mono (fun entry old => old) ?_)⟩
      intro run runAmong own pending passed
      exact Or.inr ⟨run, List.mem_of_mem_eraseIdx runAmong, own, pending, passed⟩
    · cases moved

/-! ### Every run -/

/-- No event that a returned retraction was to delete, and that was not ingested again, is in the
outbox or among the raw events. -/
def RetractionSystem.Final (s : RetractionSystem) : Prop :=
  ∀ entry ∈ s.retracted,
    (∀ row ∈ s.ingest.raw, entry.1.ownsRaw row → row.dedupKey ≠ entry.2) ∧
      ∀ row ∈ s.ingest.outboxRows, entry.1.ownsOutbox row → row.dedupKey ≠ entry.2

/-- **Retraction is final** in a run whose inserts come in time. -/
theorem retraction_is_final (now : Int) {s : RetractionSystem}
    (reached : ReachableBy nextRetraction InsertsInTime (.initial now) s) : s.Final := by
  have kept : RetractionKept s := ReachableBy.invariant RetractionKept (.initial now)
    (fun _ _ _ holding timely moved => holding.step timely moved) reached
  refine fun entry among => ⟨fun row rowAmong own same => ?_, fun row rowAmong own same => ?_⟩
  · exact kept.raw row rowAmong (Or.inl ⟨entry, among, own, same.symm⟩)
  · exact (kept.outbox row rowAmong).1 entry among own same.symm

/-! ### Runs -/

/-- An event of user `u`. -/
def codexEventOf (key : String) : OutboxRow where
  dedupKey := key
  providerKey := "codex"
  userId := some "u"
  teamId := none
  sessionId := none
  model := some "gpt-5"
  ts := 0
  inputTokens := 10
  outputTokens := 1
  cacheReadTokens := 0
  cacheCreationTokens := 0
  costUsd := 500
  logAdapter := some "codex"
  host := none
  pricingRevisionId := some "r1"
  costStatus := .priced
  costCalculationVersion := none
  cacheCreation1hTokens := none
  isFast := none

def retractionOf (key : String) : List RetractionAction :=
  [.start ⟨"u", "codex", "codex", [key]⟩, .clearOutbox 0, .selectRaw 0, .markFirst 0, .deleteRaw 0,
    .finish 0]

/-- The event is inserted by its flush, and then retracted. -/
theorem retraction_is_final_flushedRun :
    ∃ s, ReachableBy nextRetraction InsertsInTime (.initial 0) s ∧
      s.retracted = [(⟨"u", "codex", "codex", ["a"]⟩, "a")] ∧ s.ingest.raw = [] ∧ s.Final := by
  have read : ReachableBy nextRetraction InsertsInTime (.initial 0) _ :=
    (ReachableBy.step (.enqueue [codexEventOf "a"]) .start (by simp only [InsertsInTime]) rfl
      |>.step (.flush (.claim 0)) (by rintro _ ⟨_, _, none, _⟩; cases none) rfl
      |>.step (.flush (.read 0)) (by rintro _ ⟨_, _, none, _⟩; cases none) rfl)
  have inserted := read.step (.flush (.insert 0 false)) (by
    rintro rows - row - (⟨entry, among, _⟩ | ⟨run, among, _⟩)
    · cases among
    · cases among) rfl
  have delivered := inserted.step (.flush (.deliver 0)) (by rintro _ ⟨_, _, none, _⟩; cases none) rfl
  have reached := delivered.trans (.of_run (retractionOf "a")
    (.of_forall (by simp [retractionOf, InsertsInTime]) _) rfl)
  exact ⟨_, reached, rfl, rfl, retraction_is_final 0 reached⟩

/-- **A flush resurrects an event.** It reads the event before the retraction deletes it from the
outbox, and inserts it when the retraction has returned. -/
theorem flush_resurrects_event : ¬ ∀ (now : Int) (s : RetractionSystem),
    Reachable nextRetraction (.initial now) s → s.ingest.flushes = [] → s.Final := by
  intro claimed
  have final := claimed 0 _ (Reachable.of_run ([.enqueue [codexEventOf "a"], .flush (.claim 0),
    .flush (.read 0)] ++ retractionOf "a" ++
    [.flush (.insert 0 false), .flush (.deliver 0)]) rfl) rfl
  exact (final (⟨"u", "codex", "codex", ["a"]⟩, "a") (by decide)).1
    (clickHouseUsageRow (codexEventOf "a")) (by decide) (by decide) rfl

end Toard.Storage
