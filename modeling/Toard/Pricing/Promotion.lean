/-
**Pricing history loses no interval.**

Over every run of a job, whatever the batches, skips, waits and restarts:

* **`history_keeps_prices`**: when the job reaches promotion every row is closed within the range,
  promotion inserts each, and the price in force is that of the saved snapshots.
-/

import Mathlib.Data.List.Pairwise
import Toard.Library.Transition
import Toard.Pricing.Timeline

namespace Toard.Pricing

open Toard.Library (Reachable run ReachableBy)

/-! ### The table records the saved snapshots -/

def Tracked (job : JobInput) (saved : List PricingHistorySnapshot) (rows : List CandidateRow) :
    Prop :=
  (∀ model ∈ job.models, ∃ track : Track, track.Records job model saved ∧
    rowsOf model rows = track.rows) ∧
  ∀ model ∉ job.models, rowsOf model rows = []

def Finished (job : JobInput) (saved : List PricingHistorySnapshot) (rows : List CandidateRow) :
    Prop :=
  (∀ model ∈ job.models, ∃ track : Track, track.Records job model saved ∧
    rowsOf model rows = track.finish job.rangeTo) ∧
  ∀ model ∉ job.models, rowsOf model rows = []

theorem tracked_nil (job : JobInput) : Tracked job [] [] :=
  ⟨fun model _ => ⟨.empty, Track.records_empty job model, rfl⟩, fun _ _ => rfl⟩

section Batch

variable {job : JobInput} {model : String} {saved snapshots : List PricingHistorySnapshot}

/-- **A batch**, from a track that records what was saved before it. -/
theorem foldl_applySnapshot (among : model ∈ job.models) {work : SnapshotWork} {track : Track}
    (follows : Follows model work track) (records : track.Records job model saved)
    (chronological : Chronological (saved ++ snapshots))
    (kept : KeepsBaseline job (saved ++ snapshots)) :
    Follows model (snapshots.foldl (applySnapshot job) work)
        (snapshots.foldl (Track.apply job model) track) ∧
      (snapshots.foldl (Track.apply job model) track).Records job model (saved ++ snapshots) := by
  induction snapshots generalizing saved work track with
  | nil =>
    rw [List.append_nil]
    exact ⟨follows, records⟩
  | cons snapshot rest ih =>
    have later : ∀ other ∈ saved, other.ref.committedAt ≤ snapshot.ref.committedAt :=
      fun other earlier => (List.pairwise_append.mp chronological).2.2 other earlier snapshot
        List.mem_cons_self
    have states : ∀ other ∈ saved, snapshot.ref.committedAt ≤ job.rangeFrom →
        (other.price model).isSome → (snapshot.price model).isSome :=
      fun other earlier => (List.pairwise_append.mp (kept model among)).2.2 other earlier snapshot
        List.mem_cons_self
    have onTime := clock_le_boundary job later
    rw [List.append_cons] at chronological kept ⊢
    exact ih (applySnapshot_follows among follows records.sound onTime)
      (records.apply later states) chronological kept

theorem foldl_applySnapshot_other (snapshots : List PricingHistorySnapshot)
    (absent : model ∉ job.models) {work : SnapshotWork}
    (follows : Follows model work .empty) :
    Follows model (snapshots.foldl (applySnapshot job) work) .empty := by
  induction snapshots generalizing work with
  | nil => exact follows
  | cons snapshot rest ih => exact ih (applySnapshot_other absent follows)

/-- **A transaction of `saveSnapshots` records its batch.** -/
theorem Tracked.batch {rows : List CandidateRow} (tracked : Tracked job saved rows)
    (chronological : Chronological (saved ++ snapshots))
    (kept : KeepsBaseline job (saved ++ snapshots)) :
    Tracked job (saved ++ snapshots)
      (snapshots.foldl (applySnapshot job) (PricingHistory.load rows)).candidates := by
  constructor
  · intro model among
    obtain ⟨track, records, same⟩ := tracked.1 model among
    obtain ⟨follows, after⟩ := foldl_applySnapshot among (load_follows records.sound same)
      records.reload chronological kept
    exact ⟨_, after, follows.rows⟩
  · intro model absent
    have none_ := tracked.2 model absent
    have follows := foldl_applySnapshot_other snapshots absent
      (load_follows (Track.sound_empty job model) none_)
    exact follows.rows

theorem Tracked.finish {rows : List CandidateRow} (tracked : Tracked job saved rows) :
    Finished job saved (PricingHistory.finishRows job.rangeTo rows) := by
  constructor
  · intro model among
    obtain ⟨track, records, same⟩ := tracked.1 model among
    exact ⟨track, records, finishRows_follows records.sound same⟩
  · intro model absent
    exact finishRows_follows (Track.sound_empty job model) (tracked.2 model absent)

end Batch

/-! ### What the finished rows say -/

theorem Track.Sound.finish_eq {job : JobInput} {model : String} {now : Int} {track : Track}
    (sound : track.Sound job model now) : track.finish job.rangeTo = track.closedAt job.rangeTo := by
  unfold Track.finish Track.closedAt
  cases current : track.current with
  | none => rfl
  | some pair =>
    simp only [gt_iff_lt, (sound.current pair.1 pair.2 current).started]

section Finished

variable {job : JobInput} {saved : List PricingHistorySnapshot} {rows : List CandidateRow}

theorem clock_le_rangeTo (within : ∀ snapshot ∈ saved, snapshot.ref.committedAt ≤ job.rangeTo) :
    clock job saved ≤ job.rangeTo := by
  have := job.range
  unfold clock
  split
  case h_1 => omega
  case h_2 last found =>
    have := within last (List.mem_of_getLast? found)
    unfold JobInput.boundary
    split <;> omega

theorem Finished.model (finished : Finished job saved rows) {row : CandidateRow}
    (among : row ∈ rows) : row.modelId ∈ job.models ∧ row ∈ rowsOf row.modelId rows := by
  have own : row ∈ rowsOf row.modelId rows := List.mem_filter.mpr ⟨among, decide_eq_true rfl⟩
  refine ⟨?_, own⟩
  by_contra absent
  rw [finished.2 row.modelId absent] at own
  cases own

/-- **Every row is closed, within the range.** -/
theorem Finished.closed (finished : Finished job saved rows)
    (within : ∀ snapshot ∈ saved, snapshot.ref.committedAt ≤ job.rangeTo) :
    ∀ row ∈ rows, ∃ stop, row.validUntil = some stop ∧ row.effectiveAt < stop ∧
      stop ≤ job.rangeTo := by
  intro row among
  obtain ⟨known, own⟩ := finished.model among
  obtain ⟨track, records, same⟩ := finished.1 row.modelId known
  rw [same, records.sound.finish_eq] at own
  exact (records.sound.ended_closedAt (clock_le_rangeTo within) row own).ends

theorem Finished.disjoint (finished : Finished job saved rows) (model : String) :
    (rowsOf model rows).Pairwise fun earlier later =>
      ∀ stop, earlier.validUntil = some stop → stop ≤ later.effectiveAt := by
  by_cases known : model ∈ job.models
  · obtain ⟨track, records, same⟩ := finished.1 model known
    rw [same, records.sound.finish_eq]
    exact records.sound.disjoint_closedAt job.rangeTo
  · rw [finished.2 model known]
    exact .nil

theorem Finished.covers_unique (finished : Finished job saved rows)
    (within : ∀ snapshot ∈ saved, snapshot.ref.committedAt ≤ job.rangeTo) {row other : CandidateRow}
    (among : row ∈ rows) (also : other ∈ rows) (model : row.modelId = other.modelId) {instant : Int}
    (covers : row.Covers instant) (covers' : other.Covers instant) : row = other := by
  by_contra differs
  have apart : (rowsOf other.modelId rows).Pairwise fun a b =>
      ¬ (a.Covers instant ∧ b.Covers instant) := by
    refine (finished.disjoint other.modelId).imp_of_mem fun {a b} inRows _ before both => ?_
    obtain ⟨stop, ends, -⟩ := finished.closed within a (List.mem_filter.mp inRows).1
    have := before stop ends
    have := both.1.2 stop ends
    have := both.2.1
    omega
  have symmetric : Std.Symm fun a b : CandidateRow => ¬ (a.Covers instant ∧ b.Covers instant) :=
    ⟨fun _ _ not both => not both.symm⟩
  exact apart.forall (List.mem_filter.mpr ⟨among, decide_eq_true model⟩)
    (List.mem_filter.mpr ⟨also, decide_eq_true rfl⟩) differs ⟨covers, covers'⟩

theorem Finished.key_unique (finished : Finished job saved rows)
    (within : ∀ snapshot ∈ saved, snapshot.ref.committedAt ≤ job.rangeTo) {row other : CandidateRow}
    (among : row ∈ rows) (also : other ∈ rows) (model : row.modelId = other.modelId)
    (start : row.effectiveAt = other.effectiveAt) : row = other := by
  have covers : ∀ row ∈ rows, row.Covers row.effectiveAt := by
    intro row among
    obtain ⟨stop, ends, nonempty, -⟩ := finished.closed within row among
    exact ⟨le_refl _, fun stop' ends' => by rwa [← Option.some_inj.mp (ends.symm.trans ends')]⟩
  exact finished.covers_unique within among also model (covers row among) (start ▸ covers other also)

/-- **The rows have the price in force.** -/
theorem Finished.quotes (finished : Finished job saved rows) {model : String}
    (known : model ∈ job.models) {instant : Int} (lower : job.rangeFrom ≤ instant)
    (upper : instant < job.rangeTo) (quote : Quote) :
    (∃ row ∈ rows, row.modelId = model ∧ row.Covers instant ∧ row.quote = quote) ↔
      quoteInForce saved model instant = some quote := by
  obtain ⟨track, records, same⟩ := finished.1 model known
  rw [← records.quotes instant lower upper quote, ← records.sound.covers_closedAt upper,
    ← records.sound.finish_eq, ← same]
  unfold rowsOf
  simp only [List.mem_filter, decide_eq_true_eq, and_assoc]

end Finished

/-! ### Promotion -/

abbrev PricingRevision.SameKey (left right : PricingRevision) : Prop :=
  left.modelId = right.modelId ∧ left.effectiveAt = right.effectiveAt ∧ left.source = right.source

section Insert

open PricingHistory (insertRevision)

variable {revisions news : List PricingRevision} {new : PricingRevision}

theorem insertRevision_cases (revisions : List PricingRevision) (new : PricingRevision) :
    ((∃ revision ∈ revisions, revision.SameKey new) ∧ insertRevision revisions new = revisions) ∨
    ((∀ revision ∈ revisions, ¬ revision.SameKey new) ∧
      insertRevision revisions new = revisions ++ [new]) := by
  unfold insertRevision
  by_cases conflict : (revisions.any fun revision => revision.modelId = new.modelId ∧
      revision.effectiveAt = new.effectiveAt ∧ revision.source = new.source) = true
  · obtain ⟨revision, among, same⟩ := List.any_eq_true.mp conflict
    exact .inl ⟨⟨revision, among, of_decide_eq_true same⟩, if_pos conflict⟩
  · refine .inr ⟨fun revision among same => conflict ?_, if_neg conflict⟩
    exact List.any_eq_true.mpr ⟨revision, among, decide_eq_true same⟩

theorem subset_insertRevision (revisions : List PricingRevision) (new : PricingRevision) :
    revisions ⊆ insertRevision revisions new := by
  rcases insertRevision_cases revisions new with ⟨-, same⟩ | ⟨-, appended⟩
  · rw [same]
    exact List.Subset.refl revisions
  · rw [appended]
    exact List.subset_append_left revisions [new]

theorem subset_insertRevisions (news revisions : List PricingRevision) :
    revisions ⊆ news.foldl insertRevision revisions := by
  induction news generalizing revisions with
  | nil => exact List.Subset.refl revisions
  | cons head rest ih =>
    exact List.Subset.trans (subset_insertRevision revisions head) (ih (insertRevision revisions head))

theorem of_mem_insertRevisions {revision : PricingRevision}
    (among : revision ∈ news.foldl insertRevision revisions) :
    revision ∈ revisions ∨ revision ∈ news := by
  induction news generalizing revisions with
  | nil => exact .inl among
  | cons head rest ih =>
    rcases ih among with before | later
    · rcases insertRevision_cases revisions head with ⟨-, same⟩ | ⟨-, appended⟩
      · rw [same] at before
        exact .inl before
      · rw [appended] at before
        rcases List.mem_append.mp before with old | new
        · exact .inl old
        · exact .inr (List.mem_cons.mpr (.inl (List.mem_singleton.mp new)))
    · exact .inr (List.mem_cons_of_mem _ later)

/-- **Every key gets in.** -/
theorem key_mem_insertRevisions (revisions : List PricingRevision) (among : new ∈ news) :
    ∃ revision ∈ news.foldl insertRevision revisions, revision.SameKey new := by
  induction news generalizing revisions with
  | nil => cases among
  | cons head rest ih =>
    rcases List.mem_cons.mp among with rfl | later
    · have present : ∃ revision ∈ insertRevision revisions new, revision.SameKey new := by
        rcases insertRevision_cases revisions new with ⟨⟨revision, old, key⟩, same⟩ | ⟨-, appended⟩
        · exact ⟨revision, same.symm ▸ old, key⟩
        · refine ⟨new, ?_, rfl, rfl, rfl⟩
          rw [appended]
          exact List.mem_append_right _ (List.mem_singleton.mpr rfl)
      obtain ⟨revision, inserted, key⟩ := present
      exact ⟨revision, subset_insertRevisions rest _ inserted, key⟩
    · exact ih (insertRevision revisions head) later

theorem mem_insertRevisions (among : new ∈ news)
    (fresh : ∀ revision ∈ revisions, ¬ revision.SameKey new)
    (alone : ∀ other ∈ news, other.SameKey new → other = new) :
    new ∈ news.foldl insertRevision revisions := by
  obtain ⟨revision, inserted, key⟩ := key_mem_insertRevisions revisions among
  rcases of_mem_insertRevisions inserted with old | also
  · exact absurd key (fresh revision old)
  · rwa [alone revision also key] at inserted

end Insert

def PricingRevision.covers (revision : PricingRevision) (instant : Int) : Bool :=
  revision.effectiveAt ≤ instant && revision.validUntil.all fun stop => instant < stop

/-- The choice of `explainCostAt` among the history revisions of a model: the last one to start. -/
def selectRevision (revisions : List PricingRevision) (model : String) (instant : Int) :
    Option PricingRevision :=
  (revisions.filter fun revision =>
      revision.modelId = model ∧ revision.source = HISTORY_SOURCE).foldl
    (fun selected revision =>
      if revision.covers instant &&
          selected.all fun chosen => revision.effectiveAt ≥ chosen.effectiveAt then
        some revision
      else selected) none

def PricingRevision.quote (revision : PricingRevision) : Quote :=
  ⟨revision.sourceModelId.getD revision.modelId, revision.prices, revision.pricingDetails.parse⟩

def historyQuote (revisions : List PricingRevision) (model : String) (instant : Int) :
    Option Quote :=
  (selectRevision revisions model instant).map PricingRevision.quote

theorem selectRevision_eq {revisions : List PricingRevision} {model : String} {instant : Int}
    (choice : Option PricingRevision)
    (only : ∀ revision, choice = some revision ↔ revision ∈ revisions ∧
      revision.modelId = model ∧ revision.source = HISTORY_SOURCE ∧
      revision.covers instant = true) :
    selectRevision revisions model instant = choice := by
  unfold selectRevision
  have own : ∀ revision, choice = some revision ↔ revision ∈ revisions.filter (fun revision =>
      revision.modelId = model ∧ revision.source = HISTORY_SOURCE) ∧
      revision.covers instant = true := by
    intro revision
    rw [only, List.mem_filter, decide_eq_true_eq]
    tauto
  clear only
  generalize (revisions.filter fun revision =>
    revision.modelId = model ∧ revision.source = HISTORY_SOURCE) = candidates at own
  -- Once chosen, the one revision in force stays chosen; until then nothing is.
  have loop : ∀ (rest : List PricingRevision) (selected : Option PricingRevision),
      (∀ revision ∈ rest, revision.covers instant = true → choice = some revision) →
      (selected = none ∨ selected = choice) →
      ((∃ revision ∈ rest, revision.covers instant = true) ∨ selected = choice) →
      rest.foldl (fun selected revision =>
        if revision.covers instant &&
            selected.all fun chosen => revision.effectiveAt ≥ chosen.effectiveAt then
          some revision
        else selected) selected = choice := by
    intro rest
    induction rest with
    | nil =>
      intro selected _ _ present
      exact present.resolve_left fun ⟨_, among, _⟩ => (nomatch among)
    | cons head rest ih =>
      intro selected unique sofar present
      rw [List.foldl_cons]
      have others := fun revision among => unique revision (List.mem_cons_of_mem _ among)
      cases inForce : head.covers instant with
      | false =>
        rw [Bool.false_and, if_neg Bool.false_ne_true]
        refine ih selected others sofar (present.imp_left ?_)
        rintro ⟨revision, among, covers⟩
        rcases List.mem_cons.mp among with rfl | later
        · rw [inForce] at covers
          cases covers
        · exact ⟨revision, later, covers⟩
      | true =>
        have chosen := unique head List.mem_cons_self inForce
        have again : (selected.all fun chosen => head.effectiveAt ≥ chosen.effectiveAt) = true := by
          rcases sofar with rfl | rfl
          · rfl
          · rw [chosen]
            exact decide_eq_true (le_refl _)
        rw [again, Bool.and_true, if_pos rfl]
        exact ih (some head) others (.inr chosen.symm) (.inr chosen.symm)
  refine loop candidates none (fun revision among covers => (own revision).mpr ⟨among, covers⟩)
    (.inl rfl) ?_
  cases choice with
  | none => exact .inr rfl
  | some revision =>
    obtain ⟨among, covers⟩ := (own revision).mp rfl
    exact .inl ⟨revision, among, covers⟩

/-! ### What the calls do -/

section Calls

variable {db after : PricingHistory}

theorem saveSnapshots_ok {snapshots : List PricingHistorySnapshot}
    (saved : db.saveSnapshots snapshots = .ok after) :
    db.job.state = .fetching ∧ after.job.toJobInput = db.job.toJobInput ∧
      after.revisions = db.revisions ∧
      ((after.job.state = .promoting ∧ after.candidates = PricingHistory.finishRows db.job.rangeTo
          (snapshots.foldl (applySnapshot db.job.toJobInput)
            (PricingHistory.load db.candidates)).candidates) ∨
        (after.job.state = .fetching ∧ after.candidates
          = (snapshots.foldl (applySnapshot db.job.toJobInput)
            (PricingHistory.load db.candidates)).candidates)) := by
  simp only [PricingHistory.saveSnapshots] at saved
  split at saved
  case isTrue => cases saved
  case isFalse fetching =>
    split at saved
    case isTrue => cases saved
    case isFalse =>
      cases saved
      refine ⟨not_not.mp fetching, rfl, rfl, ?_⟩
      by_cases finished : db.job.nextCommitIndex + snapshots.length = db.job.commitRefs.length
      · exact .inl ⟨if_pos finished, if_pos finished⟩
      · exact .inr ⟨if_neg finished, if_neg finished⟩

theorem skipSnapshot_ok {ref : PricingHistoryCommitRef} (skipped : db.skipSnapshot ref = .ok after) :
    db.job.state = .fetching ∧ after.job.toJobInput = db.job.toJobInput ∧
      after.revisions = db.revisions ∧ after.candidates = db.candidates ∧
      (after.job.state = .promoting ∨ after.job.state = .fetching) := by
  simp only [PricingHistory.skipSnapshot] at skipped
  split at skipped
  case isTrue => cases skipped
  case isFalse fetching =>
    split at skipped
    case isTrue => cases skipped
    case isFalse =>
      cases skipped
      refine ⟨not_not.mp fetching, rfl, rfl, rfl, ?_⟩
      exact ite_eq_or_eq _ _ _

theorem waitForSource_ok {nextAttemptAt : Int} {rateLimitResetAt : Option Int} {error : String}
    (waits : db.waitForSource nextAttemptAt rateLimitResetAt error = .ok after) :
    db.job.state ≠ .promoting ∧ db.job.state ≠ .completed ∧ after.job.state = .waitingSource ∧
      after.job.toJobInput = db.job.toJobInput ∧ after.revisions = db.revisions ∧
      after.candidates = db.candidates := by
  simp only [PricingHistory.waitForSource] at waits
  split at waits
  case isTrue working =>
    cases waits
    refine ⟨?_, ?_, rfl, rfl, rfl, rfl⟩ <;>
    · intro state
      rw [state] at working
      exact absurd working (by decide)
  case isFalse => cases waits

theorem resume_ok (resumed : db.resume = .ok after) :
    db.job.state = .waitingSource ∧ after.job.state ≠ .promoting ∧ after.job.state ≠ .completed ∧
      after.job.toJobInput = db.job.toJobInput ∧ after.revisions = db.revisions ∧
      after.candidates = db.candidates := by
  simp only [PricingHistory.resume] at resumed
  split at resumed
  case isTrue waiting =>
    cases resumed
    refine ⟨waiting, ?_, ?_, rfl, rfl, rfl⟩ <;>
    · show PricingHistory.resumeState db.job ≠ _
      unfold PricingHistory.resumeState
      split
      case isTrue => decide
      case isFalse => split <;> decide
  case isFalse => cases resumed

def promotedRevisions (db : PricingHistory) (observedAt : Int) : List PricingRevision :=
  ((db.candidates.filter fun row => row.validUntil ≠ none).map
    (PricingHistory.revisionOf observedAt)).foldl PricingHistory.insertRevision db.revisions

theorem promote_ok {observedAt : Int} {promotion : PricingHistory.Promotion}
    (promoted : db.promote observedAt = .ok (promotion, after)) :
    db.job.state = .promoting ∧ after.job.state = .completed ∧
      after.job.toJobInput = db.job.toJobInput ∧ after.candidates = db.candidates ∧
      after.revisions = promotedRevisions db observedAt := by
  simp only [PricingHistory.promote] at promoted
  split at promoted
  case isTrue => cases promoted
  case isFalse promoting =>
    cases promoted
    exact ⟨not_not.mp promoting, rfl, rfl, rfl, rfl⟩

end Calls

/-! ### Runs -/

namespace HistoryRun

structure Kept (start : PricingHistory) (run : HistoryRun) : Prop where
  input : run.db.job.toJobInput = start.job.toJobInput
  tracked : run.db.job.state ≠ .promoting → run.db.job.state ≠ .completed →
    Tracked start.job.toJobInput run.saved run.db.candidates
  finished : run.db.job.state = .promoting ∨ run.db.job.state = .completed →
    run.outcomes.getLast? ≠ some none → Finished start.job.toJobInput run.saved run.db.candidates
  unpromoted : run.db.job.state ≠ .completed → run.db.revisions = start.revisions
  promoted : run.db.job.state = .completed → ∃ observedAt,
    run.db.revisions = promotedRevisions { run.db with revisions := start.revisions } observedAt

theorem saved_append (run : HistoryRun) (db : PricingHistory)
    (snapshots : List PricingHistorySnapshot) :
    saved { db := db, outcomes := run.outcomes ++ snapshots.map some } = run.saved ++ snapshots := by
  unfold saved
  rw [List.filterMap_append, List.filterMap_map]
  exact congrArg _ (List.filterMap_some)

theorem saved_skip (run : HistoryRun) (db : PricingHistory) :
    saved { db := db, outcomes := run.outcomes ++ [none] } = run.saved := by
  unfold saved
  rw [List.filterMap_append]
  exact List.append_nil _

/-- **Every call keeps it.** -/
theorem kept_next {start : PricingHistory} {before : HistoryRun} {action : HistoryAction}
    {after : HistoryRun}
    (kept : Chronological before.saved → KeepsBaseline start.job.toJobInput before.saved →
      Kept start before) (moved : before.next action = some after)
    (chronological : Chronological after.saved)
    (baseline : KeepsBaseline start.job.toJobInput after.saved) : Kept start after := by
  cases action with
  | saveSnapshots snapshots =>
    simp only [next, Option.some_inj] at moved
    split at moved
    case h_2 => subst moved; exact kept chronological baseline
    case h_1 db ok =>
      subst moved
      rw [saved_append] at chronological baseline
      obtain ⟨fetching, input, revisions, result⟩ := saveSnapshots_ok ok
      have held := kept (List.pairwise_append.mp chronological).1
        fun model among => (List.pairwise_append.mp (baseline model among)).1
      have tracked := (held.tracked (by rw [fetching]; decide) (by rw [fetching]; decide)).batch
        chronological baseline
      rw [held.input] at result
      have unpromoted := held.unpromoted (by rw [fetching]; decide)
      rcases result with ⟨state, rows⟩ | ⟨state, rows⟩
      · refine ⟨input.trans held.input, fun promoting => absurd state promoting, fun _ _ => ?_,
          fun _ => revisions.trans unpromoted, fun completed => ?_⟩
        · rw [saved_append]
          show Finished _ _ db.candidates
          rw [rows]
          exact tracked.finish
        · exact absurd (state.symm.trans completed) (by decide)
      · refine ⟨input.trans held.input, fun _ _ => ?_, fun done => ?_,
          fun _ => revisions.trans unpromoted, fun completed => ?_⟩
        · rw [saved_append]
          show Tracked _ _ db.candidates
          rw [rows]
          exact tracked
        · rcases done with promoting | completed
          · exact absurd (state.symm.trans promoting) (by decide)
          · exact absurd (state.symm.trans completed) (by decide)
        · exact absurd (state.symm.trans completed) (by decide)
  | skipSnapshot ref =>
    simp only [next, Option.some_inj] at moved
    split at moved
    case h_2 => subst moved; exact kept chronological baseline
    case h_1 db ok =>
      subst moved
      rw [saved_skip] at chronological baseline
      obtain ⟨fetching, input, revisions, rows, state⟩ := skipSnapshot_ok ok
      have held := kept chronological baseline
      refine ⟨input.trans held.input, fun _ _ => ?_, fun _ lastSaved => ?_,
        fun _ => revisions.trans (held.unpromoted (by rw [fetching]; decide)), fun completed => ?_⟩
      · rw [saved_skip]
        show Tracked _ _ db.candidates
        rw [rows]
        exact held.tracked (by rw [fetching]; decide) (by rw [fetching]; decide)
      · exact absurd List.getLast?_concat lastSaved
      · rcases state with promoting | fetching
        · exact absurd (promoting.symm.trans completed) (by decide)
        · exact absurd (fetching.symm.trans completed) (by decide)
  | waitForSource nextAttemptAt rateLimitResetAt error =>
    simp only [next, Option.some_inj] at moved
    split at moved
    case h_2 => subst moved; exact kept chronological baseline
    case h_1 db ok =>
      subst moved
      obtain ⟨promoting, completed, state, input, revisions, rows⟩ := waitForSource_ok ok
      have held := kept chronological baseline
      refine ⟨input.trans held.input, fun _ _ => ?_, fun done => ?_,
        fun _ => revisions.trans (held.unpromoted completed), fun done => ?_⟩
      · show Tracked _ _ db.candidates
        rw [rows]
        exact held.tracked promoting completed
      · rcases done with done | done <;> exact absurd (state.symm.trans done) (by decide)
      · exact absurd (state.symm.trans done) (by decide)
  | resume =>
    simp only [next, Option.some_inj] at moved
    split at moved
    case h_2 => subst moved; exact kept chronological baseline
    case h_1 db ok =>
      subst moved
      obtain ⟨waiting, promoting, completed, input, revisions, rows⟩ := resume_ok ok
      have held := kept chronological baseline
      refine ⟨input.trans held.input, fun _ _ => ?_, fun done => ?_,
        fun _ => revisions.trans (held.unpromoted (by rw [waiting]; decide)),
        fun done => absurd done completed⟩
      · show Tracked _ _ db.candidates
        rw [rows]
        exact held.tracked (by rw [waiting]; decide) (by rw [waiting]; decide)
      · exact (done.elim promoting completed).elim
  | promote observedAt =>
    simp only [next, Option.some_inj] at moved
    split at moved
    case h_2 => subst moved; exact kept chronological baseline
    case h_1 promotion db ok =>
      subst moved
      obtain ⟨promoting, completed, input, rows, revisions⟩ := promote_ok ok
      have held := kept chronological baseline
      refine ⟨input.trans held.input, fun _ done => absurd completed done, fun _ lastSaved => ?_,
        fun done => absurd completed done, fun _ => ⟨observedAt, ?_⟩⟩
      · show Finished _ _ db.candidates
        rw [rows]
        exact held.finished (.inl promoting) lastSaved
      · have unpromoted := held.unpromoted (by rw [promoting]; decide)
        show db.revisions = _
        rw [revisions]
        unfold promotedRevisions
        rw [unpromoted]
        dsimp only
        rw [rows]
  | restart =>
    cases moved
    exact kept chronological baseline

theorem kept_of_reachable {start : PricingHistory} (fetching : start.job.state = .fetching)
    (empty : start.candidates = []) {run : HistoryRun}
    (reached : Reachable HistoryRun.next ⟨start, []⟩ run) (chronological : Chronological run.saved)
    (baseline : KeepsBaseline start.job.toJobInput run.saved) : Kept start run := by
  have invariant := Reachable.invariant (fun run => Chronological run.saved →
    KeepsBaseline start.job.toJobInput run.saved → Kept start run) (fun _ _ => ?_)
    (fun _ _ _ kept moved => kept_next kept moved) reached
  · exact invariant chronological baseline
  · refine ⟨rfl, fun _ _ => ?_, fun done => ?_, fun _ => rfl, fun completed => ?_⟩
    · show Tracked _ _ start.candidates
      rw [empty]
      exact tracked_nil _
    · rcases done with done | done <;> exact absurd (fetching.symm.trans done) (by decide)
    · exact absurd (fetching.symm.trans completed) (by decide)

end HistoryRun

theorem covers_revisionOf (observedAt : Int) (row : CandidateRow) (instant : Int) :
    (PricingHistory.revisionOf observedAt row).covers instant = true ↔ row.Covers instant := by
  unfold PricingRevision.covers CandidateRow.Covers
  rw [Bool.and_eq_true, decide_eq_true_eq]
  refine and_congr_right fun _ => ?_
  show row.validUntil.all _ = true ↔ _
  cases row.validUntil with
  | none => exact iff_of_true rfl fun stop ends => (nomatch ends)
  | some stop => simp

/-- **Promotion inserts an interval for each candidate**: every key gets in, and the row itself
where no revision had its key. -/
theorem mem_promotedRevisions {job : JobInput} {saved : List PricingHistorySnapshot}
    {db : PricingHistory} (finished : Finished job saved db.candidates)
    (within : ∀ snapshot ∈ saved, snapshot.ref.committedAt ≤ job.rangeTo) (observedAt : Int)
    {row : CandidateRow} (among : row ∈ db.candidates) :
    (∃ revision ∈ promotedRevisions db observedAt,
        revision.SameKey (PricingHistory.revisionOf observedAt row)) ∧
      ((∀ revision ∈ db.revisions, ¬ revision.SameKey (PricingHistory.revisionOf observedAt row)) →
        PricingHistory.revisionOf observedAt row ∈ promotedRevisions db observedAt) := by
  have closed : row ∈ db.candidates.filter fun row => row.validUntil ≠ none := by
    obtain ⟨stop, ends, -⟩ := finished.closed within row among
    exact List.mem_filter.mpr ⟨among, decide_eq_true (by rw [ends]; exact Option.some_ne_none stop)⟩
  have news := List.mem_map_of_mem (f := PricingHistory.revisionOf observedAt) closed
  refine ⟨key_mem_insertRevisions _ news, fun fresh => mem_insertRevisions news fresh ?_⟩
  intro other also key
  obtain ⟨row', among', rfl⟩ := List.mem_map.mp also
  rw [finished.key_unique within (List.mem_filter.mp among').1 among key.1 key.2.1]

/-- **What the promoted revisions have in force** for a model without earlier history. -/
theorem historyQuote_promotedRevisions {job : JobInput} {saved : List PricingHistorySnapshot}
    (db : PricingHistory) (finished : Finished job saved db.candidates)
    (within : ∀ snapshot ∈ saved, snapshot.ref.committedAt ≤ job.rangeTo) (observedAt : Int)
    {model : String} (known : model ∈ job.models)
    (fresh : ∀ revision ∈ db.revisions, revision.modelId = model → revision.source ≠ HISTORY_SOURCE)
    {instant : Int} (lower : job.rangeFrom ≤ instant) (upper : instant < job.rangeTo) :
    historyQuote (promotedRevisions db observedAt) model instant
      = quoteInForce saved model instant := by
  -- The revisions in force are those of the model's rows in force, and there is at most one.
  have inForce : ∀ revision, (revision ∈ promotedRevisions db observedAt ∧
      revision.modelId = model ∧ revision.source = HISTORY_SOURCE ∧
      revision.covers instant = true) ↔ ∃ row ∈ db.candidates, row.modelId = model ∧
        row.Covers instant ∧ revision = PricingHistory.revisionOf observedAt row := by
    intro revision
    constructor
    · rintro ⟨among, own, source, covers⟩
      rcases of_mem_insertRevisions among with old | new
      · exact absurd source (fresh revision old own)
      · obtain ⟨row, inRows, rfl⟩ := List.mem_map.mp new
        exact ⟨row, (List.mem_filter.mp inRows).1, own,
          (covers_revisionOf observedAt row instant).mp covers, rfl⟩
    · rintro ⟨row, among, own, covers, rfl⟩
      refine ⟨(mem_promotedRevisions finished within observedAt among).2 ?_, own, rfl,
        (covers_revisionOf observedAt row instant).mpr covers⟩
      exact fun revision old key => fresh revision old (key.1.trans own) key.2.2
  unfold historyQuote
  cases quoted : quoteInForce saved model instant with
  | none =>
    rw [selectRevision_eq none fun revision => ?_]
    · rfl
    · rw [inForce]
      refine iff_of_false (fun none_ => (nomatch none_)) ?_
      rintro ⟨row, among, own, covers, -⟩
      have := (finished.quotes known lower upper row.quote).mp ⟨row, among, own, covers, rfl⟩
      rw [quoted] at this
      cases this
  | some quote =>
    obtain ⟨row, among, own, covers, rfl⟩ := (finished.quotes known lower upper quote).mpr quoted
    rw [selectRevision_eq (some (PricingHistory.revisionOf observedAt row))
      fun revision => ?_]
    · rfl
    · rw [inForce, Option.some_inj]
      constructor
      · rintro rfl
        exact ⟨row, among, own, covers, rfl⟩
      · rintro ⟨other, among', own', covers', rfl⟩
        rw [finished.covers_unique within among among' (own.trans own'.symm) covers covers']

/-- **Pricing history loses no interval.** In every run of a job whose commits are listed, if the
last commit was saved: at promotion every candidate row is closed within the range and promotion
inserts an interval for it, unless its key has one already; and once the job is complete the price
in force at every instant of the range is that of the saved snapshots. -/
theorem history_keeps_prices {start : PricingHistory} (fetching : start.job.state = .fetching)
    (empty : start.candidates = []) {run : HistoryRun}
    (reached : Reachable HistoryRun.next ⟨start, []⟩ run) (chronological : Chronological run.saved)
    (within : ∀ snapshot ∈ run.saved, snapshot.ref.committedAt ≤ start.job.rangeTo)
    (baseline : KeepsBaseline start.job.toJobInput run.saved)
    (lastSaved : run.outcomes.getLast? ≠ some none) :
    (run.db.job.state = .promoting →
      (∀ row ∈ run.db.candidates, ∃ stop, row.validUntil = some stop ∧ row.effectiveAt < stop ∧
        stop ≤ start.job.rangeTo) ∧
      ∀ observedAt, ∃ promotion after, run.db.promote observedAt = .ok (promotion, after) ∧
        ∀ row ∈ run.db.candidates,
          (∃ revision ∈ after.revisions,
            revision.SameKey (PricingHistory.revisionOf observedAt row)) ∧
          ((∀ revision ∈ start.revisions,
              ¬ revision.SameKey (PricingHistory.revisionOf observedAt row)) →
            PricingHistory.revisionOf observedAt row ∈ after.revisions)) ∧
    (run.db.job.state = .completed → ∀ model ∈ start.job.models,
      (∀ revision ∈ start.revisions, revision.modelId = model →
        revision.source ≠ HISTORY_SOURCE) →
      ∀ instant, start.job.rangeFrom ≤ instant → instant < start.job.rangeTo →
        historyQuote run.db.revisions model instant = quoteInForce run.saved model instant) := by
  have kept := HistoryRun.kept_of_reachable fetching empty reached chronological baseline
  constructor
  · intro promoting
    have finished := kept.finished (.inl promoting) lastSaved
    refine ⟨finished.closed within, fun observedAt => ?_⟩
    cases promoted : run.db.promote observedAt with
    | error message =>
      simp only [PricingHistory.promote] at promoted
      rw [if_neg (not_not.mpr promoting)] at promoted
      cases promoted
    | ok pair =>
      refine ⟨pair.1, pair.2, rfl, fun row among => ?_⟩
      have revisions := (promote_ok promoted).2.2.2.2
      have inserted := mem_promotedRevisions finished within observedAt among
      rw [kept.unpromoted (by rw [promoting]; decide)] at inserted
      rw [revisions]
      exact inserted
  · intro completed model known fresh instant lower upper
    obtain ⟨observedAt, revisions⟩ := kept.promoted completed
    rw [revisions]
    exact historyQuote_promotedRevisions { run.db with revisions := start.revisions }
      (kept.finished (.inr completed) lastSaved) within observedAt known fresh lower upper

/-- A run to completion. -/
theorem history_keeps_prices_completedRun : ∃ run,
    Reachable HistoryRun.next ⟨listedJob (pricedLate.map (·.ref)), []⟩ run ∧
      historyQuote run.db.revisions "m" 7 = quoteInForce run.saved "m" 7 := by
  have reached : Reachable HistoryRun.next ⟨listedJob (pricedLate.map (·.ref)), []⟩ _ :=
    Reachable.of_run [.saveSnapshots pricedLate, .promote 20] rfl
  refine ⟨_, reached, (history_keeps_prices rfl rfl reached ?_ (by decide) ?_ (by decide)).2
    (by decide) "m" (by decide) (by decide) 7 (by decide) (by decide)⟩
  · unfold Chronological
    decide
  · unfold KeepsBaseline
    decide

/-- **A model's first price counts before its commit**: at the instant 2 the last snapshot saved
does not price the model, and the history does. -/
theorem first_price_is_backdated : ∃ run,
    Reachable HistoryRun.next ⟨listedJob (pricedLate.map (·.ref)), []⟩ run ∧
      run.db.job.state = .completed ∧ run.saved = pricedLate ∧
      historyQuote run.db.revisions "m" 2 ≠
        (run.saved.filter fun snapshot => snapshot.ref.committedAt ≤ 2).getLast?.bind fun last =>
          (last.price "m").map ResolvedPricingEntry.quote :=
  ⟨_, Reachable.of_run [.saveSnapshots pricedLate, .promote 20] rfl, by decide, by decide,
    by decide⟩

end Toard.Pricing
