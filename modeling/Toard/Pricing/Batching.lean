/-
**Batching does not change pricing history.**

* **`batching_changes_nothing`**: every split gives the rows that one batch gives, and these are
  the builder's intervals, backdated.
-/

import Mathlib.Data.List.Induction
import Toard.Pricing.Intervals
import Toard.Pricing.Promotion

namespace Toard.Pricing

/-! ### Finite rates -/

def FinitePrices (snapshots : List PricingHistorySnapshot) : Prop :=
  ∀ snapshot ∈ snapshots, ∀ pricing ∈ snapshot.pricing.values, pricing.toPricingDetails.Finite

theorem resolvePricingEntry_mem {values : PricingMap} {model : String}
    {resolved : ResolvedPricingEntry} (found : resolvePricingEntry model values = some resolved) :
    resolved.pricing ∈ values.values := by
  obtain ⟨entry, isEntry, rfl⟩ := Option.map_eq_some_iff.mp found
  exact resolveAliasEntry_mem isEntry

theorem finite_pricingDetails {pricing : ModelPricing} (finite : pricing.toPricingDetails.Finite) :
    (pricingDetails pricing).Finite :=
  ⟨fun tier among => finite.1 tier (List.mem_mergeSort.mp among), finite.2⟩

/-! ### One batch -/

namespace Track

def of (job : JobInput) (model : String) (saved : List PricingHistorySnapshot) : Track :=
  saved.foldl (apply job model) empty

theorem of_append (job : JobInput) (model : String) (saved later : List PricingHistorySnapshot) :
    of job model (saved ++ later) = later.foldl (apply job model) (of job model saved) :=
  List.foldl_append

def Exact (track : Track) : Prop :=
  ∀ row copy, track.current = some (row, copy) → row = copy.write ∧ copy.pricingDetails.Finite

theorem Exact.advance {job : JobInput} {model : String} {ref : PricingHistoryCommitRef}
    {resolved : Option ResolvedPricingEntry} {track : Track} (exact_ : track.Exact)
    (finite : ∀ entry, resolved = some entry → entry.pricing.toPricingDetails.Finite) :
    (track.advance job model ref resolved).Exact := by
  rcases advance_cases job model ref resolved track with
    ⟨_, _, _, -, -, -, moved⟩ | ⟨-, moved⟩ | ⟨entry, copy, price, -, made, moved⟩
  · rw [moved]
    exact exact_
  · rw [moved]
    exact fun _ _ current => nomatch current
  · rw [moved]
    intro row' copy' current
    obtain ⟨rfl, rfl⟩ := Prod.mk.inj (Option.some_inj.mp current)
    refine ⟨rfl, ?_⟩
    rw [made]
    exact finite_pricingDetails (finite entry price)

theorem read_write {copy : OpenCandidateRow} (finite : copy.pricingDetails.Finite) :
    copy.write.read = copy := by
  unfold OpenCandidateRow.write CandidateRow.read
  dsimp only
  rw [PricingDetails.parse_stringify finite]

/-- **Reading the rows again changes nothing.** -/
theorem Exact.reload_eq {job : JobInput} {model : String} {saved : List PricingHistorySnapshot}
    {track : Track} (exact_ : track.Exact) (records : track.Records job model saved) :
    track.reload = track := by
  have seen : (!track.rows.isEmpty) = track.seen := by
    rw [Bool.eq_iff_iff]
    exact records.reload.seen.trans records.seen.symm
  obtain ⟨closed, current, flag⟩ := track
  unfold reload
  rw [seen]
  cases current with
  | none => rfl
  | some pair =>
    obtain ⟨row, copy⟩ := pair
    obtain ⟨written, finite⟩ := exact_ row copy rfl
    have back : row.read = copy := by rw [written, read_write finite]
    show Track.mk closed (some (row, row.read)) flag = _
    rw [back]

end Track

/-- The table holds, model by model, what the snapshots make of its rows. -/
structure Recorded (job : JobInput) (saved : List PricingHistorySnapshot)
    (rows : List CandidateRow) : Prop where
  own : ∀ model ∈ job.models, rowsOf model rows = (Track.of job model saved).rows
  others : ∀ model ∉ job.models, rowsOf model rows = []

section Batch

variable {job : JobInput} {saved snapshots : List PricingHistorySnapshot}

theorem records_of {model : String} (among : model ∈ job.models) (chronological : Chronological saved)
    (baseline : KeepsBaseline job saved) : (Track.of job model saved).Records job model saved :=
  (foldl_applySnapshot among
    (load_follows (Track.sound_empty job model) (show rowsOf model [] = Track.empty.rows from rfl))
    (Track.records_empty job model) chronological baseline).2

theorem exact_of (job : JobInput) (model : String) (finite : FinitePrices saved) :
    (Track.of job model saved).Exact := by
  induction saved using List.reverseRecOn with
  | nil => exact fun _ _ current => nomatch current
  | append_singleton saved snapshot ih =>
    rw [Track.of_append]
    refine (ih fun other among => finite other (List.mem_append_left _ among)).advance ?_
    exact fun entry price => finite snapshot (List.mem_append_right _ (List.mem_singleton.mpr rfl))
      entry.pricing (resolvePricingEntry_mem price)

/-- **A batch goes on where the rows are.** -/
theorem Recorded.batch {rows : List CandidateRow} (recorded : Recorded job saved rows)
    (chronological : Chronological (saved ++ snapshots)) (baseline : KeepsBaseline job (saved ++ snapshots))
    (finite : FinitePrices (saved ++ snapshots)) :
    Recorded job (saved ++ snapshots)
      (snapshots.foldl (applySnapshot job) (PricingHistory.load rows)).candidates := by
  constructor
  · intro model among
    have records := records_of among (List.pairwise_append.mp chronological).1
      fun model among => (List.pairwise_append.mp (baseline model among)).1
    have exact_ := exact_of job model fun snapshot (early : snapshot ∈ saved) =>
      finite snapshot (List.mem_append_left _ early)
    have follows := load_follows records.sound (recorded.own model among)
    rw [exact_.reload_eq records] at follows
    rw [Track.of_append]
    exact (foldl_applySnapshot among follows records chronological baseline).1.rows
  · intro model absent
    exact (foldl_applySnapshot_other snapshots absent (load_follows (Track.sound_empty job model)
      (recorded.others model absent))).rows

end Batch

/-! ### Any split -/

/-- What the table holds after the snapshots: finished, if they were the last. -/
def BatchedRows (job : JobInput) (saved : List PricingHistorySnapshot) (finished : Prop)
    (rows : List CandidateRow) : Prop :=
  (∀ model ∈ job.models, (finished → rowsOf model rows = (Track.of job model saved).finish job.rangeTo) ∧
    (¬ finished → rowsOf model rows = (Track.of job model saved).rows)) ∧
  ∀ model ∉ job.models, rowsOf model rows = []

theorem BatchedRows.perm {job : JobInput} {saved : List PricingHistorySnapshot} {finished : Prop}
    {left right : List CandidateRow} (first : BatchedRows job saved finished left)
    (second : BatchedRows job saved finished right) : left.Perm right := by
  refine Toard.Library.perm_of_filter_key_eq CandidateRow.modelId fun model => ?_
  show rowsOf model left = rowsOf model right
  by_cases among : model ∈ job.models
  · by_cases done : finished
    · rw [(first.1 model among).1 done, (second.1 model among).1 done]
    · rw [(first.1 model among).2 done, (second.1 model among).2 done]
  · rw [first.2 model among, second.2 model among]

theorem saveSnapshots_next {db : PricingHistory} {batch : List PricingHistorySnapshot}
    (fetching : db.job.state = .fetching) {rest : List PricingHistoryCommitRef}
    (refs : db.job.commitRefs.drop db.job.nextCommitIndex = batch.map (·.ref) ++ rest)
    (inside : db.job.nextCommitIndex ≤ db.job.commitRefs.length) :
    ∃ after, db.saveSnapshots batch = .ok after ∧
      after.job.toJobInput = db.job.toJobInput ∧ after.job.commitRefs = db.job.commitRefs ∧
      after.job.nextCommitIndex = db.job.nextCommitIndex + batch.length ∧
      (rest ≠ [] → after.job.state = .fetching) ∧
      after.candidates = if rest = [] then
          PricingHistory.finishRows db.job.rangeTo
            (batch.foldl (applySnapshot db.job.toJobInput)
              (PricingHistory.load db.candidates)).candidates
        else (batch.foldl (applySnapshot db.job.toJobInput)
          (PricingHistory.load db.candidates)).candidates := by
  have cursor : ((db.job.commitRefs.drop db.job.nextCommitIndex).take batch.length).map (·.sha)
      = batch.map (·.ref.sha) := by
    rw [refs, List.take_left' (List.length_map _), List.map_map]
    rfl
  have finished : db.job.nextCommitIndex + batch.length = db.job.commitRefs.length ↔ rest = [] := by
    have lengths := congrArg List.length refs
    rw [List.length_drop, List.length_append, List.length_map] at lengths
    rw [← List.length_eq_zero_iff]
    omega
  simp only [PricingHistory.saveSnapshots]
  rw [if_neg (not_not.mpr fetching), if_neg (not_not.mpr cursor)]
  refine ⟨_, rfl, rfl, rfl, rfl, fun more => ?_, ?_⟩
  · exact if_neg fun done => more (finished.mp done)
  · by_cases done : rest = []
    · rw [if_pos done]
      exact if_pos (finished.mpr done)
    · rw [if_neg done]
      exact if_neg fun all => done (finished.mp all)

/-- **Any split of the snapshots records them.** -/
theorem saveBatches_recorded {job : JobInput} {rest : List PricingHistoryCommitRef}
    (batches : List (List PricingHistorySnapshot)) (saved : List PricingHistorySnapshot)
    {db : PricingHistory} (input : db.job.toJobInput = job) (nonempty : ∀ batch ∈ batches, batch ≠ [])
    (fetching : db.job.state = .fetching) (index : db.job.nextCommitIndex = saved.length)
    (refs : db.job.commitRefs = (saved ++ batches.flatten).map (·.ref) ++ rest)
    (recorded : Recorded job saved db.candidates)
    (chronological : Chronological (saved ++ batches.flatten))
    (baseline : KeepsBaseline job (saved ++ batches.flatten))
    (finite : FinitePrices (saved ++ batches.flatten)) :
    ∃ after, batches.foldlM PricingHistory.saveSnapshots db = .ok after ∧
      BatchedRows job (saved ++ batches.flatten) (rest = [] ∧ batches ≠ []) after.candidates := by
  induction batches generalizing saved db with
  | nil =>
    refine ⟨db, rfl, ?_, recorded.others⟩
    intro model among
    refine ⟨fun done => absurd rfl done.2, fun _ => ?_⟩
    rw [List.flatten_nil, List.append_nil]
    exact recorded.own model among
  | cons batch batches ih =>
    rw [List.flatten_cons, ← List.append_assoc] at refs chronological baseline finite ⊢
    have ahead : db.job.commitRefs.drop db.job.nextCommitIndex
        = batch.map (·.ref) ++ (batches.flatten.map (·.ref) ++ rest) := by
      rw [refs, index, List.map_append, List.map_append, List.append_assoc, List.append_assoc]
      exact List.drop_left' (List.length_map _)
    have inside : db.job.nextCommitIndex ≤ db.job.commitRefs.length := by
      rw [refs, index, List.length_append, List.length_map, List.length_append, List.length_append]
      omega
    obtain ⟨after, ok, input', refs', index', fetching', rows⟩ :=
      saveSnapshots_next fetching ahead inside
    have step := recorded.batch (List.pairwise_append.mp chronological).1
      (fun model among => (List.pairwise_append.mp (baseline model among)).1)
      fun snapshot early => finite snapshot (List.mem_append_left _ early)
    rw [input] at rows
    have last : batches = [] ↔ batches.flatten.map (·.ref) = [] := by
      rw [List.map_eq_nil_iff, List.flatten_eq_nil_iff]
      refine ⟨fun none_ => by rw [none_]; exact fun _ among => (nomatch among), fun all => ?_⟩
      refine List.eq_nil_iff_forall_not_mem.mpr fun other among => ?_
      exact nonempty other (List.mem_cons_of_mem _ among) (all other among)
    rw [List.foldlM_cons, ok]
    show ∃ after', batches.foldlM PricingHistory.saveSnapshots after = .ok after' ∧ _
    by_cases more : batches.flatten.map (·.ref) ++ rest = []
    · -- The last batch, and it finishes the job.
      obtain ⟨none_, done⟩ := List.append_eq_nil_iff.mp more
      rw [if_pos more] at rows
      rw [last.mpr none_, List.flatten_nil, List.append_nil]
      refine ⟨after, rfl, ?_, ?_⟩
      · intro model among
        refine ⟨fun _ => ?_, fun not => absurd ⟨done, List.cons_ne_nil _ _⟩ not⟩
        rw [rows]
        exact finishRows_follows (records_of among
          (List.pairwise_append.mp chronological).1
          fun model among => (List.pairwise_append.mp (baseline model among)).1).sound
          (step.own model among)
      · intro model absent
        rw [rows]
        exact finishRows_follows (Track.sound_empty job model) (step.others model absent)
    · rw [if_neg more] at rows
      have goesOn := ih (saved ++ batch) (input'.trans input)
        (fun other among => nonempty other (List.mem_cons_of_mem _ among)) (fetching' more)
        (by rw [index', index, List.length_append]) (refs'.trans refs) (by rw [rows]; exact step)
        chronological baseline finite
      obtain ⟨final, ok', result⟩ := goesOn
      refine ⟨final, ok', ?_⟩
      have same : (rest = [] ∧ batches ≠ []) ↔ (rest = [] ∧ batch :: batches ≠ []) := by
        refine ⟨fun both => ⟨both.1, List.cons_ne_nil _ _⟩, fun both => ⟨both.1, fun none_ => ?_⟩⟩
        exact more (List.append_eq_nil_iff.mpr ⟨last.mp none_, both.1⟩)
      rwa [propext same] at result

/-! ### The table mirrors the builder -/

def PricingHistoryCandidate.row (candidate : PricingHistoryCandidate) : CandidateRow where
  modelId := candidate.modelId
  sourceModelId := candidate.sourceModelId
  effectiveAt := candidate.effectiveAt
  validUntil := some candidate.validUntil
  prices := candidate.pricing.columns
  sourceCommitSha := candidate.sourceCommitSha
  sourceCommittedAt := candidate.sourceCommittedAt
  pricingDetails := (pricingDetails candidate.pricing).stringify

def OpenPricingHistoryCandidate.copy (candidate : OpenPricingHistoryCandidate) :
    OpenCandidateRow where
  modelId := candidate.modelId
  sourceModelId := candidate.sourceModelId
  effectiveAt := candidate.effectiveAt
  prices := candidate.pricing.columns
  sourceCommitSha := candidate.sourceCommitSha
  sourceCommittedAt := candidate.sourceCommittedAt
  pricingDetails := pricingDetails candidate.pricing

def IntervalTrack.backdate (rangeFrom : Int) (track : IntervalTrack) : IntervalTrack :=
  match track.closed with
  | [] => ⟨[], track.current.map fun candidate => { candidate with effectiveAt := rangeFrom }⟩
  | first :: rest => ⟨{ first with effectiveAt := rangeFrom } :: rest, track.current⟩

/-- The first closed candidate of each model not begun yet starts with the range. -/
def backdateClosed (rangeFrom : Int) :
    List String → List PricingHistoryCandidate → List PricingHistoryCandidate
  | _, [] => []
  | begun, candidate :: rest =>
    (if candidate.modelId ∈ begun then candidate else { candidate with effectiveAt := rangeFrom })
      :: backdateClosed rangeFrom (candidate.modelId :: begun) rest

/-- The builder's state with each model's first candidate starting with the range. -/
def PricingHistoryIntervalState.backdate (state : PricingHistoryIntervalState) :
    PricingHistoryIntervalState :=
  { state with
    closed := backdateClosed state.rangeFrom [] state.closed
    opened := state.opened.mapValues fun candidate =>
      if state.closed.any fun closed => closed.modelId = candidate.modelId then candidate
      else { candidate with effectiveAt := state.rangeFrom } }

/-- The table's track and the builder's hold the same intervals, backdated. A candidate that opens
at the end of the range is open in the builder only. -/
structure Mirrors (job : JobInput) (now : Int) (built : IntervalTrack) (track : Track) : Prop where
  closed : track.closed = (built.backdate job.rangeFrom).closed.map PricingHistoryCandidate.row
  unpriced : built.current = none → track.current = none
  span : ∀ candidate, built.current = some candidate →
    job.rangeFrom ≤ candidate.effectiveAt ∧ candidate.effectiveAt ≤ now
  current : ∀ candidate, (built.backdate job.rangeFrom).current = some candidate →
    track.current = some (candidate.copy.write, candidate.copy) ∨
      (track.current = none ∧ job.rangeTo ≤ candidate.effectiveAt ∧ built.closed ≠ [])

theorem mirrors_empty (job : JobInput) : Mirrors job job.rangeFrom .empty .empty where
  closed := rfl
  unpriced := fun _ => rfl
  span := fun _ current => nomatch current
  current := fun _ current => nomatch current

section Mirrors

variable {job : JobInput} {now : Int} {built : IntervalTrack} {track : Track}

theorem backdate_of_nil (rangeFrom : Int) (none_ : built.closed = []) : built.backdate rangeFrom
    = ⟨[], built.current.map fun candidate => { candidate with effectiveAt := rangeFrom }⟩ := by
  unfold IntervalTrack.backdate
  rw [none_]

theorem backdate_current (rangeFrom : Int) (some_ : built.closed ≠ []) :
    (built.backdate rangeFrom).current = built.current := by
  unfold IntervalTrack.backdate
  cases closed : built.closed with
  | nil => exact absurd closed some_
  | cons first rest => rfl

theorem backdate_closed_eq_nil {rangeFrom : Int} :
    (built.backdate rangeFrom).closed = [] ↔ built.closed = [] := by
  unfold IntervalTrack.backdate
  cases built.closed with
  | nil => exact iff_of_true rfl rfl
  | cons first rest => exact iff_of_false (List.cons_ne_nil _ _) (List.cons_ne_nil _ _)

theorem continues_copy {candidate shifted : OpenPricingHistoryCandidate}
    (source : shifted.sourceModelId = candidate.sourceModelId)
    (pricing : shifted.pricing = candidate.pricing) (resolved : Option ResolvedPricingEntry) :
    continues (some shifted.copy) resolved = sameCandidate (some candidate) resolved := by
  cases resolved with
  | none => rfl
  | some entry =>
    unfold continues sameCandidate
    dsimp only
    have same : samePricing (candidatePricing shifted.copy) entry.pricing
        = samePricing candidate.pricing entry.pricing := by
      rw [Bool.eq_iff_iff, samePricing_iff, samePricing_iff, columns_candidatePricing,
        pricingDetails_of_ascending (candidatePricing shifted.copy)
          (ascending_pricingDetails shifted.pricing)]
      show shifted.pricing.columns = _ ∧ (pricingDetails shifted.pricing).stringify = _ ↔ _
      rw [pricing]
    rw [same]
    show (shifted.sourceModelId == _ && _) = _
    rw [source]

theorem Mirrors.open_ (mirrors : Mirrors job now built track) (inRange : now < job.rangeTo)
    {candidate : OpenPricingHistoryCandidate} (current : built.current = some candidate) :
    ∃ shifted : OpenPricingHistoryCandidate, (built.backdate job.rangeFrom).current = some shifted ∧
      track.current = some (shifted.copy.write, shifted.copy) ∧
      shifted = { candidate with effectiveAt := shifted.effectiveAt } ∧
      (built.closed = [] → shifted.effectiveAt = job.rangeFrom) ∧
      (built.closed ≠ [] → shifted = candidate) := by
  by_cases none_ : built.closed = []
  · have backdated : (built.backdate job.rangeFrom).current
        = some { candidate with effectiveAt := job.rangeFrom } := by
      rw [backdate_of_nil _ none_, current]
      rfl
    refine ⟨_, backdated, ?_, rfl, fun _ => rfl, fun some_ => absurd none_ some_⟩
    exact (mirrors.current _ backdated).resolve_right fun late => late.2.2 none_
  · have backdated := (backdate_current job.rangeFrom none_).trans current
    refine ⟨candidate, backdated, ?_, rfl, fun nil => absurd nil none_, fun _ => rfl⟩
    refine (mirrors.current _ backdated).resolve_right fun late => ?_
    have := (mirrors.span candidate current).2
    omega

theorem Mirrors.closedAt (mirrors : Mirrors job now built track) (inRange : now < job.rangeTo)
    {boundary : Int} (strict : now < boundary ∨ boundary = job.rangeFrom)
    (current : Option OpenPricingHistoryCandidate) : track.closedAt boundary
      = ((IntervalTrack.mk (built.closedAt boundary) current).backdate job.rangeFrom).closed.map
        PricingHistoryCandidate.row := by
  unfold Track.closedAt IntervalTrack.closedAt
  cases open_ : built.current with
  | none =>
    rw [mirrors.unpriced open_, Option.bind_none, Option.toList_none, List.append_nil,
      mirrors.closed]
    unfold IntervalTrack.backdate
    cases built.closed <;> rfl
  | some candidate =>
    obtain ⟨shifted, -, copied, same, first, later⟩ := mirrors.open_ inRange open_
    have span := mirrors.span candidate open_
    rw [copied, Option.bind_some]
    dsimp only
    have ends : boundary > shifted.copy.effectiveAt ↔ ¬ boundary ≤ candidate.effectiveAt := by
      show boundary > shifted.effectiveAt ↔ _
      by_cases none_ : built.closed = []
      · rw [first none_]
        omega
      · rw [later none_]
        exact not_le.symm
    unfold closeCandidate
    by_cases past : boundary ≤ candidate.effectiveAt
    · rw [if_pos past, if_neg fun ended => (ends.mp ended) past, Option.toList_none, List.append_nil,
        mirrors.closed]
      unfold IntervalTrack.backdate
      cases built.closed <;> rfl
    · rw [if_neg past, if_pos (ends.mpr past), Option.toList_some, mirrors.closed]
      unfold IntervalTrack.backdate
      cases closed : built.closed with
      | nil =>
        rw [same, first closed]
        rfl
      | cons head rest =>
        rw [later (by rw [closed]; exact List.cons_ne_nil _ _)]
        show _ :: (rest.map _) ++ [_] = _ :: ((rest ++ [_]).map _)
        rw [List.map_append]
        rfl

/-- **One snapshot keeps the mirror.** -/
theorem Mirrors.apply {model : String} {saved : List PricingHistorySnapshot}
    {snapshot : PricingHistorySnapshot} (mirrors : Mirrors job (clock job saved) built track)
    (records : track.Records job model saved)
    (strict : clock job saved < job.boundary snapshot.ref ∨
      job.boundary snapshot.ref = job.rangeFrom)
    (early : clock job saved ≤ job.boundary snapshot.ref)
    (within : job.boundary snapshot.ref ≤ job.rangeTo) :
    Mirrors job (job.boundary snapshot.ref) (built.apply job model snapshot)
      (track.apply job model snapshot) := by
  have range := job.range
  have inRange : clock job saved < job.rangeTo := by omega
  have closedAt := fun current => mirrors.closedAt inRange strict current
  show Mirrors job _ (built.advance model _ snapshot.ref (snapshot.price model))
    (track.advance job model snapshot.ref (snapshot.price model))
  generalize snapshot.price model = resolved
  have decide_ : continues (track.current.map Prod.snd) resolved
      = sameCandidate built.current resolved := by
    cases open_ : built.current with
    | none =>
      rw [mirrors.unpriced open_]
      rfl
    | some candidate =>
      obtain ⟨shifted, -, copied, same, -⟩ := mirrors.open_ inRange open_
      rw [copied]
      exact continues_copy (by rw [same]) (by rw [same]) resolved
  unfold Track.advance IntervalTrack.advance
  rw [decide_]
  split
  case isTrue =>
    exact {
      closed := mirrors.closed
      unpriced := mirrors.unpriced
      span := fun candidate open_ =>
        ⟨(mirrors.span candidate open_).1, (mirrors.span candidate open_).2.trans early⟩
      current := mirrors.current }
  case isFalse =>
    cases resolved with
    | none =>
      exact {
        closed := closedAt none
        unpriced := fun _ => rfl
        span := fun _ current => by cases current
        current := fun candidate backdated => by
          unfold IntervalTrack.backdate at backdated
          split at backdated <;> cases backdated }
    | some entry =>
      have bounds := Track.rangeFrom_le_boundary job snapshot.ref
      have span : ∀ candidate, some (openedCandidate model entry (job.boundary snapshot.ref)
          snapshot.ref) = some candidate → job.rangeFrom ≤ candidate.effectiveAt ∧
            candidate.effectiveAt ≤ job.boundary snapshot.ref := by
        rintro candidate made
        rw [← Option.some_inj.mp made]
        exact ⟨bounds, le_refl _⟩
      -- What the builder has closed by now, the table has closed, and the other way round.
      have nil_iff : built.closedAt (job.boundary snapshot.ref) = [] ↔
          track.closedAt (job.boundary snapshot.ref) = [] := by
        rw [closedAt none, List.map_eq_nil_iff, backdate_closed_eq_nil]
      dsimp only
      by_cases late : track.startAt job (job.boundary snapshot.ref) ≥ job.rangeTo
      · rw [if_pos late]
        have seen : track.seen = true := by
          by_contra unseen
          rw [Track.startAt, if_neg unseen] at late
          omega
        rw [Track.startAt, if_pos seen] at late
        have some_ : track.closedAt (job.boundary snapshot.ref) ≠ [] := by
          refine Track.closedAt_ne_nil (records.held seen) _ fun row copy current notEnded => ?_
          have held := records.sound.current row copy current
          have := held.started
          have := held.inRange
          omega
        refine ⟨closedAt _, fun none_ => (by cases none_), span, fun candidate backdated => .inr ?_⟩
        have shown := fun nil => some_ (nil_iff.mp nil)
        rw [backdate_current _ shown] at backdated
        refine ⟨rfl, ?_, shown⟩
        rw [← Option.some_inj.mp backdated]
        exact late
      · rw [if_neg late]
        refine ⟨closedAt _, fun none_ => (by cases none_), span, fun candidate backdated => .inl ?_⟩
        have shifted : candidate = openedCandidate model entry
            (track.startAt job (job.boundary snapshot.ref)) snapshot.ref := by
          by_cases nil : built.closedAt (job.boundary snapshot.ref) = []
          · rw [backdate_of_nil _ nil] at backdated
            have start : track.startAt job (job.boundary snapshot.ref) = job.rangeFrom := by
              unfold Track.startAt
              cases seen : track.seen with
              | false => exact if_neg Bool.false_ne_true
              | true =>
                rw [if_pos rfl]
                by_contra differs
                refine Track.closedAt_ne_nil (records.held seen) (job.boundary snapshot.ref) ?_
                  (nil_iff.mp nil)
                intro row copy current notEnded
                refine records.first row copy current ?_
                have := (records.sound.current row copy current).started
                omega
            rw [start]
            exact (Option.some_inj.mp backdated).symm
          · rw [backdate_current _ nil] at backdated
            have start : track.startAt job (job.boundary snapshot.ref)
                = job.boundary snapshot.ref := by
              obtain ⟨row, among⟩ := List.exists_mem_of_ne_nil _ (fun none_ => nil (nil_iff.mpr none_))
              exact records.sound.startAt_eq among
            rw [start]
            exact (Option.some_inj.mp backdated).symm
        rw [shifted]
        rfl

end Mirrors

/-- **The whole list.** -/
theorem mirrors_of {job : JobInput} {model : String} (among : model ∈ job.models)
    {snapshots : List PricingHistorySnapshot}
    (strict : snapshots.Pairwise fun earlier later =>
      earlier.ref.committedAt < later.ref.committedAt)
    (within : ∀ snapshot ∈ snapshots, snapshot.ref.committedAt ≤ job.rangeTo)
    (baseline : KeepsBaseline job snapshots) :
    Mirrors job (clock job snapshots) (snapshots.foldl (IntervalTrack.apply job model) .empty)
      (Track.of job model snapshots) := by
  induction snapshots using List.reverseRecOn with
  | nil => exact mirrors_empty job
  | append_singleton saved snapshot ih =>
    have split := List.pairwise_append.mp strict
    have later : ∀ other ∈ saved, other.ref.committedAt < snapshot.ref.committedAt :=
      fun other earlier => split.2.2 other earlier snapshot (List.mem_singleton.mpr rfl)
    have before : KeepsBaseline job saved := fun model among =>
      (List.pairwise_append.mp (baseline model among)).1
    have mirrors := ih split.1 (fun other early => within other (List.mem_append_left _ early)) before
    have records := records_of among (split.1.imp le_of_lt) before
    have last := within snapshot (List.mem_append_right _ (List.mem_singleton.mpr rfl))
    have range := job.range
    rw [Track.of_append, List.foldl_concat, clock_concat]
    refine mirrors.apply records ?_ (clock_le_boundary job fun other among =>
      le_of_lt (later other among)) ?_
    · unfold clock
      split
      case h_1 =>
        have := Track.rangeFrom_le_boundary job snapshot.ref
        omega
      case h_2 earlier found =>
        have := later earlier (List.mem_of_getLast? found)
        unfold JobInput.boundary
        split <;> split <;> omega
    · unfold JobInput.boundary
      split <;> omega

theorem Mirrors.finish {job : JobInput} {model : String} {now : Int} {built : IntervalTrack}
    {track : Track} (mirrors : Mirrors job now built track) (sound : track.Sound job model now) :
    track.finish job.rangeTo = ((built.backdate job.rangeFrom).closedAt job.rangeTo).map
      PricingHistoryCandidate.row := by
  unfold IntervalTrack.closedAt
  rw [List.map_append, ← mirrors.closed]
  unfold Track.finish
  cases open_ : (built.backdate job.rangeFrom).current with
  | none =>
    have none_ : built.current = none := by
      unfold IntervalTrack.backdate at open_
      split at open_
      · exact Option.map_eq_none_iff.mp open_
      · exact open_
    rw [mirrors.unpriced none_]
    exact (List.append_nil _).symm
  | some candidate =>
    rw [Option.bind_some]
    unfold closeCandidate
    rcases mirrors.current candidate open_ with copied | ⟨none_, late, -⟩
    · have inRange := (sound.current _ _ copied).inRange
      have notLate : ¬ job.rangeTo ≤ candidate.effectiveAt := not_le.mpr inRange
      rw [copied, if_neg notLate]
      exact if_pos inRange
    · rw [none_, if_pos late]
      exact (List.append_nil _).symm

/-! ### The builder's result, model by model -/

theorem filter_backdateClosed (rangeFrom : Int) (model : String) (begun : List String)
    (closed : List PricingHistoryCandidate) :
    ((backdateClosed rangeFrom begun closed).filter fun candidate => candidate.modelId = model)
      = if model ∈ begun then closed.filter fun candidate => candidate.modelId = model
        else ((IntervalTrack.mk (closed.filter fun candidate => candidate.modelId = model)
          none).backdate rangeFrom).closed := by
  induction closed generalizing begun with
  | nil => cases decide (model ∈ begun) <;> simp [backdateClosed, IntervalTrack.backdate]
  | cons head rest ih =>
    have kept : (if head.modelId ∈ begun then head else { head with effectiveAt := rangeFrom }).modelId
        = head.modelId := by split <;> rfl
    unfold backdateClosed
    by_cases own : head.modelId = model
    · subst own
      have now : head.modelId ∈ head.modelId :: begun := List.mem_cons_self
      rw [List.filter_cons_of_pos (by simpa using kept), ih, if_pos now,
        List.filter_cons_of_pos (by simp)]
      split <;> rfl
    · rw [List.filter_cons_of_neg (by simpa [kept] using own), ih,
        List.filter_cons_of_neg (by simpa using own)]
      have same : model ∈ head.modelId :: begun ↔ model ∈ begun := by
        rw [List.mem_cons]
        exact or_iff_right fun hit => own hit.symm
      simp only [same]

section Built

variable {job : JobInput} {saved : List PricingHistorySnapshot} {state : PricingHistoryIntervalState}

/-- What `closePricingIntervals` collects before it filters and sorts. -/
def collected (state : PricingHistoryIntervalState) (rangeTo : Int) : List PricingHistoryCandidate :=
  state.closed ++ state.opened.values.filterMap fun candidate => closeCandidate candidate rangeTo

theorem filter_collected {model : String} {track : IntervalTrack} {rangeTo : Int}
    (builds : Builds model (state.opened, state.closed) track)
    (keyed : Keyed (state.opened, state.closed)) :
    ((collected state.backdate rangeTo).filter fun candidate => candidate.modelId = model)
      = (track.backdate state.rangeFrom).closedAt rangeTo := by
  have shifted : ∀ candidate : OpenPricingHistoryCandidate,
      (if state.closed.any fun closed => closed.modelId = candidate.modelId then candidate
        else { candidate with effectiveAt := state.rangeFrom }).modelId = candidate.modelId := by
    intro candidate
    split <;> rfl
  have keyed' : ∀ key candidate, state.backdate.opened.get key = some candidate →
      candidate.modelId = key := by
    intro key candidate found
    replace found := (Toard.Library.OrderedMap.get_mapValues _ _ _).symm.trans found
    obtain ⟨original, held, rfl⟩ := Option.map_eq_some_iff.mp found
    exact (shifted original).trans (keyed key original held)
  have opened : (state.backdate.opened.values.filterMap fun candidate =>
      closeCandidate candidate rangeTo).filter (fun candidate => candidate.modelId = model)
      = ((track.backdate state.rangeFrom).current.bind fun candidate =>
          closeCandidate candidate rangeTo).toList := by
    have current : state.backdate.opened.get model = (track.backdate state.rangeFrom).current := by
      refine (Toard.Library.OrderedMap.get_mapValues _ _ _).trans ?_
      rw [builds.opened]
      unfold IntervalTrack.backdate
      cases closed : track.closed with
      | nil =>
        refine Option.map_congr fun candidate held => if_neg fun found => ?_
        have own := keyed model candidate (builds.opened.trans held)
        obtain ⟨other, among, same⟩ := List.any_eq_true.mp found
        have listed : other ∈ track.closed := by
          rw [← builds.closed]
          exact List.mem_filter.mpr ⟨among, decide_eq_true ((of_decide_eq_true same).trans own)⟩
        rw [closed] at listed
        cases listed
      | cons first rest =>
        refine (Option.map_congr fun candidate held => if_pos ?_).trans Option.map_id'
        have own := keyed model candidate (builds.opened.trans held)
        have listed : first ∈ state.closed.filter fun candidate => candidate.modelId = model := by
          rw [builds.closed, closed]
          exact List.mem_cons_self
        obtain ⟨among, same⟩ := List.mem_filter.mp listed
        exact List.any_eq_true.mpr
          ⟨first, among, decide_eq_true ((of_decide_eq_true same).trans own.symm)⟩
    rw [Toard.Library.filter_filterMap_key (fun _ _ made => modelId_closeCandidate made),
      Toard.Library.OrderedMap.values_filter _ OpenPricingHistoryCandidate.modelId keyed', current]
    cases (track.backdate state.rangeFrom).current with
    | none => rfl
    | some candidate => cases made : closeCandidate candidate rangeTo <;> simp [made]
  have closed : (state.backdate.closed.filter fun candidate => candidate.modelId = model)
      = (track.backdate state.rangeFrom).closed := by
    refine (filter_backdateClosed state.rangeFrom model [] state.closed).trans ?_
    rw [if_neg List.not_mem_nil, builds.closed]
    unfold IntervalTrack.backdate
    cases track.closed <;> rfl
  unfold collected IntervalTrack.closedAt
  rw [List.filter_append, closed, opened]

end Built

/-! ### The result -/

theorem Finished.start {job : JobInput} {saved : List PricingHistorySnapshot}
    {rows : List CandidateRow} (finished : Finished job saved rows)
    (within : ∀ snapshot ∈ saved, snapshot.ref.committedAt ≤ job.rangeTo) :
    ∀ row ∈ rows, job.rangeFrom ≤ row.effectiveAt := by
  intro row among
  obtain ⟨known, own⟩ := finished.model among
  obtain ⟨track, records, same⟩ := finished.1 row.modelId known
  rw [same, records.sound.finish_eq] at own
  exact (records.sound.ended_closedAt (clock_le_rangeTo within) row own).start

/-- **The finished table holds the builder's intervals, backdated.** -/
theorem intervals_perm {job : JobInput} {snapshots : List PricingHistorySnapshot}
    {rows : List CandidateRow} {state : PricingHistoryIntervalState} (built : Built job snapshots state)
    (strict : snapshots.Pairwise fun earlier later =>
      earlier.ref.committedAt < later.ref.committedAt)
    (within : ∀ snapshot ∈ snapshots, snapshot.ref.committedAt ≤ job.rangeTo)
    (baseline : KeepsBaseline job snapshots)
    (own : ∀ model ∈ job.models, rowsOf model rows = (Track.of job model snapshots).finish job.rangeTo)
    (others : ∀ model ∉ job.models, rowsOf model rows = [])
    (localeCompare : String → String → Ordering) :
    ∃ intervals, closePricingIntervals localeCompare state.backdate job.rangeTo = .ok intervals ∧
      rows.Perm (intervals.map PricingHistoryCandidate.row) := by
  have records : ∀ model ∈ job.models, (Track.of job model snapshots).Records job model snapshots :=
    fun model among => records_of among (strict.imp le_of_lt) baseline
  have same : rows.Perm ((collected state.backdate job.rangeTo).map PricingHistoryCandidate.row) := by
    refine Toard.Library.perm_of_filter_key_eq CandidateRow.modelId fun model => ?_
    have mapped : ((collected state.backdate job.rangeTo).map PricingHistoryCandidate.row).filter
        (fun row => row.modelId = model) = ((collected state.backdate job.rangeTo).filter
          fun candidate => candidate.modelId = model).map PricingHistoryCandidate.row :=
      List.filter_map
    rw [mapped]
    show rowsOf model rows = _
    by_cases among : model ∈ job.models
    · rw [own model among, filter_collected (built.builds model among) built.keyed, built.rangeFrom,
        (mirrors_of among strict within baseline).finish (records model among).sound]
    · rw [others model among, filter_collected (built.others model among) built.keyed]
      rfl
  have finished : Finished job snapshots rows :=
    ⟨fun model among => ⟨_, records model among, own model among⟩, others⟩
  have all : (collected state.backdate job.rangeTo).filter (fun candidate =>
      candidate.effectiveAt ≥ state.backdate.rangeFrom ∧ candidate.validUntil ≤ job.rangeTo)
      = collected state.backdate job.rangeTo := by
    refine List.filter_eq_self.mpr fun candidate among => decide_eq_true ?_
    have row := same.mem_iff.mpr (List.mem_map_of_mem among)
    obtain ⟨stop, ends, -, ended⟩ := finished.closed within candidate.row row
    refine ⟨?_, ?_⟩
    · have := finished.start within candidate.row row
      show state.rangeFrom ≤ candidate.effectiveAt
      rw [built.rangeFrom]
      exact this
    · rwa [Option.some_inj.mp ends]
  have range := job.range
  unfold closePricingIntervals
  have notBefore : ¬ job.rangeTo < state.backdate.rangeFrom := by
    show ¬ job.rangeTo < state.rangeFrom
    rw [built.rangeFrom]
    omega
  rw [if_neg notBefore]
  refine ⟨_, rfl, same.trans (List.Perm.map _ ?_)⟩
  show (collected state.backdate job.rangeTo).Perm
    (((collected state.backdate job.rangeTo).filter _).mergeSort _)
  rw [all]
  exact (List.mergeSort_perm _ _).symm

/-- **Batching does not change pricing history.** For a chronological list of snapshots that are
the next commits of a job, every split into batches leaves the rows that one batch leaves; and if
these are all its commits, the rows are the intervals the builder makes of the whole list, with each
model's first candidate starting with the range. -/
theorem batching_changes_nothing {start : PricingHistory} (fetching : start.job.state = .fetching)
    (index : start.job.nextCommitIndex = 0) (empty : start.candidates = [])
    {snapshots : List PricingHistorySnapshot} {rest : List PricingHistoryCommitRef}
    (refs : start.job.commitRefs = snapshots.map (·.ref) ++ rest)
    (chronological : Chronological snapshots)
    (baseline : KeepsBaseline start.job.toJobInput snapshots) (finite : FinitePrices snapshots)
    {batches : List (List PricingHistorySnapshot)} (split : batches.flatten = snapshots)
    (nonempty : ∀ batch ∈ batches, batch ≠ []) (some_ : snapshots ≠ []) :
    ∃ batched whole, batches.foldlM PricingHistory.saveSnapshots start = .ok batched ∧
      start.saveSnapshots snapshots = .ok whole ∧ batched.candidates.Perm whole.candidates ∧
      (rest = [] →
        (∀ first ∈ snapshots.head?, first.ref.committedAt ≤ start.job.rangeFrom) →
        (snapshots.Pairwise fun earlier later =>
          earlier.ref.committedAt < later.ref.committedAt) →
        (∀ snapshot ∈ snapshots, snapshot.ref.committedAt ≤ start.job.rangeTo) →
        ∀ localeCompare, ∃ state intervals,
          snapshots.foldlM applyPricingSnapshot
            (createPricingIntervalState start.job.rangeFrom start.job.models) = .ok state ∧
          closePricingIntervals localeCompare state.backdate start.job.rangeTo = .ok intervals ∧
          batched.candidates.Perm (intervals.map PricingHistoryCandidate.row)) := by
  have recorded : Recorded start.job.toJobInput [] start.candidates := by
    rw [empty]
    exact ⟨fun _ _ => rfl, fun _ _ => rfl⟩
  have anySplit : ∀ batches : List (List PricingHistorySnapshot), batches.flatten = snapshots →
      (∀ batch ∈ batches, batch ≠ []) → ∃ after,
        batches.foldlM PricingHistory.saveSnapshots start = .ok after ∧
        BatchedRows start.job.toJobInput snapshots (rest = [] ∧ batches ≠ []) after.candidates := by
    intro batches split nonempty
    subst split
    exact saveBatches_recorded batches [] rfl nonempty fetching index refs recorded chronological
      baseline finite
  have begun : ∀ batches : List (List PricingHistorySnapshot), batches.flatten = snapshots →
      batches ≠ [] := by
    rintro batches split rfl
    exact some_ split.symm
  obtain ⟨batched, ok, rows⟩ := anySplit batches split nonempty
  obtain ⟨whole, ok', rows'⟩ := anySplit [snapshots] (by simp) (by simpa using some_)
  have done : (rest = [] ∧ batches ≠ []) ↔ (rest = [] ∧ [snapshots] ≠ []) :=
    and_congr_right fun _ => iff_of_true (begun batches split) (List.cons_ne_nil _ _)
  rw [propext done] at rows
  refine ⟨batched, whole, ok, ?_, rows.perm rows', fun last first strict within localeCompare => ?_⟩
  · simpa using ok'
  · obtain ⟨state, folded, built⟩ := built_of_snapshots start.job.toJobInput first strict
    have finished : rest = [] ∧ [snapshots] ≠ [] := ⟨last, List.cons_ne_nil _ _⟩
    obtain ⟨intervals, closed, same⟩ := intervals_perm built strict within baseline
      (fun model among => (rows.1 model among).1 finished) rows.2 localeCompare
    exact ⟨state, intervals, folded, closed, same⟩

theorem pricedLate_finite : FinitePrices pricedLate := by
  have flat : ∀ key rate, ∀ pricing ∈ (priceList key rate).values,
      pricing.toPricingDetails.Finite := by
    intro key rate pricing priced
    rw [List.mem_singleton.mp priced]
    exact ⟨fun _ among => (nomatch among), fun _ among => (nomatch among)⟩
  intro snapshot among
  rcases List.mem_cons.mp among with rfl | later
  · exact flat "other" 1
  · rw [List.mem_singleton.mp later]
    exact flat "m" 2

/-- One commit at a time. -/
theorem batching_changes_nothing_oneByOne : ∃ batched whole,
    (pricedLate.map fun snapshot => [snapshot]).foldlM PricingHistory.saveSnapshots
        (listedJob (pricedLate.map (·.ref))) = .ok batched ∧
      (listedJob (pricedLate.map (·.ref))).saveSnapshots pricedLate = .ok whole ∧
      batched.candidates.Perm whole.candidates := by
  have refs : (listedJob (pricedLate.map (·.ref))).job.commitRefs = pricedLate.map (·.ref) ++ [] :=
    (List.append_nil _).symm
  have split : (pricedLate.map fun snapshot => [snapshot]).flatten = pricedLate := rfl
  obtain ⟨batched, whole, ok, ok', perm, -⟩ := batching_changes_nothing rfl rfl rfl refs
    (by unfold Chronological; decide) (by unfold KeepsBaseline; decide) pricedLate_finite split
    (by decide) (by decide)
  exact ⟨batched, whole, ok, ok', perm⟩

theorem createPricingIntervalState_single :
    createPricingIntervalState 0 ["m"] = ⟨0, ["m"], none, .empty, []⟩ := by
  have models : (["m"].filter fun model => !model.toList.all isWhiteSpace).dedup = ["m"] := by
    decide
  unfold createPricingIntervalState
  rw [models, List.mergeSort_singleton]

/-- **A model's first candidate starts with the range in the table, and with its commit in the
builder.** -/
theorem first_candidate_differs : ∃ whole state intervals,
    (listedJob (pricedLate.map (·.ref))).saveSnapshots pricedLate = .ok whole ∧
      pricedLate.foldlM applyPricingSnapshot (createPricingIntervalState 0 ["m"]) = .ok state ∧
      closePricingIntervals compare state 10 = .ok intervals ∧
      whole.candidates.map (·.effectiveAt) = [0] ∧ intervals.map (·.effectiveAt) = [5] := by
  rw [createPricingIntervalState_single]
  refine ⟨_, _, _, rfl, rfl, rfl, by decide, List.perm_singleton.mp ?_⟩
  refine ((List.mergeSort_perm _ _).map _).trans (List.Perm.of_eq ?_)
  decide

end Toard.Pricing
