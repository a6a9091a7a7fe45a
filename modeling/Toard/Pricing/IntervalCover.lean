/-
**What the intervals of a builder say.**

* **`closePricingIntervals_cover`**: the result lies in the range, and model by model it is sorted,
  without overlap, and right about the price at every instant.

An interval goes on over snapshots with the same terms and keeps the pricing of the first of them,
and it is half-open: at the end of the range itself there is none (`end_not_covered`).
-/

import Toard.Pricing.Batching

namespace Toard.Pricing

/-! ### Prices by the snapshots -/

/-- **The price in force**: that of the last snapshot that is not later. -/
def priceAt (snapshots : List PricingHistorySnapshot) (model : String) (instant : Int) :
    Option ResolvedPricingEntry :=
  (snapshots.filter fun snapshot => snapshot.ref.committedAt ≤ instant).getLast?.bind fun last =>
    last.price model

/-- What `samePricing` compares, and the entry the price comes from. -/
structure Terms where
  sourceModelId : String
  prices : PriceColumns
  details : PricingDetails (Option ℚ)
deriving DecidableEq

def ResolvedPricingEntry.terms (entry : ResolvedPricingEntry) : Terms :=
  ⟨entry.modelId, entry.pricing.columns, (pricingDetails entry.pricing).stringify⟩

def OpenPricingHistoryCandidate.terms (candidate : OpenPricingHistoryCandidate) : Terms :=
  ⟨candidate.sourceModelId, candidate.pricing.columns, (pricingDetails candidate.pricing).stringify⟩

def PricingHistoryCandidate.terms (candidate : PricingHistoryCandidate) : Terms :=
  ⟨candidate.sourceModelId, candidate.pricing.columns, (pricingDetails candidate.pricing).stringify⟩

theorem sameCandidate_iff {candidate : OpenPricingHistoryCandidate} {entry : ResolvedPricingEntry} :
    sameCandidate (some candidate) (some entry) = true ↔ candidate.terms = entry.terms := by
  unfold sameCandidate OpenPricingHistoryCandidate.terms ResolvedPricingEntry.terms
  rw [Bool.and_eq_true, beq_iff_eq, samePricing_iff, Terms.mk.injEq]

def PricingHistoryCandidate.Contains (candidate : PricingHistoryCandidate) (instant : Int) : Prop :=
  candidate.effectiveAt ≤ instant ∧ instant < candidate.validUntil

theorem priceAt_concat (saved : List PricingHistorySnapshot) (snapshot : PricingHistorySnapshot)
    (model : String) (instant : Int) :
    priceAt (saved ++ [snapshot]) model instant
      = if snapshot.ref.committedAt ≤ instant then snapshot.price model
        else priceAt saved model instant := by
  unfold priceAt
  by_cases past : snapshot.ref.committedAt ≤ instant
  · rw [if_pos past, getLast?_inForce past, Option.bind_some]
  · rw [if_neg past, List.filter_append, List.filter_cons_of_neg (by simpa using past),
      List.filter_nil, List.append_nil]

theorem closeCandidate_eq_some {candidate : OpenPricingHistoryCandidate} {boundary : Int}
    {closed : PricingHistoryCandidate} (made : closeCandidate candidate boundary = some closed) :
    closed.effectiveAt = candidate.effectiveAt ∧ closed.validUntil = boundary ∧
      closed.effectiveAt < boundary ∧ closed.terms = candidate.terms := by
  unfold closeCandidate at made
  split at made
  case isTrue => cases made
  case isFalse late =>
    cases made
    exact ⟨rfl, rfl, not_le.mp late, rfl⟩

theorem exists_closeCandidate {candidate : OpenPricingHistoryCandidate} {boundary : Int}
    (begun : candidate.effectiveAt < boundary) :
    ∃ closed, closeCandidate candidate boundary = some closed := by
  unfold closeCandidate
  rw [if_neg (not_le.mpr begun)]
  exact ⟨_, rfl⟩

/-! ### The candidates of one model tell its prices -/

namespace IntervalTrack

def Shows (track : IntervalTrack) (instant : Int) (terms : Terms) : Prop :=
  (∃ candidate ∈ track.closed, candidate.Contains instant ∧ candidate.terms = terms) ∨
    ∃ candidate, track.current = some candidate ∧ candidate.effectiveAt ≤ instant ∧
      candidate.terms = terms

theorem mem_closedAt {track : IntervalTrack} {boundary : Int} {candidate : PricingHistoryCandidate} :
    candidate ∈ track.closedAt boundary ↔ candidate ∈ track.closed ∨
      ∃ previous, track.current = some previous ∧
        closeCandidate previous boundary = some candidate := by
  unfold closedAt
  rw [List.mem_append, Option.mem_toList, Option.bind_eq_some_iff]

structure Tells (job : JobInput) (model : String) (saved : List PricingHistorySnapshot)
    (track : IntervalTrack) : Prop where
  closed : ∀ candidate ∈ track.closed, job.rangeFrom ≤ candidate.effectiveAt ∧
    candidate.effectiveAt < candidate.validUntil ∧ candidate.validUntil ≤ clock job saved
  apart : track.closed.Pairwise fun earlier later => earlier.validUntil ≤ later.effectiveAt
  current : ∀ candidate, track.current = some candidate →
    job.rangeFrom ≤ candidate.effectiveAt ∧ candidate.effectiveAt ≤ clock job saved ∧
      ∀ earlier ∈ track.closed, earlier.validUntil ≤ candidate.effectiveAt
  shows : ∀ instant, job.rangeFrom ≤ instant → ∀ terms, track.Shows instant terms ↔
    (priceAt saved model instant).map ResolvedPricingEntry.terms = some terms
  ended : ∀ candidate ∈ track.closed, ∃ snapshot ∈ saved,
    job.boundary snapshot.ref = candidate.validUntil ∧
      (snapshot.price model).map ResolvedPricingEntry.terms ≠ some candidate.terms

theorem tells_empty (job : JobInput) (model : String) : Tells job model [] .empty where
  closed := fun _ among => absurd among List.not_mem_nil
  apart := .nil
  current := fun _ current => absurd current (Option.some_ne_none _).symm
  shows := by
    intro instant _ terms
    refine iff_of_false ?_ (Option.some_ne_none _).symm
    rintro (⟨candidate, among, -⟩ | ⟨candidate, current, -⟩)
    · exact List.not_mem_nil among
    · exact absurd current (Option.some_ne_none _).symm
  ended := fun _ among => absurd among List.not_mem_nil

section Apply

variable {job : JobInput} {model : String} {saved : List PricingHistorySnapshot}
  {snapshot : PricingHistorySnapshot} {track : IntervalTrack}

theorem Tells.span_closedAt (tells : track.Tells job model saved) (boundary : Int) :
    ∀ candidate ∈ track.closedAt boundary, job.rangeFrom ≤ candidate.effectiveAt ∧
      candidate.effectiveAt < candidate.validUntil := by
  intro candidate among
  rcases mem_closedAt.mp among with old | ⟨previous, current, made⟩
  · obtain ⟨lower, nonempty, -⟩ := tells.closed candidate old
    exact ⟨lower, nonempty⟩
  · obtain ⟨start, stop, begun, -⟩ := closeCandidate_eq_some made
    refine ⟨?_, stop ▸ begun⟩
    rw [start]
    exact (tells.current previous current).1

theorem Tells.ended_closedAt (tells : track.Tells job model saved) {boundary : Int}
    (later : clock job saved ≤ boundary) :
    ∀ candidate ∈ track.closedAt boundary, candidate.validUntil ≤ boundary := by
  intro candidate among
  rcases mem_closedAt.mp among with old | ⟨previous, -, made⟩
  · exact (tells.closed candidate old).2.2.trans later
  · exact (closeCandidate_eq_some made).2.1.le

theorem Tells.apart_closedAt (tells : track.Tells job model saved) (boundary : Int) :
    (track.closedAt boundary).Pairwise fun earlier later =>
      earlier.validUntil ≤ later.effectiveAt := by
  unfold closedAt
  refine List.pairwise_append.mpr ⟨tells.apart, ?_, ?_⟩
  · cases track.current.bind fun previous => closeCandidate previous boundary with
    | none => exact .nil
    | some candidate => exact List.pairwise_singleton _ _
  · intro earlier among candidate last
    obtain ⟨previous, current, made⟩ := Option.bind_eq_some_iff.mp (Option.mem_toList.mp last)
    rw [(closeCandidate_eq_some made).1]
    exact (tells.current previous current).2.2 earlier among

theorem shows_closedAt {boundary instant : Int} (early : instant < boundary) (terms : Terms) :
    (∃ candidate ∈ track.closedAt boundary, candidate.Contains instant ∧ candidate.terms = terms) ↔
      track.Shows instant terms := by
  constructor
  · rintro ⟨candidate, among, contains, same⟩
    rcases mem_closedAt.mp among with old | ⟨previous, current, made⟩
    · exact .inl ⟨candidate, old, contains, same⟩
    · obtain ⟨start, -, -, terms_⟩ := closeCandidate_eq_some made
      exact .inr ⟨previous, current, start ▸ contains.1, terms_.symm.trans same⟩
  · rintro (⟨candidate, among, contains, same⟩ | ⟨previous, current, begun, same⟩)
    · exact ⟨candidate, mem_closedAt.mpr (.inl among), contains, same⟩
    · obtain ⟨closed, made⟩ := exists_closeCandidate (begun.trans_lt early)
      obtain ⟨start, stop, -, terms_⟩ := closeCandidate_eq_some made
      refine ⟨closed, mem_closedAt.mpr (.inr ⟨previous, current, made⟩), ⟨?_, ?_⟩,
        terms_.trans same⟩
      · rwa [start]
      · rwa [stop]

theorem Tells.not_contains (tells : track.Tells job model saved) {boundary instant : Int}
    (later : clock job saved ≤ boundary) (past : boundary ≤ instant) :
    ∀ candidate ∈ track.closedAt boundary, ¬ candidate.Contains instant := by
  intro candidate among contains
  have ended := tells.ended_closedAt later candidate among
  have inside := contains.2
  omega

/-- **What a snapshot does to a track.** It goes on with the same terms, or the open candidate ends
and the snapshot's price opens the next. -/
theorem advance_cases (model : String) (boundary : Int) (ref : PricingHistoryCommitRef)
    (resolved : Option ResolvedPricingEntry) (track : IntervalTrack) :
    (∃ previous entry, track.current = some previous ∧ resolved = some entry ∧
      previous.terms = entry.terms ∧ track.advance model boundary ref resolved = track) ∨
    ((∀ previous, track.current = some previous →
        resolved.map ResolvedPricingEntry.terms ≠ some previous.terms) ∧
      track.advance model boundary ref resolved
        = ⟨track.closedAt boundary,
            resolved.map fun entry => openedCandidate model entry boundary ref⟩) := by
  unfold advance
  by_cases same : sameCandidate track.current resolved = true
  · left
    rw [if_pos same]
    cases current : track.current with
    | none =>
      rw [current] at same
      cases same
    | some previous =>
      cases resolved with
      | none =>
        rw [current] at same
        cases same
      | some entry =>
        rw [current, sameCandidate_iff] at same
        exact ⟨previous, entry, rfl, rfl, same, rfl⟩
  · right
    rw [if_neg same]
    refine ⟨fun previous current agrees => same ?_, rfl⟩
    obtain ⟨entry, rfl, terms⟩ := Option.map_eq_some_iff.mp agrees
    rw [current, sameCandidate_iff]
    exact terms.symm

theorem Tells.continue_ (tells : track.Tells job model saved)
    (later : clock job saved ≤ job.boundary snapshot.ref) {previous : OpenPricingHistoryCandidate}
    {entry : ResolvedPricingEntry} (current : track.current = some previous)
    (price : snapshot.price model = some entry) (same : previous.terms = entry.terms) :
    track.Tells job model (saved ++ [snapshot]) where
  closed := by
    intro candidate among
    obtain ⟨lower, nonempty, upper⟩ := tells.closed candidate among
    rw [clock_concat]
    exact ⟨lower, nonempty, upper.trans later⟩
  apart := tells.apart
  current := by
    intro candidate opened
    obtain ⟨lower, upper, after⟩ := tells.current candidate opened
    rw [clock_concat]
    exact ⟨lower, upper.trans later, after⟩
  shows := by
    intro instant lower terms
    rw [priceAt_concat]
    by_cases past : snapshot.ref.committedAt ≤ instant
    · have reached := (Track.committedAt_le_iff snapshot lower).mp past
      rw [if_pos past, price, Option.map_some, Option.some_inj]
      constructor
      · rintro (⟨candidate, among, contains, -⟩ | ⟨candidate, opened, -, rfl⟩)
        · exact absurd contains
            (tells.not_contains later reached candidate (mem_closedAt.mpr (.inl among)))
        · rw [← same, Option.some_inj.mp (current.symm.trans opened)]
      · rintro rfl
        exact .inr ⟨previous, current,
          ((tells.current previous current).2.1.trans later).trans reached, same⟩
    · rw [if_neg past]
      exact tells.shows instant lower terms
  ended := by
    intro candidate among
    obtain ⟨other, held, ends⟩ := tells.ended candidate among
    exact ⟨other, List.mem_append_left _ held, ends⟩

theorem Tells.turn (tells : track.Tells job model saved)
    (later : clock job saved ≤ job.boundary snapshot.ref)
    (differs : ∀ previous, track.current = some previous →
      (snapshot.price model).map ResolvedPricingEntry.terms ≠ some previous.terms) :
    Tells job model (saved ++ [snapshot]) ⟨track.closedAt (job.boundary snapshot.ref),
      (snapshot.price model).map fun entry =>
        openedCandidate model entry (job.boundary snapshot.ref) snapshot.ref⟩ where
  closed := by
    intro candidate among
    obtain ⟨lower, nonempty⟩ := tells.span_closedAt _ candidate among
    rw [clock_concat]
    exact ⟨lower, nonempty, tells.ended_closedAt later candidate among⟩
  apart := tells.apart_closedAt _
  current := by
    intro candidate opened
    obtain ⟨entry, -, rfl⟩ := Option.map_eq_some_iff.mp opened
    rw [clock_concat]
    exact ⟨Track.rangeFrom_le_boundary job snapshot.ref, le_rfl, tells.ended_closedAt later⟩
  shows := by
    intro instant lower terms
    rw [priceAt_concat]
    by_cases past : snapshot.ref.committedAt ≤ instant
    · have reached := (Track.committedAt_le_iff snapshot lower).mp past
      rw [if_pos past]
      constructor
      · rintro (⟨candidate, among, contains, -⟩ | ⟨candidate, opened, -, rfl⟩)
        · exact absurd contains (tells.not_contains later reached candidate among)
        · obtain ⟨entry, price, rfl⟩ := Option.map_eq_some_iff.mp opened
          rw [price]
          rfl
      · intro inForce
        obtain ⟨entry, price, rfl⟩ := Option.map_eq_some_iff.mp inForce
        exact .inr ⟨_, Option.map_eq_some_iff.mpr ⟨entry, price, rfl⟩, reached, rfl⟩
    · have early : instant < job.boundary snapshot.ref :=
        not_le.mp fun reached => past ((Track.committedAt_le_iff snapshot lower).mpr reached)
      rw [if_neg past]
      refine (or_iff_left ?_).trans
        ((shows_closedAt early terms).trans (tells.shows instant lower terms))
      rintro ⟨candidate, opened, begun, -⟩
      obtain ⟨entry, -, rfl⟩ := Option.map_eq_some_iff.mp opened
      exact absurd begun (not_le.mpr early)
  ended := by
    intro candidate among
    rcases mem_closedAt.mp among with old | ⟨previous, current, made⟩
    · obtain ⟨other, held, ends⟩ := tells.ended candidate old
      exact ⟨other, List.mem_append_left _ held, ends⟩
    · obtain ⟨-, stop, -, terms⟩ := closeCandidate_eq_some made
      refine ⟨snapshot, List.mem_append_right _ (List.mem_singleton.mpr rfl), stop.symm, ?_⟩
      rw [terms]
      exact differs previous current

/-- **One more snapshot, told.** -/
theorem Tells.apply (tells : track.Tells job model saved)
    (later : ∀ other ∈ saved, other.ref.committedAt ≤ snapshot.ref.committedAt) :
    (track.apply job model snapshot).Tells job model (saved ++ [snapshot]) := by
  have onTime := clock_le_boundary job later
  unfold IntervalTrack.apply
  rcases advance_cases model (job.boundary snapshot.ref) snapshot.ref (snapshot.price model) track
    with ⟨previous, entry, current, price, same, moved⟩ | ⟨differs, moved⟩
  · rw [moved]
    exact tells.continue_ onTime current price same
  · rw [moved]
    exact tells.turn onTime differs

/-- **A chronological list of snapshots, told.** -/
theorem tells_of (chronological : Chronological saved) :
    (saved.foldl (IntervalTrack.apply job model) .empty).Tells job model saved := by
  induction saved using List.reverseRecOn with
  | nil => exact tells_empty job model
  | append_singleton saved snapshot ih =>
    have split := List.pairwise_append.mp chronological
    rw [List.foldl_concat]
    exact (ih split.1).apply fun other among =>
      split.2.2 other among snapshot (List.mem_singleton.mpr rfl)

end Apply

end IntervalTrack

/-! ### The builder accepts chronological snapshots -/

theorem applyPricingSnapshot_ok {state after : PricingHistoryIntervalState}
    {snapshot : PricingHistorySnapshot} (applied : applyPricingSnapshot state snapshot = .ok after) :
    (state.lastCommittedAt = none → snapshot.ref.committedAt ≤ state.rangeFrom) ∧
      ∀ last, state.lastCommittedAt = some last → last < snapshot.ref.committedAt := by
  simp only [applyPricingSnapshot] at applied
  split at applied
  case isTrue => cases applied
  case isFalse notFirst =>
    split at applied
    case isTrue => cases applied
    case isFalse inOrder =>
      refine ⟨fun none_ => not_lt.mp fun late => notFirst ⟨none_, late⟩, fun last found => ?_⟩
      refine not_le.mp fun early => inOrder ?_
      rw [found]
      exact decide_eq_true early

def Strict (snapshots : List PricingHistorySnapshot) : Prop :=
  snapshots.Pairwise fun earlier later => earlier.ref.committedAt < later.ref.committedAt

theorem Strict.le_last {saved : List PricingHistorySnapshot} (strict : Strict saved)
    {last : PricingHistorySnapshot} (found : saved.getLast? = some last) :
    ∀ snapshot ∈ saved, snapshot.ref.committedAt ≤ last.ref.committedAt := by
  obtain ⟨front, rfl⟩ := List.getLast?_eq_some_iff.mp found
  intro snapshot among
  rcases List.mem_append.mp among with early | same
  · exact le_of_lt ((List.pairwise_append.mp strict).2.2 snapshot early last
      (List.mem_singleton.mpr rfl))
  · rw [List.mem_singleton.mp same]

/-- **What the builder accepts is chronological, and built.** -/
theorem accepted_built {job : JobInput} (rest saved : List PricingHistorySnapshot)
    {state after : PricingHistoryIntervalState} (built : Built job saved state)
    (strict : Strict saved) (accepted : rest.foldlM applyPricingSnapshot state = .ok after) :
    Built job (saved ++ rest) after ∧ Strict (saved ++ rest) ∧
      (saved = [] → ∀ snapshot ∈ rest.head?, snapshot.ref.committedAt ≤ job.rangeFrom) := by
  induction rest generalizing saved state with
  | nil =>
    cases accepted
    rw [List.append_nil]
    exact ⟨built, strict, fun _ _ among => absurd among (Option.not_mem_none _)⟩
  | cons snapshot rest ih =>
    rw [List.foldlM_cons] at accepted
    cases applied : applyPricingSnapshot state snapshot with
    | error message =>
      rw [applied] at accepted
      cases accepted
    | ok middle =>
      obtain ⟨first, next⟩ := applyPricingSnapshot_ok applied
      rw [built.last, built.rangeFrom] at first
      rw [built.last] at next
      have later : ∀ other ∈ saved, other.ref.committedAt < snapshot.ref.committedAt := by
        intro other among
        obtain ⟨last, found⟩ := Option.isSome_iff_exists.mp
          (List.getLast?_isSome.mpr (List.ne_nil_of_mem among))
        exact (strict.le_last found other among).trans_lt
          (next _ (Option.map_eq_some_iff.mpr ⟨last, found, rfl⟩))
      obtain ⟨middle', applied', built'⟩ := built.apply snapshot
        (fun none_ => first (by rw [none_]; rfl)) later
      rw [applied] at accepted applied'
      cases applied'
      have strict' : Strict (saved ++ [snapshot]) := by
        refine List.pairwise_append.mpr ⟨strict, List.pairwise_singleton _ _, ?_⟩
        intro other among last same
        rw [List.mem_singleton.mp same]
        exact later other among
      obtain ⟨whole, order, -⟩ := ih (saved ++ [snapshot]) built' strict' accepted
      rw [List.append_cons]
      refine ⟨whole, order, fun none_ head same => ?_⟩
      rw [← Option.some_inj.mp same]
      exact first (by rw [none_]; rfl)

theorem exists_job (rangeFrom : Int) (models : List String) : ∃ job : JobInput,
    job.rangeFrom = rangeFrom ∧
      (∀ model, model ∈ job.models ↔ model ∈ models ∧ model.toList.all isWhiteSpace = false) ∧
      createPricingIntervalState rangeFrom models
        = createPricingIntervalState job.rangeFrom job.models := by
  have among : ∀ model, model ∈ (models.filter fun model => !model.toList.all isWhiteSpace).dedup ↔
      model ∈ models ∧ model.toList.all isWhiteSpace = false := by
    intro model
    rw [List.mem_dedup, List.mem_filter, Bool.not_eq_true']
  refine ⟨⟨rangeFrom, rangeFrom + 1, _, Int.lt_succ rangeFrom, List.nodup_dedup _, fun model named =>
    ((among model).mp named).2⟩, rfl, among, ?_⟩
  unfold createPricingIntervalState
  dsimp only
  have named : (models.filter fun model => !model.toList.all isWhiteSpace).dedup.filter
      (fun model => !model.toList.all isWhiteSpace)
      = (models.filter fun model => !model.toList.all isWhiteSpace).dedup := by
    refine List.filter_eq_self.mpr fun model kept => ?_
    rw [((among model).mp kept).2]
    rfl
  rw [named, (List.nodup_dedup _).dedup]

/-! ### The order of the result -/

section Order

variable {localeCompare : String → String → Ordering}

/-- The order of the candidates, by the name of the model and by the start. -/
def candidateCmp (localeCompare : String → String → Ordering) :
    PricingHistoryCandidate → PricingHistoryCandidate → Ordering :=
  compareLex (fun left right => localeCompare left.modelId right.modelId)
    (compareOn PricingHistoryCandidate.effectiveAt)

theorem candidateOrder_eq (left right : PricingHistoryCandidate) :
    candidateOrder localeCompare left right = (candidateCmp localeCompare left right).isLE := by
  show (_ != Ordering.gt) = Ordering.isLE _
  unfold candidateCmp compareLex compareOn
  cases (localeCompare left.modelId right.modelId).then
    (compare left.effectiveAt right.effectiveAt) <;> rfl

variable [Std.TransCmp localeCompare]

instance transCmp_candidateCmp : Std.TransCmp (candidateCmp localeCompare) :=
  have : Std.TransCmp fun left right : PricingHistoryCandidate =>
      localeCompare left.modelId right.modelId :=
    { eq_swap := Std.OrientedCmp.eq_swap, isLE_trans := Std.TransCmp.isLE_trans }
  inferInstanceAs (Std.TransCmp (compareLex _ _))

theorem pairwise_candidateOrder (candidates : List PricingHistoryCandidate) :
    (candidates.mergeSort (candidateOrder localeCompare)).Pairwise
      fun left right => (candidateCmp localeCompare left right).isLE = true := by
  refine (List.pairwise_mergeSort ?_ ?_ candidates).imp fun {left right} sorted => ?_
  · intro a b c
    simp only [candidateOrder_eq]
    exact Std.TransCmp.isLE_trans
  · intro a b
    simp only [candidateOrder_eq]
    rw [(Std.OrientedCmp.eq_swap : candidateCmp localeCompare b a = _)]
    cases candidateCmp localeCompare a b <;> rfl
  · rwa [← candidateOrder_eq]

theorem le_of_candidateCmp {left right : PricingHistoryCandidate}
    (same : left.modelId = right.modelId)
    (sorted : (candidateCmp localeCompare left right).isLE = true) :
    left.effectiveAt ≤ right.effectiveAt := by
  replace sorted : ((localeCompare left.modelId right.modelId).then
    (compare left.effectiveAt right.effectiveAt)).isLE = true := sorted
  rw [same, (Std.ReflCmp.compare_self : localeCompare right.modelId right.modelId = .eq)] at sorted
  exact not_lt.mp fun later =>
    Ordering.isLE_iff_ne_gt.mp sorted (compare_gt_iff_gt.mpr later)

end Order

/-- **The builder takes exactly the lists whose times increase, from the start of the range or
before.** -/
theorem accepted_iff (rangeFrom : Int) (models : List String)
    (snapshots : List PricingHistorySnapshot) :
    (∃ state, snapshots.foldlM applyPricingSnapshot (createPricingIntervalState rangeFrom models)
        = .ok state) ↔
      Strict snapshots ∧ ∀ snapshot ∈ snapshots.head?, snapshot.ref.committedAt ≤ rangeFrom := by
  obtain ⟨job, rfl, -, created⟩ := exists_job rangeFrom models
  rw [created]
  constructor
  · rintro ⟨state, accepted⟩
    obtain ⟨-, strict, first⟩ := accepted_built snapshots [] (built_create job) .nil accepted
    exact ⟨strict, first rfl⟩
  · rintro ⟨strict, first⟩
    obtain ⟨state, accepted, -⟩ := built_of_snapshots job first strict
    exact ⟨state, accepted⟩

/-! ### The result -/

theorem filter_collected_track {state : PricingHistoryIntervalState} {model : String}
    {track : IntervalTrack} (rangeTo : Int) (builds : Builds model (state.opened, state.closed) track)
    (keyed : Keyed (state.opened, state.closed)) :
    ((collected state rangeTo).filter fun candidate => candidate.modelId = model)
      = track.closedAt rangeTo := by
  unfold collected IntervalTrack.closedAt
  rw [List.filter_append, builds.closed,
    Toard.Library.filter_filterMap_key (fun _ _ made => modelId_closeCandidate made),
    Toard.Library.OrderedMap.values_filter _ OpenPricingHistoryCandidate.modelId keyed,
    builds.opened]
  cases track.current with
  | none => rfl
  | some candidate => cases made : closeCandidate candidate rangeTo <;> simp [made]

theorem intervals_perm_track {state : PricingHistoryIntervalState} {model : String}
    {track : IntervalTrack} {rangeTo : Int} {localeCompare : String → String → Ordering}
    {intervals : List PricingHistoryCandidate}
    (returned : closePricingIntervals localeCompare state rangeTo = .ok intervals)
    (builds : Builds model (state.opened, state.closed) track)
    (keyed : Keyed (state.opened, state.closed)) :
    (intervals.filter fun candidate => candidate.modelId = model).Perm
      ((track.closedAt rangeTo).filter fun candidate =>
        candidate.effectiveAt ≥ state.rangeFrom ∧ candidate.validUntil ≤ rangeTo) := by
  unfold closePricingIntervals at returned
  split at returned
  case isTrue => cases returned
  case isFalse =>
    cases returned
    rw [← filter_collected_track rangeTo builds keyed, List.filter_comm]
    exact (List.mergeSort_perm _ _).filter _

theorem returned_sorted {state : PricingHistoryIntervalState} {rangeTo : Int}
    {localeCompare : String → String → Ordering} [Std.TransCmp localeCompare]
    {intervals : List PricingHistoryCandidate}
    (returned : closePricingIntervals localeCompare state rangeTo = .ok intervals) :
    intervals.Pairwise fun left right => (candidateCmp localeCompare left right).isLE = true := by
  unfold closePricingIntervals at returned
  split at returned
  case isTrue => cases returned
  case isFalse =>
    cases returned
    exact pairwise_candidateOrder _

theorem pairwise_of_apart {candidates : List PricingHistoryCandidate}
    (sorted : candidates.Pairwise fun left right => left.effectiveAt ≤ right.effectiveAt)
    (apart : candidates.Pairwise fun left right =>
      left.validUntil ≤ right.effectiveAt ∨ right.validUntil ≤ left.effectiveAt)
    (nonempty : ∀ candidate ∈ candidates, candidate.effectiveAt < candidate.validUntil) :
    candidates.Pairwise fun earlier later => earlier.validUntil ≤ later.effectiveAt := by
  refine (sorted.and apart).imp_of_mem fun {left right} _ among ⟨starts, either⟩ => ?_
  have := nonempty right among
  omega

section Result

variable {job : JobInput} {model : String} {snapshots : List PricingHistorySnapshot}
  {track : IntervalTrack} {rangeTo : Int} {intervals : List PricingHistoryCandidate}

/-- The candidates returned for one model are the ones of its track that lie in the range. -/
def Returns (job : JobInput) (model : String) (track : IntervalTrack) (rangeTo : Int)
    (intervals : List PricingHistoryCandidate) : Prop :=
  (intervals.filter fun candidate => candidate.modelId = model).Perm
    ((track.closedAt rangeTo).filter fun candidate =>
      candidate.effectiveAt ≥ job.rangeFrom ∧ candidate.validUntil ≤ rangeTo)

theorem Returns.mem_iff (returns : Returns job model track rangeTo intervals)
    {interval : PricingHistoryCandidate} : interval ∈ intervals ∧ interval.modelId = model ↔
      interval ∈ track.closedAt rangeTo ∧ job.rangeFrom ≤ interval.effectiveAt ∧
        interval.validUntil ≤ rangeTo := by
  have same : interval ∈ _ ↔ interval ∈ _ := List.Perm.mem_iff returns
  rw [List.mem_filter, List.mem_filter, decide_eq_true_iff, decide_eq_true_iff] at same
  exact same

theorem Returns.apart (returns : Returns job model track rangeTo intervals)
    (tells : track.Tells job model snapshots)
    {localeCompare : String → String → Ordering} [Std.TransCmp localeCompare]
    (sorted : intervals.Pairwise fun left right =>
      (candidateCmp localeCompare left right).isLE = true) :
    (intervals.filter fun candidate => candidate.modelId = model).Pairwise fun earlier later =>
      earlier.validUntil ≤ later.effectiveAt := by
  have own : ∀ interval ∈ intervals.filter fun candidate => candidate.modelId = model,
      interval ∈ intervals ∧ interval.modelId = model := fun interval among =>
    ⟨(List.mem_filter.mp among).1, of_decide_eq_true (List.mem_filter.mp among).2⟩
  refine pairwise_of_apart ?_ ?_ ?_
  · refine (sorted.filter _).imp_of_mem fun {left right} among among' order => ?_
    exact le_of_candidateCmp ((own left among).2.trans (own right among').2.symm) order
  · refine (List.Perm.pairwise_iff (fun {left right} => Or.symm) returns).mpr ?_
    exact ((tells.apart_closedAt rangeTo).filter _).imp .inl
  · intro interval among
    exact (tells.span_closedAt rangeTo interval (returns.mem_iff.mp (own interval among)).1).2

theorem Returns.price (returns : Returns job model track rangeTo intervals)
    (tells : track.Tells job model snapshots) {instant : Int} (lower : job.rangeFrom ≤ instant)
    {interval : PricingHistoryCandidate} (among : interval ∈ intervals)
    (own : interval.modelId = model) (contains : interval.Contains instant) :
    (priceAt snapshots model instant).map ResolvedPricingEntry.terms = some interval.terms := by
  obtain ⟨held, -, inside⟩ := returns.mem_iff.mp ⟨among, own⟩
  refine (tells.shows instant lower interval.terms).mp ?_
  exact (IntervalTrack.shows_closedAt (contains.2.trans_le inside) _).mp
    ⟨interval, held, contains, rfl⟩

theorem Returns.covered (returns : Returns job model track rangeTo intervals)
    (tells : track.Tells job model snapshots) {instant : Int} (lower : job.rangeFrom ≤ instant)
    (upper : instant < rangeTo)
    (settled : ∀ snapshot ∈ snapshots, rangeTo < snapshot.ref.committedAt →
      (snapshot.price model).map ResolvedPricingEntry.terms
        = (priceAt snapshots model rangeTo).map ResolvedPricingEntry.terms)
    {price : ResolvedPricingEntry} (inForce : priceAt snapshots model instant = some price) :
    ∃ interval ∈ intervals, interval.modelId = model ∧ interval.Contains instant ∧
      interval.terms = price.terms := by
  have shown := (tells.shows instant lower price.terms).mpr (by rw [inForce, Option.map_some])
  obtain ⟨interval, held, contains, same⟩ := (IntervalTrack.shows_closedAt upper _).mpr shown
  have start := (tells.span_closedAt rangeTo interval held).1
  have inside : interval.validUntil ≤ rangeTo := by
    by_contra beyond
    rcases IntervalTrack.mem_closedAt.mp held with old | ⟨previous, -, made⟩
    · obtain ⟨snapshot, saved, ends, differs⟩ := tells.ended interval old
      have late : rangeTo < snapshot.ref.committedAt := by
        refine not_le.mp fun early => ?_
        have := (Track.committedAt_le_iff snapshot (lower.trans upper.le)).mp early
        omega
      -- The interval goes past the end of the range, so that it tells the price there.
      have atEnd := (tells.shows rangeTo (lower.trans upper.le) interval.terms).mp
        (.inl ⟨interval, old, ⟨contains.1.trans upper.le, not_le.mp beyond⟩, rfl⟩)
      exact differs ((settled snapshot saved late).trans atEnd)
    · exact beyond (closeCandidate_eq_some made).2.1.le
  obtain ⟨among, own⟩ := returns.mem_iff.mpr ⟨held, start, inside⟩
  exact ⟨interval, among, own, contains, same⟩

end Result

/-- **The intervals are right about the prices.** Of a list of snapshots that the builder accepts,
the intervals returned are non-empty and in the range; those of a model are sorted and do not
overlap; each has the terms of the price in force at every instant it contains; and every instant
of the range, its end excepted, at which a model asked for has a price is in one, if the snapshots
after the range leave that price. -/
theorem closePricingIntervals_cover {rangeFrom rangeTo : Int} {models : List String}
    {snapshots : List PricingHistorySnapshot} {state : PricingHistoryIntervalState}
    {intervals : List PricingHistoryCandidate} {localeCompare : String → String → Ordering}
    [Std.TransCmp localeCompare]
    (accepted : snapshots.foldlM applyPricingSnapshot (createPricingIntervalState rangeFrom models)
      = .ok state)
    (returned : closePricingIntervals localeCompare state rangeTo = .ok intervals) :
    (∀ interval ∈ intervals, rangeFrom ≤ interval.effectiveAt ∧
        interval.effectiveAt < interval.validUntil ∧ interval.validUntil ≤ rangeTo) ∧
      ∀ model, ((intervals.filter fun interval => interval.modelId = model).Pairwise
          fun earlier later => earlier.validUntil ≤ later.effectiveAt) ∧
        ∀ instant, rangeFrom ≤ instant → instant < rangeTo →
          (∀ interval ∈ intervals, interval.modelId = model → interval.Contains instant →
            (priceAt snapshots model instant).map ResolvedPricingEntry.terms
              = some interval.terms) ∧
          (model ∈ models → model.toList.all isWhiteSpace = false →
            (∀ snapshot ∈ snapshots, rangeTo < snapshot.ref.committedAt →
              (snapshot.price model).map ResolvedPricingEntry.terms
                = (priceAt snapshots model rangeTo).map ResolvedPricingEntry.terms) →
            ∀ price, priceAt snapshots model instant = some price →
              ∃ interval ∈ intervals, interval.modelId = model ∧ interval.Contains instant ∧
                interval.terms = price.terms) := by
  obtain ⟨job, rfl, named, created⟩ := exists_job rangeFrom models
  rw [created] at accepted
  obtain ⟨built, strict, -⟩ := accepted_built snapshots [] (built_create job) .nil accepted
  rw [List.nil_append] at built strict
  have tells : ∀ model, (snapshots.foldl (IntervalTrack.apply job model) .empty).Tells job model
      snapshots := fun model => IntervalTrack.tells_of (strict.imp le_of_lt)
  have returns : ∀ model ∈ job.models, Returns job model
      (snapshots.foldl (IntervalTrack.apply job model) .empty) rangeTo intervals := by
    intro model among
    have perm := intervals_perm_track returned (built.builds model among) built.keyed
    rwa [built.rangeFrom] at perm
  have none_ : ∀ model ∉ job.models,
      (intervals.filter fun interval => interval.modelId = model) = [] := by
    intro model absent
    have perm := intervals_perm_track returned (built.others model absent) built.keyed
    exact perm.eq_nil
  have known : ∀ interval ∈ intervals, interval.modelId ∈ job.models := by
    intro interval among
    by_contra absent
    have filtered := none_ interval.modelId absent
    rw [List.filter_eq_nil_iff] at filtered
    exact filtered interval among (decide_eq_true rfl)
  refine ⟨fun interval among => ?_, fun model => ⟨?_, fun instant lower upper => ⟨?_, ?_⟩⟩⟩
  · obtain ⟨held, start, inside⟩ := (returns _ (known interval among)).mem_iff.mp ⟨among, rfl⟩
    exact ⟨start, ((tells _).span_closedAt rangeTo interval held).2, inside⟩
  · by_cases among : model ∈ job.models
    · exact (returns model among).apart (tells model) (returned_sorted returned)
    · rw [none_ model among]
      exact .nil
  · intro interval among own contains
    exact (returns model (own ▸ known interval among)).price (tells model) lower among own contains
  · intro asked name settled price inForce
    exact (returns model ((named model).mpr ⟨asked, name⟩)).covered (tells model) lower upper settled
      inForce

/-- A price at the baseline, and the same again without its multiplier of one. -/
def pricedTwice : List PricingHistorySnapshot :=
  [⟨⟨"a", 0⟩, (priceList "m" 1).mapValues fun pricing =>
      { pricing with fastMultiplier := some (.finite 1) }⟩, ⟨⟨"b", 5⟩, priceList "m" 1⟩]

/-- One interval for both commits. -/
theorem closePricingIntervals_cover_twice : ∃ state intervals,
    pricedTwice.foldlM applyPricingSnapshot (createPricingIntervalState 0 ["m"]) = .ok state ∧
      closePricingIntervals compare state 10 = .ok intervals ∧
      ∃ interval ∈ intervals, interval.modelId = "m" ∧ interval.Contains 7 := by
  obtain ⟨state, accepted⟩ := (accepted_iff 0 ["m"] pricedTwice).mpr
    ⟨by unfold Strict; decide, by decide⟩
  have start : state.rangeFrom = 0 := by
    rw [createPricingIntervalState_single] at accepted
    cases accepted
    rfl
  obtain ⟨intervals, returned⟩ : ∃ intervals, closePricingIntervals compare state 10
      = .ok intervals := by
    unfold closePricingIntervals
    rw [start]
    exact ⟨_, rfl⟩
  have covers := ((closePricingIntervals_cover accepted returned).2 "m").2 7 (by decide) (by decide)
  obtain ⟨interval, among, own, contains, -⟩ := covers.2 (by decide) (by decide) (by decide) _ rfl
  exact ⟨state, intervals, accepted, returned, interval, among, own, contains⟩

/-- **The end of the range is in no interval, and an interval keeps its first pricing.** The model
has a price at the instant 10; and at the instant 7 the price is the second commit's. -/
theorem end_not_covered : ∃ state intervals,
    pricedTwice.foldlM applyPricingSnapshot (createPricingIntervalState 0 ["m"]) = .ok state ∧
      closePricingIntervals compare state 10 = .ok intervals ∧
      (priceAt pricedTwice "m" 10).isSome ∧ (∀ interval ∈ intervals, ¬ interval.Contains 10) ∧
      ∀ interval ∈ intervals, interval.Contains 7 ∧
        (priceAt pricedTwice "m" 7).map (·.pricing) ≠ some interval.pricing := by
  rw [createPricingIntervalState_single]
  refine ⟨_, _, rfl, rfl, by decide, ?_, ?_⟩
  · intro interval among
    rw [List.mem_mergeSort] at among
    revert interval
    unfold PricingHistoryCandidate.Contains
    decide +kernel
  · intro interval among
    rw [List.mem_mergeSort] at among
    revert interval
    unfold PricingHistoryCandidate.Contains
    decide +kernel

end Toard.Pricing
