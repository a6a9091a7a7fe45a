/-
**Pricing intervals in memory (`pricing-history-intervals.ts`).**

`applyPricingSnapshot` walks through the snapshots with an explicit map of open candidates, and
`closePricingIntervals` ends them with the range. Model by model this is an `IntervalTrack`, and
`applyPricingSnapshots_follows` says so for a whole list of snapshots.

The order of the result is that of `localeCompare`, which belongs to the JavaScript engine.
-/

import Mathlib.Data.List.Dedup
import Mathlib.Data.List.Lex
import Toard.Pricing.Timeline

namespace Toard.Pricing

open Toard.Library (OrderedMap foldl_keyed foldl_keyed_other)

/-! ### The builder -/

structure PricingHistoryCandidate where
  modelId : String
  sourceModelId : String
  effectiveAt : Int
  validUntil : Int
  pricing : ModelPricing
  sourceCommitSha : String
  sourceCommittedAt : Int
deriving DecidableEq

structure OpenPricingHistoryCandidate where
  modelId : String
  sourceModelId : String
  effectiveAt : Int
  pricing : ModelPricing
  sourceCommitSha : String
  sourceCommittedAt : Int
deriving DecidableEq

structure PricingHistoryIntervalState where
  rangeFrom : Int
  models : List String
  lastCommittedAt : Option Int
  opened : OrderedMap String OpenPricingHistoryCandidate
  closed : List PricingHistoryCandidate

def createPricingIntervalState (rangeFrom : Int) (models : List String) :
    PricingHistoryIntervalState where
  rangeFrom := rangeFrom
  models := ((models.filter fun model => !model.toList.all isWhiteSpace).dedup).mergeSort
    fun a b => codeUnits a ≤ codeUnits b
  lastCommittedAt := none
  opened := .empty
  closed := []

def closeCandidate (candidate : OpenPricingHistoryCandidate) (validUntil : Int) :
    Option PricingHistoryCandidate :=
  if validUntil ≤ candidate.effectiveAt then none
  else some {
    modelId := candidate.modelId
    sourceModelId := candidate.sourceModelId
    effectiveAt := candidate.effectiveAt
    validUntil := validUntil
    pricing := candidate.pricing
    sourceCommitSha := candidate.sourceCommitSha
    sourceCommittedAt := candidate.sourceCommittedAt }

def sameCandidate (previous : Option OpenPricingHistoryCandidate)
    (resolved : Option ResolvedPricingEntry) : Bool :=
  match previous, resolved with
  | some previous, some resolved =>
    previous.sourceModelId == resolved.modelId && samePricing previous.pricing resolved.pricing
  | _, _ => false

def openedCandidate (model : String) (resolved : ResolvedPricingEntry) (boundary : Int)
    (ref : PricingHistoryCommitRef) : OpenPricingHistoryCandidate where
  modelId := model
  sourceModelId := resolved.modelId
  effectiveAt := boundary
  pricing := resolved.pricing
  sourceCommitSha := ref.sha
  sourceCommittedAt := ref.committedAt

abbrev IntervalMaps := OrderedMap String OpenPricingHistoryCandidate × List PricingHistoryCandidate

def applyModelSnapshot (boundary : Int) (snapshot : PricingHistorySnapshot) (maps : IntervalMaps)
    (model : String) : IntervalMaps :=
  let previous := maps.1.get model
  let resolved := snapshot.price model
  if sameCandidate previous resolved then maps
  else
    let maps := match previous with
      | some previous =>
        (maps.1.delete model, maps.2 ++ (closeCandidate previous boundary).toList)
      | none => maps
    match resolved with
    | some resolved => (maps.1.set model (openedCandidate model resolved boundary snapshot.ref), maps.2)
    | none => maps

def applyPricingSnapshot (state : PricingHistoryIntervalState) (snapshot : PricingHistorySnapshot) :
    Except String PricingHistoryIntervalState :=
  let committedAt := snapshot.ref.committedAt
  if state.lastCommittedAt = none ∧ committedAt > state.rangeFrom then
    .error "baseline snapshot must not be after range start"
  else if state.lastCommittedAt.any fun last => committedAt ≤ last then
    .error "pricing snapshots must be chronological"
  else
    let boundary := if committedAt < state.rangeFrom then state.rangeFrom else committedAt
    let maps := state.models.foldl (applyModelSnapshot boundary snapshot)
      (state.opened, state.closed)
    .ok { state with lastCommittedAt := some committedAt, opened := maps.1, closed := maps.2 }

def candidateOrder (localeCompare : String → String → Ordering)
    (left right : PricingHistoryCandidate) : Bool :=
  (localeCompare left.modelId right.modelId).then (compare left.effectiveAt right.effectiveAt)
    != .gt

def closePricingIntervals (localeCompare : String → String → Ordering)
    (state : PricingHistoryIntervalState) (rangeTo : Int) :
    Except String (List PricingHistoryCandidate) :=
  if rangeTo < state.rangeFrom then .error "invalid pricing history range end"
  else
    let candidates := state.closed ++
      state.opened.values.filterMap fun candidate => closeCandidate candidate rangeTo
    .ok ((candidates.filter fun candidate => candidate.effectiveAt ≥ state.rangeFrom ∧
      candidate.validUntil ≤ rangeTo).mergeSort (candidateOrder localeCompare))

theorem modelId_closeCandidate {candidate : OpenPricingHistoryCandidate} {validUntil : Int}
    {closed : PricingHistoryCandidate} (made : closeCandidate candidate validUntil = some closed) :
    closed.modelId = candidate.modelId := by
  unfold closeCandidate at made
  split at made
  case isTrue => cases made
  case isFalse => cases made; rfl

/-! ### The candidates of one model -/

/-- The candidates of one model: the closed ones, oldest first, and the open one. -/
structure IntervalTrack where
  closed : List PricingHistoryCandidate
  current : Option OpenPricingHistoryCandidate

namespace IntervalTrack

def empty : IntervalTrack := ⟨[], none⟩

/-- The closed candidates once the open one has ended at a boundary. -/
def closedAt (track : IntervalTrack) (boundary : Int) : List PricingHistoryCandidate :=
  track.closed ++ (track.current.bind fun previous => closeCandidate previous boundary).toList

def advance (model : String) (boundary : Int) (ref : PricingHistoryCommitRef)
    (resolved : Option ResolvedPricingEntry) (track : IntervalTrack) : IntervalTrack :=
  if sameCandidate track.current resolved then track
  else ⟨track.closedAt boundary, resolved.map fun entry => openedCandidate model entry boundary ref⟩

def apply (job : JobInput) (model : String) (track : IntervalTrack)
    (snapshot : PricingHistorySnapshot) : IntervalTrack :=
  track.advance model (job.boundary snapshot.ref) snapshot.ref (snapshot.price model)

structure Own (model : String) (track : IntervalTrack) : Prop where
  closed : ∀ candidate ∈ track.closed, candidate.modelId = model
  current : ∀ candidate, track.current = some candidate → candidate.modelId = model

theorem Own.advance {model : String} {track : IntervalTrack} (own : track.Own model)
    (boundary : Int) (ref : PricingHistoryCommitRef) (resolved : Option ResolvedPricingEntry) :
    (track.advance model boundary ref resolved).Own model := by
  unfold IntervalTrack.advance
  split
  case isTrue => exact own
  case isFalse =>
    constructor
    · intro candidate among
      rcases List.mem_append.mp among with old | new
      · exact own.closed candidate old
      · obtain ⟨previous, current, made⟩ := Option.bind_eq_some_iff.mp (Option.mem_toList.mp new)
        exact (modelId_closeCandidate made).trans (own.current previous current)
    · intro candidate current
      obtain ⟨entry, -, rfl⟩ := Option.map_eq_some_iff.mp current
      rfl

end IntervalTrack

/-! ### The builder follows the tracks -/

structure Builds (model : String) (maps : IntervalMaps) (track : IntervalTrack) : Prop where
  opened : maps.1.get model = track.current
  closed : (maps.2.filter fun candidate => candidate.modelId = model) = track.closed

section Builds

variable {model : String} {maps : IntervalMaps} {track : IntervalTrack} {boundary : Int}
  {snapshot : PricingHistorySnapshot}

theorem Builds.applyModelSnapshot (builds : Builds model maps track) (own : track.Own model) :
    Builds model (applyModelSnapshot boundary snapshot maps model)
      (track.advance model boundary snapshot.ref (snapshot.price model)) := by
  simp only [Toard.Pricing.applyModelSnapshot, builds.opened]
  unfold IntervalTrack.advance
  generalize snapshot.price model = resolved
  split
  case isTrue => exact builds
  case isFalse =>
    have ended : (if track.current = none then maps.2 else
        maps.2 ++ (track.current.bind fun previous => closeCandidate previous boundary).toList).filter
          (fun candidate => candidate.modelId = model) = track.closedAt boundary := by
      unfold IntervalTrack.closedAt
      cases current : track.current with
      | none =>
        rw [if_pos rfl, builds.closed, Option.bind_none, Option.toList_none, List.append_nil]
      | some previous =>
        rw [if_neg (Option.some_ne_none previous), List.filter_append, builds.closed,
          Option.bind_some]
        congr 1
        refine List.filter_eq_self.mpr fun candidate among => decide_eq_true ?_
        exact (modelId_closeCandidate (Option.mem_toList.mp among)).trans
          (own.current previous current)
    cases current : track.current with
    | none =>
      rw [current, if_pos rfl] at ended
      cases resolved with
      | none => exact ⟨builds.opened.trans current, ended⟩
      | some entry => exact ⟨(OrderedMap.get_set _ _ _ _).trans (if_pos rfl), ended⟩
    | some previous =>
      rw [current, if_neg (Option.some_ne_none previous)] at ended
      cases resolved with
      | none => exact ⟨(OrderedMap.get_delete _ _ _).trans (if_pos rfl), ended⟩
      | some entry => exact ⟨(OrderedMap.get_set _ _ _ _).trans (if_pos rfl), ended⟩

def Keyed (maps : IntervalMaps) : Prop :=
  ∀ key candidate, maps.1.get key = some candidate → candidate.modelId = key

theorem Builds.applyModelSnapshot_other (builds : Builds model maps track) {k : String}
    (other : k ≠ model) (keyed : Keyed maps) :
    Builds model (Toard.Pricing.applyModelSnapshot boundary snapshot maps k) track := by
  simp only [Toard.Pricing.applyModelSnapshot]
  generalize snapshot.price k = resolved
  have foreign : ∀ previous, maps.1.get k = some previous →
      (maps.2 ++ (closeCandidate previous boundary).toList).filter
        (fun candidate => candidate.modelId = model) = track.closed := by
    intro previous found
    have none_ : ((closeCandidate previous boundary).toList.filter fun candidate =>
        candidate.modelId = model) = [] := by
      refine List.filter_eq_nil_iff.mpr fun candidate among own => other ?_
      rw [← of_decide_eq_true own, modelId_closeCandidate (Option.mem_toList.mp among),
        keyed k previous found]
    rw [List.filter_append, none_, List.append_nil, builds.closed]
  split
  case isTrue => exact builds
  case isFalse =>
    cases found : maps.1.get k with
    | none =>
      cases resolved with
      | none => exact builds
      | some entry =>
        exact ⟨((OrderedMap.get_set _ _ _ _).trans (if_neg (Ne.symm other))).trans builds.opened,
          builds.closed⟩
    | some previous =>
      have deleted : (maps.1.delete k).get model = track.current :=
        ((OrderedMap.get_delete _ _ _).trans (if_neg (Ne.symm other))).trans builds.opened
      cases resolved with
      | none => exact ⟨deleted, foreign previous found⟩
      | some entry =>
        exact ⟨((OrderedMap.get_set _ _ _ _).trans (if_neg (Ne.symm other))).trans deleted,
          foreign previous found⟩

theorem Keyed.applyModelSnapshot (k : String) (keyed : Keyed maps) :
    Keyed (applyModelSnapshot boundary snapshot maps k) := by
  simp only [Toard.Pricing.applyModelSnapshot]
  generalize snapshot.price k = resolved
  have deleted : Keyed (maps.1.delete k, maps.2) := by
    intro key candidate found
    replace found := (OrderedMap.get_delete _ _ _).symm.trans found
    split at found
    case isTrue => cases found
    case isFalse => exact keyed key candidate found
  have set : ∀ (base : IntervalMaps) (entry : ResolvedPricingEntry), Keyed base →
      Keyed (base.1.set k (openedCandidate k entry boundary snapshot.ref), base.2) := by
    intro base entry keyed key candidate found
    replace found := (OrderedMap.get_set _ _ _ _).symm.trans found
    split at found
    case isTrue same =>
      cases found
      exact same.symm
    case isFalse => exact keyed key candidate found
  split
  case isTrue => exact keyed
  case isFalse =>
    cases maps.1.get k with
    | none =>
      cases resolved with
      | none => exact keyed
      | some entry => exact set maps entry keyed
    | some previous =>
      cases resolved with
      | none => exact deleted
      | some entry => exact set _ entry deleted

theorem Keyed.foldl (models : List String) (keyed : Keyed maps) :
    Keyed (models.foldl (Toard.Pricing.applyModelSnapshot boundary snapshot) maps) := by
  induction models generalizing maps with
  | nil => exact keyed
  | cons head rest ih => exact ih (keyed.applyModelSnapshot head)

end Builds

structure Built (job : JobInput) (saved : List PricingHistorySnapshot)
    (state : PricingHistoryIntervalState) : Prop where
  rangeFrom : state.rangeFrom = job.rangeFrom
  distinct : state.models.Nodup
  models : ∀ model, model ∈ state.models ↔ model ∈ job.models
  last : state.lastCommittedAt = saved.getLast?.map fun snapshot => snapshot.ref.committedAt
  keyed : Keyed (state.opened, state.closed)
  builds : ∀ model ∈ job.models, Builds model (state.opened, state.closed)
    (saved.foldl (IntervalTrack.apply job model) .empty)
  others : ∀ model ∉ job.models, Builds model (state.opened, state.closed) .empty

theorem built_create (job : JobInput) :
    Built job [] (createPricingIntervalState job.rangeFrom job.models) where
  rangeFrom := rfl
  distinct := (List.mergeSort_perm _ _).nodup_iff.mpr (List.nodup_dedup _)
  models := by
    intro model
    unfold createPricingIntervalState
    rw [List.mem_mergeSort, List.mem_dedup, List.mem_filter]
    exact and_iff_left_of_imp fun among => by rw [job.named model among]; rfl
  last := rfl
  keyed := fun _ _ found => nomatch found
  builds := fun _ _ => ⟨rfl, rfl⟩
  others := fun _ _ => ⟨rfl, rfl⟩

theorem own_foldl (job : JobInput) (model : String) (saved : List PricingHistorySnapshot)
    {track : IntervalTrack} (own : track.Own model) :
    (saved.foldl (IntervalTrack.apply job model) track).Own model := by
  induction saved generalizing track with
  | nil => exact own
  | cons snapshot rest ih => exact ih (own.advance _ _ _)

theorem own_empty (model : String) : IntervalTrack.empty.Own model :=
  ⟨fun _ among => (nomatch among), fun _ current => (nomatch current)⟩

section Snapshots

variable {job : JobInput} {saved : List PricingHistorySnapshot} {state : PricingHistoryIntervalState}

/-- **One snapshot**, not before the last one and, if it is the first, not after the start. -/
theorem Built.apply (built : Built job saved state) (snapshot : PricingHistorySnapshot)
    (first : saved = [] → snapshot.ref.committedAt ≤ job.rangeFrom)
    (later : ∀ other ∈ saved, other.ref.committedAt < snapshot.ref.committedAt) :
    ∃ after, applyPricingSnapshot state snapshot = .ok after ∧
      Built job (saved ++ [snapshot]) after := by
  have notFirst : ¬ (state.lastCommittedAt = none ∧ snapshot.ref.committedAt > state.rangeFrom) := by
    rintro ⟨none_, late⟩
    rw [built.last, Option.map_eq_none_iff, List.getLast?_eq_none_iff] at none_
    rw [built.rangeFrom] at late
    have := first none_
    omega
  have inOrder : ¬ (state.lastCommittedAt.any fun last => snapshot.ref.committedAt ≤ last) = true := by
    rw [built.last]
    intro early
    obtain ⟨time, found, notLater⟩ := (Option.any_eq_true _ _).mp early
    obtain ⟨last, among, rfl⟩ := Option.map_eq_some_iff.mp found
    have := later last (List.mem_of_getLast? among)
    have := of_decide_eq_true notLater
    omega
  have boundary : (if snapshot.ref.committedAt < state.rangeFrom then state.rangeFrom
      else snapshot.ref.committedAt) = job.boundary snapshot.ref := by
    rw [built.rangeFrom]
    rfl
  simp only [applyPricingSnapshot]
  rw [if_neg notFirst, if_neg inOrder, boundary]
  have keptApart : ∀ model (maps : IntervalMaps) (track : IntervalTrack) k, k ≠ model →
      Builds model maps track ∧ Keyed maps →
      Builds model (applyModelSnapshot (job.boundary snapshot.ref) snapshot maps k) track ∧
        Keyed (applyModelSnapshot (job.boundary snapshot.ref) snapshot maps k) :=
    fun _ _ _ k other ⟨builds, keyed⟩ =>
      ⟨builds.applyModelSnapshot_other other keyed, keyed.applyModelSnapshot k⟩
  refine ⟨_, rfl, built.rangeFrom, built.distinct, built.models, ?_, built.keyed.foldl _, ?_, ?_⟩
  · rw [List.getLast?_concat]
    rfl
  · intro model among
    rw [List.foldl_concat]
    exact (foldl_keyed (fun maps track => Builds model maps track ∧ Keyed maps) _ model
      (keptApart model)
      (fun maps ⟨builds, keyed⟩ => ⟨builds.applyModelSnapshot
        (own_foldl job model saved (own_empty model)), keyed.applyModelSnapshot model⟩)
      built.distinct ((built.models model).mpr among)
      ⟨built.builds model among, built.keyed⟩).1
  · intro model absent
    exact (foldl_keyed_other (fun maps track => Builds model maps track ∧ Keyed maps) _ model
      (keptApart model) (fun among => absent ((built.models model).mp among))
      ⟨built.others model absent, built.keyed⟩).1

/-- **The whole list.** -/
theorem built_of_snapshots (job : JobInput) {snapshots : List PricingHistorySnapshot}
    (first : ∀ snapshot ∈ snapshots.head?, snapshot.ref.committedAt ≤ job.rangeFrom)
    (strict : snapshots.Pairwise fun earlier later =>
      earlier.ref.committedAt < later.ref.committedAt) :
    ∃ state, snapshots.foldlM applyPricingSnapshot
        (createPricingIntervalState job.rangeFrom job.models) = .ok state ∧
      Built job snapshots state := by
  have from_ : ∀ (rest saved : List PricingHistorySnapshot) (state : PricingHistoryIntervalState),
      Built job saved state → (saved = [] → ∀ snapshot ∈ rest.head?,
        snapshot.ref.committedAt ≤ job.rangeFrom) →
      (saved ++ rest).Pairwise (fun earlier later =>
        earlier.ref.committedAt < later.ref.committedAt) →
      ∃ after, rest.foldlM applyPricingSnapshot state = .ok after ∧
        Built job (saved ++ rest) after := by
    intro rest
    induction rest with
    | nil =>
      intro saved state built _ _
      exact ⟨state, rfl, by rwa [List.append_nil]⟩
    | cons snapshot rest ih =>
      intro saved state built first strict
      obtain ⟨middle, applied, next⟩ := built.apply snapshot
        (fun none_ => first none_ snapshot rfl)
        (fun other among => (List.pairwise_append.mp strict).2.2 other among snapshot
          List.mem_cons_self)
      rw [List.append_cons] at strict ⊢
      obtain ⟨after, applied', last⟩ := ih _ middle next
        (fun none_ => absurd none_ (List.append_ne_nil_of_right_ne_nil _ (List.cons_ne_nil _ _)))
        strict
      refine ⟨after, ?_, last⟩
      rw [List.foldlM_cons, applied]
      exact applied'
  exact from_ snapshots [] _ (built_create job) (fun _ => first) strict

end Snapshots

end Toard.Pricing
