/-
**Which revision prices an event (`explainCostAt`).**

One scan over a model's revisions keeps the one that is in force and not older than the one it has.
The list comes from a query that orders it by the start of the revisions and then by when they were
observed, so that of several that start together the last one wins.

* **`explainCostAt_history`**: what is priced, with which revision, and under which reorderings of
  the lists nothing changes.
-/

import Toard.Pricing.Aliases
import Toard.Pricing.Cost

namespace Toard.Pricing

open Toard.Library (OrderedMap)

/-! ### The scan -/

def ScheduledRevision.InForce (revision : ScheduledRevision) (instant : Int) : Prop :=
  revision.effectiveAt ≤ instant ∧ ∀ ends ∈ revision.validUntil, instant < ends

instance (revision : ScheduledRevision) (instant : Int) : Decidable (revision.InForce instant) :=
  inferInstanceAs (Decidable (_ ∧ _))

def startingAt (revisions : List ScheduledRevision) (instant start : Int) :
    List ScheduledRevision :=
  revisions.filter fun revision => revision.InForce instant ∧ revision.effectiveAt = start

structure Chosen (revisions : List ScheduledRevision) (instant : Int)
    (revision : ScheduledRevision) : Prop where
  last : (startingAt revisions instant revision.effectiveAt).getLast? = some revision
  latest : ∀ other ∈ revisions, other.InForce instant → other.effectiveAt ≤ revision.effectiveAt

section Scan

variable {revisions : List ScheduledRevision} {instant : Int} {revision : ScheduledRevision}

theorem mem_startingAt {start : Int} : revision ∈ startingAt revisions instant start ↔
    revision ∈ revisions ∧ revision.InForce instant ∧ revision.effectiveAt = start := by
  rw [startingAt, List.mem_filter, decide_eq_true_iff]

theorem Chosen.mem (chosen : Chosen revisions instant revision) :
    revision ∈ revisions ∧ revision.InForce instant := by
  have among := mem_startingAt.mp (List.mem_of_getLast? chosen.last)
  exact ⟨among.1, among.2.1⟩

theorem Chosen.unique {other : ScheduledRevision} (chosen : Chosen revisions instant revision)
    (chosen' : Chosen revisions instant other) : revision = other := by
  have same : revision.effectiveAt = other.effectiveAt :=
    le_antisymm (chosen'.latest revision chosen.mem.1 chosen.mem.2)
      (chosen.latest other chosen'.mem.1 chosen'.mem.2)
  have last := chosen.last
  rw [same, chosen'.last] at last
  exact (Option.some_inj.mp last).symm

theorem laterRevision_inForce {selected : Option ScheduledRevision}
    (inForce : revision.InForce instant)
    (later : ∀ old ∈ selected, old.effectiveAt ≤ revision.effectiveAt) :
    laterRevision instant selected revision = some revision := by
  have ends : (revision.validUntil.all fun ends => instant < ends) = true := by
    rw [Option.all_eq_true]
    exact fun ends isEnd => decide_eq_true (inForce.2 ends isEnd)
  have first : (selected.all fun old => old.effectiveAt ≤ revision.effectiveAt) = true := by
    rw [Option.all_eq_true]
    exact fun old isOld => decide_eq_true (later old isOld)
  rw [laterRevision, if_pos ⟨inForce.1, ends, first⟩]

theorem laterRevision_other {selected : Option ScheduledRevision}
    (other : revision.InForce instant → ∃ old ∈ selected, revision.effectiveAt < old.effectiveAt) :
    laterRevision instant selected revision = selected := by
  refine if_neg ?_
  rintro ⟨starts, ends, first⟩
  rw [Option.all_eq_true] at ends first
  obtain ⟨old, isOld, later⟩ :=
    other ⟨starts, fun ending isEnd => of_decide_eq_true (ends ending isEnd)⟩
  exact absurd (of_decide_eq_true (first old isOld)) later.not_ge

/-- **The scan finds the last of the latest revisions in force**, or nothing where none is. -/
theorem selectedRevision_spec (revisions : List ScheduledRevision) (instant : Int) :
    (∀ revision, selectedRevision revisions instant = some revision →
        Chosen revisions instant revision) ∧
      (selectedRevision revisions instant = none →
        ∀ revision ∈ revisions, ¬ revision.InForce instant) := by
  induction revisions using List.reverseRecOn with
  | nil =>
    refine ⟨fun revision found => ?_, fun _ revision among => absurd among List.not_mem_nil⟩
    cases found
  | append_singleton before last ih =>
    have step : selectedRevision (before ++ [last]) instant
        = laterRevision instant (selectedRevision before instant) last := by
      rw [selectedRevision, List.foldl_append]
      rfl
    have grown : ∀ start, startingAt (before ++ [last]) instant start
        = startingAt before instant start ++
          if last.InForce instant ∧ last.effectiveAt = start then [last] else [] := by
      intro start
      simp only [startingAt, List.filter_append, List.filter_cons, List.filter_nil,
        decide_eq_true_iff]
    rw [step]
    cases found : selectedRevision before instant with
    | none =>
      have nothing := ih.2 found
      by_cases inForce : last.InForce instant
      · rw [laterRevision_inForce inForce fun old isOld => absurd isOld (Option.not_mem_none _)]
        refine ⟨fun revision isLast => ?_, fun none_ => by cases none_⟩
        cases isLast
        refine ⟨by rw [grown, if_pos ⟨inForce, rfl⟩, List.getLast?_concat], ?_⟩
        intro other among otherInForce
        rcases List.mem_append.mp among with earlier | isLast
        · exact absurd otherInForce (nothing other earlier)
        · rw [List.mem_singleton.mp isLast]
      · rw [laterRevision_other fun isInForce => absurd isInForce inForce]
        refine ⟨fun revision isNone => (by cases isNone), fun _ revision among => ?_⟩
        rcases List.mem_append.mp among with earlier | isLast
        · exact nothing revision earlier
        · rwa [List.mem_singleton.mp isLast]
    | some old =>
      have chosen := ih.1 old found
      by_cases takes : last.InForce instant ∧ old.effectiveAt ≤ last.effectiveAt
      · obtain ⟨inForce, later⟩ := takes
        rw [laterRevision_inForce inForce fun other isOld => Option.some_inj.mp isOld ▸ later]
        refine ⟨fun revision isLast => ?_, fun none_ => by cases none_⟩
        cases isLast
        refine ⟨by rw [grown, if_pos ⟨inForce, rfl⟩, List.getLast?_concat], ?_⟩
        intro other among otherInForce
        rcases List.mem_append.mp among with earlier | isLast
        · exact (chosen.latest other earlier otherInForce).trans later
        · rw [List.mem_singleton.mp isLast]
      · rw [not_and, not_le] at takes
        rw [laterRevision_other fun inForce => ⟨old, rfl, takes inForce⟩]
        refine ⟨fun revision isOld => ?_, fun none_ => by cases none_⟩
        cases isOld
        refine ⟨?_, fun other among otherInForce => ?_⟩
        · rw [grown, if_neg fun both => absurd both.2 (takes both.1).ne, List.append_nil]
          exact chosen.last
        · rcases List.mem_append.mp among with earlier | isLast
          · exact chosen.latest other earlier otherInForce
          · rw [List.mem_singleton.mp isLast] at otherInForce ⊢
            exact (takes otherInForce).le

theorem selectedRevision_eq_some :
    selectedRevision revisions instant = some revision ↔ Chosen revisions instant revision := by
  obtain ⟨found, nothing⟩ := selectedRevision_spec revisions instant
  refine ⟨found revision, fun chosen => ?_⟩
  cases selected : selectedRevision revisions instant with
  | none => exact absurd chosen.mem.2 (nothing selected revision chosen.mem.1)
  | some other => exact congrArg some ((found other selected).unique chosen)

theorem selectedRevision_eq_none : selectedRevision revisions instant = none ↔
    ∀ revision ∈ revisions, ¬ revision.InForce instant := by
  refine ⟨(selectedRevision_spec revisions instant).2, fun nothing => ?_⟩
  cases selected : selectedRevision revisions instant with
  | none => rfl
  | some other =>
    have chosen := (selectedRevision_eq_some.mp selected).mem
    exact absurd chosen.2 (nothing other chosen.1)

end Scan

/-! ### The order of the lists -/

/-- The same revisions for each start, in the same order: the lists differ in no more than the order
of revisions that start apart. -/
def SameTies (left right : List ScheduledRevision) : Prop :=
  ∀ start : Int, (left.filter fun revision => revision.effectiveAt = start)
    = right.filter fun revision => revision.effectiveAt = start

theorem SameTies.mem {left right : List ScheduledRevision} (same : SameTies left right)
    {revision : ScheduledRevision} : revision ∈ left ↔ revision ∈ right := by
  have among : ∀ revisions : List ScheduledRevision, revision ∈ revisions ↔
      revision ∈ revisions.filter fun other => other.effectiveAt = revision.effectiveAt := by
    simp
  rw [among left, among right, same]

theorem SameTies.startingAt {left right : List ScheduledRevision} (same : SameTies left right)
    (instant start : Int) : startingAt left instant start = startingAt right instant start := by
  have split : ∀ revisions : List ScheduledRevision, Pricing.startingAt revisions instant start
      = (revisions.filter fun revision => revision.effectiveAt = start).filter
        fun revision => revision.InForce instant := by
    intro revisions
    rw [List.filter_filter]
    simp only [Pricing.startingAt, Bool.decide_and]
  rw [split left, split right, same]

theorem SameTies.selectedRevision {left right : List ScheduledRevision} (same : SameTies left right)
    (instant : Int) : selectedRevision left instant = selectedRevision right instant := by
  refine Option.ext fun revision => ?_
  rw [selectedRevision_eq_some, selectedRevision_eq_some]
  constructor
  · rintro ⟨last, latest⟩
    exact ⟨same.startingAt instant _ ▸ last, fun other among => latest other (same.mem.mpr among)⟩
  · rintro ⟨last, latest⟩
    exact ⟨same.startingAt instant _ ▸ last, fun other among => latest other (same.mem.mp among)⟩

/-- The same models in the same order, with the same revisions but for the order of those that
start apart. -/
def Reordered (left right : PricingSchedule) : Prop :=
  List.Forall₂ (fun one other => one.1 = other.1 ∧ SameTies one.2 other.2) left.entries
    right.entries

/-- What is found in either schedule is found in both, in the same way. -/
def SameEntry : Option (ResolvedAliasEntry (List ScheduledRevision)) →
    Option (ResolvedAliasEntry (List ScheduledRevision)) → Prop :=
  Option.Rel fun one other =>
    one.key = other.key ∧ one.matched = other.matched ∧ SameTies one.value other.value

theorem SameEntry.orElse {one one' other other' : Option (ResolvedAliasEntry _)}
    (first : SameEntry one one') (second : SameEntry other other') :
    SameEntry (one <|> other) (one' <|> other') := by
  cases first with
  | some same => exact Option.Rel.some same
  | none => exact second

theorem SameEntry.widen {one other : Option (ResolvedAliasEntry _)} (sofar : SameEntry one other)
    (key : String) {value value' : List ScheduledRevision} (same : SameTies value value')
    (length : Nat) (model : String) : ∃ next next' length',
      Pricing.widen model (one, length) (key, value) = (next, length') ∧
      Pricing.widen model (other, length) (key, value') = (next', length') ∧
      SameEntry next next' := by
  by_cases longer : (overlaps model (key, value) && keyLength (key, value) > length) = true
  · exact ⟨_, _, _, if_pos longer, if_pos longer, Option.Rel.some ⟨rfl, rfl, same⟩⟩
  · exact ⟨_, _, _, if_neg longer, if_neg longer, sofar⟩

section Reorder

variable {left right : PricingSchedule} (same : Reordered left right)

include same

theorem Reordered.get (key : String) : Option.Rel SameTies (left.get key) (right.get key) := by
  obtain ⟨lefts, distinct⟩ := left
  obtain ⟨rights, distinct'⟩ := right
  have entries : List.Forall₂ (fun one other => one.1 = other.1 ∧ SameTies one.2 other.2) lefts
      rights := same
  show Option.Rel SameTies ((lefts.find? fun entry => entry.1 = key).map Prod.snd)
    ((rights.find? fun entry => entry.1 = key).map Prod.snd)
  clear same distinct distinct'
  induction entries with
  | nil => exact Option.Rel.none
  | @cons one other lefts rights pair _ ih =>
    rw [List.find?_cons, List.find?_cons, pair.1]
    cases decide (other.1 = key) with
    | true => exact Option.Rel.some pair.2
    | false => exact ih

theorem Reordered.lookup (key : String) (matched : AliasMatch) :
    SameEntry ((left.get key).map fun value => ⟨key, value, matched⟩)
      ((right.get key).map fun value => ⟨key, value, matched⟩) := by
  have found := same.get key
  generalize left.get key = one at found
  generalize right.get key = other at found
  cases found with
  | some sameTies => exact Option.Rel.some ⟨rfl, rfl, sameTies⟩
  | none => exact Option.Rel.none

theorem Reordered.listed (model : String) :
    SameEntry (listedEntry model left) (listedEntry model right) := by
  refine (same.lookup model .exact).orElse ((same.lookup _ .normalized).orElse ?_)
  split
  · exact same.lookup _ .normalized
  · exact Option.Rel.none

theorem Reordered.fuzzy (model : String) :
    SameEntry (fuzzyAliasEntry (stripVendorPrefix model) (strippedName model) left)
      (fuzzyAliasEntry (stripVendorPrefix model) (strippedName model) right) := by
  obtain ⟨lefts, distinct⟩ := left
  obtain ⟨rights, distinct'⟩ := right
  have entries : List.Forall₂ (fun one other => one.1 = other.1 ∧ SameTies one.2 other.2) lefts
      rights := same
  clear same
  have loop : ∀ (best best' : Option (ResolvedAliasEntry (List ScheduledRevision))) (bestLen : Nat),
      SameEntry best best' → SameEntry (lefts.foldl (widen model) (best, bestLen)).1
        (rights.foldl (widen model) (best', bestLen)).1 := by
    clear distinct distinct'
    induction entries with
    | nil => exact fun best best' bestLen sofar => sofar
    | @cons one other lefts rights pair _ ih =>
      intro best best' bestLen sofar
      obtain ⟨k, v⟩ := one
      obtain ⟨k', v'⟩ := other
      have keys : k = k' := pair.1
      subst keys
      obtain ⟨one, other, length, isOne, isOther, grown⟩ := sofar.widen k pair.2 bestLen model
      rw [List.foldl_cons, List.foldl_cons, isOne, isOther]
      exact ih one other length grown
  exact loop none none 0 Option.Rel.none

theorem Reordered.resolve (model : Option String) :
    SameEntry (resolvePricingRevisionEntry model left)
      (resolvePricingRevisionEntry model right) := by
  cases model with
  | none => exact Option.Rel.none
  | some model =>
    show SameEntry (resolveAliasEntry model left) (resolveAliasEntry model right)
    by_cases named : model = ""
    · rw [resolveAliasEntry, if_pos named, resolveAliasEntry, if_pos named]
      exact Option.Rel.none
    · rw [resolveAliasEntry_eq model left named, resolveAliasEntry_eq model right named,
        ← fuzzyAliasEntry_eq, ← fuzzyAliasEntry_eq]
      exact (same.listed model).orElse (same.fuzzy model)

theorem Reordered.revisionInForce (model providerKey logAdapter : Option String)
    (occurredAt : Int) : revisionInForce left model providerKey logAdapter occurredAt
      = revisionInForce right model providerKey logAdapter occurredAt := by
  have entry := same.resolve (pricingModel model providerKey logAdapter occurredAt)
  unfold Pricing.revisionInForce
  generalize resolvePricingRevisionEntry _ left = one at entry
  generalize resolvePricingRevisionEntry _ right = other at entry
  cases entry with
  | some found => exact found.2.2.selectedRevision occurredAt
  | none => rfl

theorem Reordered.explainMatch (args : ResolveAtArgs) (selected : Option ScheduledRevision) :
    explainMatch args left selected = explainMatch args right selected := by
  have matched : (resolvePricingRevisionEntry (pricingModel args.model args.providerKey
        args.logAdapter args.occurredAt) left).map ResolvedAliasEntry.matched
      = (resolvePricingRevisionEntry (pricingModel args.model args.providerKey args.logAdapter
        args.occurredAt) right).map ResolvedAliasEntry.matched := by
    have entry := same.resolve (pricingModel args.model args.providerKey args.logAdapter
      args.occurredAt)
    generalize resolvePricingRevisionEntry _ left = one at entry
    generalize resolvePricingRevisionEntry _ right = other at entry
    cases entry with
    | some found => exact congrArg some found.2.1
    | none => rfl
  unfold Pricing.explainMatch
  dsimp only
  rw [matched]

theorem Reordered.explainCostAt (args : ResolveAtArgs) :
    explainCostAt args left = explainCostAt args right := by
  unfold Pricing.explainCostAt
  dsimp only
  rw [same.revisionInForce, same.explainMatch]

end Reorder

/-! ### What is priced -/

def listedRevisions (args : ResolveAtArgs) (schedule : PricingSchedule) : List ScheduledRevision :=
  ((resolvePricingRevisionEntry (pricingModel args.model args.providerKey args.logAdapter
    args.occurredAt) schedule).map ResolvedAliasEntry.value).getD []

def costUnder (args : ResolveAtArgs) (revision : ScheduledRevision) : Option CostBreakdown :=
  calculateTokenCost (revision.sourceModelId.getD revision.modelId) args.tokens revision.pricing

theorem revisionInForce_eq (args : ResolveAtArgs) (schedule : PricingSchedule) :
    revisionInForce schedule args.model args.providerKey args.logAdapter args.occurredAt
      = selectedRevision (listedRevisions args schedule) args.occurredAt := by
  unfold revisionInForce listedRevisions
  cases resolvePricingRevisionEntry (pricingModel args.model args.providerKey args.logAdapter
      args.occurredAt) schedule with
  | none => rfl
  | some entry => rfl

/-- **Which revision prices an event**: the one that starts last of those whose window holds the
event's instant, and of several that start together the last of the list. The event is unpriced
exactly where there is none or its tokens have no cost under it, and no order of the lists matters
that leaves revisions with the same start in theirs. -/
theorem explainCostAt_history (args : ResolveAtArgs) (schedule : PricingSchedule) :
    ((explainCostAt args schedule).resolution.status = .unpriced ↔
      (∀ revision ∈ listedRevisions args schedule, ¬ revision.InForce args.occurredAt) ∨
      ∃ revision, Chosen (listedRevisions args schedule) args.occurredAt revision ∧
        costUnder args revision = none) ∧
    ((explainCostAt args schedule).resolution.status ≠ .unpriced → ∃ revision breakdown,
      Chosen (listedRevisions args schedule) args.occurredAt revision ∧
      costUnder args revision = some breakdown ∧
      (explainCostAt args schedule).resolution.pricingRevisionId = some revision.id ∧
      (explainCostAt args schedule).resolution.costUsd = breakdown.totalUsd ∧
      (explainCostAt args schedule).breakdown = some breakdown) ∧
    ∀ other : PricingSchedule, Reordered other schedule →
      explainCostAt args other = explainCostAt args schedule := by
  have inForce := revisionInForce_eq args schedule
  cases selected : selectedRevision (listedRevisions args schedule) args.occurredAt with
  | none =>
    rw [selected] at inForce
    have nothing := selectedRevision_eq_none.mp selected
    have unpriced : (explainCostAt args schedule).resolution.status = .unpriced := by
      simp only [explainCostAt, inForce]
    exact ⟨iff_of_true unpriced (Or.inl nothing), absurd unpriced,
      fun other same => same.explainCostAt args⟩
  | some revision =>
    rw [selected] at inForce
    have chosen := selectedRevision_eq_some.mp selected
    cases cost : costUnder args revision with
    | none =>
      have unpriced : (explainCostAt args schedule).resolution.status = .unpriced := by
        rw [costUnder] at cost
        simp only [explainCostAt, inForce, cost]
      exact ⟨iff_of_true unpriced (Or.inr ⟨revision, chosen, cost⟩), absurd unpriced,
        fun other same => same.explainCostAt args⟩
    | some breakdown =>
      have resolved : (explainCostAt args schedule).resolution.status ≠ .unpriced ∧
          (explainCostAt args schedule).resolution.pricingRevisionId = some revision.id ∧
          (explainCostAt args schedule).resolution.costUsd = breakdown.totalUsd ∧
          (explainCostAt args schedule).breakdown = some breakdown := by
        rw [costUnder] at cost
        simp only [explainCostAt, inForce, cost]
        refine ⟨?_, trivial, trivial, trivial⟩
        split <;> exact ResolutionStatus.noConfusion
      refine ⟨iff_of_false resolved.1 ?_, fun _ => ⟨revision, breakdown, chosen, cost, resolved.2⟩,
        fun other same => same.explainCostAt args⟩
      rintro (nothing | ⟨other, chosen', none_⟩)
      · exact nothing revision chosen.mem.1 chosen.mem.2
      · rw [← chosen.unique chosen', cost] at none_
        cases none_

theorem pricingRevisionId_explainCostAt (args : ResolveAtArgs) (schedule : PricingSchedule) :
    (explainCostAt args schedule).resolution.pricingRevisionId
      = (revisionInForce schedule args.model args.providerKey args.logAdapter
        args.occurredAt).map ScheduledRevision.id := by
  unfold explainCostAt
  cases revisionInForce schedule args.model args.providerKey args.logAdapter args.occurredAt with
  | none => rfl
  | some revision =>
    cases cost : calculateTokenCost (revision.sourceModelId.getD revision.modelId) args.tokens
      revision.pricing with
    | none => simp only [cost, Option.map_some]
    | some breakdown => simp only [cost, Option.map_some]

def oneDollar : ModelPricing where
  contextTiers := []
  cacheCreate1hPerM := some (.finite 1)
  contextScope := none
  inputPerM := .finite 1
  outputPerM := .finite 1
  cacheReadPerM := some (.finite 1)
  cacheCreatePerM := some (.finite 1)
  inputAbove200kPerM := none
  outputAbove200kPerM := none
  fastMultiplier := none

def openEnded (id : String) : ScheduledRevision := ⟨id, "m", 0, none, oneDollar, none⟩

/-- Of two revisions that start together, the last of the list prices the event. -/
theorem not_every_order : ¬ ∀ (args : ResolveAtArgs) (model : String)
    (revisions others : List ScheduledRevision), others.Perm revisions →
      (explainCostAt args (OrderedMap.empty.set model others)).resolution
        = (explainCostAt args (OrderedMap.empty.set model revisions)).resolution := by
  intro claim
  have same := congrArg CostResolution.pricingRevisionId
    (claim ⟨some "m", none, none, 5, noTokens⟩ "m" [openEnded "a", openEnded "b"]
      [openEnded "b", openEnded "a"] (List.Perm.swap _ _ _))
  rw [pricingRevisionId_explainCostAt, pricingRevisionId_explainCostAt] at same
  exact absurd same (by decide)

end Toard.Pricing
