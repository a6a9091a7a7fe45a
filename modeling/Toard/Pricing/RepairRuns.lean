/-
**The pricing repair, run after run.**

* **`completes_iff`**: the task completes, whatever the sizes of its batches, exactly if the events
  can be priced in order.
* **`missing_rate_keeps_pending`**: an event of a supported model without a rate for its tokens keeps
  the task pending for ever.
-/

import Mathlib.Data.Finset.Card
import Toard.Pricing.Repair

namespace Toard.Pricing

open Toard.Library
open Toard.Storage (OutboxRow RollupRow CostStatus ResolvedCost fifteenMinuteBucket)

def RepairStore.unmarked (store : RepairStore) : Finset Int :=
  (store.events.map fun row => fifteenMinuteBucket row.ts).toFinset \ store.dirty.toFinset

namespace RepairSetting

variable {setting : RepairSetting} {store : RepairStore} {batch : List OutboxRow}

/-! ### Events collected twice -/

theorem isReplay_delete {events : List OutboxRow} {drops : OutboxRow → Bool}
    (only : ∀ row ∈ events, drops row = true → setting.isReplay events row = true)
    (bad : OutboxRow) :
    setting.isReplay (events.filter fun row => !drops row) bad = setting.isReplay events bad := by
  have same : ((events.filter fun row => !drops row).any fun good =>
      good.providerKey == "codex" && good.model.getD "" != "" &&
        setting.replayTuple good == setting.replayTuple bad) =
      events.any fun good => good.providerKey == "codex" && good.model.getD "" != "" &&
        setting.replayTuple good == setting.replayTuple bad := by
    rw [Bool.eq_iff_iff, List.any_eq_true, List.any_eq_true]
    constructor
    · rintro ⟨good, among, isGood⟩
      exact ⟨good, (List.mem_filter.mp among).1, isGood⟩
    · rintro ⟨good, among, isGood⟩
      refine ⟨good, List.mem_filter.mpr ⟨among, ?_⟩, isGood⟩
      by_contra dropped
      have copy := only good among (by simpa using dropped)
      simp only [isReplay, Bool.and_eq_true, beq_iff_eq, bne_iff_ne] at copy isGood
      exact isGood.1.2 copy.1.1.1.2
  rw [isReplay, isReplay, same]

def cleaned (setting : RepairSetting) (events : List OutboxRow) : List OutboxRow :=
  events.filter fun row => !setting.isReplay events row

theorem cleaned_delete {events : List OutboxRow} {drops : OutboxRow → Bool}
    (only : ∀ row ∈ events, drops row = true → setting.isReplay events row = true) :
    setting.cleaned (events.filter fun row => !drops row) = setting.cleaned events := by
  rw [cleaned, cleaned, List.filter_filter]
  refine List.filter_congr fun row among => ?_
  rw [isReplay_delete only]
  cases copy : setting.isReplay events row with
  | true => rfl
  | false =>
    cases dropped : drops row with
    | true =>
      have := only row among dropped
      rw [copy] at this
      cases this
    | false => rfl

theorem cleaned_of_no_replays (none_ : setting.replays store = []) :
    setting.cleaned store.events = store.events := by
  refine List.filter_eq_self.mpr fun row among => ?_
  rw [Bool.not_eq_true']
  exact Bool.eq_false_iff.mpr fun copy => List.ne_nil_of_mem (List.mem_filter.mpr ⟨among, copy⟩) none_

/-! ### Priced events -/

theorem priceIn_cases (batch : List OutboxRow) (resolver : OutboxRow → Option ResolvedCost)
    (row : OutboxRow) : priceIn batch resolver row = row ∨
      ∃ resolved, resolver row = some resolved ∧ priceIn batch resolver row = repriced row resolved := by
  unfold priceIn
  split
  · cases answer : resolver row with
    | none => exact Or.inl rfl
    | some resolved => exact Or.inr ⟨resolved, rfl, rfl⟩
  · exact Or.inl rfl

/-- **A priced event does not wait any more.** -/
theorem needsPricing_repriced {row : OutboxRow} {resolved : ResolvedCost}
    (answer : setting.resolver row = some resolved) :
    setting.needsPricing (repriced row resolved) = false := by
  obtain ⟨-, authoritative, status, isStatus, notUnpriced, notLegacy⟩ := resolver_eq_some answer
  simp [needsPricing, repriced, isStatus, notUnpriced, notLegacy, authoritative]

theorem mem_keys_iff (among : ∀ row ∈ batch, row ∈ store.events) {row : OutboxRow}
    (inStore : row ∈ store.events) : row.dedupKey ∈ batch.map OutboxRow.dedupKey ↔ row ∈ batch := by
  constructor
  · intro key
    obtain ⟨other, isOther, same⟩ := List.mem_map.mp key
    rw [← List.inj_on_of_nodup_map store.distinct (among other isOther) inStore same]
    exact isOther
  · exact fun isRow => List.mem_map_of_mem isRow

/-- **Of the waiting events, those of the batch that found a price go.** -/
theorem waiting_price (among : ∀ row ∈ batch, row ∈ setting.waiting store.events) :
    setting.waiting (store.price batch setting.resolver).events =
      (setting.waiting store.events).filter fun row =>
        !(decide (row ∈ batch) && setting.resolves row) := by
  have inStore : ∀ row ∈ batch, row ∈ store.events :=
    fun row isRow => (List.mem_filter.mp (among row isRow)).1
  have kept : ∀ row ∈ store.events, (setting.needsPricing (priceIn batch setting.resolver row) =
      (!(decide (row ∈ batch) && setting.resolves row) && setting.needsPricing row)) ∧
      (setting.needsPricing (priceIn batch setting.resolver row) = true →
        priceIn batch setting.resolver row = row) := by
    intro row isRow
    have keys := mem_keys_iff inStore isRow
    unfold priceIn
    by_cases inBatch : row ∈ batch
    · rw [if_pos (keys.mpr inBatch)]
      cases answer : setting.resolver row with
      | none => simp [resolves, answer]
      | some resolved => simp [resolves, answer, inBatch, needsPricing_repriced answer]
    · rw [if_neg (mt keys.mp inBatch)]
      simp [inBatch]
  show ((store.events.map (priceIn batch setting.resolver)).filter setting.needsPricing) = _
  rw [List.filter_map, waiting, List.filter_filter, ← List.filter_congr fun row isRow =>
    (kept row isRow).1]
  calc (store.events.filter (setting.needsPricing ∘ priceIn batch setting.resolver)).map
        (priceIn batch setting.resolver)
      = (store.events.filter (setting.needsPricing ∘ priceIn batch setting.resolver)).map id :=
        List.map_congr_left fun row isRow =>
          (kept row (List.mem_filter.mp isRow).1).2 (List.mem_filter.mp isRow).2
    _ = _ := List.map_id _

theorem replays_price (batch : List OutboxRow) (none_ : setting.replays store = []) :
    setting.replays (store.price batch setting.resolver) = [] := by
  have columns : ∀ row, let priced := priceIn batch setting.resolver row
      setting.inRange priced = setting.inRange row ∧ priced.providerKey = row.providerKey ∧
        priced.model = row.model ∧ priced.sessionId = row.sessionId ∧
        priced.logAdapter = row.logAdapter ∧ setting.replayTuple priced = setting.replayTuple row := by
    intro row
    rcases priceIn_cases batch setting.resolver row with same | ⟨resolved, -, same⟩
    · simp only [same, and_self]
    · simp only [same]
      exact ⟨rfl, rfl, rfl, rfl, rfl, rfl⟩
  have status : ∀ row, (priceIn batch setting.resolver row).costStatus = .unpriced →
      row.costStatus = .unpriced := by
    intro row unpriced
    rcases priceIn_cases batch setting.resolver row with same | ⟨resolved, answer, same⟩
    · rwa [same] at unpriced
    · obtain ⟨-, -, status, isStatus, notUnpriced, -⟩ := resolver_eq_some answer
      rw [same, repriced] at unpriced
      simp only [isStatus, Option.getD_some] at unpriced
      exact absurd unpriced notUnpriced
  refine List.filter_eq_nil_iff.mpr fun row isRow copy => ?_
  obtain ⟨origin, inStore, rfl⟩ := List.mem_map.mp isRow
  refine List.filter_eq_nil_iff.mp none_ origin inStore ?_
  simp only [isReplay, RepairStore.price, Bool.and_eq_true, beq_iff_eq, List.any_eq_true,
    List.mem_map] at copy ⊢
  obtain ⟨⟨⟨⟨⟨⟨range, provider⟩, unpriced⟩, model⟩, session⟩, adapter⟩, -, ⟨good, isGood, rfl⟩, found⟩ :=
    copy
  obtain ⟨sameRange, sameProvider, sameModel, sameSession, sameAdapter, sameTuple⟩ := columns origin
  obtain ⟨-, goodProvider, goodModel, -, -, goodTuple⟩ := columns good
  rw [sameRange] at range
  rw [sameProvider] at provider
  rw [sameModel] at model
  rw [sameSession] at session
  rw [sameAdapter] at adapter
  rw [goodProvider, goodModel, goodTuple, sameTuple] at found
  exact ⟨⟨⟨⟨⟨⟨range, provider⟩, status origin unpriced⟩, model⟩, session⟩, adapter⟩, good, isGood, found⟩

/-! ### A batch -/

theorem isTarget_iff (rows : List OutboxRow) (row : OutboxRow) :
    setting.isTarget (setting.supportedPricingTargets (setting.recoveryModels rows)) row =
      (setting.repairTarget row).any (setting.isSupported rows) := by
  unfold isTarget
  cases named : setting.kind.text row.model with
  | some name =>
    by_cases empty : name = ""
    · have noTarget : setting.repairTarget row = none := by
        rw [repairTarget, named]
        exact if_pos empty
      rw [noTarget, Option.any_some, Option.any_none]
      simp [supportedPricingTargets, empty]
    · rw [repairTarget_eq_model.mpr ⟨named, empty⟩, Option.any_some, Option.any_some]
      simp [isSupported, SupportedPricingTargets.supports]
  | none =>
    by_cases codex : row.providerKey = "codex" ∧ row.logAdapter = some "codex"
    · rw [repairTarget_eq_codexFallback.mpr ⟨named, codex⟩]
      simp [codex, isSupported, SupportedPricingTargets.supports]
    · have noTarget : setting.repairTarget row = none := by
        rw [repairTarget, named]
        exact if_neg codex
      rw [noTarget, Option.any_none, Option.any_none]
      simpa using fun _ => not_and.mp codex

/-- The batch of a run: the first of the waiting events whose models are supported. -/
def batchOf (setting : RepairSetting) (limit : Nat) (store : RepairStore) : List OutboxRow :=
  setting.repairService.batch (setting.waiting store.events) (batchLimit limit 1000)

theorem found_eq_eligible (events : List OutboxRow) :
    (setting.waiting events).filter (setting.isTarget
      (setting.supportedPricingTargets (setting.recoveryModels (setting.waiting events)))) =
      setting.repairService.eligible (setting.waiting events) :=
  List.filter_congr fun row _ => isTarget_iff (setting.waiting events) row

theorem eligible_of_no_targets {rows : List OutboxRow}
    (noModels : (setting.supportedPricingTargets (setting.recoveryModels rows)).models = [])
    (noFallback : (setting.supportedPricingTargets
      (setting.recoveryModels rows)).includeCodexModelFallback = false) :
    setting.repairService.eligible rows = [] := by
  refine List.filter_eq_nil_iff.mpr fun row _ active => ?_
  obtain ⟨target, -, supported⟩ := (Option.any_eq_true _ _).mp active
  have supported : SupportedPricingTargets.supports _ target = true := supported
  cases target with
  | model name =>
    rw [SupportedPricingTargets.supports, noModels] at supported
    cases supported
  | codexFallback =>
    rw [SupportedPricingTargets.supports, noFallback] at supported
    cases supported

theorem mem_waiting_of_batchOf {limit : Nat} {row : OutboxRow}
    (among : row ∈ setting.batchOf limit store) : row ∈ setting.waiting store.events :=
  (Service.mem_eligible.mp (Service.mem_of_mem_batch among)).1

/-- The event is unpriced or old; a run counts these when it prices them. -/
def counts (row : OutboxRow) : Bool := row.costStatus == .unpriced || row.costStatus == .legacy

theorem countPriced_add (batch : List OutboxRow) :
    setting.countPriced batch .unpriced + setting.countPriced batch .legacy =
      batch.countP fun row => counts row && setting.resolves row := by
  induction batch with
  | nil => rfl
  | cons row rest ih =>
    unfold countPriced at ih ⊢
    rw [List.countP_cons, List.countP_cons, List.countP_cons, ← ih]
    cases status : row.costStatus <;> cases answer : (setting.resolver row).isSome <;>
      simp only [counts, resolves, status, answer] <;> simp <;> omega

/-! ### Marks -/

theorem unmarked_mark (kind : StorageKind) (rows : List OutboxRow) :
    (store.mark kind rows).unmarked ⊆ store.unmarked := by
  cases kind with
  | postgres => exact Finset.Subset.refl _
  | clickHouse =>
    refine Finset.sdiff_subset_sdiff (Finset.Subset.refl _) fun bucket marked => ?_
    rw [List.mem_toFinset] at marked ⊢
    exact List.mem_union_iff.mpr (Or.inr marked)

theorem unmarked_delete (drops : OutboxRow → Bool) :
    (store.delete drops).unmarked ⊆ store.unmarked := by
  refine Finset.sdiff_subset_sdiff (fun bucket isBucket => ?_) (Finset.Subset.refl _)
  rw [List.mem_toFinset] at isBucket ⊢
  exact (List.filter_sublist.map _).subset isBucket

theorem unmarked_price (store : RepairStore) (batch : List OutboxRow) (resolver : OutboxRow → Option ResolvedCost) :
    (store.price batch resolver).unmarked = store.unmarked := by
  have same : (fun row : OutboxRow => fifteenMinuteBucket row.ts) ∘ priceIn batch resolver =
      fun row => fifteenMinuteBucket row.ts := by
    funext row
    rw [Function.comp_apply, (priceIn_key batch resolver row).1]
  rw [RepairStore.unmarked, RepairStore.unmarked, RepairStore.price, List.map_map, same]

@[simp] theorem events_mark (kind : StorageKind) (rows : List OutboxRow) :
    (store.mark kind rows).events = store.events := by
  cases kind <;> rfl

theorem batchLimit_pos (limit : Nat) {most : Nat} (positive : 0 < most) :
    0 < batchLimit limit most :=
  lt_min (lt_of_lt_of_le Nat.one_pos (le_max_right limit 1)) positive

@[simp] theorem events_price (resolver : OutboxRow → Option ResolvedCost) :
    (store.price batch resolver).events = store.events.map (priceIn batch resolver) := rfl

theorem reconcilePricingRollupUsage_marks (limit : Nat) (store : RepairStore) :
    (setting.reconcilePricingRollupUsage limit store).2.events = store.events ∧
      (setting.reconcilePricingRollupUsage limit store).2.unmarked ⊆ store.unmarked ∧
      ((setting.reconcilePricingRollupUsage limit store).1.hasMore = true →
        (setting.reconcilePricingRollupUsage limit store).2.unmarked ⊂ store.unmarked) := by
  have nothing : store.events = store.events ∧ store.unmarked ⊆ store.unmarked ∧
      (false = true → store.unmarked ⊂ store.unmarked) := ⟨rfl, Finset.Subset.refl _, nofun⟩
  unfold reconcilePricingRollupUsage
  split
  · next coveredTo _ _ =>
    dsimp only
    split
    · exact nothing
    · have fewer : ∀ affected : List Int,
          ({ store with dirty := affected ∪ store.dirty } : RepairStore).unmarked ⊆ store.unmarked :=
        fun affected => Finset.sdiff_subset_sdiff (Finset.Subset.refl _) fun bucket marked => by
          rw [List.mem_toFinset] at marked ⊢
          exact List.mem_union_iff.mpr (Or.inr marked)
      refine ⟨rfl, fewer _, fun more => (Finset.ssubset_iff_of_subset (fewer _)).mpr ?_⟩
      obtain ⟨bucket, rest, isFirst⟩ := List.exists_cons_of_ne_nil
        (List.ne_nil_of_length_pos (lt_of_le_of_lt (Nat.zero_le _) (of_decide_eq_true more)))
      have among : bucket ∈ bucket :: rest := List.mem_cons_self
      rw [← isFirst] at among
      obtain ⟨isBucket, stale⟩ := List.mem_filter.mp among
      simp only [isStale, Bool.and_eq_true, Bool.not_eq_true', List.contains_eq_mem,
        decide_eq_false_iff_not] at stale
      refine ⟨bucket, ?_, fun kept => ?_⟩
      · rw [RepairStore.unmarked, Finset.mem_sdiff, List.mem_toFinset, List.mem_toFinset]
        exact ⟨(List.filter_sublist.map _).subset (List.mem_dedup.mp isBucket), stale.1.2⟩
      · rw [RepairStore.unmarked, Finset.mem_sdiff, List.mem_toFinset, List.mem_toFinset] at kept
        refine kept.2 (List.mem_union_iff.mpr (Or.inl ?_))
        obtain ⟨taken, isTaken⟩ := Nat.exists_eq_succ_of_ne_zero
          (Nat.ne_of_gt (batchLimit_pos limit (by decide : 0 < 10000)))
        rw [isFirst, isTaken]
        exact List.mem_cons_self
  · exact nothing

/-! ### One run -/

theorem replay_run {claimed : PricingRepairStatus} (clock : RunClock)
    (positive : 0 < claimed.adaptiveLimit) (some_ : setting.replays store ≠ []) :
    (runPricingRepairTask setting claimed clock store).1.state = .pending ∧
      setting.cleaned (runPricingRepairTask setting claimed clock store).2.events =
        setting.cleaned store.events ∧
      (runPricingRepairTask setting claimed clock store).2.events.length < store.events.length ∧
      (runPricingRepairTask setting claimed clock store).2.unmarked ⊆ store.unmarked := by
  obtain ⟨first, rest, isFirst⟩ := List.exists_cons_of_ne_nil some_
  obtain ⟨taken, isTaken⟩ := Nat.exists_eq_succ_of_ne_zero
    (Nat.ne_of_gt (batchLimit_pos claimed.adaptiveLimit (by decide : 0 < 1000)))
  have copies : ∀ row ∈ store.events, ((setting.replays store).take
      (batchLimit claimed.adaptiveLimit 1000)).contains row = true →
      setting.isReplay store.events row = true := fun row _ isCopy =>
    (List.mem_filter.mp (List.mem_of_mem_take (List.contains_iff_mem.mp isCopy))).2
  have isCopy : first ∈ (setting.replays store).take (batchLimit claimed.adaptiveLimit 1000) := by
    rw [isFirst, isTaken]
    exact List.mem_cons_self
  have inStore : first ∈ store.events :=
    (List.mem_filter.mp (List.mem_of_mem_take isCopy)).1
  have scanned : 0 < (setting.reconcileCodexReplayUsage claimed.adaptiveLimit store).1.scanned := by
    rw [reconcileCodexReplayUsage, if_neg (Nat.ne_of_gt positive)]
    exact List.length_pos_of_mem isCopy
  unfold runPricingRepairTask
  dsimp only
  rw [if_pos scanned]
  refine ⟨rfl, ?_⟩
  rw [reconcileCodexReplayUsage, if_neg (Nat.ne_of_gt positive)]
  dsimp only
  rw [events_mark]
  refine ⟨cleaned_delete copies, ?_, fun bucket kept => unmarked_delete _ (unmarked_mark _ _ kept)⟩
  refine List.length_filter_lt_length_iff_exists.mpr ⟨first, inStore, ?_⟩
  simpa using isCopy

theorem rollup_marks (setting : RepairSetting) (limit : Nat) (store : RepairStore) (looks : Prop) [Decidable looks] :
    let rollup := if looks then setting.reconcilePricingRollupUsage limit store
      else (⟨0, false⟩, store)
    rollup.2.events = store.events ∧ rollup.2.unmarked ⊆ store.unmarked ∧
      (rollup.1.hasMore = true → rollup.2.unmarked ⊂ store.unmarked) := by
  dsimp only
  split
  · exact reconcilePricingRollupUsage_marks limit store
  · exact ⟨rfl, Finset.Subset.refl _, nofun⟩

theorem reported_pending_iff {more done : Prop} [Decidable more] [Decidable done] :
    (if more then ReportedState.pending else if done then .idle else .waitingForCatalog) =
      .pending ↔ more := by
  split
  · next isMore => exact ⟨fun _ => isMore, fun _ => rfl⟩
  · next noMore =>
    refine ⟨fun pending => ?_, fun isMore => absurd isMore noMore⟩
    split at pending <;> cases pending

structure RepairRun (setting : RepairSetting) (limit : Nat) (store : RepairStore)
    (outcome : PricingRepairProgress × RepairStore) : Prop where
  events : outcome.2.events = (store.price (setting.batchOf limit store) setting.resolver).events
  unmarked : outcome.2.unmarked ⊆ store.unmarked
  pending : outcome.1.state = .pending →
    setting.batchOf limit store ≠ [] ∨ outcome.2.unmarked ⊂ store.unmarked
  finished : outcome.1.state ≠ .pending →
    setting.batchOf limit store = setting.repairService.eligible (setting.waiting store.events) ∧
      ∀ row ∈ setting.batchOf limit store, counts row = true ∧ setting.resolves row = true

theorem hasMore_nil (limit : Nat) : setting.hasMore 0 (batchLimit limit 1000) = false := by
  have positive := batchLimit_pos limit (by decide : 0 < 1000)
  unfold hasMore
  split
  · exact decide_eq_false (by omega)
  · exact decide_eq_false (by omega)

theorem hasMore_of_batch_nil {limit : Nat} (empty : setting.batchOf limit store = []) :
    setting.hasMore (setting.repairService.eligible (setting.waiting store.events)).length
      (batchLimit limit 1000) = false := by
  have positive := batchLimit_pos limit (by decide : 0 < 1000)
  have none_ := (List.take_eq_nil_iff.mp empty).resolve_left (Nat.ne_of_gt positive)
  rw [none_]
  exact hasMore_nil limit

theorem batch_eq_of_no_more {limit : Nat}
    (noMore : setting.hasMore (setting.repairService.eligible (setting.waiting store.events)).length
      (batchLimit limit 1000) = false) :
    setting.batchOf limit store = setting.repairService.eligible (setting.waiting store.events) := by
  refine List.take_of_length_le ?_
  unfold hasMore at noMore
  split at noMore
  · exact not_lt.mp (of_decide_eq_false noMore)
  · exact (not_le.mp (of_decide_eq_false noMore)).le

theorem repairPricingUsage_supported (setting : RepairSetting) {limit : Nat} (positive : 0 < limit) (store : RepairStore) :
    let repair := setting.repairPricingUsage
      (setting.supportedPricingTargets (setting.getPricingRecoveryModels store)) limit store
    let batch := setting.batchOf limit store
    repair.1 = ⟨batch.length, setting.countPriced batch .unpriced, setting.countPriced batch .legacy,
        setting.hasMore (setting.repairService.eligible (setting.waiting store.events)).length
          (batchLimit limit 1000)⟩ ∧
      repair.2.events = (store.price batch setting.resolver).events ∧
      repair.2.unmarked ⊆ store.unmarked := by
  dsimp only
  unfold repairPricingUsage
  split
  · next nothing =>
    obtain ⟨noModels, noFallback⟩ := nothing.resolve_right (Nat.ne_of_gt positive)
    have none_ := eligible_of_no_targets noModels noFallback
    have batch : setting.batchOf limit store = [] := by
      rw [batchOf, Service.batch, none_, List.take_nil]
    rw [batch, none_, List.length_nil, hasMore_nil]
    refine ⟨rfl, ?_, Finset.Subset.refl _⟩
    exact (List.map_id store.events).symm
  · dsimp only
    rw [events_mark, getPricingRecoveryModels, found_eq_eligible]
    exact ⟨rfl, rfl, fun bucket kept => unmarked_price store _ setting.resolver ▸
      unmarked_mark _ _ kept⟩

theorem repair_run {claimed : PricingRepairStatus} (clock : RunClock)
    (positive : 0 < claimed.adaptiveLimit) (none_ : setting.replays store = []) :
    RepairRun setting claimed.adaptiveLimit store
      (runPricingRepairTask setting claimed clock store) := by
  have unscanned :
      ¬ 0 < (setting.reconcileCodexReplayUsage claimed.adaptiveLimit store).1.scanned := by
    rw [reconcileCodexReplayUsage, if_neg (Nat.ne_of_gt positive), none_]
    dsimp only
    rw [List.take_nil]
    exact Nat.lt_irrefl 0
  obtain ⟨result, events, unmarked⟩ :=
    repairPricingUsage_supported setting positive store
  unfold runPricingRepairTask
  dsimp only
  rw [if_neg unscanned]
  generalize setting.repairPricingUsage
    (setting.supportedPricingTargets (setting.getPricingRecoveryModels store))
    claimed.adaptiveLimit store = repair at *
  have marks := rollup_marks setting PRICING_ROLLUP_RECONCILIATION_LIMIT repair.2
  refine ⟨(marks _).1.trans events, fun bucket kept => unmarked ((marks _).2.1 kept),
    fun isPending => ?_, fun notPending => ?_⟩
  · rw [reported_pending_iff] at isPending
    by_cases empty : setting.batchOf claimed.adaptiveLimit store = []
    · rw [empty, hasMore_of_batch_nil empty] at result
      rcases isPending with more | more | more
      · rw [result] at more
        cases more
      · rw [result] at more
        cases more
      · exact Or.inr (lt_of_lt_of_le ((marks _).2.2 more) unmarked)
    · exact Or.inl empty
  · rw [Ne, reported_pending_iff, not_or, not_or, result, Bool.not_eq_true, Bool.not_eq_true,
      Bool.or_eq_false_iff, decide_eq_false_iff_not] at notPending
    obtain ⟨noMore, ⟨-, all⟩, -⟩ := notPending
    refine ⟨batch_eq_of_no_more noMore, fun row among => ?_⟩
    rw [countPriced_add, not_lt] at all
    exact (Bool.and_eq_true _ _).mp
      (List.countP_eq_length.mp (le_antisymm List.countP_le_length all) row among)

def queue (setting : RepairSetting) (store : RepairStore) : List OutboxRow :=
  setting.waiting (setting.cleaned store.events)

theorem queue_of_no_replays (none_ : setting.replays store = []) :
    setting.queue store = setting.waiting store.events := by
  rw [queue, cleaned_of_no_replays none_]

theorem nodup_queue : (setting.queue store).Nodup :=
  ((store.distinct.of_map _).filter _).filter _

theorem sorted_queue : (setting.queue store).Pairwise Earlier := (store.sorted.filter _).filter _

/-- **Without copies, a run is a pass over the queue.** -/
theorem queue_repair_run {claimed : PricingRepairStatus} {clock : RunClock}
    (positive : 0 < claimed.adaptiveLimit) (none_ : setting.replays store = []) :
    setting.queue (runPricingRepairTask setting claimed clock store).2 =
      setting.repairService.pass (setting.queue store) (batchLimit claimed.adaptiveLimit 1000) := by
  have events := (repair_run clock positive none_).events
  have noCopies := replays_price (setting.batchOf claimed.adaptiveLimit store) none_
  rw [queue_of_no_replays none_, queue, events, cleaned_of_no_replays noCopies,
    waiting_price fun row => mem_waiting_of_batchOf]
  rfl

/-! ### Completion -/

/-- **The events can be priced in order.** The queue of a target has its events that wait, without
the copies, the earliest ones first. From the first of them on that finds no price, no unpriced or
old one finds one, and the target would not be supported by these events alone. -/
def PricesInOrder (setting : RepairSetting) (store : RepairStore) : Prop :=
  setting.repairService.Orderly counts (setting.queue store)

def storeAfter (setting : RepairSetting) (claims : Nat → PricingRepairStatus × RunClock)
    (store : RepairStore) : Nat → RepairStore
  | 0 => store
  | n + 1 => (runPricingRepairTask setting (claims n).1 (claims n).2
      (setting.storeAfter claims store n)).2

def report (setting : RepairSetting) (claims : Nat → PricingRepairStatus × RunClock)
    (store : RepairStore) (n : Nat) : PricingRepairProgress :=
  (runPricingRepairTask setting (claims n).1 (claims n).2 (setting.storeAfter claims store n)).1

def Settled (setting : RepairSetting) (store : RepairStore) : Prop :=
  ∀ row ∈ store.events, setting.inRange row = true → counts row = true →
    (setting.costAt row).status = .unpriced

/-- **The task completes**: whatever the runs claim, with whatever limits, one of them reports a
state other than pending, and then no event is left that would be priced. -/
def Completes (setting : RepairSetting) (store : RepairStore) : Prop :=
  ∀ claims : Nat → PricingRepairStatus × RunClock,
    (∀ index, 0 < (claims index).1.adaptiveLimit) →
      ∃ n, (∀ earlier < n, (setting.report claims store earlier).state = .pending) ∧
        (setting.report claims store n).state ≠ .pending ∧
        setting.Settled (setting.storeAfter claims store (n + 1))

section Runs

variable {claims : Nat → PricingRepairStatus × RunClock}

theorem storeAfter_shift (n : Nat) : setting.storeAfter claims store (n + 1) =
    setting.storeAfter (fun index => claims (index + 1))
      (runPricingRepairTask setting (claims 0).1 (claims 0).2 store).2 n := by
  induction n with
  | zero => rfl
  | succ n ih => rw [storeAfter, ih, storeAfter]

theorem report_shift (n : Nat) : setting.report claims store (n + 1) =
    setting.report (fun index => claims (index + 1))
      (runPricingRepairTask setting (claims 0).1 (claims 0).2 store).2 n := by
  rw [report, storeAfter_shift, report]

end Runs

/-! ### In order, the task completes -/

section Run

variable {claimed : PricingRepairStatus} {clock : RunClock}

/-- **A run leaves the events in order.** -/
theorem PricesInOrder.run (ordered : setting.PricesInOrder store)
    (positive : 0 < claimed.adaptiveLimit) :
    setting.PricesInOrder (runPricingRepairTask setting claimed clock store).2 := by
  by_cases none_ : setting.replays store = []
  · rw [PricesInOrder, queue_repair_run positive none_]
    exact Service.Orderly.pass ordered _
  · rw [PricesInOrder, queue, (replay_run clock positive none_).2.1]
    exact ordered

/-- What is left to do: the events, those that wait, and the buckets to mark. -/
def workLeft (setting : RepairSetting) (store : RepairStore) : Nat :=
  store.events.length + (setting.queue store).length + store.unmarked.card

/-- **A run over events in order that reports pending has done some of the work.** -/
theorem PricesInOrder.workLeft_lt (ordered : setting.PricesInOrder store)
    (positive : 0 < claimed.adaptiveLimit)
    (pending : (runPricingRepairTask setting claimed clock store).1.state = .pending) :
    setting.workLeft (runPricingRepairTask setting claimed clock store).2 < setting.workLeft store := by
  unfold workLeft
  by_cases none_ : setting.replays store = []
  · have run := repair_run clock positive none_
    have events : (runPricingRepairTask setting claimed clock store).2.events.length =
        store.events.length := by
      rw [run.events]
      exact List.length_map _
    have fewer := Finset.card_le_card run.unmarked
    rw [queue_repair_run positive none_]
    have shorter : (setting.repairService.pass (setting.queue store)
        (batchLimit claimed.adaptiveLimit 1000)).length ≤ (setting.queue store).length :=
      List.length_filter_le _ _
    rcases run.pending pending with batch | marked
    · obtain ⟨row, among, served⟩ := Service.Orderly.exists_served ordered
        (batchLimit_pos claimed.adaptiveLimit (by decide : 0 < 1000)) fun empty => batch <| by
          rw [batchOf, ← queue_of_no_replays none_, Service.batch, empty, List.take_nil]
      have served : (setting.repairService.pass (setting.queue store)
          (batchLimit claimed.adaptiveLimit 1000)).length < (setting.queue store).length := by
        refine List.length_filter_lt_length_iff_exists.mpr ⟨row, ?_, ?_⟩
        · exact (Service.mem_eligible.mp (Service.mem_of_mem_batch among)).1
        · simp [among, served]
      omega
    · have := Finset.card_lt_card marked
      omega
  · obtain ⟨-, same, fewer, marks⟩ := replay_run clock positive none_
    have := Finset.card_le_card marks
    rw [queue, same, ← queue]
    omega

/-- **A run over events in order that does not report pending leaves none that would be priced.** -/
theorem PricesInOrder.settled (ordered : setting.PricesInOrder store)
    (positive : 0 < claimed.adaptiveLimit)
    (finished : (runPricingRepairTask setting claimed clock store).1.state ≠ .pending) :
    setting.Settled (runPricingRepairTask setting claimed clock store).2 := by
  have none_ : setting.replays store = [] := by
    by_contra some_
    exact finished (replay_run clock positive some_).1
  have run := repair_run clock positive none_
  obtain ⟨whole, -⟩ := run.finished finished
  intro row among inRange isCounted
  by_contra priced
  have resolves : setting.resolves row = true := resolves_iff.mpr priced
  have waits : row ∈ setting.queue (runPricingRepairTask setting claimed clock store).2 := by
    have noCopies : setting.replays (runPricingRepairTask setting claimed clock store).2 = [] := by
      rw [replays, run.events]
      exact replays_price _ none_
    rw [queue_of_no_replays noCopies]
    refine List.mem_filter.mpr ⟨among, ?_⟩
    rw [counts] at isCounted
    rw [needsPricing, inRange, isCounted]
    rfl
  rw [queue_repair_run positive none_] at waits
  obtain ⟨waited, left⟩ := List.mem_filter.mp waits
  obtain ⟨target, isTarget⟩ :=
    Option.isSome_iff_exists.mp (repairTarget_of_inForce (inForce_of_resolves resolves))
  have active := Service.Orderly.active_of_served ordered sorted_queue waited isCounted resolves isTarget
  have inBatch : row ∈ setting.batchOf claimed.adaptiveLimit store := by
    rw [whole, ← queue_of_no_replays none_]
    exact Service.mem_eligible.mpr ⟨waited, target, isTarget, active⟩
  rw [batchOf, ← queue_of_no_replays none_] at inBatch
  rw [Bool.not_eq_true', Bool.and_eq_false_iff] at left
  rcases left with absent | unserved
  · exact of_decide_eq_false absent inBatch
  · exact Bool.eq_false_iff.mp unserved resolves

end Run

theorem PricesInOrder.completes (ordered : setting.PricesInOrder store) : setting.Completes store := by
  intro claims positive
  induction left : setting.workLeft store using Nat.strong_induction_on generalizing store claims with
  | h left_ ih =>
    by_cases pending : (setting.report claims store 0).state = .pending
    · have fewer := ordered.workLeft_lt (positive 0) pending
      obtain ⟨n, earlier, reported, settled⟩ := ih _ (left ▸ fewer) (ordered.run (positive 0))
        (fun index => claims (index + 1)) (fun index => positive (index + 1)) rfl
      refine ⟨n + 1, fun index before => ?_, ?_, ?_⟩
      · cases index with
        | zero => exact pending
        | succ index =>
          rw [report_shift]
          exact earlier index (Nat.lt_of_succ_lt_succ before)
      · rwa [report_shift]
      · rwa [storeAfter_shift]
    · exact ⟨0, fun index before => absurd before (Nat.not_lt_zero index), pending,
        ordered.settled (positive 0) pending⟩

/-! ### Completing only in order -/

section Run

variable {claimed : PricingRepairStatus} {clock : RunClock}

theorem pricesInOrder_of_finished (single : claimed.adaptiveLimit = 1)
    (finished : (runPricingRepairTask setting claimed clock store).1.state ≠ .pending)
    (settled : setting.Settled (runPricingRepairTask setting claimed clock store).2) :
    setting.PricesInOrder store := by
  have positive : 0 < claimed.adaptiveLimit := by omega
  have none_ : setting.replays store = [] := by
    by_contra some_
    exact finished (replay_run clock positive some_).1
  have run := repair_run clock positive none_
  obtain ⟨whole, priced⟩ := run.finished finished
  rw [single] at whole priced
  rw [whole] at priced
  rw [batchOf] at whole
  have settledQueue : ∀ row ∈ setting.queue store,
      row ∉ setting.repairService.eligible (setting.queue store) → counts row = true →
      ∀ target, setting.repairTarget row = some target → setting.resolves row = false := by
    intro row among unbatched isCounted _ _
    rw [queue_of_no_replays none_] at among unbatched
    obtain ⟨inStore, needs⟩ := List.mem_filter.mp among
    rw [← whole, ← batchOf] at unbatched
    have same : priceIn (setting.batchOf 1 store) setting.resolver row = row :=
      if_neg (mt (mem_keys_iff (fun other isOther =>
        (List.mem_filter.mp (mem_waiting_of_batchOf isOther)).1) inStore).mp unbatched)
    have left : row ∈ (runPricingRepairTask setting claimed clock store).2.events := by
      rw [run.events, single, ← same]
      exact List.mem_map_of_mem inStore
    have unpriced := settled row left ((Bool.and_eq_true _ _).mp needs).1 isCounted
    exact Bool.eq_false_iff.mpr fun resolves => resolves_iff.mp resolves unpriced
  rw [← queue_of_no_replays none_] at whole priced
  have inOrder : setting.repairService.Orderly counts ((setting.queue store).filter fun row =>
      row ∉ setting.repairService.eligible (setting.queue store)) := Service.Orderly.of_settled
    (fun row among => (priced row among).2) settledQueue
  cases batch : setting.repairService.eligible (setting.queue store) with
  | nil =>
    rw [batch] at inOrder
    have all : ((setting.queue store).filter fun row => row ∉ ([] : List OutboxRow)) =
        setting.queue store :=
      List.filter_eq_self.mpr fun row _ => decide_eq_true List.not_mem_nil
    rw [all] at inOrder
    exact inOrder
  | cons first rest =>
    have isLast : rest = [] := by
      rw [Service.batch, batch] at whole
      exact (List.cons.inj whole).2.symm
    subst isLast
    rw [batch] at inOrder
    have others : ((setting.queue store).filter fun row => row ∉ [first]) =
        (setting.queue store).filter (· ≠ first) := by
      refine List.filter_congr fun row _ => decide_eq_decide.mpr ?_
      rw [List.mem_singleton]
    rw [others] at inOrder
    refine inOrder.of_first nodup_queue batch (priced first ?_).2
    rw [batch]
    exact List.mem_cons_self

theorem pricesInOrder_of_run (single : claimed.adaptiveLimit = 1)
    (ordered : setting.PricesInOrder (runPricingRepairTask setting claimed clock store).2) :
    setting.PricesInOrder store := by
  have positive : 0 < claimed.adaptiveLimit := by omega
  by_cases none_ : setting.replays store = []
  · rw [PricesInOrder, queue_repair_run positive none_, single] at ordered
    exact ordered.of_pass nodup_queue
  · rw [PricesInOrder, queue, (replay_run clock positive none_).2.1] at ordered
    exact ordered

end Run

theorem pricesInOrder_of_completes (completes : setting.Completes store) :
    setting.PricesInOrder store := by
  have single : ∀ index : Nat, ((fun _ => ({ PricingRepairStatus.initial 0 with adaptiveLimit := 1 },
      ⟨0, 0⟩) : Nat → PricingRepairStatus × RunClock) index).1.adaptiveLimit = 1 := fun _ => rfl
  generalize (fun _ => ({ PricingRepairStatus.initial 0 with adaptiveLimit := 1 }, ⟨0, 0⟩) :
    Nat → PricingRepairStatus × RunClock) = claims at single
  obtain ⟨n, -, finished, settled⟩ := completes claims fun index => by
    rw [single]
    exact Nat.one_pos
  have back : ∀ runs ≤ n, setting.PricesInOrder (setting.storeAfter claims store runs) →
      setting.PricesInOrder store := by
    intro runs
    induction runs with
    | zero => exact fun _ ordered => ordered
    | succ runs ih =>
      exact fun before ordered => ih (by omega) (pricesInOrder_of_run (single runs) ordered)
  exact back n le_rfl (pricesInOrder_of_finished (single n) finished settled)

/-- **The task completes, whatever the limits of its runs, exactly if the events can be priced in
order.** -/
theorem completes_iff (setting : RepairSetting) (store : RepairStore) :
    setting.Completes store ↔ setting.PricesInOrder store :=
  ⟨pricesInOrder_of_completes, PricesInOrder.completes⟩

/-! ### A missing rate -/

theorem pending_of_unresolved {claimed : PricingRepairStatus} {clock : RunClock} {row : OutboxRow}
    (positive : 0 < claimed.adaptiveLimit) (only : store.events = [row])
    (waits : setting.needsPricing row = true) (noCopy : setting.isReplay [row] row = false)
    (inForce : setting.inForce row = true) (unresolved : setting.resolves row = false) :
    (runPricingRepairTask setting claimed clock store).1.state = .pending ∧
      (runPricingRepairTask setting claimed clock store).2.events = [row] := by
  have none_ : setting.replays store = [] := by
    rw [replays, only, List.filter_cons_of_neg (by simp [noCopy]), List.filter_nil]
  have waiting : setting.waiting store.events = [row] := by
    rw [only]
    exact List.filter_cons_of_pos waits
  have run := repair_run clock positive none_
  have inBatch : row ∈ setting.batchOf claimed.adaptiveLimit store := by
    obtain ⟨target, isTarget⟩ := Option.isSome_iff_exists.mp (repairTarget_of_inForce inForce)
    have isFirst : setting.IsFirst [row] row := ⟨List.mem_cons_self, fun other among _ => by
      rw [List.mem_singleton.mp among]⟩
    have active : setting.repairService.active [row] target = true :=
      isSupported_iff.mpr ⟨row, isFirst, inForce, isTarget⟩
    obtain ⟨taken, isTaken⟩ := Nat.exists_eq_succ_of_ne_zero
      (Nat.ne_of_gt (batchLimit_pos claimed.adaptiveLimit (by decide : 0 < 1000)))
    rw [batchOf, waiting, Service.batch, Service.eligible, List.filter_cons_of_pos, isTaken]
    · exact List.mem_cons_self
    · rw [Option.any_eq_true]
      exact ⟨target, isTarget, active⟩
  refine ⟨?_, ?_⟩
  · by_contra finished
    have resolves := ((run.finished finished).2 row inBatch).2
    rw [unresolved] at resolves
    cases resolves
  · have answer : setting.resolver row = none :=
      Option.not_isSome_iff_eq_none.mp (Bool.eq_false_iff.mp unresolved)
    rw [run.events, events_price, only, List.map_cons, List.map_nil, priceIn, answer]
    split <;> rfl

def partialRevision : ScheduledRevision where
  id := "r1"
  modelId := "m"
  effectiveAt := 0
  validUntil := none
  pricing :=
    { contextTiers := []
      cacheCreate1hPerM := none
      contextScope := none
      inputPerM := .finite 1
      outputPerM := .finite 1
      cacheReadPerM := none
      cacheCreatePerM := none
      inputAbove200kPerM := none
      outputAbove200kPerM := none
      fastMultiplier := none }
  sourceModelId := none

def partialCatalog : PriceCatalog where
  schedule := OrderedMap.empty.set "m" [partialRevision]
  nonAuthoritative := []
  authoritative := by
    intro revisions among revision isRevision
    obtain rfl := List.mem_singleton.mp (show revisions ∈ [[partialRevision]] from among)
    obtain rfl := List.mem_singleton.mp isRevision
    exact ⟨by decide, List.not_mem_nil⟩

def partialSetting (kind : StorageKind) : RepairSetting where
  kind := kind
  catalog := partialCatalog
  storedCost := fun _ => 0
  targetTo := 1000

def cachedEvent : OutboxRow where
  dedupKey := "a"
  providerKey := "codex"
  userId := some "u"
  teamId := none
  sessionId := none
  model := some "m"
  ts := 0
  inputTokens := 0
  outputTokens := 0
  cacheReadTokens := 1
  cacheCreationTokens := 0
  costUsd := 0
  logAdapter := some "codex"
  host := none
  pricingRevisionId := none
  costStatus := .unpriced
  costCalculationVersion := none
  cacheCreation1hTokens := none
  isFast := none

def cachedStore : RepairStore where
  events := [cachedEvent]
  sorted := List.pairwise_singleton _ _
  distinct := List.nodup_singleton _
  rollup := []
  watermark := none
  dirty := []

/-- The row of a repair that is due, claimed by runs that take five seconds. -/
def dueClaims : Nat → PricingRepairStatus × RunClock :=
  fun index => (PricingRepairStatus.initial 0, ⟨10000 * index, 10000 * index + 5000⟩)

/-- **An event whose cache rate is missing keeps the task pending for ever**, in either store. -/
theorem missing_rate_keeps_pending :
    ¬ ∃ kind n, ((partialSetting kind).report dueClaims cachedStore n).state ≠ .pending := by
  rintro ⟨kind, n, finished⟩
  have inForce : (partialSetting kind).inForce cachedEvent = true := by
    cases kind <;> decide
  have unresolved : (partialSetting kind).resolves cachedEvent = false := by
    cases kind <;> decide +kernel
  have run : ∀ index (store : RepairStore), store.events = [cachedEvent] →
      (runPricingRepairTask (partialSetting kind) (dueClaims index).1 (dueClaims index).2 store).1.state
        = .pending ∧
      (runPricingRepairTask (partialSetting kind) (dueClaims index).1 (dueClaims index).2 store).2.events
        = [cachedEvent] := fun index store only =>
    pending_of_unresolved (show 0 < 100 by decide) only (by cases kind <;> decide)
      (by cases kind <;> decide) inForce unresolved
  have same : ∀ runs,
      ((partialSetting kind).storeAfter dueClaims cachedStore runs).events = [cachedEvent] := by
    intro runs
    induction runs with
    | zero => rfl
    | succ runs ih => exact (run runs _ ih).2
  exact finished (run n _ (same n)).1

end RepairSetting

end Toard.Pricing
