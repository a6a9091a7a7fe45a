/-
**What changed the cost between two periods (`cost-drivers.ts`).**

A period is accumulated by model: the tokens and the dollars of five kinds. The change between two
periods is put down to five factors, each by its mean effect over all orders of the factors. Numbers
are rational.

* **`costDrivers_shapley`**: the drivers add up, change sign with the periods, and leave out what is
  the same; and what is displayed adds up.
* **`drivers_explain`**: a period keeps what its events add up to, and with all evidence the drivers
  explain the whole change.
-/

import Mathlib.Algebra.BigOperators.Fin
import Mathlib.Algebra.Order.BigOperators.Group.Finset
import Mathlib.Data.Rat.Floor
import Toard.Library.Shapley

namespace Toard.Reports

open Toard.Library (weight shapley sum_shapley shapley_compl shapley_eq_zero)

/-! ### Periods -/

/-- The kinds of tokens: input, output, read from the cache, put in it, and put in it for an hour. -/
abbrev Buckets := Fin 5 → ℚ

inductive UsageCostStatus
  | priced
  | estimated
  | unpriced
  | legacy
deriving DecidableEq

def COST_CALCULATION_VERSION : String := "cost-v2"

/-- The provider and the model; `JSON.stringify` tells them apart. -/
abbrev ModelKey := String × Option String

structure FinalizedUsageEvent where
  providerKey : String
  model : Option String
  inputTokens : ℚ
  outputTokens : ℚ
  cacheReadTokens : ℚ
  cacheCreationTokens : ℚ
  cacheCreation1hTokens : Option ℚ
  costUsd : ℚ
  costStatus : UsageCostStatus
  costCalculationVersion : Option String

structure Profile where
  key : ModelKey
  units : Buckets
  usd : Buckets
  events : Nat
  nonneg : ∀ i, 0 ≤ units i
  unpaid : ∀ i, units i = 0 → usd i = 0

structure UsageCostCoverage where
  pricedEvents : Nat
  estimatedEvents : Nat
  unpricedEvents : Nat
  legacyEvents : Nat

structure Period where
  costUsd : ℚ
  tokens : ℚ
  events : Nat
  comparableCostUsd : ℚ
  comparableEvents : Nat
  legacyEvidenceEvents : Nat
  coverage : UsageCostCoverage

/-- The sums of a period, its models, and those whose evidence is missing. -/
structure CostPeriod where
  period : Period
  profiles : List Profile
  incompleteModels : List ModelKey
  distinct : (profiles.map Profile.key).Nodup

def isSafeInteger (value : ℚ) : Bool := value.den == 1 && decide (value.num.natAbs ≤ 9007199254740991)

def unitsOf (event : FinalizedUsageEvent) : Buckets :=
  let oneHour := event.cacheCreation1hTokens.getD 0
  ![event.inputTokens, event.outputTokens, event.cacheReadTokens,
    event.cacheCreationTokens - oneHour, oneHour]

def Profile.empty (key : ModelKey) : Profile where
  key := key
  units _ := 0
  usd _ := 0
  events := 0
  nonneg _ := le_rfl
  unpaid _ _ := rfl

def Profile.add (profile : Profile) (units components : Buckets) (scale : ℚ)
    (nonneg : ∀ i, 0 ≤ units i) (unpaid : ∀ i, units i = 0 → components i = 0) : Profile where
  key := profile.key
  units i := profile.units i + units i
  usd i := profile.usd i + components i * scale
  events := profile.events + 1
  nonneg i := add_nonneg (profile.nonneg i) (nonneg i)
  unpaid i none_ := by
    obtain ⟨before, here⟩ := (add_eq_zero_iff_of_nonneg (profile.nonneg i) (nonneg i)).mp none_
    rw [profile.unpaid i before, unpaid i here, zero_mul, add_zero]

def upsert (profiles : List Profile) (key : ModelKey) (change : Profile → Profile) : List Profile :=
  if key ∈ profiles.map Profile.key then
    profiles.map fun profile => if profile.key = key then change profile else profile
  else profiles ++ [change (Profile.empty key)]

theorem nodup_upsert {profiles : List Profile} (distinct : (profiles.map Profile.key).Nodup)
    (key : ModelKey) {change : Profile → Profile}
    (keeps : ∀ profile, (change profile).key = profile.key) :
    ((upsert profiles key change).map Profile.key).Nodup := by
  unfold upsert
  split
  case isTrue =>
    rw [List.map_map]
    have same : Profile.key ∘ (fun profile => if profile.key = key then change profile else profile)
        = Profile.key := by
      funext profile
      dsimp only [Function.comp]
      split
      · exact keeps profile
      · rfl
    rwa [same]
  case isFalse fresh =>
    rw [List.map_append, List.map_cons, List.map_nil, keeps]
    refine List.nodup_append.mpr ⟨distinct, List.nodup_singleton _, fun other among new isNew same => ?_⟩
    rw [same, List.mem_singleton.mp isNew] at among
    exact fresh among

def UsageCostCoverage.count (coverage : UsageCostCoverage) : UsageCostStatus → UsageCostCoverage
  | .priced => { coverage with pricedEvents := coverage.pricedEvents + 1 }
  | .estimated => { coverage with estimatedEvents := coverage.estimatedEvents + 1 }
  | .unpriced => { coverage with unpricedEvents := coverage.unpricedEvents + 1 }
  | .legacy => { coverage with legacyEvents := coverage.legacyEvents + 1 }

def Period.count (period : Period) (event : FinalizedUsageEvent) (total : ℚ) : Period :=
  { period with
    tokens := period.tokens + total
    events := period.events + 1
    legacyEvidenceEvents := if event.costStatus = .legacy ∨
        event.costCalculationVersion ≠ some COST_CALCULATION_VERSION then
      period.legacyEvidenceEvents + 1 else period.legacyEvidenceEvents
    costUsd := period.costUsd + event.costUsd
    coverage := period.coverage.count event.costStatus }

namespace CostPeriod

def empty : CostPeriod where
  period := {
    costUsd := 0, tokens := 0, events := 0, comparableCostUsd := 0, comparableEvents := 0
    legacyEvidenceEvents := 0
    coverage := { pricedEvents := 0, estimatedEvents := 0, unpricedEvents := 0, legacyEvents := 0 } }
  profiles := []
  incompleteModels := []
  distinct := List.nodup_nil

def incomplete (state : CostPeriod) (period : Period) (key : ModelKey) : CostPeriod :=
  { state with period, incompleteModels := state.incompleteModels.insert key }

/-- `CostPeriodAccumulator.add` -/
def add (state : CostPeriod) (event : FinalizedUsageEvent) (breakdown : Option Buckets) :
    Except String CostPeriod :=
  let units := unitsOf event
  if nonneg : ∀ i, isSafeInteger (units i) = true ∧ 0 ≤ units i then
    if event.costUsd < 0 then .error "invalid_report_evidence"
    else
      let total := ∑ i, units i
      if ¬ isSafeInteger (state.period.tokens + total) then
        .error "report_token_total_out_of_range"
      else
        let period := state.period.count event total
        let key := (event.providerKey, event.model)
        match breakdown with
        | none => .ok (state.incomplete period key)
        | some components =>
          let computed := ∑ i, components i
          if event.costStatus = .unpriced ∨ event.costStatus = .legacy then
            .ok (state.incomplete period key)
          else if (∃ i, components i < 0) ∨ 1 / 10 ^ 8 < |computed - event.costUsd| ∨
              computed = 0 ∧ event.costUsd ≠ 0 then .ok (state.incomplete period key)
          else if unpaid : ∀ i, units i = 0 → components i = 0 then
            let scale := if computed = 0 then 1 else event.costUsd / computed
            .ok {
              period := { period with
                comparableCostUsd := period.comparableCostUsd + event.costUsd
                comparableEvents := period.comparableEvents + 1 }
              profiles := upsert state.profiles key fun profile =>
                profile.add units components scale (fun i => (nonneg i).2) unpaid
              incompleteModels := state.incompleteModels
              distinct := nodup_upsert state.distinct key fun _ => rfl }
          else .ok (state.incomplete period key)
  else .error "invalid_report_evidence"

/-- A period from its events; `snapshot` copies what was accumulated. -/
def accumulate (events : List (FinalizedUsageEvent × Option Buckets)) : Except String CostPeriod :=
  events.foldlM (fun state event => state.add event.1 event.2) empty

end CostPeriod

/-! ### The change -/

structure Factors where
  total : ℚ
  share : ℚ
  output : ℚ
  cache : Buckets
  rates : Buckets

/-- The factors of a model in a period; what is not observed is borrowed from the other. -/
def factors (profile other : Option Profile) (total otherTotal : ℚ) : Factors :=
  let own := (profile.map Profile.units).getD fun _ => 0
  let ownUsd := (profile.map Profile.usd).getD fun _ => 0
  let alternate := (other.map Profile.units).getD fun _ => 0
  let alternateUsd := (other.map Profile.usd).getD fun _ => 0
  let units := ∑ i, own i
  let altUnits := ∑ i, alternate i
  let input := units - own 1
  let altInput := altUnits - alternate 1
  { total
    share := if 0 < total then units / total else if 0 < otherTotal then altUnits / otherTotal else 0
    output := if 0 < units then own 1 / units else if 0 < altUnits then alternate 1 / altUnits else 0
    cache := fun i =>
      if i = 1 then 0
      else if 0 < input then own i / input
      else if 0 < altInput then alternate i / altInput
      else if i = 0 then 1 else 0
    rates := fun i =>
      if 0 < own i then ownUsd i / own i
      else if 0 < alternate i then alternateUsd i / alternate i else 0 }

inductive CostDriver
  | volume
  | modelMix
  | outputMix
  | cacheMix
  | effectiveRates
deriving DecidableEq

def COST_DRIVERS : List CostDriver := [.volume, .modelMix, .outputMix, .cacheMix, .effectiveRates]

def CostDriver.index : CostDriver → Fin 5
  | .volume => 0
  | .modelMix => 1
  | .outputMix => 2
  | .cacheMix => 3
  | .effectiveRates => 4

abbrev FactorPair := Factors × Factors

/-- `values[mask]`: the bits of the mask choose a period for each factor. -/
def valueAt (pairs : List FactorPair) (oldTotal newTotal : ℚ) (mask : Nat) : ℚ :=
  let volume := if mask &&& 1 ≠ 0 then newTotal else oldTotal
  volume * (pairs.map fun pair =>
    let mix := if mask &&& 2 ≠ 0 then pair.2 else pair.1
    let output := (if mask &&& 4 ≠ 0 then pair.2 else pair.1).output
    let cache := (if mask &&& 8 ≠ 0 then pair.2 else pair.1).cache
    let rates := (if mask &&& 16 ≠ 0 then pair.2 else pair.1).rates
    let inputRate := ∑ i, cache i * rates i
    mix.share * ((1 - output) * inputRate + output * rates 1)).sum

/-- The loop that counts the bits of a number; five are enough for a mask. -/
def bitCount : Nat → Nat → Nat
  | 0, _ => 0
  | fuel + 1, bits => if bits = 0 then 0 else bitCount fuel (bits &&& (bits - 1)) + 1

def factorial (n : Nat) : ℚ := [1, 1, 2, 6, 24, 120].getD n 0

def marginal (values : Nat → ℚ) (index mask : Nat) : ℚ :=
  if mask &&& (1 <<< index) ≠ 0 then 0
  else
    let count := bitCount 5 mask
    let weight := factorial count * factorial (4 - count) / factorial 5
    weight * (values (mask ||| (1 <<< index)) - values mask)

def contribution (values : Nat → ℚ) (index : Nat) : ℚ :=
  ((List.range 32).map (marginal values index)).sum

structure CostChange where
  deltaUsd : ℚ
  driversUsd : CostDriver → ℚ
  unexplainedUsd : ℚ
  missingEvidenceEvents : ℤ
  excludedEvents : ℤ
  analyzedPreviousUsd : ℚ
  analyzedCurrentUsd : ℚ

def comparable (period other : CostPeriod) : List Profile :=
  period.profiles.filter fun profile =>
    !(period.incompleteModels ++ other.incompleteModels).contains profile.key

/-- `Map.get` -/
def profileOf (profiles : List Profile) (key : ModelKey) : Option Profile :=
  profiles.find? fun profile => profile.key == key

def totalUnits (profiles : List Profile) : ℚ :=
  (profiles.map fun profile => ∑ i, profile.units i).sum

def totalUsd (profiles : List Profile) : ℚ := (profiles.map fun profile => ∑ i, profile.usd i).sum

def keysOf (old fresh : List Profile) : List ModelKey :=
  old.map Profile.key ++ (fresh.map Profile.key).filter fun key => !(old.map Profile.key).contains key

def pairsOf (old fresh : List Profile) : List FactorPair :=
  (keysOf old fresh).map fun key =>
    (factors (profileOf old key) (profileOf fresh key) (totalUnits old) (totalUnits fresh),
     factors (profileOf fresh key) (profileOf old key) (totalUnits fresh) (totalUnits old))

def decomposeCostChange (previous current : CostPeriod) : CostChange :=
  let old := comparable previous current
  let fresh := comparable current previous
  let values := valueAt (pairsOf old fresh) (totalUnits old) (totalUnits fresh)
  let driversUsd := fun driver : CostDriver => contribution values driver.index
  let deltaUsd := current.period.costUsd - previous.period.costUsd
  { deltaUsd
    driversUsd
    unexplainedUsd := deltaUsd - (COST_DRIVERS.map driversUsd).sum
    missingEvidenceEvents := previous.period.events + current.period.events -
      previous.period.comparableEvents - current.period.comparableEvents
    excludedEvents := previous.period.events + current.period.events -
      ((old ++ fresh).map Profile.events).sum
    analyzedPreviousUsd := totalUsd old
    analyzedCurrentUsd := totalUsd fresh }

/-! ### What is displayed -/

/-- `Math.round` -/
def mathRound (value : ℚ) : ℤ := ⌊value + 1 / 2⌋

structure DisplayedDrivers where
  drivers : List (CostDriver × ℚ)
  residual : ℚ
  delta : ℚ

def displayCostDrivers (result : CostChange) (digits : ℤ) : DisplayedDrivers :=
  let scale : ℚ := 10 ^ digits
  let drivers := COST_DRIVERS.map fun key => (key, (mathRound (result.driversUsd key * scale) : ℚ) / scale)
  { drivers
    residual := ((mathRound (result.deltaUsd * scale) : ℚ) -
      (drivers.map fun row => (mathRound (row.2 * scale) : ℚ)).sum) / scale
    delta := (mathRound (result.deltaUsd * scale) : ℚ) / scale }

/-! ### The factors of a model -/

section Factors

variable (profile other : Option Profile) (total otherTotal : ℚ)

def unitsIn (profile : Option Profile) : Buckets := (profile.map Profile.units).getD fun _ => 0

def usdIn (profile : Option Profile) : Buckets := (profile.map Profile.usd).getD fun _ => 0

theorem unitsIn_nonneg (i : Fin 5) : 0 ≤ unitsIn profile i := by
  cases profile with
  | none => exact le_rfl
  | some profile => exact profile.nonneg i

theorem usdIn_unpaid {i : Fin 5} (unused : unitsIn profile i = 0) : usdIn profile i = 0 := by
  cases profile with
  | none => rfl
  | some profile => exact profile.unpaid i unused

theorem units_mul_rates (i : Fin 5) :
    unitsIn profile i * (factors profile other total otherTotal).rates i = usdIn profile i := by
  change unitsIn profile i * (if 0 < unitsIn profile i then usdIn profile i / unitsIn profile i
    else if 0 < unitsIn other i then usdIn other i / unitsIn other i else 0) = usdIn profile i
  by_cases used : 0 < unitsIn profile i
  · rw [if_pos used, mul_div_cancel₀ _ used.ne']
  · have unused : unitsIn profile i = 0 := le_antisymm (not_lt.mp used) (unitsIn_nonneg profile i)
    rw [unused, zero_mul, usdIn_unpaid profile unused]

theorem input_mul_cache {i : Fin 5} (input : i ≠ 1) :
    (∑ j, unitsIn profile j - unitsIn profile 1) * (factors profile other total otherTotal).cache i
      = unitsIn profile i := by
  have parts : unitsIn profile 1 + unitsIn profile i ≤ ∑ j, unitsIn profile j := by
    have pair := Finset.sum_le_sum_of_subset_of_nonneg (Finset.subset_univ {1, i})
      fun j _ _ => unitsIn_nonneg profile j
    rwa [Finset.sum_pair (Ne.symm input)] at pair
  change (∑ j, unitsIn profile j - unitsIn profile 1) * (if i = 1 then 0
    else if 0 < ∑ j, unitsIn profile j - unitsIn profile 1 then
      unitsIn profile i / (∑ j, unitsIn profile j - unitsIn profile 1)
    else if 0 < ∑ j, unitsIn other j - unitsIn other 1 then
      unitsIn other i / (∑ j, unitsIn other j - unitsIn other 1)
    else if i = 0 then 1 else 0) = unitsIn profile i
  rw [if_neg input]
  by_cases given : 0 < ∑ j, unitsIn profile j - unitsIn profile 1
  · rw [if_pos given, mul_div_cancel₀ _ given.ne']
  · have own := unitsIn_nonneg profile i
    have none_ : ∑ j, unitsIn profile j - unitsIn profile 1 = 0 := by linarith
    rw [none_, zero_mul]
    linarith

def Factors.cost (f : Factors) : ℚ :=
  f.share * ((1 - f.output) * ∑ i, f.cache i * f.rates i + f.output * f.rates 1)

/-- **The factors of a model multiply to what it cost.** -/
theorem factors_cost (within : ∑ i, unitsIn profile i ≤ total) :
    total * (factors profile other total otherTotal).cost = ∑ i, usdIn profile i := by
  have nonneg : 0 ≤ ∑ i, unitsIn profile i := Finset.sum_nonneg fun i _ => unitsIn_nonneg profile i
  have share : total * (factors profile other total otherTotal).share = ∑ i, unitsIn profile i := by
    change total * (if 0 < total then (∑ i, unitsIn profile i) / total
      else if 0 < otherTotal then (∑ i, unitsIn other i) / otherTotal else 0) = _
    by_cases some_ : 0 < total
    · rw [if_pos some_, mul_div_cancel₀ _ some_.ne']
    · have none_ : total = 0 := by linarith
      rw [none_, zero_mul]
      linarith
  rw [Factors.cost, ← mul_assoc, share]
  by_cases used : 0 < ∑ i, unitsIn profile i
  · have output : (∑ i, unitsIn profile i) * (factors profile other total otherTotal).output
        = unitsIn profile 1 := by
      change (∑ i, unitsIn profile i) * (if 0 < ∑ i, unitsIn profile i then
        unitsIn profile 1 / ∑ i, unitsIn profile i else _) = _
      rw [if_pos used, mul_div_cancel₀ _ used.ne']
    have input : ∀ i, (∑ j, unitsIn profile j - unitsIn profile 1) *
        ((factors profile other total otherTotal).cache i
          * (factors profile other total otherTotal).rates i)
        = if i = 1 then 0 else usdIn profile i := by
      intro i
      by_cases out : i = 1
      · subst out
        change _ * (0 * _) = _
        rw [zero_mul, mul_zero, if_pos rfl]
      · rw [if_neg out, ← mul_assoc, input_mul_cache _ _ _ _ out, units_mul_rates]
    have rated := units_mul_rates profile other total otherTotal 1
    generalize factors profile other total otherTotal = f at output input rated ⊢
    calc (∑ i, unitsIn profile i)
            * ((1 - f.output) * ∑ i, f.cache i * f.rates i + f.output * f.rates 1)
        = (∑ i, unitsIn profile i - (∑ i, unitsIn profile i) * f.output)
            * ∑ i, f.cache i * f.rates i + (∑ i, unitsIn profile i) * f.output * f.rates 1 := by ring
      _ = ∑ i, (if i = 1 then 0 else usdIn profile i) + usdIn profile 1 := by
          rw [output, rated, Finset.mul_sum]
          exact congrArg (· + _) (Finset.sum_congr rfl fun i _ => input i)
      _ = ∑ i, usdIn profile i := by
          rw [Finset.sum_ite, Finset.sum_const_zero, zero_add, Finset.filter_ne',
            Finset.sum_erase_add _ _ (Finset.mem_univ _)]
  · have none_ : ∑ i, unitsIn profile i = 0 := by linarith
    have each := (Finset.sum_eq_zero_iff_of_nonneg fun i _ => unitsIn_nonneg profile i).mp none_
    rw [none_, zero_mul]
    exact (Finset.sum_eq_zero fun i among => usdIn_unpaid profile (each i among)).symm

end Factors

/-! ### The loop over the masks -/

def maskSet (mask : Nat) : Finset (Fin 5) := {i | mask &&& (1 <<< i.val) ≠ 0}

def maskOf (chosen : Finset (Fin 5)) : Nat := ∑ i ∈ chosen, 2 ^ i.val

theorem maskOf_lt : ∀ chosen, maskOf chosen < 32 := by decide

theorem maskSet_maskOf : ∀ chosen, maskSet (maskOf chosen) = chosen := by decide

theorem maskOf_maskSet : ∀ mask < 32, maskOf (maskSet mask) = mask := by decide

theorem maskSet_or : ∀ mask < 32, ∀ i : Fin 5,
    maskSet (mask ||| (1 <<< i.val)) = insert i (maskSet mask) := by decide

theorem bitCount_eq : ∀ mask < 32, bitCount 5 mask = (maskSet mask).card := by decide

theorem factorial_weight : ∀ count < 5,
    factorial count * factorial (4 - count) / factorial 5 = weight 5 count := by decide +kernel

theorem mem_maskSet {mask : Nat} {i : Fin 5} : i ∈ maskSet mask ↔ mask &&& (1 <<< i.val) ≠ 0 := by
  simp [maskSet]

/-- **The loop over the masks gives a factor its Shapley value.** -/
theorem contribution_eq (game : Finset (Fin 5) → ℚ) (i : Fin 5) :
    contribution (fun mask => game (maskSet mask)) i = shapley game i := by
  have loop : contribution (fun mask => game (maskSet mask)) i
      = ∑ mask ∈ Finset.range 32, marginal (fun mask => game (maskSet mask)) i mask := rfl
  rw [loop, shapley, Finset.sum_filter]
  refine Finset.sum_nbij' maskSet maskOf (fun _ _ => Finset.mem_univ _)
    (fun chosen _ => Finset.mem_range.mpr (maskOf_lt chosen))
    (fun mask small => maskOf_maskSet mask (Finset.mem_range.mp small))
    (fun chosen _ => maskSet_maskOf chosen) fun mask small => ?_
  have small := Finset.mem_range.mp small
  by_cases among : i ∈ maskSet mask
  · rw [if_neg (not_not.mpr among), marginal, if_pos (mem_maskSet.mp among)]
  · have count : (maskSet mask).card < 5 := Finset.card_lt_univ_of_notMem among
    rw [if_pos among, marginal, if_neg (mt mem_maskSet.mpr among)]
    dsimp only
    rw [bitCount_eq mask small, factorial_weight _ count, maskSet_or mask small]
    rfl

/-! ### The game of the factors -/

def mixed (chosen : Finset (Fin 5)) (pair : FactorPair) : Factors where
  total := 0
  share := (if 1 ∈ chosen then pair.2 else pair.1).share
  output := (if 2 ∈ chosen then pair.2 else pair.1).output
  cache := (if 3 ∈ chosen then pair.2 else pair.1).cache
  rates := (if 4 ∈ chosen then pair.2 else pair.1).rates

/-- The cost when the chosen factors are those of the second period. -/
def game (pairs : List FactorPair) (oldTotal newTotal : ℚ) (chosen : Finset (Fin 5)) : ℚ :=
  (if 0 ∈ chosen then newTotal else oldTotal) * (pairs.map fun pair => (mixed chosen pair).cost).sum

theorem valueAt_eq (pairs : List FactorPair) (oldTotal newTotal : ℚ) (mask : Nat) :
    valueAt pairs oldTotal newTotal mask = game pairs oldTotal newTotal (maskSet mask) := by
  have volume : 0 ∈ maskSet mask ↔ mask &&& 1 ≠ 0 := mem_maskSet
  have mix : 1 ∈ maskSet mask ↔ mask &&& 2 ≠ 0 := mem_maskSet
  have output : 2 ∈ maskSet mask ↔ mask &&& 4 ≠ 0 := mem_maskSet
  have cache : 3 ∈ maskSet mask ↔ mask &&& 8 ≠ 0 := mem_maskSet
  have rates : 4 ∈ maskSet mask ↔ mask &&& 16 ≠ 0 := mem_maskSet
  simp only [game, mixed, valueAt, volume, mix, output, cache, rates]
  rfl

theorem game_swap (pairs : List FactorPair) (oldTotal newTotal : ℚ) (chosen : Finset (Fin 5)) :
    game (pairs.map Prod.swap) newTotal oldTotal chosen
      = game pairs oldTotal newTotal chosenᶜ := by
  simp only [game, mixed, Finset.mem_compl, ite_not, List.map_map]
  rfl

theorem game_perm {pairs others : List FactorPair} (same : pairs.Perm others) (oldTotal newTotal : ℚ) :
    game pairs oldTotal newTotal = game others oldTotal newTotal := by
  funext chosen
  exact congrArg (_ * ·) (same.map _).sum_eq

/-- The factor of a driver is the same on both sides, for every model. -/
def SameFactor (pairs : List FactorPair) (oldTotal newTotal : ℚ) : CostDriver → Prop
  | .volume => oldTotal = newTotal
  | .modelMix => ∀ pair ∈ pairs, pair.1.share = pair.2.share
  | .outputMix => ∀ pair ∈ pairs, pair.1.output = pair.2.output
  | .cacheMix => ∀ pair ∈ pairs, pair.1.cache = pair.2.cache
  | .effectiveRates => ∀ pair ∈ pairs, pair.1.rates = pair.2.rates

theorem game_insert {pairs : List FactorPair} {oldTotal newTotal : ℚ} {driver : CostDriver}
    (same : SameFactor pairs oldTotal newTotal driver) {chosen : Finset (Fin 5)}
    (out : driver.index ∉ chosen) :
    game pairs oldTotal newTotal (insert driver.index chosen) = game pairs oldTotal newTotal chosen := by
  have volume : (if 0 ∈ insert driver.index chosen then newTotal else oldTotal)
      = if 0 ∈ chosen then newTotal else oldTotal := by
    cases driver with
    | volume =>
      have same : oldTotal = newTotal := same
      rw [same, ite_self, ite_self]
    | _ => simp [CostDriver.index]
  have models : ∀ pair ∈ pairs, mixed (insert driver.index chosen) pair = mixed chosen pair := by
    intro pair among
    cases driver with
    | volume => simp [mixed, CostDriver.index]
    | modelMix => simp [mixed, CostDriver.index, show 1 ∉ chosen from out, same pair among]
    | outputMix => simp [mixed, CostDriver.index, show 2 ∉ chosen from out, same pair among]
    | cacheMix => simp [mixed, CostDriver.index, show 3 ∉ chosen from out, same pair among]
    | effectiveRates => simp [mixed, CostDriver.index, show 4 ∉ chosen from out, same pair among]
  rw [game, game, volume,
    List.map_congr_left fun pair among => congrArg Factors.cost (models pair among)]

/-! ### The models of both periods -/

theorem profileOf_of_mem {profiles : List Profile} (distinct : (profiles.map Profile.key).Nodup)
    {profile : Profile} (among : profile ∈ profiles) :
    profileOf profiles profile.key = some profile := by
  cases found : profileOf profiles profile.key with
  | none =>
    have missed := List.find?_eq_none.mp found profile among
    simp at missed
  | some other =>
    have same : other.key = profile.key := by simpa using List.find?_some found
    rw [List.inj_on_of_nodup_map distinct (List.mem_of_find?_eq_some found) among same]

theorem profileOf_of_not_mem {profiles : List Profile} {key : ModelKey}
    (out : key ∉ profiles.map Profile.key) : profileOf profiles key = none := by
  rw [profileOf, List.find?_eq_none]
  intro profile among same
  exact out (List.mem_map.mpr ⟨profile, among, eq_of_beq same⟩)

theorem sum_profileOf {profiles : List Profile} (distinct : (profiles.map Profile.key).Nodup)
    {keys : List ModelKey} (unique : keys.Nodup) (all : ∀ profile ∈ profiles, profile.key ∈ keys)
    {f : Option Profile → ℚ} (absent : f none = 0) :
    (keys.map fun key => f (profileOf profiles key)).sum
      = (profiles.map fun profile => f (some profile)).sum := by
  have covered : (profiles.map Profile.key).toFinset ⊆ keys.toFinset := fun key among => by
    obtain ⟨profile, is, rfl⟩ := List.mem_map.mp (List.mem_toFinset.mp among)
    exact List.mem_toFinset.mpr (all profile is)
  rw [← List.sum_toFinset _ unique, ← Finset.sum_subset covered fun key _ out => ?_,
    List.sum_toFinset _ distinct, List.map_map]
  · exact congrArg List.sum (List.map_congr_left fun profile among =>
      congrArg f (profileOf_of_mem distinct among))
  · rw [profileOf_of_not_mem (mt List.mem_toFinset.mpr out), absent]

theorem nodup_keysOf {old fresh : List Profile} (distinctOld : (old.map Profile.key).Nodup)
    (distinctFresh : (fresh.map Profile.key).Nodup) : (keysOf old fresh).Nodup := by
  refine List.nodup_append.mpr ⟨distinctOld, distinctFresh.filter _, fun key among other is same => ?_⟩
  have new := (List.mem_filter.mp is).2
  rw [← same, List.contains_iff_mem.mpr among] at new
  exact absurd new Bool.false_ne_true

theorem mem_keysOf {old fresh : List Profile} {key : ModelKey} :
    key ∈ keysOf old fresh ↔ key ∈ old.map Profile.key ∨ key ∈ fresh.map Profile.key := by
  rw [keysOf, List.mem_append, List.mem_filter, Bool.not_eq_true', List.contains_eq_mem,
    decide_eq_false_iff_not]
  by_cases among : key ∈ old.map Profile.key
  · simp only [among, true_or]
  · simp only [among, not_false_eq_true, and_true]

theorem unitsIn_le_totalUnits (profiles : List Profile) (key : ModelKey) :
    ∑ i, unitsIn (profileOf profiles key) i ≤ totalUnits profiles := by
  have nonneg : ∀ units ∈ profiles.map fun profile => ∑ i, profile.units i, (0 : ℚ) ≤ units := by
    intro units among
    obtain ⟨profile, -, rfl⟩ := List.mem_map.mp among
    exact Finset.sum_nonneg fun i _ => profile.nonneg i
  cases found : profileOf profiles key with
  | none => exact (Finset.sum_eq_zero fun _ _ => rfl).trans_le (List.sum_nonneg nonneg)
  | some profile =>
    exact List.single_le_sum nonneg _ (List.mem_map.mpr ⟨profile, List.mem_of_find?_eq_some found, rfl⟩)

section Pairs

variable {old fresh : List Profile} (distinctOld : (old.map Profile.key).Nodup)
  (distinctFresh : (fresh.map Profile.key).Nodup)

include distinctOld distinctFresh

theorem game_empty :
    game (pairsOf old fresh) (totalUnits old) (totalUnits fresh) ∅ = totalUsd old := by
  have each : ∀ key, totalUnits old * (factors (profileOf old key) (profileOf fresh key)
      (totalUnits old) (totalUnits fresh)).cost = ∑ i, usdIn (profileOf old key) i :=
    fun key => factors_cost _ _ _ _ (unitsIn_le_totalUnits old key)
  have models := sum_profileOf distinctOld (nodup_keysOf distinctOld distinctFresh)
    (fun profile among => mem_keysOf.mpr (.inl (List.mem_map_of_mem among)))
    (f := fun profile => ∑ i, usdIn profile i) (Finset.sum_eq_zero fun _ _ => rfl)
  rw [game, if_neg (Finset.notMem_empty _), ← List.sum_map_mul_left, pairsOf, List.map_map]
  exact (congrArg List.sum (List.map_congr_left fun key _ => each key)).trans models

theorem pairsOf_swap : (pairsOf fresh old).Perm ((pairsOf old fresh).map Prod.swap) := by
  have keys : (keysOf fresh old).Perm (keysOf old fresh) :=
    (List.perm_ext_iff_of_nodup (nodup_keysOf distinctFresh distinctOld)
      (nodup_keysOf distinctOld distinctFresh)).mpr fun key => by
        rw [mem_keysOf, mem_keysOf, or_comm]
  rw [pairsOf, pairsOf, List.map_map]
  exact keys.map _

theorem game_exchange (chosen : Finset (Fin 5)) :
    game (pairsOf fresh old) (totalUnits fresh) (totalUnits old) chosen
      = game (pairsOf old fresh) (totalUnits old) (totalUnits fresh) chosenᶜ := by
  rw [game_perm (pairsOf_swap distinctOld distinctFresh), game_swap]

theorem game_univ :
    game (pairsOf old fresh) (totalUnits old) (totalUnits fresh) Finset.univ = totalUsd fresh := by
  rw [← Finset.compl_empty, ← game_exchange distinctOld distinctFresh,
    game_empty distinctFresh distinctOld]

end Pairs

/-! ### The change of two periods -/

theorem nodup_comparable (period other : CostPeriod) :
    ((comparable period other).map Profile.key).Nodup :=
  period.distinct.sublist (List.Sublist.map _ List.filter_sublist)

def changePairs (previous current : CostPeriod) : List FactorPair :=
  pairsOf (comparable previous current) (comparable current previous)

/-- The factor of a driver is the same in both periods, for every model. -/
def Unchanged (previous current : CostPeriod) (driver : CostDriver) : Prop :=
  SameFactor (changePairs previous current) (totalUnits (comparable previous current))
    (totalUnits (comparable current previous)) driver

def changeGame (previous current : CostPeriod) : Finset (Fin 5) → ℚ :=
  game (changePairs previous current) (totalUnits (comparable previous current))
    (totalUnits (comparable current previous))

theorem driversUsd_eq (previous current : CostPeriod) (driver : CostDriver) :
    (decomposeCostChange previous current).driversUsd driver
      = shapley (changeGame previous current) driver.index := by
  rw [← contribution_eq]
  exact congrArg (contribution · _) (funext fun mask => valueAt_eq _ _ _ mask)

theorem sum_drivers (previous current : CostPeriod) :
    (COST_DRIVERS.map (decomposeCostChange previous current).driversUsd).sum
      = (decomposeCostChange previous current).analyzedCurrentUsd
        - (decomposeCostChange previous current).analyzedPreviousUsd := by
  have all := sum_shapley (changeGame previous current)
  have distinct := nodup_comparable previous current
  have distinct' := nodup_comparable current previous
  rw [changeGame, changePairs, game_univ distinct distinct', game_empty distinct distinct',
    Fin.sum_univ_five] at all
  simp only [COST_DRIVERS, List.map_cons, List.map_nil, List.sum_cons, List.sum_nil, driversUsd_eq]
  rw [add_zero, ← add_assoc, ← add_assoc, ← add_assoc]
  exact all

theorem drivers_exchange (previous current : CostPeriod) (driver : CostDriver) :
    (decomposeCostChange current previous).driversUsd driver
      = -(decomposeCostChange previous current).driversUsd driver := by
  have swapped : changeGame current previous = fun chosen => changeGame previous current chosenᶜ :=
    funext fun chosen =>
      game_exchange (nodup_comparable previous current) (nodup_comparable current previous) chosen
  rw [driversUsd_eq, driversUsd_eq, swapped, shapley_compl]

theorem drivers_unchanged {previous current : CostPeriod} {driver : CostDriver}
    (same : Unchanged previous current driver) :
    (decomposeCostChange previous current).driversUsd driver = 0 := by
  rw [driversUsd_eq]
  exact shapley_eq_zero fun _ out => game_insert same out

theorem mathRound_intCast (n : ℤ) : mathRound n = n := by
  rw [mathRound, Int.floor_eq_iff]
  constructor <;> norm_num

theorem displayed_sum (result : CostChange) (digits : ℤ) :
    ((displayCostDrivers result digits).drivers.map Prod.snd).sum
        + (displayCostDrivers result digits).residual
      = (displayCostDrivers result digits).delta := by
  have scale : (10 : ℚ) ^ digits ≠ 0 := zpow_ne_zero _ (by norm_num)
  have rounded : ∀ n : ℤ, mathRound ((n : ℚ) / 10 ^ digits * 10 ^ digits) = n := fun n => by
    rw [div_mul_cancel₀ _ scale, mathRound_intCast]
  simp only [displayCostDrivers, COST_DRIVERS, List.map_cons, List.map_nil, List.sum_cons,
    List.sum_nil, rounded]
  ring

/-- What a period says of its events. With all models complete, every event is compared. -/
structure Conserves (events : List (FinalizedUsageEvent × Option Buckets)) (state : CostPeriod) :
    Prop where
  costUsd : state.period.costUsd = (events.map fun event => event.1.costUsd).sum
  tokens : state.period.tokens = (events.map fun event => ∑ i, unitsOf event.1 i).sum
  counted : state.period.events = events.length
  covered : state.period.coverage.pricedEvents + state.period.coverage.estimatedEvents +
    state.period.coverage.unpricedEvents + state.period.coverage.legacyEvents = events.length
  comparableUsd : totalUsd state.profiles = state.period.comparableCostUsd
  comparable : (state.profiles.map Profile.events).sum = state.period.comparableEvents
  complete : state.incompleteModels = [] → state.period.comparableEvents = state.period.events ∧
    state.period.comparableCostUsd = state.period.costUsd

theorem sum_upsert {M : Type} [AddCommMonoid M] {profiles : List Profile}
    (distinct : (profiles.map Profile.key).Nodup) (key : ModelKey) {change : Profile → Profile}
    (weight : Profile → M) {gain : M} (gains : ∀ profile, weight (change profile) = weight profile + gain)
    (nothing : weight (Profile.empty key) = 0) :
    ((upsert profiles key change).map weight).sum = (profiles.map weight).sum + gain := by
  unfold upsert
  split
  case isTrue among =>
    induction profiles with
    | nil => cases among
    | cons profile profiles ih =>
      obtain ⟨apart, distinct⟩ := List.nodup_cons.mp distinct
      by_cases here : profile.key = key
      · have rest : profiles.map (fun profile => if profile.key = key then change profile
            else profile) = profiles.map id := List.map_congr_left fun other found =>
          if_neg fun (same : other.key = key) => apart
            (here.trans same.symm ▸ List.mem_map_of_mem found)
        rw [List.map_cons, rest, List.map_id, if_pos here, List.map_cons, List.map_cons,
          List.sum_cons, List.sum_cons, gains, add_right_comm]
      · have later := (List.mem_cons.mp among).resolve_left (Ne.symm here)
        rw [List.map_cons, if_neg here, List.map_cons, List.map_cons, List.sum_cons,
          List.sum_cons, ih distinct later, add_assoc]
  case isFalse =>
    rw [List.map_append, List.sum_append, List.map_singleton, List.sum_singleton, gains, nothing,
      zero_add]

section Add

variable {events : List (FinalizedUsageEvent × Option Buckets)} {state after : CostPeriod}
  {event : FinalizedUsageEvent} {breakdown : Option Buckets}

theorem Conserves.incomplete (conserves : Conserves events state) (key : ModelKey) :
    Conserves (events ++ [(event, breakdown)])
      (state.incomplete (state.period.count event (∑ i, unitsOf event i)) key) where
  costUsd := by simp [CostPeriod.incomplete, Period.count, conserves.costUsd]
  tokens := by simp [CostPeriod.incomplete, Period.count, conserves.tokens]
  counted := by simp [CostPeriod.incomplete, Period.count, conserves.counted]
  covered := by
    have covered := conserves.covered
    cases status : event.costStatus <;>
      simp [CostPeriod.incomplete, Period.count, UsageCostCoverage.count, status] <;> omega
  comparableUsd := conserves.comparableUsd
  comparable := conserves.comparable
  complete none_ := absurd (List.mem_insert_self (a := key) (l := state.incompleteModels)) (by
    rw [show state.incompleteModels.insert key = [] from none_]
    exact List.not_mem_nil)

theorem Conserves.add (conserves : Conserves events state)
    (added : state.add event breakdown = .ok after) :
    Conserves (events ++ [(event, breakdown)]) after := by
  have skipped := @Conserves.incomplete _ _ event breakdown conserves
    (event.providerKey, event.model)
  unfold CostPeriod.add at added
  dsimp only at added
  split at added
  case isFalse => cases added
  split at added
  case isTrue => cases added
  split at added
  case isTrue => cases added
  cases breakdown with
  | none =>
    cases added
    exact skipped
  | some components =>
    dsimp only at added
    split at added
    case isTrue =>
      cases added
      exact skipped
    split at added
    case isTrue =>
      cases added
      exact skipped
    case isFalse fits =>
      split at added
      case isFalse =>
        cases added
        exact skipped
      case isTrue =>
        cases added
        have paid : ∑ i, components i * (if ∑ i, components i = 0 then 1
            else event.costUsd / ∑ i, components i) = event.costUsd := by
          rw [← Finset.sum_mul]
          split
          case isTrue free =>
            by_contra differs
            exact fits (.inr (.inr ⟨free, fun none_ => differs (by rw [free, none_, zero_mul])⟩))
          case isFalse some_ => exact mul_div_cancel₀ _ some_
        refine { costUsd := skipped.costUsd, tokens := skipped.tokens, counted := skipped.counted,
                 covered := skipped.covered, comparableUsd := ?_, comparable := ?_,
                 complete := fun whole => ?_ }
        · rw [totalUsd, sum_upsert state.distinct _ (fun profile => ∑ i, profile.usd i)
            (fun profile => Finset.sum_add_distrib.trans (congrArg _ paid)) Finset.sum_const_zero]
          exact congrArg (· + event.costUsd) conserves.comparableUsd
        · rw [sum_upsert state.distinct _ Profile.events (fun _ => rfl) rfl]
          exact congrArg (· + 1) conserves.comparable
        · obtain ⟨all, same⟩ := conserves.complete whole
          exact ⟨congrArg (· + 1) all, congrArg (· + event.costUsd) same⟩

theorem conserves_accumulate (done : CostPeriod.accumulate events = .ok state) :
    Conserves events state := by
  induction events using List.reverseRecOn generalizing state with
  | nil =>
    cases done
    exact ⟨rfl, rfl, rfl, rfl, rfl, rfl, fun _ => ⟨rfl, rfl⟩⟩
  | append_singleton events event ih =>
    simp only [CostPeriod.accumulate, List.foldlM_append, List.foldlM_cons, List.foldlM_nil,
      bind_pure] at done
    cases before : events.foldlM (fun state event => state.add event.1 event.2) CostPeriod.empty with
    | error error =>
      rw [before] at done
      cases done
    | ok earlier =>
      rw [before] at done
      exact (ih before).add done

end Add

theorem comparable_complete (period : CostPeriod) {other : CostPeriod}
    (whole : period.incompleteModels = []) (whole' : other.incompleteModels = []) :
    comparable period other = period.profiles := by
  rw [comparable, whole, whole']
  exact List.filter_eq_self.mpr fun _ _ => rfl

/-- **What two periods say of their events, and the drivers of the change.** With the evidence of all
models, the drivers explain the whole change, and no event is left out. -/
theorem drivers_explain {old fresh : List (FinalizedUsageEvent × Option Buckets)}
    {previous current : CostPeriod} (before : CostPeriod.accumulate old = .ok previous)
    (now : CostPeriod.accumulate fresh = .ok current) :
    Conserves old previous ∧ Conserves fresh current ∧
      (previous.incompleteModels = [] → current.incompleteModels = [] →
        (decomposeCostChange previous current).unexplainedUsd = 0 ∧
        (decomposeCostChange previous current).missingEvidenceEvents = 0 ∧
        (decomposeCostChange previous current).excludedEvents = 0) := by
  have conserves := conserves_accumulate before
  have conserves' := conserves_accumulate now
  refine ⟨conserves, conserves', fun whole whole' => ?_⟩
  obtain ⟨all, same⟩ := conserves.complete whole
  obtain ⟨all', same'⟩ := conserves'.complete whole'
  have explained := sum_drivers previous current
  have old := comparable_complete previous whole whole'
  have fresh := comparable_complete current whole' whole
  simp only [decomposeCostChange, old, fresh, List.map_append, List.sum_append, conserves.comparable,
    conserves.comparableUsd, conserves'.comparable, conserves'.comparableUsd, all, same, all', same']
    at explained ⊢
  refine ⟨?_, ?_, ?_⟩
  · rw [explained, sub_self]
  · ring
  · push_cast
    ring

def plainUsage : FinalizedUsageEvent × Option Buckets :=
  ({ providerKey := "claude_code", model := some "claude-sonnet-4-5", inputTokens := 10
     outputTokens := 2, cacheReadTokens := 0, cacheCreationTokens := 0, cacheCreation1hTokens := none
     costUsd := 2, costStatus := .priced, costCalculationVersion := some COST_CALCULATION_VERSION },
   some ![1, 1, 0, 0, 0])

theorem drivers_explain_plainUsage : ∃ previous current, CostPeriod.accumulate [] = .ok previous ∧
    CostPeriod.accumulate [plainUsage] = .ok current ∧ current.incompleteModels = [] ∧
    (decomposeCostChange previous current).unexplainedUsd = 0 := by
  have before : CostPeriod.accumulate [] = .ok CostPeriod.empty := rfl
  have made : ((CostPeriod.accumulate [plainUsage]).toOption.any fun current =>
      current.incompleteModels = []) = true := by
    decide +kernel
  cases now : CostPeriod.accumulate [plainUsage] with
  | error error =>
    rw [now] at made
    cases made
  | ok current =>
    rw [now] at made
    have whole : current.incompleteModels = [] := of_decide_eq_true made
    exact ⟨_, current, rfl, rfl, whole, ((drivers_explain before now).2.2 rfl whole).1⟩

end Toard.Reports
