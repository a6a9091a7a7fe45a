/-
**What a request costs, in exact numbers.**

`calculateTokenCost` is here over any arithmetic. With the numbers of JavaScript it is the function
of `Toard.Pricing.Cost` (`calculateTokenCost_binary64`); with rationals it follows a law that does
not speak of the loop over the tiers.

* **`calculateTokenCost_law`**: a request is priced exactly if its counts and its multiplier are
  valid and each kind of token in it has a rate; its cost is then the sum over the kinds.
-/

import Mathlib.Data.List.DropRight
import Toard.Pricing.Cost

namespace Toard.Pricing.CostLaw

/-! ### The calculation over any arithmetic -/

structure Arithmetic (N : Type) where
  literal : ℚ → N
  round : ℚ → N
  add : N → N → N
  mul : N → N → N
  div : N → N → N
  lt : N → N → Bool
  isFinite : N → Bool

structure ContextTier (N : Type) where
  aboveTokens : ℚ
  inputPerM : Option N
  outputPerM : Option N
  cacheReadPerM : Option N
  cacheCreatePerM : Option N
  cacheCreate1hPerM : Option N
deriving DecidableEq

structure RateCard (N : Type) where
  contextTiers : List (ContextTier N)
  inputPerM : N
  outputPerM : N
  cacheReadPerM : Option N
  cacheCreatePerM : Option N
  cacheCreate1hPerM : Option N
  inputAbove200kPerM : Option N
  outputAbove200kPerM : Option N
  fastMultiplier : Option N

structure TokenUsage where
  inputTokens : ℚ
  outputTokens : ℚ
  cacheReadTokens : ℚ
  cacheCreationTokens : ℚ
  cacheCreation1hTokens : Option ℚ
  isFast : Option Bool

structure Rates (N : Type) where
  input : N
  output : N
  cacheRead : Option N
  cacheCreate : Option N
  cacheCreate1h : Option N
deriving DecidableEq

structure Components (N : Type) where
  input : N
  output : N
  cacheRead : N
  cacheCreate : N
  cacheCreate1h : N
deriving DecidableEq

structure CostBreakdown (N : Type) where
  contextTokens : ℚ
  ratesPerMillion : Rates N
  componentsUsd : Components N
  totalUsd : N
deriving DecidableEq

/-- `Number.isSafeInteger`. -/
def isSafeInteger (value : ℚ) : Bool := value.den = 1 ∧ value.num.natAbs ≤ maxSafeInteger

def TokenUsage.quantities (a : TokenUsage) : List ℚ :=
  [a.inputTokens, a.outputTokens, a.cacheReadTokens, a.cacheCreationTokens,
    a.cacheCreation1hTokens.getD 0]

def TokenUsage.contextTokens (a : TokenUsage) : ℚ :=
  a.inputTokens + a.cacheReadTokens + a.cacheCreationTokens

/-- The cache writes that live for an hour: no more than there are cache writes. -/
def TokenUsage.oneHour (a : TokenUsage) : ℚ :=
  min (a.cacheCreation1hTokens.getD 0) a.cacheCreationTokens

def TokenUsage.units (a : TokenUsage) : Components ℚ where
  input := a.inputTokens
  output := a.outputTokens
  cacheRead := a.cacheReadTokens
  cacheCreate := a.cacheCreationTokens - a.oneHour
  cacheCreate1h := a.oneHour

section Calculation

variable {N : Type} [DecidableEq N] (arithmetic : Arithmetic N)

def baseRates (anthropic : Bool) (p : RateCard N) : Rates N :=
  let ratio (value : ℚ) : Option N :=
    if anthropic then some (arithmetic.mul p.inputPerM (arithmetic.round value)) else none
  { input := p.inputPerM
    output := p.outputPerM
    cacheRead := p.cacheReadPerM <|> ratio (1 / 10)
    cacheCreate := p.cacheCreatePerM <|> ratio (5 / 4)
    cacheCreate1h := p.cacheCreate1hPerM <|> ratio 2 }

/-- The tiers in ascending order; the plain columns above 200,000 tokens are one of them. -/
def tiersOf (p : RateCard N) : List (ContextTier N) :=
  let above200k : List (ContextTier N) :=
    if (p.contextTiers.all fun tier => tier.aboveTokens ≠ 200000) &&
        (p.inputAbove200kPerM.isSome || p.outputAbove200kPerM.isSome) then
      [⟨200000, p.inputAbove200kPerM, p.outputAbove200kPerM, none, none, none⟩]
    else []
  (p.contextTiers ++ above200k).mergeSort fun left right => left.aboveTokens ≤ right.aboveTokens

def inputScale (previousInput input : N) : N :=
  if arithmetic.lt (arithmetic.literal 0) previousInput then arithmetic.div input previousInput
  else arithmetic.literal 1

def cacheFallback (documented : Bool) (scale : N) (value : Option N) : Option N :=
  if scale = arithmetic.literal 1 then value
  else if documented then value.map (arithmetic.mul · scale) else none

def crossTier (documented : Bool) (rates : Rates N) (tier : ContextTier N) : Rates N :=
  let input := tier.inputPerM.getD rates.input
  let scale := inputScale arithmetic rates.input input
  { input := input
    output := tier.outputPerM.getD rates.output
    cacheRead := tier.cacheReadPerM <|> cacheFallback arithmetic documented scale rates.cacheRead
    cacheCreate :=
      tier.cacheCreatePerM <|> cacheFallback arithmetic documented scale rates.cacheCreate
    cacheCreate1h :=
      tier.cacheCreate1hPerM <|> cacheFallback arithmetic documented scale rates.cacheCreate1h }

def applyTier (documented : Bool) (contextTokens : ℚ) (rates : Rates N) (tier : ContextTier N) :
    Rates N :=
  if contextTokens ≤ tier.aboveTokens then rates else crossTier arithmetic documented rates tier

def componentCost (multiplier : N) (units : ℚ) (rate : Option N) : Option N :=
  if units = 0 then some (arithmetic.literal 0)
  else match rate with
    | none => none
    | some rate =>
      if !arithmetic.isFinite rate || arithmetic.lt rate (arithmetic.literal 0) then none
      else some (arithmetic.div
        (arithmetic.mul (arithmetic.mul (arithmetic.round units) rate) multiplier)
        (arithmetic.literal 1000000))

def costMultiplier (isFast : Option Bool) (p : RateCard N) : Option N :=
  if isFast = some true then
    p.fastMultiplier.filter fun multiplier =>
      arithmetic.lt (arithmetic.literal 1) multiplier && arithmetic.isFinite multiplier
  else some (arithmetic.literal 1)

def calculateTokenCost (model : Option String) (a : TokenUsage) (p : RateCard N) :
    Option (CostBreakdown N) :=
  if a.quantities.any fun value => !isSafeInteger value || value < 0 then none
  else do
    let anthropic := isAnthropic (model.getD "")
    let rates := (tiersOf p).foldl
      (applyTier arithmetic (anthropic || isGemini (model.getD "")) a.contextTokens)
      (baseRates arithmetic anthropic p)
    let multiplier ← costMultiplier arithmetic a.isFast p
    let input ← componentCost arithmetic multiplier a.units.input (some rates.input)
    let output ← componentCost arithmetic multiplier a.units.output (some rates.output)
    let cacheRead ← componentCost arithmetic multiplier a.units.cacheRead rates.cacheRead
    let cacheCreate ← componentCost arithmetic multiplier a.units.cacheCreate rates.cacheCreate
    let cacheCreate1h ← componentCost arithmetic multiplier a.units.cacheCreate1h
      rates.cacheCreate1h
    let totalUsd := [input, output, cacheRead, cacheCreate, cacheCreate1h].foldl arithmetic.add
      (arithmetic.literal 0)
    if arithmetic.isFinite totalUsd then
      some ⟨a.contextTokens, rates, ⟨input, output, cacheRead, cacheCreate, cacheCreate1h⟩,
        totalUsd⟩
    else none

end Calculation

/-! ### The numbers of JavaScript -/

def less : JsNumber → JsNumber → Bool
  | .finite left, .finite right => left < right
  | .finite _, .infinite negative => !negative
  | .infinite negative, .finite _ => negative
  | .infinite left, .infinite right => left && !right

def binary64 : Arithmetic JsNumber :=
  ⟨.finite, .ofRat, .add, .mul, .div, less, JsNumber.isFinite⟩

def exact : Arithmetic ℚ :=
  ⟨id, id, (· + ·), (· * ·), (· / ·), fun left right => left < right, fun _ => true⟩

def ContextTier.of (tier : ContextPricingTier JsNumber) : ContextTier JsNumber :=
  ⟨tier.aboveTokens, tier.inputPerM, tier.outputPerM, tier.cacheReadPerM, tier.cacheCreatePerM,
    tier.cacheCreate1hPerM⟩

def RateCard.of (p : ModelPricing) : RateCard JsNumber where
  contextTiers := p.contextTiers.map .of
  inputPerM := p.inputPerM
  outputPerM := p.outputPerM
  cacheReadPerM := p.cacheReadPerM
  cacheCreatePerM := p.cacheCreatePerM
  cacheCreate1hPerM := p.cacheCreate1hPerM
  inputAbove200kPerM := p.inputAbove200kPerM
  outputAbove200kPerM := p.outputAbove200kPerM
  fastMultiplier := p.fastMultiplier

def TokenUsage.of (a : TokenCounts) : TokenUsage where
  inputTokens := a.inputTokens
  outputTokens := a.outputTokens
  cacheReadTokens := a.cacheReadTokens
  cacheCreationTokens := a.cacheCreationTokens
  cacheCreation1hTokens := a.cacheCreation1hTokens.map Nat.cast
  isFast := a.isFast

def Rates.of (rates : Toard.Pricing.Rates) : Rates JsNumber :=
  ⟨rates.input, rates.output, rates.cacheRead, rates.cacheCreate, rates.cacheCreate1h⟩

def CostBreakdown.of (breakdown : Toard.Pricing.CostBreakdown) : CostBreakdown JsNumber where
  contextTokens := breakdown.contextTokens
  ratesPerMillion := .of breakdown.ratesPerMillion
  componentsUsd := ⟨breakdown.componentsUsd.input, breakdown.componentsUsd.output,
    breakdown.componentsUsd.cacheRead, breakdown.componentsUsd.cacheCreate,
    breakdown.componentsUsd.cacheCreate1h⟩
  totalUsd := breakdown.totalUsd

theorem isSafeInteger_natCast (count : ℕ) :
    (!isSafeInteger (count : ℚ) || decide ((count : ℚ) < 0)) = decide (maxSafeInteger < count) := by
  have notNegative : ¬ (count : ℚ) < 0 := not_lt.mpr (Nat.cast_nonneg count)
  unfold isSafeInteger
  rw [decide_eq_false notNegative, Bool.or_false]
  by_cases large : maxSafeInteger < count
  · simp [large, not_le.mpr large]
  · simp [large, not_lt.mp large]

theorem tiersOf_of (p : ModelPricing) :
    tiersOf (RateCard.of p) = (Toard.Pricing.tiersOf p).map ContextTier.of := by
  have fresh : ((p.contextTiers.map ContextTier.of).all fun tier => tier.aboveTokens ≠ 200000)
      = p.contextTiers.all fun tier => tier.aboveTokens ≠ 200000 := by
    rw [List.all_map]
    refine congrArg p.contextTiers.all (funext fun tier => decide_eq_decide.mpr ?_)
    show ((tier.aboveTokens : ℚ) ≠ 200000) ↔ tier.aboveTokens ≠ 200000
    exact_mod_cast Iff.rfl
  unfold tiersOf Toard.Pricing.tiersOf
  dsimp only
  rw [List.map_mergeSort (s := fun left right : ContextTier JsNumber =>
    decide (left.aboveTokens ≤ right.aboveTokens))]
  · congr 1
    rw [List.map_append]
    show p.contextTiers.map ContextTier.of ++ _ = _
    congr 1
    show (if ((p.contextTiers.map ContextTier.of).all fun tier => tier.aboveTokens ≠ 200000) && _
      then _ else _) = _
    rw [fresh, apply_ite (List.map ContextTier.of)]
    rfl
  · intro left _ right _
    exact decide_eq_decide.mpr Nat.cast_le.symm

theorem less_zero_left (value : JsNumber) : less (.finite 0) value = value.isPositive := by
  cases value <;> rfl

theorem less_zero_right (value : JsNumber) : less value (.finite 0) = value.isNegative := by
  cases value <;> rfl

theorem inputScale_of (previousInput input : JsNumber) : inputScale binary64 previousInput input
    = if previousInput.isPositive then input.div previousInput else .finite 1 := by
  unfold inputScale
  show (if less (.finite 0) previousInput = true then _ else _) = _
  rw [less_zero_left]
  rfl

theorem applyTier_of (documented : Bool) (contextTokens : ℕ) (rates : Toard.Pricing.Rates)
    (tier : ContextPricingTier JsNumber) :
    applyTier binary64 documented contextTokens (.of rates) (.of tier)
      = .of (Toard.Pricing.applyTier documented contextTokens rates tier) := by
  unfold applyTier Toard.Pricing.applyTier
  have crossed : (contextTokens : ℚ) ≤ (ContextTier.of tier).aboveTokens ↔
      contextTokens ≤ tier.aboveTokens := Nat.cast_le
  by_cases below : contextTokens ≤ tier.aboveTokens
  · rw [if_pos below, if_pos (crossed.mpr below)]
  · rw [if_neg below, if_neg fun reached => below (crossed.mp reached)]
    unfold crossTier
    dsimp only
    rw [inputScale_of]
    rfl

theorem foldl_applyTier_of (documented : Bool) (contextTokens : ℕ)
    (tiers : List (ContextPricingTier JsNumber)) (rates : Toard.Pricing.Rates) :
    (tiers.map ContextTier.of).foldl (applyTier binary64 documented contextTokens) (.of rates)
      = .of (tiers.foldl (Toard.Pricing.applyTier documented contextTokens) rates) := by
  induction tiers generalizing rates with
  | nil => rfl
  | cons tier tiers ih =>
    rw [List.map_cons, List.foldl_cons, List.foldl_cons, applyTier_of, ih]

theorem componentCost_of (multiplier : JsNumber) (count : ℕ) (rate : Option JsNumber) :
    componentCost binary64 multiplier count rate
      = Toard.Pricing.componentCost multiplier count rate := by
  unfold componentCost Toard.Pricing.componentCost
  by_cases none_ : count = 0
  · rw [if_pos none_, if_pos (Nat.cast_eq_zero.mpr none_)]
    rfl
  · rw [if_neg none_, if_neg fun zero => none_ (Nat.cast_eq_zero.mp zero)]
    cases rate with
    | none => rfl
    | some rate =>
      show (if (!rate.isFinite || less rate (.finite 0)) = true then none else _) = _
      rw [less_zero_right]
      rfl

theorem costMultiplier_of (isFast : Option Bool) (p : ModelPricing) :
    costMultiplier binary64 isFast (.of p) = Toard.Pricing.costMultiplier isFast p := by
  unfold costMultiplier Toard.Pricing.costMultiplier
  split
  · refine congrArg p.fastMultiplier.filter (funext fun multiplier => ?_)
    cases multiplier with
    | finite value => exact Bool.and_true _
    | infinite negative => exact Bool.and_false _
  · rfl

theorem cacheCreation1hTokens_of (a : TokenCounts) :
    (TokenUsage.of a).cacheCreation1hTokens.getD 0
      = ((a.cacheCreation1hTokens.getD 0 : ℕ) : ℚ) := by
  unfold TokenUsage.of
  cases a.cacheCreation1hTokens with
  | none => exact Nat.cast_zero.symm
  | some count => rfl

theorem quantities_of (a : TokenCounts) :
    (TokenUsage.of a).quantities.any (fun value => !isSafeInteger value || value < 0)
      = [a.inputTokens, a.outputTokens, a.cacheReadTokens, a.cacheCreationTokens,
          a.cacheCreation1hTokens.getD 0].any fun value => maxSafeInteger < value := by
  unfold TokenUsage.quantities
  rw [cacheCreation1hTokens_of]
  simp only [List.any_cons, List.any_nil, TokenUsage.of, isSafeInteger_natCast]

theorem oneHour_of (a : TokenCounts) : (TokenUsage.of a).oneHour
    = (min (a.cacheCreation1hTokens.getD 0) a.cacheCreationTokens : ℕ) := by
  unfold TokenUsage.oneHour
  rw [cacheCreation1hTokens_of, Nat.cast_min]
  rfl

theorem units_of (a : TokenCounts) : (TokenUsage.of a).units =
    ⟨(a.inputTokens : ℕ), (a.outputTokens : ℕ), (a.cacheReadTokens : ℕ),
      (a.cacheCreationTokens - min (a.cacheCreation1hTokens.getD 0) a.cacheCreationTokens : ℕ),
      (min (a.cacheCreation1hTokens.getD 0) a.cacheCreationTokens : ℕ)⟩ := by
  unfold TokenUsage.units
  rw [oneHour_of, Nat.cast_sub (min_le_right _ _)]
  rfl

theorem contextTokens_of (a : TokenCounts) : (TokenUsage.of a).contextTokens
    = (a.inputTokens + a.cacheReadTokens + a.cacheCreationTokens : ℕ) := by
  unfold TokenUsage.contextTokens TokenUsage.of
  push_cast
  rfl

theorem bind_eq_map_bind {α β γ : Type} {value : Option α} {left : α → Option γ}
    {right : α → Option β} {f : β → γ} (same : ∀ a, left a = (right a).map f) :
    (value >>= left) = (value >>= right).map f := by
  cases value with
  | none => rfl
  | some a => exact same a

/-- **In the numbers of JavaScript this is the calculation of an event's cost.** -/
theorem calculateTokenCost_binary64 (model : String) (a : TokenCounts) (p : ModelPricing) :
    calculateTokenCost binary64 (some model) (.of a) (.of p)
      = (Toard.Pricing.calculateTokenCost model a p).map CostBreakdown.of := by
  simp only [calculateTokenCost, Toard.Pricing.calculateTokenCost]
  rw [quantities_of]
  split
  case isTrue => rfl
  case isFalse =>
    have base : baseRates binary64 (isAnthropic model) (.of p)
        = .of (Toard.Pricing.baseRates (isAnthropic model) p) := rfl
    rw [contextTokens_of, units_of, tiersOf_of, Option.getD_some, base, foldl_applyTier_of]
    simp only [componentCost_of]
    rw [show (TokenUsage.of a).isFast = a.isFast from rfl, costMultiplier_of]
    refine bind_eq_map_bind fun multiplier => ?_
    refine bind_eq_map_bind fun input => ?_
    refine bind_eq_map_bind fun output => ?_
    refine bind_eq_map_bind fun cacheRead => ?_
    refine bind_eq_map_bind fun cacheCreate => ?_
    refine bind_eq_map_bind fun cacheCreate1h => ?_
    rw [apply_ite (Option.map CostBreakdown.of)]
    rfl

/-! ### The law -/

/-- The tiers whose threshold the request exceeds, in ascending order. -/
def crossed (contextTokens : ℚ) (p : RateCard ℚ) : List (ContextTier ℚ) :=
  (tiersOf p).filter fun tier => tier.aboveTokens < contextTokens

/-- The rate of the highest of these tiers that states one, else the base rate. -/
def statedRate (field : ContextTier ℚ → Option ℚ) (base : ℚ) (tiers : List (ContextTier ℚ)) : ℚ :=
  (tiers.reverse.findSome? field).getD base

/-- The factor from one input rate to the next; nothing is a multiple of no rate. -/
def growth (before after : ℚ) : ℚ := if 0 < before then after / before else 1

/-- The factors by which these tiers, one after the other, change the input rate. -/
def inputChanges : ℚ → List (ContextTier ℚ) → List ℚ
  | _, [] => []
  | input, tier :: tiers =>
    growth input (tier.inputPerM.getD input) :: inputChanges (tier.inputPerM.getD input) tiers

/-- A cache rate after changes of the input rate: it keeps a documented ratio, and without one it is
known only as long as the input rate stays. -/
def carry (documented : Bool) (changes : List ℚ) (rate : ℚ) : Option ℚ :=
  if documented then some (rate * changes.prod)
  else if changes.all fun change => change = 1 then some rate else none

def silent (field : ContextTier ℚ → Option ℚ) (tier : ContextTier ℚ) : Bool := (field tier).isNone

/-- The cache rate of the highest of these tiers that states one, else the base rate, carried over
the tiers above. -/
def carriedRate (documented : Bool) (field : ContextTier ℚ → Option ℚ) (base : Option ℚ)
    (baseInput : ℚ) (tiers : List (ContextTier ℚ)) : Option ℚ :=
  let below := tiers.rdropWhile (silent field)
  let above := tiers.rtakeWhile (silent field)
  let stated := match below.getLast? with
    | some tier => field tier
    | none => base
  stated.bind (carry documented
    (inputChanges (statedRate ContextTier.inputPerM baseInput below) above))

def lawRates (model : Option String) (contextTokens : ℚ) (p : RateCard ℚ) : Rates ℚ :=
  let documented := isAnthropic (model.getD "") || isGemini (model.getD "")
  let base := baseRates exact (isAnthropic (model.getD "")) p
  let tiers := crossed contextTokens p
  { input := statedRate ContextTier.inputPerM p.inputPerM tiers
    output := statedRate ContextTier.outputPerM p.outputPerM tiers
    cacheRead := carriedRate documented ContextTier.cacheReadPerM base.cacheRead p.inputPerM tiers
    cacheCreate :=
      carriedRate documented ContextTier.cacheCreatePerM base.cacheCreate p.inputPerM tiers
    cacheCreate1h :=
      carriedRate documented ContextTier.cacheCreate1hPerM base.cacheCreate1h p.inputPerM tiers }

def lawMultiplier (isFast : Option Bool) (p : RateCard ℚ) : ℚ :=
  if isFast = some true then p.fastMultiplier.getD 1 else 1

def HasRate (units : ℚ) (rate : Option ℚ) : Prop := units ≠ 0 → ∃ value ∈ rate, 0 ≤ value

/-- **When a request has a cost.** -/
structure Billable (model : Option String) (a : TokenUsage) (p : RateCard ℚ) : Prop where
  counts : ∀ count ∈ a.quantities, isSafeInteger count = true ∧ 0 ≤ count
  multiplier : a.isFast = some true → ∃ multiplier ∈ p.fastMultiplier, 1 < multiplier
  input : HasRate a.units.input (lawRates model a.contextTokens p).input
  output : HasRate a.units.output (lawRates model a.contextTokens p).output
  cacheRead : HasRate a.units.cacheRead (lawRates model a.contextTokens p).cacheRead
  cacheCreate : HasRate a.units.cacheCreate (lawRates model a.contextTokens p).cacheCreate
  cacheCreate1h : HasRate a.units.cacheCreate1h (lawRates model a.contextTokens p).cacheCreate1h

def lawComponent (multiplier units : ℚ) (rate : Option ℚ) : ℚ :=
  units * rate.getD 0 * multiplier / 1000000

/-- **The cost of a request**, where it has one. -/
def lawBreakdown (model : Option String) (a : TokenUsage) (p : RateCard ℚ) : CostBreakdown ℚ :=
  let rates := lawRates model a.contextTokens p
  let component := lawComponent (lawMultiplier a.isFast p)
  let parts : Components ℚ :=
    { input := component a.units.input rates.input
      output := component a.units.output rates.output
      cacheRead := component a.units.cacheRead rates.cacheRead
      cacheCreate := component a.units.cacheCreate rates.cacheCreate
      cacheCreate1h := component a.units.cacheCreate1h rates.cacheCreate1h }
  ⟨a.contextTokens, rates, parts,
    parts.input + parts.output + parts.cacheRead + parts.cacheCreate + parts.cacheCreate1h⟩

/-! ### Rates over the tiers -/

section Tiers

variable {field : ContextTier ℚ → Option ℚ} {tiers : List (ContextTier ℚ)}

theorem statedRate_append (base : ℚ) (below above : List (ContextTier ℚ)) :
    statedRate field base (below ++ above) = statedRate field (statedRate field base below) above := by
  unfold statedRate
  rw [List.reverse_append, List.findSome?_append]
  cases above.reverse.findSome? field <;> rfl

theorem statedRate_single (base : ℚ) (tier : ContextTier ℚ) :
    statedRate field base [tier] = (field tier).getD base := by
  unfold statedRate
  rw [List.reverse_singleton, List.findSome?_singleton]

theorem inputChanges_concat (input : ℚ) (tiers : List (ContextTier ℚ)) (tier : ContextTier ℚ) :
    inputChanges input (tiers ++ [tier]) = inputChanges input tiers ++
      [growth (statedRate ContextTier.inputPerM input tiers)
        (tier.inputPerM.getD (statedRate ContextTier.inputPerM input tiers))] := by
  induction tiers generalizing input with
  | nil => rfl
  | cons head tiers ih =>
    have first : statedRate ContextTier.inputPerM input (head :: tiers)
        = statedRate ContextTier.inputPerM (head.inputPerM.getD input) tiers := by
      rw [← List.singleton_append, statedRate_append, statedRate_single]
    rw [List.cons_append, inputChanges, inputChanges, List.cons_append, ih, first]

@[simp] theorem carry_nil (documented : Bool) (rate : ℚ) : carry documented [] rate = some rate := by
  unfold carry
  cases documented with
  | false => rfl
  | true => exact congrArg some (mul_one rate)

theorem carry_concat (documented : Bool) (changes : List ℚ) (change rate : ℚ) :
    carry documented (changes ++ [change]) rate
      = cacheFallback exact documented change (carry documented changes rate) := by
  unfold carry cacheFallback
  show _ = if change = (1 : ℚ) then _ else _
  by_cases same : change = 1
  · rw [if_pos same, same, List.prod_append, List.prod_singleton, mul_one, List.all_append]
    simp
  · rw [if_neg same, List.prod_append, List.prod_singleton, List.all_append]
    cases documented with
    | false => simp [same]
    | true =>
      simp only [if_true, Option.map_some]
      exact congrArg some (mul_assoc _ _ _).symm

/-- **One more tier over the tiers below it.** -/
theorem carriedRate_concat (documented : Bool) (base : Option ℚ) (baseInput : ℚ)
    (tiers : List (ContextTier ℚ)) (tier : ContextTier ℚ) :
    carriedRate documented field base baseInput (tiers ++ [tier]) = (field tier <|>
      cacheFallback exact documented
        (growth (statedRate ContextTier.inputPerM baseInput tiers)
          (tier.inputPerM.getD (statedRate ContextTier.inputPerM baseInput tiers)))
        (carriedRate documented field base baseInput tiers)) := by
  unfold carriedRate
  dsimp only
  cases stated : field tier with
  | some rate =>
    have states : ¬ silent field tier = true := by
      unfold silent
      rw [stated]
      exact Bool.false_ne_true
    rw [List.rdropWhile_concat_neg _ _ _ states, List.rtakeWhile_concat_neg _ _ _ states,
      List.getLast?_concat]
    dsimp only
    rw [stated]
    exact carry_nil documented rate
  | none =>
    have skipped : silent field tier = true := by
      unfold silent
      rw [stated]
      rfl
    rw [List.rdropWhile_concat_pos _ _ _ skipped, List.rtakeWhile_concat_pos _ _ _ skipped,
      inputChanges_concat, ← statedRate_append, List.rdropWhile_append_rtakeWhile]
    show _ = cacheFallback exact documented _ _
    cases (match (tiers.rdropWhile (silent field)).getLast? with
      | some tier => field tier
      | none => base) with
    | none =>
      show none = cacheFallback exact documented _ none
      unfold cacheFallback
      split
      · rfl
      · cases documented <;> rfl
    | some rate => exact carry_concat documented _ _ rate

/-- **The loop over the crossed tiers.** -/
theorem foldl_crossTier (documented : Bool) (base : Rates ℚ) (tiers : List (ContextTier ℚ)) :
    tiers.foldl (crossTier exact documented) base =
      { input := statedRate ContextTier.inputPerM base.input tiers
        output := statedRate ContextTier.outputPerM base.output tiers
        cacheRead :=
          carriedRate documented ContextTier.cacheReadPerM base.cacheRead base.input tiers
        cacheCreate :=
          carriedRate documented ContextTier.cacheCreatePerM base.cacheCreate base.input tiers
        cacheCreate1h :=
          carriedRate documented ContextTier.cacheCreate1hPerM base.cacheCreate1h base.input
            tiers } := by
  induction tiers using List.reverseRecOn with
  | nil =>
    have kept : ∀ (field : ContextTier ℚ → Option ℚ) (rate : Option ℚ),
        carriedRate documented field rate base.input [] = rate := by
      intro field rate
      show rate.bind (carry documented []) = rate
      cases rate with
      | none => rfl
      | some value => exact carry_nil documented value
    rw [kept, kept, kept]
    rfl
  | append_singleton tiers tier ih =>
    rw [List.foldl_concat, ih, carriedRate_concat, carriedRate_concat, carriedRate_concat,
      statedRate_append, statedRate_append, statedRate_single, statedRate_single]
    unfold crossTier inputScale growth exact
    simp

end Tiers

theorem foldl_applyTier (documented : Bool) (contextTokens : ℚ) (p : RateCard ℚ) (base : Rates ℚ) :
    (tiersOf p).foldl (applyTier exact documented contextTokens) base
      = (crossed contextTokens p).foldl (crossTier exact documented) base := by
  unfold crossed
  rw [List.foldl_filter]
  refine List.foldl_ext _ _ _ fun rates tier _ => ?_
  unfold applyTier
  by_cases below : contextTokens ≤ tier.aboveTokens
  · rw [if_pos below, if_neg (by simpa using below)]
  · rw [if_neg below, if_pos (by simpa using below)]

/-! ### When there is a cost, and which -/

theorem componentCost_eq_some {multiplier units cost : ℚ} {rate : Option ℚ} :
    componentCost exact multiplier units rate = some cost ↔
      HasRate units rate ∧ cost = lawComponent multiplier units rate := by
  unfold componentCost HasRate lawComponent
  by_cases none_ : units = 0
  · rw [if_pos none_, none_, zero_mul, zero_mul, zero_div, Option.some_inj]
    exact ⟨fun zero => ⟨fun some_ => absurd rfl some_, zero.symm⟩, fun both => both.2.symm⟩
  · rw [if_neg none_]
    cases rate with
    | none =>
      refine iff_of_false (Option.some_ne_none _).symm fun both => ?_
      obtain ⟨value, among, -⟩ := both.1 none_
      exact Option.not_mem_none _ among
    | some value =>
      show (if (!true || decide (value < 0)) = true then none
        else some (units * value * multiplier / 1000000)) = some cost ↔ _
      by_cases negative : value < 0
      · rw [if_pos (by simpa using negative)]
        refine iff_of_false (Option.some_ne_none _).symm fun both => ?_
        obtain ⟨other, same, notNegative⟩ := both.1 none_
        rw [← Option.some_inj.mp same] at notNegative
        exact absurd negative (not_lt.mpr notNegative)
      · rw [if_neg (by simpa using negative), Option.some_inj]
        exact ⟨fun same => ⟨fun _ => ⟨value, rfl, not_lt.mp negative⟩, same.symm⟩,
          fun both => both.2.symm⟩

theorem costMultiplier_eq_some {isFast : Option Bool} {p : RateCard ℚ} {multiplier : ℚ} :
    costMultiplier exact isFast p = some multiplier ↔
      (isFast = some true → ∃ stated ∈ p.fastMultiplier, 1 < stated) ∧
        multiplier = lawMultiplier isFast p := by
  unfold costMultiplier lawMultiplier
  by_cases fast : isFast = some true
  · rw [if_pos fast, if_pos fast]
    cases stated : p.fastMultiplier with
    | none =>
      refine iff_of_false (Option.some_ne_none _).symm fun both => ?_
      obtain ⟨value, among, -⟩ := both.1 fast
      exact Option.not_mem_none _ among
    | some value =>
      show (some value).filter (fun multiplier => decide (1 < multiplier) && true) = _ ↔ _
      by_cases larger : 1 < value <;> simp [Option.filter, larger, fast, eq_comm]
  · rw [if_neg fast, if_neg fast]
    exact ⟨fun same => ⟨fun fast' => absurd fast' fast, (Option.some_inj.mp same).symm⟩,
      fun both => congrArg some both.2.symm⟩

theorem valid_quantities {a : TokenUsage} :
    ¬ (a.quantities.any fun value => !isSafeInteger value || value < 0) = true ↔
      ∀ count ∈ a.quantities, isSafeInteger count = true ∧ 0 ≤ count := by
  rw [List.any_eq_true]
  simp only [not_exists, not_and]
  refine forall₂_congr fun count _ => ?_
  rw [Bool.or_eq_true, not_or, Bool.not_eq_true', Bool.not_eq_false, decide_eq_true_iff, not_lt]

theorem foldl_tiersOf (model : Option String) (contextTokens : ℚ) (p : RateCard ℚ) :
    (tiersOf p).foldl (applyTier exact (isAnthropic (model.getD "") || isGemini (model.getD ""))
        contextTokens) (baseRates exact (isAnthropic (model.getD "")) p)
      = lawRates model contextTokens p := by
  rw [foldl_applyTier, foldl_crossTier]
  rfl

theorem foldl_add (input output cacheRead cacheCreate cacheCreate1h : ℚ) :
    [input, output, cacheRead, cacheCreate, cacheCreate1h].foldl exact.add (exact.literal 0)
      = input + output + cacheRead + cacheCreate + cacheCreate1h := by
  show 0 + input + output + cacheRead + cacheCreate + cacheCreate1h = _
  rw [zero_add]

/-- **The code finds exactly the cost of the law.** -/
theorem calculateTokenCost_eq_some {model : Option String} {a : TokenUsage} {p : RateCard ℚ}
    {breakdown : CostBreakdown ℚ} : calculateTokenCost exact model a p = some breakdown ↔
      Billable model a p ∧ breakdown = lawBreakdown model a p := by
  unfold calculateTokenCost
  dsimp only
  rw [foldl_tiersOf]
  by_cases valid : ∀ count ∈ a.quantities, isSafeInteger count = true ∧ 0 ≤ count
  · rw [if_neg (valid_quantities.mpr valid)]
    constructor
    · intro found
      obtain ⟨multiplier, speed, found⟩ := Option.bind_eq_some_iff.mp found
      obtain ⟨input, inputs, found⟩ := Option.bind_eq_some_iff.mp found
      obtain ⟨output, outputs, found⟩ := Option.bind_eq_some_iff.mp found
      obtain ⟨cacheRead, reads, found⟩ := Option.bind_eq_some_iff.mp found
      obtain ⟨cacheCreate, writes, found⟩ := Option.bind_eq_some_iff.mp found
      obtain ⟨cacheCreate1h, hours, found⟩ := Option.bind_eq_some_iff.mp found
      obtain ⟨fast, rfl⟩ := costMultiplier_eq_some.mp speed
      obtain ⟨input_, rfl⟩ := componentCost_eq_some.mp inputs
      obtain ⟨output_, rfl⟩ := componentCost_eq_some.mp outputs
      obtain ⟨read_, rfl⟩ := componentCost_eq_some.mp reads
      obtain ⟨write_, rfl⟩ := componentCost_eq_some.mp writes
      obtain ⟨hour_, rfl⟩ := componentCost_eq_some.mp hours
      refine ⟨⟨valid, fast, input_, output_, read_, write_, hour_⟩, ?_⟩
      rw [foldl_add] at found
      exact (Option.some_inj.mp found).symm
    · rintro ⟨billable, rfl⟩
      refine Option.bind_eq_some_iff.mpr
        ⟨_, costMultiplier_eq_some.mpr ⟨billable.multiplier, rfl⟩, ?_⟩
      refine Option.bind_eq_some_iff.mpr
        ⟨_, componentCost_eq_some.mpr ⟨billable.input, rfl⟩, ?_⟩
      refine Option.bind_eq_some_iff.mpr
        ⟨_, componentCost_eq_some.mpr ⟨billable.output, rfl⟩, ?_⟩
      refine Option.bind_eq_some_iff.mpr
        ⟨_, componentCost_eq_some.mpr ⟨billable.cacheRead, rfl⟩, ?_⟩
      refine Option.bind_eq_some_iff.mpr
        ⟨_, componentCost_eq_some.mpr ⟨billable.cacheCreate, rfl⟩, ?_⟩
      refine Option.bind_eq_some_iff.mpr
        ⟨_, componentCost_eq_some.mpr ⟨billable.cacheCreate1h, rfl⟩, ?_⟩
      rw [foldl_add]
      rfl
  · rw [if_pos (not_not.mp fun invalid => valid (valid_quantities.mp invalid))]
    exact iff_of_false (Option.some_ne_none _).symm fun both => valid both.1.counts

/-! ### The order of the tiers -/

theorem tiersOf_perm {p : RateCard ℚ} (distinct : (p.contextTiers.map (·.aboveTokens)).Nodup)
    {tiers : List (ContextTier ℚ)} (perm : tiers.Perm p.contextTiers) :
    tiersOf { p with contextTiers := tiers } = tiersOf p := by
  have fresh : (tiers.all fun tier => tier.aboveTokens ≠ 200000)
      = p.contextTiers.all fun tier => tier.aboveTokens ≠ 200000 := perm.all_eq
  unfold tiersOf
  dsimp only
  rw [fresh]
  generalize above : (if (p.contextTiers.all fun tier => decide (tier.aboveTokens ≠ 200000)) &&
      (p.inputAbove200kPerM.isSome || p.outputAbove200kPerM.isSome) then
        [(⟨200000, p.inputAbove200kPerM, p.outputAbove200kPerM, none, none, none⟩ : ContextTier ℚ)]
      else []) = plain
  have distinct' : ((p.contextTiers ++ plain).map (·.aboveTokens)).Nodup := by
    rw [← above]
    split
    case isTrue holds =>
      rw [List.map_append]
      refine List.nodup_append.mpr ⟨distinct, List.nodup_singleton _, ?_⟩
      rintro threshold among other last rfl
      obtain ⟨tier, listed, same⟩ := List.mem_map.mp among
      have differs := List.all_eq_true.mp (Bool.and_eq_true_iff.mp holds).1 tier listed
      exact of_decide_eq_true differs (same.trans (List.mem_singleton.mp last))
    case isFalse => rwa [List.append_nil]
  have sorted : ∀ all : List (ContextTier ℚ), (all.mergeSort fun left right =>
      left.aboveTokens ≤ right.aboveTokens).Pairwise fun left right =>
        left.aboveTokens ≤ right.aboveTokens := by
    intro all
    refine (List.pairwise_mergeSort ?_ ?_ all).imp of_decide_eq_true
    · intro a b c first second
      exact decide_eq_true ((of_decide_eq_true first).trans (of_decide_eq_true second))
    · intro a b
      rw [Bool.or_eq_true, decide_eq_true_iff, decide_eq_true_iff]
      exact le_total _ _
  have same : (tiers ++ plain).Perm (p.contextTiers ++ plain) := perm.append_right plain
  refine List.Perm.eq_of_pairwise ?_ (sorted _) (sorted _)
    ((List.mergeSort_perm _ _).trans (same.trans (List.mergeSort_perm _ _).symm))
  intro left right leftIn rightIn le ge
  exact List.inj_on_of_nodup_map distinct' (same.mem_iff.mp (List.mem_mergeSort.mp leftIn))
    (List.mem_mergeSort.mp rightIn) (le_antisymm le ge)

/-! ### The law of the token cost -/

/-- **The token cost law.** In exact numbers, a request on a rate card whose thresholds are distinct
has no cost exactly if it is not `Billable`; if it has one, that is the one of the law, the sum over
the kinds of tokens; and the order of the tiers does not matter. -/
theorem calculateTokenCost_law (model : Option String) (a : TokenUsage) (p : RateCard ℚ)
    (distinct : (p.contextTiers.map (·.aboveTokens)).Nodup) :
    (calculateTokenCost exact model a p = none ↔ ¬ Billable model a p) ∧
      (∀ breakdown, calculateTokenCost exact model a p = some breakdown →
        breakdown = lawBreakdown model a p) ∧
      ∀ tiers : List (ContextTier ℚ), tiers.Perm p.contextTiers →
        calculateTokenCost exact model a { p with contextTiers := tiers }
          = calculateTokenCost exact model a p := by
  refine ⟨⟨fun none_ billable => ?_, fun unbillable => ?_⟩, fun breakdown found =>
    (calculateTokenCost_eq_some.mp found).2, fun tiers perm => ?_⟩
  · rw [calculateTokenCost_eq_some.mpr ⟨billable, rfl⟩] at none_
    cases none_
  · refine Option.eq_none_iff_forall_ne_some.mpr fun breakdown found => ?_
    exact unbillable (calculateTokenCost_eq_some.mp found).1
  · unfold calculateTokenCost
    rw [tiersOf_perm distinct perm]
    rfl

/-- A model of no documented ratio, priced at one rate up to 100 tokens and at twice the input rate
above. -/
def plainCard : RateCard ℚ where
  contextTiers := [⟨100, some 2, none, none, none, none⟩]
  inputPerM := 1
  outputPerM := 1
  cacheReadPerM := some (1 / 2)
  cacheCreatePerM := some 1
  cacheCreate1hPerM := some 1
  inputAbove200kPerM := none
  outputAbove200kPerM := none
  fastMultiplier := none

def cachedUsage : TokenUsage where
  inputTokens := 200
  outputTokens := 0
  cacheReadTokens := 10
  cacheCreationTokens := 0
  cacheCreation1hTokens := none
  isFast := none

/-- The cost of this request to a Claude model. -/
theorem calculateTokenCost_law_plainCard :
    calculateTokenCost exact (some "claude-x") cachedUsage plainCard
      = some (lawBreakdown (some "claude-x") cachedUsage plainCard) := by
  obtain ⟨breakdown, found⟩ : ∃ breakdown,
      calculateTokenCost exact (some "claude-x") cachedUsage plainCard = some breakdown :=
    Option.isSome_iff_exists.mp (by decide +kernel)
  rw [found, (calculateTokenCost_law _ _ _ (by decide)).2.1 breakdown found]

/-- **A crossed tier does not inherit every rate it leaves out.** The card states all base rates,
and the tier only the input rate. The cached tokens of a model without documented ratios have no
rate, so that there is no cost; those of a Claude model cost twice the base rate. -/
theorem rates_not_inherited :
    calculateTokenCost exact (some "m") cachedUsage plainCard = none ∧
      (calculateTokenCost exact (some "claude-x") cachedUsage plainCard).map
        (·.ratesPerMillion.cacheRead) = some (some 1) := by
  decide +kernel

end Toard.Pricing.CostLaw
