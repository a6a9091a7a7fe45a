/-
**What an event costs under a price schedule (`packages/pricing/src/cost.ts`).**

* `revisionInForce`: that revision. **`revisionInForce_of_priced`**: an event is priced only if there
  is one; **`probe_priced_iff`**: an event without tokens is priced exactly if there is one.

Numbers are rounded to binary64 after each operation. An operation without a value (`NaN`) counts as
infinite: the only question asked of its result is whether it is finite.
-/

import Toard.Library.Binary64
import Toard.Library.Calendar
import Toard.Pricing.Price

namespace Toard.Pricing

open Toard.Library (OrderedMap binary64 dayNumber dayFromYear)

/-! ### Arithmetic -/

namespace JsNumber

def ofRat (value : ℚ) : JsNumber :=
  match binary64 value with
  | some rounded => .finite rounded
  | none => .infinite (value < 0)

def isNegative : JsNumber → Bool
  | .finite value => value < 0
  | .infinite negative => negative

def isPositive : JsNumber → Bool
  | .finite value => 0 < value
  | .infinite negative => !negative

def add : JsNumber → JsNumber → JsNumber
  | .finite left, .finite right => ofRat (left + right)
  | .infinite negative, _ => .infinite negative
  | _, .infinite negative => .infinite negative

def mul : JsNumber → JsNumber → JsNumber
  | .finite left, .finite right => ofRat (left * right)
  | left, right => .infinite (left.isNegative ^^ right.isNegative)

def div : JsNumber → JsNumber → JsNumber
  | .finite left, .finite right => ofRat (left / right)
  | .finite _, .infinite _ => .finite 0
  | left, right => .infinite (left.isNegative ^^ right.isNegative)

end JsNumber

/-! ### The cost of a request -/

structure TokenCounts where
  inputTokens : Nat
  outputTokens : Nat
  cacheReadTokens : Nat
  cacheCreationTokens : Nat
  cacheCreation1hTokens : Option Nat
  isFast : Option Bool
deriving DecidableEq

structure Rates where
  input : JsNumber
  output : JsNumber
  cacheRead : Option JsNumber
  cacheCreate : Option JsNumber
  cacheCreate1h : Option JsNumber
deriving DecidableEq

structure CostComponents where
  input : JsNumber
  output : JsNumber
  cacheRead : JsNumber
  cacheCreate : JsNumber
  cacheCreate1h : JsNumber
deriving DecidableEq

structure CostBreakdown where
  contextTokens : Nat
  ratesPerMillion : Rates
  componentsUsd : CostComponents
  totalUsd : JsNumber
deriving DecidableEq

def maxSafeInteger : Nat := 2 ^ 53 - 1

/-- One of the names starts the model's id, or a part of it after a dot or a slash. -/
def hasPart (model : String) (names : List String) : Bool :=
  model.toList.tails.any fun rest =>
    (rest.length = model.toList.length ∧ names.any fun name => name.toList.isPrefixOf rest) ||
      match rest with
      | '.' :: after | '/' :: after => names.any fun name => name.toList.isPrefixOf after
      | _ => false

def isAnthropic (model : String) : Bool := hasPart model ["claude-", "claude."]

def isGemini (model : String) : Bool := hasPart model ["gemini-"]

/-- The rates before any tier; only documented ratios stand in for a cache rate. -/
def baseRates (anthropic : Bool) (p : ModelPricing) : Rates :=
  let ratio (value : ℚ) : Option JsNumber :=
    if anthropic then some (p.inputPerM.mul (.ofRat value)) else none
  { input := p.inputPerM
    output := p.outputPerM
    cacheRead := p.cacheReadPerM <|> ratio (1 / 10)
    cacheCreate := p.cacheCreatePerM <|> ratio (5 / 4)
    cacheCreate1h := p.cacheCreate1hPerM <|> ratio 2 }

/-- The tiers of a price, in ascending order; the plain columns above 200,000 tokens are one. -/
def tiersOf (p : ModelPricing) : List (ContextPricingTier JsNumber) :=
  let above200k : List (ContextPricingTier JsNumber) :=
    if (p.contextTiers.all fun tier => tier.aboveTokens ≠ 200000) &&
        (p.inputAbove200kPerM.isSome || p.outputAbove200kPerM.isSome) then
      [{ aboveTokens := 200000
         inputPerM := p.inputAbove200kPerM
         outputPerM := p.outputAbove200kPerM
         cacheReadPerM := none
         cacheCreatePerM := none
         cacheCreate1hPerM := none }]
    else []
  (p.contextTiers ++ above200k).mergeSort fun left right => left.aboveTokens ≤ right.aboveTokens

def applyTier (documented : Bool) (contextTokens : Nat) (rates : Rates)
    (tier : ContextPricingTier JsNumber) : Rates :=
  if contextTokens ≤ tier.aboveTokens then rates
  else
    let input := tier.inputPerM.getD rates.input
    let scale := if rates.input.isPositive then input.div rates.input else .finite 1
    let cacheFallback (value : Option JsNumber) : Option JsNumber :=
      if scale = .finite 1 then value
      else if documented then value.map (·.mul scale) else none
    { input := input
      output := tier.outputPerM.getD rates.output
      cacheRead := tier.cacheReadPerM <|> cacheFallback rates.cacheRead
      cacheCreate := tier.cacheCreatePerM <|> cacheFallback rates.cacheCreate
      cacheCreate1h := tier.cacheCreate1hPerM <|> cacheFallback rates.cacheCreate1h }

/-- The cost of the tokens of a kind; none where their rate is missing or unusable. -/
def componentCost (multiplier : JsNumber) (units : Nat) (rate : Option JsNumber) :
    Option JsNumber :=
  if units = 0 then some (.finite 0)
  else match rate with
    | none => none
    | some rate =>
      if !rate.isFinite || rate.isNegative then none
      else some ((((JsNumber.ofRat units).mul rate).mul multiplier).div (.finite 1000000))

/-- The multiplier of an event; a persisted 1 is no tariff for the fast mode. -/
def costMultiplier (isFast : Option Bool) (p : ModelPricing) : Option JsNumber :=
  if isFast = some true then
    p.fastMultiplier.filter fun multiplier =>
      match multiplier with
      | .finite value => 1 < value
      | .infinite _ => false
  else some (.finite 1)

def calculateTokenCost (model : String) (a : TokenCounts) (p : ModelPricing) :
    Option CostBreakdown :=
  let quantities := [a.inputTokens, a.outputTokens, a.cacheReadTokens, a.cacheCreationTokens,
    a.cacheCreation1hTokens.getD 0]
  if quantities.any fun value => maxSafeInteger < value then none
  else do
    let contextTokens := a.inputTokens + a.cacheReadTokens + a.cacheCreationTokens
    let rates := (tiersOf p).foldl (applyTier (isAnthropic model || isGemini model) contextTokens)
      (baseRates (isAnthropic model) p)
    let oneHour := min (a.cacheCreation1hTokens.getD 0) a.cacheCreationTokens
    let multiplier ← costMultiplier a.isFast p
    let input ← componentCost multiplier a.inputTokens (some rates.input)
    let output ← componentCost multiplier a.outputTokens (some rates.output)
    let cacheRead ← componentCost multiplier a.cacheReadTokens rates.cacheRead
    let cacheCreate ← componentCost multiplier (a.cacheCreationTokens - oneHour) rates.cacheCreate
    let cacheCreate1h ← componentCost multiplier oneHour rates.cacheCreate1h
    let totalUsd := [input, output, cacheRead, cacheCreate, cacheCreate1h].foldl .add (.finite 0)
    if totalUsd.isFinite then
      some ⟨contextTokens, rates, ⟨input, output, cacheRead, cacheCreate, cacheCreate1h⟩, totalUsd⟩
    else none

/-! ### Schedules -/

structure ScheduledRevision where
  id : String
  modelId : String
  effectiveAt : Int
  validUntil : Option Int
  pricing : ModelPricing
  sourceModelId : Option String

abbrev PricingSchedule := OrderedMap String (List ScheduledRevision)

def resolvePricingRevisionEntry (model : Option String) (schedule : PricingSchedule) :
    Option (ResolvedAliasEntry (List ScheduledRevision)) :=
  model.bind fun model => resolveAliasEntry model schedule

/-- The days on which the model behind `codex-auto-review` changed. -/
def CODEX_AUTO_REVIEW_MODELS : List (Int × String) :=
  [(dayNumber 2026 4 23, "gpt-5.5"), (dayNumber 2026 3 5, "gpt-5.4"),
    (dayNumber 2026 2 5, "gpt-5.3-codex"), (dayNumber 2025 12 11, "gpt-5.2-codex"),
    (dayNumber 2025 11 13, "gpt-5.1-codex"), (dayNumber 2025 9 15, "gpt-5-codex"),
    (dayNumber 2025 8 7, "gpt-5")]

def msPerDay : Int := 24 * 60 * 60 * 1000

/-- The model whose price an event takes. Dates are compared as texts, and from the year 10000 on a
text starts with a sign, which comes before every digit. -/
def pricingModel (model providerKey logAdapter : Option String) (occurredAt : Int) :
    Option String :=
  if model = some "codex-auto-review" then
    let released := CODEX_AUTO_REVIEW_MODELS.find? fun (releasedOn, _) =>
      releasedOn ≤ occurredAt / msPerDay ∧ occurredAt / msPerDay < dayFromYear 10000
    some ((released.map Prod.snd).getD "gpt-5")
  else if model = none ∧ providerKey = some "codex" ∧ logAdapter = some "codex" then some "gpt-5"
  else model

def laterRevision (occurredAt : Int) (selected : Option ScheduledRevision)
    (revision : ScheduledRevision) : Option ScheduledRevision :=
  if revision.effectiveAt ≤ occurredAt ∧ (revision.validUntil.all fun ends => occurredAt < ends) ∧
      (selected.all fun old => old.effectiveAt ≤ revision.effectiveAt) then some revision
  else selected

def selectedRevision (revisions : List ScheduledRevision) (occurredAt : Int) :
    Option ScheduledRevision :=
  revisions.foldl (laterRevision occurredAt) none

def revisionInForce (schedule : PricingSchedule) (model providerKey logAdapter : Option String)
    (occurredAt : Int) : Option ScheduledRevision :=
  (resolvePricingRevisionEntry (pricingModel model providerKey logAdapter occurredAt) schedule).bind
    fun entry => selectedRevision entry.value occurredAt

structure ResolveAtArgs where
  model : Option String
  providerKey : Option String
  logAdapter : Option String
  occurredAt : Int
  tokens : TokenCounts

inductive ResolutionStatus where
  | priced
  | estimated
  | unpriced
deriving DecidableEq

structure CostResolution where
  costUsd : JsNumber
  pricingRevisionId : Option String
  status : ResolutionStatus
deriving DecidableEq

inductive CostReason where
  | missingPrice
  | missingRate
  | inferredModel
  | sessionContextUnavailable
  | cacheTtlUnavailable
deriving DecidableEq

/-- `none` stands for `unknown`. -/
abbrev ModelMatch := Option AliasMatch

structure CostExplanation where
  resolution : CostResolution
  pricingModel : Option String
  modelMatch : ModelMatch
  reason : Option CostReason
  breakdown : Option CostBreakdown

def singleRevision (model : String) (revision : ScheduledRevision) : PricingSchedule :=
  OrderedMap.empty.set model [revision]

/-- How the event's model was matched, seen from the model that the price was taken from. -/
def explainMatch (args : ResolveAtArgs) (schedule : PricingSchedule)
    (selected : Option ScheduledRevision) : ModelMatch :=
  let own := pricingModel args.model args.providerKey args.logAdapter args.occurredAt
  let matched : ModelMatch :=
    if own ≠ args.model then some .inferred
    else (resolvePricingRevisionEntry own schedule).map ResolvedAliasEntry.matched
  match selected.bind fun revision => (revision.sourceModelId.filter (· ≠ "")).map (·, revision) with
  | some (source, revision) =>
    if matched = some .inferred then matched
    else
      some (((resolvePricingRevisionEntry args.model (singleRevision source revision)).map
        ResolvedAliasEntry.matched).getD .inferred)
  | none => matched

def estimateReason (matched : ModelMatch) (tokens : TokenCounts) (p : ModelPricing) :
    Option CostReason :=
  if matched = some .inferred then some .inferredModel
  else if p.contextScope = some .session then some .sessionContextUnavailable
  else if 0 < tokens.cacheCreationTokens ∧ tokens.cacheCreation1hTokens = none then
    some .cacheTtlUnavailable
  else none

def explainCostAt (args : ResolveAtArgs) (schedule : PricingSchedule) : CostExplanation :=
  let selected := revisionInForce schedule args.model args.providerKey args.logAdapter args.occurredAt
  let matched := explainMatch args schedule selected
  match selected with
  | none =>
    { resolution := ⟨.finite 0, none, .unpriced⟩
      pricingModel := none
      modelMatch := matched
      reason := some .missingPrice
      breakdown := none }
  | some revision =>
    match calculateTokenCost (revision.sourceModelId.getD revision.modelId) args.tokens
      revision.pricing with
    | none =>
      { resolution := ⟨.finite 0, some revision.id, .unpriced⟩
        pricingModel := some revision.modelId
        modelMatch := matched
        reason := some .missingRate
        breakdown := none }
    | some breakdown =>
      let reason := estimateReason matched args.tokens revision.pricing
      { resolution :=
          ⟨breakdown.totalUsd, some revision.id, if reason.isSome then .estimated else .priced⟩
        pricingModel := some revision.modelId
        modelMatch := matched
        reason := reason
        breakdown := some breakdown }

def resolveCostAt (args : ResolveAtArgs) (schedule : PricingSchedule) : CostResolution :=
  (explainCostAt args schedule).resolution

/-! ### What is priced -/

def noTokens : TokenCounts where
  inputTokens := 0
  outputTokens := 0
  cacheReadTokens := 0
  cacheCreationTokens := 0
  cacheCreation1hTokens := none
  isFast := none

theorem calculateTokenCost_noTokens (model : String) (p : ModelPricing) :
    (calculateTokenCost model noTokens p).isSome = true := by
  have zero : JsNumber.ofRat 0 = .finite 0 := by
    simp only [JsNumber.ofRat, Library.binary64_zero]
  simp [calculateTokenCost, noTokens, costMultiplier, componentCost, JsNumber.add, zero,
    JsNumber.isFinite]

/-- **An event is priced only by a revision in force**, and under its id. -/
theorem revisionInForce_of_priced {args : ResolveAtArgs} {schedule : PricingSchedule}
    (priced : (resolveCostAt args schedule).status ≠ .unpriced) :
    ∃ revision, revisionInForce schedule args.model args.providerKey args.logAdapter args.occurredAt
      = some revision ∧ (resolveCostAt args schedule).pricingRevisionId = some revision.id := by
  unfold resolveCostAt explainCostAt at priced ⊢
  cases found : revisionInForce schedule args.model args.providerKey args.logAdapter
      args.occurredAt with
  | none =>
    rw [found] at priced
    exact absurd rfl priced
  | some revision =>
    refine ⟨revision, rfl, ?_⟩
    cases cost : calculateTokenCost (revision.sourceModelId.getD revision.modelId) args.tokens
      revision.pricing with
    | none => simp only [cost]
    | some breakdown => simp only [cost]

/-- **The probe of a model succeeds exactly where a revision is in force.** -/
theorem probe_priced_iff {args : ResolveAtArgs} {schedule : PricingSchedule}
    (empty : args.tokens = noTokens) : (resolveCostAt args schedule).status ≠ .unpriced ↔
      (revisionInForce schedule args.model args.providerKey args.logAdapter
        args.occurredAt).isSome = true := by
  constructor
  · intro priced
    obtain ⟨revision, found, -⟩ := revisionInForce_of_priced priced
    rw [found]
    rfl
  · intro inForce
    obtain ⟨revision, found⟩ := Option.isSome_iff_exists.mp inForce
    obtain ⟨breakdown, cost⟩ := Option.isSome_iff_exists.mp (calculateTokenCost_noTokens
      (revision.sourceModelId.getD revision.modelId) revision.pricing)
    rw [← empty] at cost
    unfold resolveCostAt explainCostAt
    simp only [found, cost]
    split
    · exact ResolutionStatus.noConfusion
    · exact ResolutionStatus.noConfusion

theorem mem_of_selectedRevision {revisions : List ScheduledRevision} {occurredAt : Int}
    {revision : ScheduledRevision} (selected : selectedRevision revisions occurredAt = some revision) :
    revision ∈ revisions := by
  have general : ∀ (rest : List ScheduledRevision) (start : Option ScheduledRevision),
      rest.foldl (laterRevision occurredAt) start = some revision →
        revision ∈ rest ∨ start = some revision := by
    intro rest
    induction rest with
    | nil => exact fun _ same => Or.inr same
    | cons head rest ih =>
      intro start found
      rcases ih _ found with later | now
      · exact Or.inl (List.mem_cons_of_mem head later)
      · rw [laterRevision] at now
        split at now
        · cases now
          exact Or.inl List.mem_cons_self
        · exact Or.inr now
  exact (general revisions none selected).resolve_right nofun

end Toard.Pricing
