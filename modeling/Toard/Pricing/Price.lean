/-
**Model prices and their resolution (`packages/pricing`: `types.ts`, `sync.ts`, `aliases.ts`).**

A rate is a JavaScript number that is not `NaN`. Rates are finite when LiteLLM states them, but the
conversion to a rate per million can overflow, and JSON has no infinity: `JSON.stringify` writes
`null`, which is read back as a missing rate.
-/

import Mathlib.Data.List.Sort
import Mathlib.Data.Rat.Defs
import Toard.Library.Keyed

namespace Toard.Pricing

open Toard.Library (OrderedMap)

/-- A JavaScript number other than `NaN`; the two zeros are one. -/
inductive JsNumber where
  | finite (value : ℚ)
  | infinite (negative : Bool)
deriving DecidableEq

/-- The number as JSON: `none` is `null`. -/
def JsNumber.json : JsNumber → Option ℚ
  | .finite value => some value
  | .infinite _ => none

def JsNumber.isFinite : JsNumber → Bool
  | .finite _ => true
  | .infinite _ => false

/-! ### Rates -/

inductive ContextScope where
  | request
  | session
deriving DecidableEq

structure ContextPricingTier (Rate : Type) where
  aboveTokens : Nat
  inputPerM : Option Rate
  outputPerM : Option Rate
  cacheReadPerM : Option Rate
  cacheCreatePerM : Option Rate
  cacheCreate1hPerM : Option Rate
deriving DecidableEq

/-- What is persisted with each price beside its plain columns. A missing tier list and an empty
one are the same to every reader. -/
structure PricingDetails (Rate : Type) where
  contextTiers : List (ContextPricingTier Rate)
  cacheCreate1hPerM : Option Rate
  contextScope : Option ContextScope
deriving DecidableEq

structure ModelPricing extends PricingDetails JsNumber where
  inputPerM : JsNumber
  outputPerM : JsNumber
  cacheReadPerM : Option JsNumber
  cacheCreatePerM : Option JsNumber
  inputAbove200kPerM : Option JsNumber
  outputAbove200kPerM : Option JsNumber
  fastMultiplier : Option JsNumber
deriving DecidableEq

namespace ContextPricingTier

def filterMap {Rate Rate' : Type} (f : Rate → Option Rate') (tier : ContextPricingTier Rate) :
    ContextPricingTier Rate' where
  aboveTokens := tier.aboveTokens
  inputPerM := tier.inputPerM.bind f
  outputPerM := tier.outputPerM.bind f
  cacheReadPerM := tier.cacheReadPerM.bind f
  cacheCreatePerM := tier.cacheCreatePerM.bind f
  cacheCreate1hPerM := tier.cacheCreate1hPerM.bind f

def Every {Rate : Type} (holds : Rate → Prop) (tier : ContextPricingTier Rate) : Prop :=
  (∀ rate ∈ tier.inputPerM, holds rate) ∧ (∀ rate ∈ tier.outputPerM, holds rate) ∧
    (∀ rate ∈ tier.cacheReadPerM, holds rate) ∧ (∀ rate ∈ tier.cacheCreatePerM, holds rate) ∧
    ∀ rate ∈ tier.cacheCreate1hPerM, holds rate

end ContextPricingTier

namespace PricingDetails

def filterMap {Rate Rate' : Type} (f : Rate → Option Rate') (details : PricingDetails Rate) :
    PricingDetails Rate' where
  contextTiers := details.contextTiers.map (·.filterMap f)
  cacheCreate1hPerM := details.cacheCreate1hPerM.bind f
  contextScope := details.contextScope

/-- `JSON.stringify`: a rate is a number or `null`. -/
def stringify (details : PricingDetails JsNumber) : PricingDetails (Option ℚ) :=
  details.filterMap fun rate => some rate.json

/-- The details read from JSON: `null` stands for no rate to every reader. -/
def parse (details : PricingDetails (Option ℚ)) : PricingDetails JsNumber :=
  details.filterMap fun rate => rate.map .finite

def Every {Rate : Type} (holds : Rate → Prop) (details : PricingDetails Rate) : Prop :=
  (∀ tier ∈ details.contextTiers, tier.Every holds) ∧
    ∀ rate ∈ details.cacheCreate1hPerM, holds rate

def Finite (details : PricingDetails JsNumber) : Prop :=
  details.Every fun rate => rate.isFinite = true

end PricingDetails

def pricingDetails (pricing : ModelPricing) : PricingDetails JsNumber where
  contextTiers := pricing.contextTiers.mergeSort fun a b => a.aboveTokens ≤ b.aboveTokens
  cacheCreate1hPerM := pricing.cacheCreate1hPerM
  contextScope := pricing.contextScope

def samePricing (left right : ModelPricing) : Bool :=
  left.inputPerM == right.inputPerM &&
  left.outputPerM == right.outputPerM &&
  left.cacheReadPerM == right.cacheReadPerM &&
  left.cacheCreatePerM == right.cacheCreatePerM &&
  left.inputAbove200kPerM == right.inputAbove200kPerM &&
  left.outputAbove200kPerM == right.outputAbove200kPerM &&
  left.fastMultiplier.getD (.finite 1) == right.fastMultiplier.getD (.finite 1) &&
  (pricingDetails left).stringify == (pricingDetails right).stringify

/-! ### Aliases -/

abbrev PricingMap := OrderedMap String ModelPricing

def VENDOR_PREFIXES : List String :=
  ["us.anthropic.", "anthropic.", "openai/", "bedrock/"]

/-- `text.includes(part)`. -/
def includes (text part : String) : Bool :=
  text.toList.tails.any part.toList.isPrefixOf

def codeUnits (text : String) : List Nat :=
  text.toList.flatMap fun c =>
    if c.toNat < 0x10000 then [c.toNat]
    else [0xD800 + (c.toNat - 0x10000) / 0x400, 0xDC00 + (c.toNat - 0x10000) % 0x400]

def stripVendorPrefix (model : String) : String :=
  match VENDOR_PREFIXES.find? fun pre => pre.toList.isPrefixOf model.toList with
  | some pre => String.ofList (model.toList.drop pre.length)
  | none => model

/-- What `DATE_SUFFIX` matches: a hyphen, then eight digits or a hyphenated date. -/
def isDateSuffix : List Char → Bool
  | ['-', y₁, y₂, y₃, y₄, m₁, m₂, d₁, d₂] => [y₁, y₂, y₃, y₄, m₁, m₂, d₁, d₂].all Char.isDigit
  | ['-', y₁, y₂, y₃, y₄, '-', m₁, m₂, '-', d₁, d₂] =>
    [y₁, y₂, y₃, y₄, m₁, m₂, d₁, d₂].all Char.isDigit
  | _ => false

def stripDateSuffix (key : String) : String :=
  match key.toList.tails.find? isDateSuffix with
  | some suffix => String.ofList (key.toList.take (key.length - suffix.length))
  | none => key

inductive AliasMatch where
  | exact
  | normalized
  | inferred
deriving DecidableEq

structure ResolvedAliasEntry (α : Type) where
  key : String
  value : α
  matched : AliasMatch

/-- The longest key that is part of the name, or that the name without its date is part of. -/
def fuzzyAliasEntry {α : Type} (key stripped : String) (values : OrderedMap String α) :
    Option (ResolvedAliasEntry α) :=
  (values.entries.foldl (fun (best, bestLen) (k, v) =>
    if (includes key k || includes k stripped) && (codeUnits k).length > bestLen then
      (some { key := k, value := v, matched := .inferred }, (codeUnits k).length)
    else (best, bestLen)) ((none : Option (ResolvedAliasEntry α)), 0)).1

def resolveAliasEntry {α : Type} (model : String) (values : OrderedMap String α) :
    Option (ResolvedAliasEntry α) :=
  if model = "" then none
  else match values.get model with
  | some direct => some { key := model, value := direct, matched := .exact }
  | none =>
    let key := stripVendorPrefix model
    match values.get key with
    | some afterPrefix => some { key := key, value := afterPrefix, matched := .normalized }
    | none =>
      let stripped := stripDateSuffix key
      match if stripped ≠ key then values.get stripped else none with
      | some afterDate => some { key := stripped, value := afterDate, matched := .normalized }
      | none => fuzzyAliasEntry key stripped values

structure ResolvedPricingEntry where
  modelId : String
  pricing : ModelPricing
deriving DecidableEq

/-- The price of a model, with the key of the price list it was found under. -/
def resolvePricingEntry (model : String) (pricing : PricingMap) : Option ResolvedPricingEntry :=
  (resolveAliasEntry model pricing).map fun resolved =>
    { modelId := resolved.key, pricing := resolved.value }

/-! ### What is found -/

section Resolve

variable {α : Type} {values : OrderedMap String α} {key : String}

theorem mem_values_of_get {value : α} (found : values.get key = some value) :
    value ∈ values.values :=
  List.mem_map.mpr ⟨(key, value), Library.OrderedMap.get_eq_some.mp found, rfl⟩

theorem fuzzyAliasEntry_mem {stripped : String} {resolved : ResolvedAliasEntry α}
    (found : fuzzyAliasEntry key stripped values = some resolved) :
    resolved.value ∈ values.values := by
  have loop : ∀ (entries : List (String × α)) (best : Option (ResolvedAliasEntry α) × Nat),
      (∀ entry ∈ entries, entry ∈ values.entries) →
      (∀ chosen, best.1 = some chosen → chosen.value ∈ values.values) →
      ∀ chosen, (entries.foldl (fun (best, bestLen) (k, v) =>
        if (includes key k || includes k stripped) && (codeUnits k).length > bestLen then
          (some { key := k, value := v, matched := .inferred }, (codeUnits k).length)
        else (best, bestLen)) best).1 = some chosen → chosen.value ∈ values.values := by
    intro entries
    induction entries with
    | nil => exact fun _ _ sofar => sofar
    | cons head rest ih =>
      intro best among sofar
      refine ih _ (fun entry later => among entry (List.mem_cons_of_mem _ later)) ?_
      intro chosen made
      obtain ⟨k, v⟩ := head
      obtain ⟨sofarBest, bestLen⟩ := best
      dsimp only at made
      split at made
      case isTrue =>
        cases made
        exact List.mem_map.mpr ⟨(k, v), among (k, v) List.mem_cons_self, rfl⟩
      case isFalse => exact sofar chosen made
  exact loop values.entries (none, 0) (fun _ among => among) (fun _ none_ => (nomatch none_))
    resolved found

/-- **What an alias resolves to is one of the values.** -/
theorem resolveAliasEntry_mem {model : String} {resolved : ResolvedAliasEntry α}
    (found : resolveAliasEntry model values = some resolved) : resolved.value ∈ values.values := by
  simp only [resolveAliasEntry] at found
  split at found
  case isTrue => cases found
  case isFalse =>
    split at found
    case h_1 direct get =>
      cases found
      exact mem_values_of_get get
    case h_2 =>
      split at found
      case h_1 afterPrefix get =>
        cases found
        exact mem_values_of_get get
      case h_2 =>
        split at found
        case h_1 afterDate get =>
          cases found
          split at get
          case isTrue => exact mem_values_of_get get
          case isFalse => cases get
        case h_2 => exact fuzzyAliasEntry_mem found

end Resolve

/-! ### What two prices have in common -/

namespace PricingDetails

/-- **Finite rates survive JSON.** -/
theorem parse_stringify {details : PricingDetails JsNumber} (finite : details.Finite) :
    details.stringify.parse = details := by
  have rate : ∀ value : Option JsNumber, (∀ r ∈ value, r.isFinite = true) →
      (value.bind fun r => some r.json).bind (fun r => r.map JsNumber.finite) = value := by
    intro value finite
    cases value with
    | none => rfl
    | some r =>
      cases r with
      | finite _ => rfl
      | infinite negative => cases finite _ rfl
  obtain ⟨tiers, oneHour, scope⟩ := details
  have tier : ∀ tier ∈ tiers, ((tier.filterMap fun r => some r.json).filterMap
      fun r => r.map JsNumber.finite) = tier := by
    intro tier among
    obtain ⟨input, output, cacheRead, cacheCreate, cacheCreate1h⟩ := finite.1 tier among
    unfold ContextPricingTier.filterMap
    rw [rate _ input, rate _ output, rate _ cacheRead, rate _ cacheCreate, rate _ cacheCreate1h]
  have tiersBack : (tiers.map (·.filterMap fun r => some r.json)).map
      (·.filterMap fun r => r.map JsNumber.finite) = tiers := by
    rw [List.map_map]
    exact (List.map_congr_left tier).trans (List.map_id tiers)
  unfold stringify parse filterMap
  rw [PricingDetails.mk.injEq]
  exact ⟨tiersBack, rate oneHour finite.2, rfl⟩

end PricingDetails

/-- The tiers are in ascending order, as `pricingDetails` leaves them. -/
def PricingDetails.Ascending {Rate : Type} (details : PricingDetails Rate) : Prop :=
  details.contextTiers.Pairwise fun a b => a.aboveTokens ≤ b.aboveTokens

theorem ascending_pricingDetails (pricing : ModelPricing) : (pricingDetails pricing).Ascending := by
  have transitive : ∀ a b c : ContextPricingTier JsNumber,
      decide (a.aboveTokens ≤ b.aboveTokens) = true → decide (b.aboveTokens ≤ c.aboveTokens) = true →
        decide (a.aboveTokens ≤ c.aboveTokens) = true := fun _ _ _ first second =>
    decide_eq_true (le_trans (of_decide_eq_true first) (of_decide_eq_true second))
  have total : ∀ a b : ContextPricingTier JsNumber,
      (decide (a.aboveTokens ≤ b.aboveTokens) || decide (b.aboveTokens ≤ a.aboveTokens)) = true := by
    intro a b
    simpa using Nat.le_total a.aboveTokens b.aboveTokens
  exact (List.pairwise_mergeSort transitive total pricing.contextTiers).imp of_decide_eq_true

theorem PricingDetails.Ascending.filterMap {Rate Rate' : Type} {details : PricingDetails Rate}
    (ascending : details.Ascending) (f : Rate → Option Rate') : (details.filterMap f).Ascending :=
  List.pairwise_map.mpr ascending

theorem pricingDetails_of_ascending (pricing : ModelPricing)
    (ascending : pricing.toPricingDetails.Ascending) :
    pricingDetails pricing = pricing.toPricingDetails := by
  have sorted : pricing.contextTiers.mergeSort (fun a b => a.aboveTokens ≤ b.aboveTokens)
      = pricing.contextTiers :=
    List.mergeSort_of_pairwise (ascending.imp fun ordered => decide_eq_true ordered)
  unfold pricingDetails
  rw [sorted]

end Toard.Pricing
