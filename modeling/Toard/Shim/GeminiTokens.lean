/-
**The tokens of a Gemini record (`collect/gemini.rs`, `collect/gemini_family.rs`).**

A record has the tokens of one answer, or the statistics of a session for one model. Some versions
of the tool count the cached tokens in the input and others next to it, which only the total tells.

* **`total_conserved`**: the counts of a usage add up to the total, or to the known parts if these
  are more.
-/

import Toard.Shim.RawUsage

namespace Toard.Shim.Gemini

/-! ### The tokens -/

structure GeminiTokens where
  input : Nat
  output : Nat
  cached : Nat
  thoughts : Nat
  tool : Nat
  total : Option Nat

/-- `u64::saturating_add` -/
def saturatingAdd (left right : Nat) : Nat := min (left + right) (2 ^ 64 - 1)

/-- The output and the reasoning, with what the total has beyond the known parts. -/
def applyTotalTokenFallback (input output cacheRead extraTotal total : Nat) : Nat × Nat :=
  let known :=
    saturatingAdd (saturatingAdd (saturatingAdd input output) cacheRead) extraTotal
  let missing := total - known
  if missing = 0 then (output, extraTotal)
  else if output = 0 then (missing, extraTotal)
  else (output, saturatingAdd extraTotal missing)

/-- Of statistics: the cached tokens are always taken out of the input. -/
def subtractCachedOverlapTokens (tokens : GeminiTokens) : Nat × Nat :=
  let cachedPortion := min tokens.input tokens.cached
  (tokens.input - cachedPortion, tokens.cached)

def inclusiveTotal (tokens : GeminiTokens) : Nat :=
  saturatingAdd (saturatingAdd (saturatingAdd tokens.input tokens.output) tokens.thoughts)
    tokens.tool

def exclusiveTotal (tokens : GeminiTokens) : Nat :=
  saturatingAdd (inclusiveTotal tokens) tokens.cached

/-- Of an answer: only if the total is the sum without the cached tokens. -/
def normalizeSessionInput (tokens : GeminiTokens) : Nat × Nat :=
  if 0 < tokens.cached ∧ tokens.total = some (inclusiveTotal tokens) ∧
      tokens.total ≠ some (exclusiveTotal tokens) then
    subtractCachedOverlapTokens tokens
  else (tokens.input, tokens.cached)

def buildEvent (model : Option String) (sessionId : String) (tsMs : Int) (tokens : GeminiTokens)
    (normalizeInput : GeminiTokens → Nat × Nat) (messageId : Option String) : Option RawUsage :=
  (model.filter fun m => !(trim m.toList).isEmpty).bind fun model =>
    let normalized := normalizeInput tokens
    let cacheReadTokens := normalized.2
    let inputTokens := saturatingAdd normalized.1 tokens.tool
    let totalTokens := tokens.total.getD
      (saturatingAdd (saturatingAdd (saturatingAdd inputTokens tokens.output) cacheReadTokens)
        tokens.thoughts)
    let fallback := applyTotalTokenFallback inputTokens tokens.output cacheReadTokens
      tokens.thoughts totalTokens
    if inputTokens = 0 ∧ fallback.1 = 0 ∧ cacheReadTokens = 0 ∧ fallback.2 = 0 then none
    else some {
      project := none
      tsMs := tsMs
      sessionId := some sessionId
      model := some model
      messageId := messageId
      inputTokens := inputTokens
      outputTokens := saturatingAdd fallback.1 fallback.2
      cacheReadTokens := cacheReadTokens
      cacheCreationTokens := 0
      cacheCreation1hTokens := 0 }

/-! ### What the counts add up to -/

def knownSum (normalizeInput : GeminiTokens → Nat × Nat) (tokens : GeminiTokens) : Nat :=
  (normalizeInput tokens).1 + tokens.tool + tokens.output + (normalizeInput tokens).2 +
    tokens.thoughts

def GeminiTokens.inclusive (tokens : GeminiTokens) : Nat :=
  tokens.input + tokens.output + tokens.thoughts + tokens.tool

def GeminiTokens.exclusive (tokens : GeminiTokens) : Nat := tokens.inclusive + tokens.cached

theorem saturatingAdd_eq {left right : Nat} (fits : left + right < 2 ^ 64) :
    saturatingAdd left right = left + right := Nat.min_eq_left (by omega)

theorem applyTotalTokenFallback_sum {input output cacheRead extraTotal total : Nat}
    (fits : input + output + cacheRead + extraTotal < 2 ^ 64) (small : total < 2 ^ 64) :
    saturatingAdd (applyTotalTokenFallback input output cacheRead extraTotal total).1
      (applyTotalTokenFallback input output cacheRead extraTotal total).2 + input + cacheRead
      = max total (input + output + cacheRead + extraTotal) := by
  have known : saturatingAdd (saturatingAdd (saturatingAdd input output) cacheRead) extraTotal
      = input + output + cacheRead + extraTotal := by
    rw [saturatingAdd_eq (show input + output < 2 ^ 64 by omega),
      saturatingAdd_eq (show input + output + cacheRead < 2 ^ 64 by omega), saturatingAdd_eq fits]
  simp only [applyTotalTokenFallback, known]
  split
  · rw [saturatingAdd_eq (by omega)]
    omega
  · split
    · rw [saturatingAdd_eq (by omega)]
      omega
    · have reasoning : saturatingAdd extraTotal (total - (input + output + cacheRead + extraTotal))
          = extraTotal + (total - (input + output + cacheRead + extraTotal)) :=
        saturatingAdd_eq (by omega)
      rw [reasoning, saturatingAdd_eq (by omega)]
      omega

/-- **The counts of a usage add up** to the total, or to the known parts if these are more. -/
theorem buildEvent_sum {model : Option String} {sessionId : String} {tsMs : Int}
    {tokens : GeminiTokens} {normalizeInput : GeminiTokens → Nat × Nat} {messageId : Option String}
    {usage : RawUsage} (fits : knownSum normalizeInput tokens < 2 ^ 64)
    (small : tokens.total.getD 0 < 2 ^ 64)
    (made : buildEvent model sessionId tsMs tokens normalizeInput messageId = some usage) :
    usage.inputTokens + usage.outputTokens + usage.cacheReadTokens
      = max (tokens.total.getD 0) (knownSum normalizeInput tokens) := by
  obtain ⟨name, -, made⟩ := Option.bind_eq_some_iff.mp made
  obtain ⟨-, made⟩ := Option.ite_none_left_eq_some.mp made
  obtain rfl := Option.some.inj made
  clear made
  have input : saturatingAdd (normalizeInput tokens).1 tokens.tool
      = (normalizeInput tokens).1 + tokens.tool := saturatingAdd_eq (by rw [knownSum] at fits; omega)
  have known : saturatingAdd (saturatingAdd (saturatingAdd ((normalizeInput tokens).1 + tokens.tool)
      tokens.output) (normalizeInput tokens).2) tokens.thoughts = knownSum normalizeInput tokens := by
    rw [knownSum] at fits
    have output : (normalizeInput tokens).1 + tokens.tool + tokens.output < 2 ^ 64 := by omega
    have cached : (normalizeInput tokens).1 + tokens.tool + tokens.output
        + (normalizeInput tokens).2 < 2 ^ 64 := by omega
    rw [saturatingAdd_eq output, saturatingAdd_eq cached, saturatingAdd_eq fits, knownSum]
  simp only [input, known]
  have isTotal : tokens.total.getD (knownSum normalizeInput tokens) < 2 ^ 64 := by
    cases isTotal : tokens.total with
    | none => exact fits
    | some total => rwa [isTotal] at small
  have sum := applyTotalTokenFallback_sum fits isTotal
  rw [← knownSum] at sum
  calc _ = max (tokens.total.getD (knownSum normalizeInput tokens))
        (knownSum normalizeInput tokens) := by omega
    _ = _ := by
      cases tokens.total with
      | none => rw [Option.getD_none, Option.getD_none, max_self, Nat.zero_max]
      | some total => rfl

theorem inclusiveTotal_eq {tokens : GeminiTokens} (fits : tokens.inclusive < 2 ^ 64) :
    inclusiveTotal tokens = tokens.inclusive := by
  rw [GeminiTokens.inclusive] at fits
  have output : tokens.input + tokens.output < 2 ^ 64 := by omega
  have thoughts : tokens.input + tokens.output + tokens.thoughts < 2 ^ 64 := by omega
  rw [inclusiveTotal, saturatingAdd_eq output, saturatingAdd_eq thoughts, saturatingAdd_eq fits,
    GeminiTokens.inclusive]

theorem exclusiveTotal_eq {tokens : GeminiTokens} (fits : tokens.exclusive < 2 ^ 64) :
    exclusiveTotal tokens = tokens.exclusive := by
  have inclusive : tokens.inclusive < 2 ^ 64 := lt_of_le_of_lt (Nat.le_add_right _ _) fits
  rw [exclusiveTotal, inclusiveTotal_eq inclusive, saturatingAdd_eq fits, GeminiTokens.exclusive]

theorem knownSum_subtractCachedOverlapTokens (tokens : GeminiTokens) :
    knownSum subtractCachedOverlapTokens tokens
      = max tokens.input tokens.cached + tokens.tool + tokens.output + tokens.thoughts := by
  simp only [knownSum, subtractCachedOverlapTokens]
  omega

theorem knownSum_normalizeSessionInput {tokens : GeminiTokens} (fits : tokens.exclusive < 2 ^ 64) :
    knownSum normalizeSessionInput tokens
      = if 0 < tokens.cached ∧ tokens.total = some tokens.inclusive then
          knownSum subtractCachedOverlapTokens tokens
        else tokens.exclusive := by
  have inclusive : tokens.inclusive < 2 ^ 64 := lt_of_le_of_lt (Nat.le_add_right _ _) fits
  rw [knownSum, normalizeSessionInput, inclusiveTotal_eq inclusive, exclusiveTotal_eq fits]
  by_cases isInclusive : 0 < tokens.cached ∧ tokens.total = some tokens.inclusive
  · have other : tokens.total ≠ some tokens.exclusive := by
      rw [isInclusive.2, GeminiTokens.exclusive]
      simp only [ne_eq, Option.some_inj]
      omega
    rw [if_pos isInclusive, if_pos ⟨isInclusive.1, isInclusive.2, other⟩, knownSum]
  · rw [if_neg isInclusive, if_neg fun all => isInclusive ⟨all.1, all.2.1⟩]
    simp only [GeminiTokens.exclusive, GeminiTokens.inclusive]
    omega

theorem knownSum_le {normalizeInput : GeminiTokens → Nat × Nat} {tokens : GeminiTokens}
    (isOne : normalizeInput = normalizeSessionInput ∨ normalizeInput = subtractCachedOverlapTokens)
    (fits : tokens.exclusive < 2 ^ 64) : knownSum normalizeInput tokens ≤ tokens.exclusive := by
  have overlap : knownSum subtractCachedOverlapTokens tokens ≤ tokens.exclusive := by
    rw [knownSum_subtractCachedOverlapTokens, GeminiTokens.exclusive, GeminiTokens.inclusive]
    omega
  rcases isOne with rfl | rfl
  · rw [knownSum_normalizeSessionInput fits]
    split
    · exact overlap
    · exact le_rfl
  · exact overlap

/-- **The total is conserved.** The counts of a usage add up to the total or to the known parts,
whichever is more, and to the total if this is the sum of the parts: with the cached tokens next to
the input, or in it where they fit. -/
theorem total_conserved (normalizeInput : GeminiTokens → Nat × Nat)
    (isOne : normalizeInput = normalizeSessionInput ∨ normalizeInput = subtractCachedOverlapTokens)
    (model : Option String) (sessionId : String) (tsMs : Int) (tokens : GeminiTokens)
    (messageId : Option String) (usage : RawUsage) (fits : tokens.exclusive < 2 ^ 64)
    (small : tokens.total.getD 0 < 2 ^ 64)
    (made : buildEvent model sessionId tsMs tokens normalizeInput messageId = some usage) :
    usage.inputTokens + usage.outputTokens + usage.cacheReadTokens
        = max (tokens.total.getD 0) (knownSum normalizeInput tokens) ∧
      ∀ total, tokens.total = some total →
        (total = tokens.exclusive ∨ total = tokens.inclusive ∧ tokens.cached ≤ tokens.input) →
        usage.inputTokens + usage.outputTokens + usage.cacheReadTokens = total := by
  have known := knownSum_le isOne fits
  have sum := buildEvent_sum (lt_of_le_of_lt known fits) small made
  refine ⟨sum, fun total isTotal isSum => ?_⟩
  rw [sum, isTotal, Option.getD_some]
  apply max_eq_left
  rcases isSum with rfl | ⟨rfl, inside⟩
  · exact known
  · have overlap : knownSum subtractCachedOverlapTokens tokens ≤ tokens.inclusive := by
      rw [knownSum_subtractCachedOverlapTokens, max_eq_left inside, GeminiTokens.inclusive]
      omega
    rcases isOne with rfl | rfl
    · rw [knownSum_normalizeSessionInput fits]
      split
      · exact overlap
      · next none =>
        have uncached : tokens.cached = 0 := by
          by_contra cached
          exact none ⟨Nat.pos_of_ne_zero cached, isTotal⟩
        rw [GeminiTokens.exclusive, uncached]
        exact le_rfl
    · exact overlap

/-- The tokens of an answer, of which 40 were in the cache. -/
theorem total_conserved_answer :
    ((buildEvent (some "gemini-2.5-pro") "s" 0 ⟨100, 10, 40, 5, 2, some 117⟩ normalizeSessionInput
      none).map fun usage => usage.inputTokens + usage.outputTokens + usage.cacheReadTokens)
      = some 117 := by
  cases made : buildEvent (some "gemini-2.5-pro") "s" 0 ⟨100, 10, 40, 5, 2, some 117⟩
      normalizeSessionInput none with
  | none =>
    have someMade : (buildEvent (some "gemini-2.5-pro") "s" 0 ⟨100, 10, 40, 5, 2, some 117⟩
      normalizeSessionInput none).isSome := by decide
    rw [made] at someMade
    cases someMade
  | some usage =>
    rw [Option.map_some, (total_conserved normalizeSessionInput (.inl rfl) _ "s" 0
      ⟨100, 10, 40, 5, 2, some 117⟩ none usage (by decide) (by decide) made).2 117 rfl
      (.inr ⟨rfl, by decide⟩)]

/-- More tokens in the cache than in the input, and more tokens than 64 bits. -/
theorem total_exceeded :
    ((buildEvent (some "gemini-2.5-pro") "s" 0 ⟨10, 5, 40, 0, 0, some 15⟩ normalizeSessionInput
      none).map fun usage => usage.inputTokens + usage.outputTokens + usage.cacheReadTokens)
      = some 45 ∧
    ((buildEvent (some "gemini-2.5-pro") "s" 0 ⟨0, 2 ^ 64 - 1, 0, 1, 0, none⟩ normalizeSessionInput
      none).map fun usage => usage.inputTokens + usage.outputTokens + usage.cacheReadTokens)
      = some (2 ^ 64 - 1) ∧
    knownSum normalizeSessionInput ⟨0, 2 ^ 64 - 1, 0, 1, 0, none⟩ = 2 ^ 64 := by
  decide

end Toard.Shim.Gemini
