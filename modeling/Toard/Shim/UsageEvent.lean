/-
**The usage event and its wire contract (`usage_event.rs`).**

`toJson` writes an event the way the collector sends it, `fromJson` is the reader that checks the
delivery contract: the three identifiers are not empty, every token count is a safe integer, and
the one-hour part of the cache creation is a part of it. The queue accepts an event only if
`fromJson (toJson event)` succeeds; `fromJson_toJson` says exactly when it does.

Token counts are `u64` in the source and natural numbers here; `parseU64` keeps the bound where
text is turned into a count. The amount in dollars is an `f64` the collector always leaves at
zero: `Cost` keeps what the code can tell apart, a zero or some other amount.
-/

import Toard.Json.RoundTrip

namespace Toard.Shim

open Toard.Json (Value NumberToken)

/-! ### Numbers -/

def maxSafeInteger : Nat := 9007199254740991

/-- An `f64` amount: a zero of either sign, or another amount by the text `format!` prints. -/
inductive Cost where
  | zero
  | amount (text : String)
deriving DecidableEq

/-- `str::parse::<u64>`: an optional plus sign, digits, and no overflow. -/
def parseU64 (token : String) : Option Nat :=
  let digits := match token.toList with
    | '+' :: rest => rest
    | s => s
  if digits ≠ [] ∧ digits.all Char.isDigit then
    let n := Nat.ofDigitChars 10 digits 0
    if n < 2 ^ 64 then some n else none
  else none

/-- A decimal numeral `mantissa · 10 ^ exponent`. -/
structure Decimal where
  negative : Bool
  mantissa : Nat
  exponent : Int

/-- The grammar of `str::parse::<f64>` on the tokens a JSON text can hold. -/
def parseDecimal (s : List Char) : Option Decimal :=
  let sign := Json.signPart s
  let whole := Json.digits sign.2
  let fraction := Json.fractionPart whole.2
  let digits := whole.1 ++ fraction.1.drop 1
  let mantissa := Nat.ofDigitChars 10 digits 0
  let places : Int := (fraction.1.drop 1).length
  if digits = [] then none
  else match fraction.2 with
    | [] => some ⟨sign.1 = ['-'], mantissa, -places⟩
    | c :: rest =>
      let power := Json.signPart rest
      if (c = 'e' ∨ c = 'E') ∧ power.2 ≠ [] ∧ power.2.all Char.isDigit then
        let size : Int := Nat.ofDigitChars 10 power.2 0
        some ⟨sign.1 = ['-'], mantissa, (if power.1 = ['-'] then -size else size) - places⟩
      else none

/-- The numeral is at most half the smallest subnormal, so it rounds to zero. -/
def Decimal.roundsToZero (d : Decimal) : Bool :=
  if d.exponent < 0 then d.mantissa * 2 ^ 1075 ≤ 10 ^ d.exponent.natAbs else d.mantissa = 0

/-- The numeral rounds past the largest `f64`. -/
def Decimal.roundsToInfinity (d : Decimal) : Bool :=
  if d.exponent < 0 then (2 ^ 1024 - 2 ^ 970) * 10 ^ d.exponent.natAbs ≤ d.mantissa
  else 2 ^ 1024 - 2 ^ 970 ≤ d.mantissa * 10 ^ d.exponent.natAbs

/-- `parse::<f64>` and the check that the amount is finite and not negative. -/
def parseCost (token : String) : Option Cost :=
  match parseDecimal token.toList with
  | none => none
  | some d =>
    if d.roundsToZero then some .zero
    else if d.negative ∨ d.roundsToInfinity then none
    else some (.amount token)

/-! ### The event -/

structure UsageEvent where
  dedupKey : String
  providerKey : String
  /-- The server takes the user from the token: the collector leaves this empty. -/
  userId : Option String
  sessionId : Option String
  model : Option String
  ts : String
  inputTokens : Nat
  outputTokens : Nat
  cacheReadTokens : Nat
  cacheCreationTokens : Nat
  /-- The part of `cacheCreationTokens` with a lifetime of one hour. -/
  cacheCreation1hTokens : Nat
  costUsd : Cost
  logAdapter : Option String
  host : Option String
deriving DecidableEq

def optString (v : Option Value) (field : String) : Except String (Option String) :=
  match v with
  | none | some .null => .ok none
  | some (.string s) => .ok (some s)
  | some _ => .error (field ++ " 는 문자열 또는 null 이어야 합니다")

def reqString (v : Option Value) (field : String) : Except String String :=
  match v with
  | some (.string s) =>
    if s ≠ "" then .ok s else .error (field ++ " 는 비어있지 않은 문자열이어야 합니다")
  | _ => .error (field ++ " 는 비어있지 않은 문자열이어야 합니다")

def tokenCount (v : Option Value) (field : String) : Except String Nat :=
  match v with
  | some (.number n) =>
    match (parseU64 n).filter (· ≤ maxSafeInteger) with
    | some count => .ok count
    | none => .error (field ++ " 는 0 이상의 안전한 정수여야 합니다")
  | _ => .error (field ++ " 는 0 이상의 정수여야 합니다")

def optTokenCount (v : Option Value) (field : String) : Except String Nat :=
  match v with
  | none | some .null => .ok 0
  | _ => tokenCount v field

namespace UsageEvent

def costField (v : Option Value) : Except String Cost :=
  match v with
  | none | some .null => .ok .zero
  | some (.number n) =>
    match parseCost n with
    | some cost => .ok cost
    | none => .error "costUsd 는 0 이상의 숫자여야 합니다"
  | some _ => .error "costUsd 는 0 이상의 숫자여야 합니다"

def fromJson (v : Value) : Except String UsageEvent := do
  let costUsd ← costField (v.get "costUsd")
  let dedupKey ← reqString (v.get "dedupKey") "dedupKey"
  let providerKey ← reqString (v.get "providerKey") "providerKey"
  let userId ← optString (v.get "userId") "userId"
  let sessionId ← optString (v.get "sessionId") "sessionId"
  let model ← optString (v.get "model") "model"
  let ts ← reqString (v.get "ts") "ts"
  let inputTokens ← tokenCount (v.get "inputTokens") "inputTokens"
  let outputTokens ← tokenCount (v.get "outputTokens") "outputTokens"
  let cacheReadTokens ← tokenCount (v.get "cacheReadTokens") "cacheReadTokens"
  let cacheCreationTokens ← tokenCount (v.get "cacheCreationTokens") "cacheCreationTokens"
  let cacheCreation1hTokens ←
    optTokenCount (v.get "cacheCreation1hTokens") "cacheCreation1hTokens"
  let logAdapter ← optString (v.get "logAdapter") "logAdapter"
  let host ← optString (v.get "host") "host"
  if cacheCreation1hTokens > cacheCreationTokens then
    .error "cacheCreation1hTokens 는 cacheCreationTokens 를 초과할 수 없습니다"
  else
    .ok { dedupKey, providerKey, userId, sessionId, model, ts, inputTokens, outputTokens,
          cacheReadTokens, cacheCreationTokens, cacheCreation1hTokens, costUsd, logAdapter, host }

/-- An optional string, `null` where it is missing. -/
def optValue : Option String → Value
  | some s => .string s
  | none => .null

/-- A token count, as the text `to_string` prints. -/
def countValue (n : Nat) : Value :=
  .number (toString n)

def costValue : Cost → Value
  | .zero => .number "0"
  | .amount text => .number text

/-- The event as it is sent, its fields in the order of the wire format. -/
def toJson (event : UsageEvent) : Value :=
  .object [
    ("dedupKey", .string event.dedupKey),
    ("providerKey", .string event.providerKey),
    ("userId", optValue event.userId),
    ("sessionId", optValue event.sessionId),
    ("model", optValue event.model),
    ("ts", .string event.ts),
    ("inputTokens", countValue event.inputTokens),
    ("outputTokens", countValue event.outputTokens),
    ("cacheReadTokens", countValue event.cacheReadTokens),
    ("cacheCreationTokens", countValue event.cacheCreationTokens),
    ("cacheCreation1hTokens", countValue event.cacheCreation1hTokens),
    ("costUsd", costValue event.costUsd),
    ("logAdapter", optValue event.logAdapter),
    ("host", optValue event.host)]

structure WithinContract (event : UsageEvent) : Prop where
  dedupKey : event.dedupKey ≠ ""
  providerKey : event.providerKey ≠ ""
  ts : event.ts ≠ ""
  inputTokens : event.inputTokens ≤ maxSafeInteger
  outputTokens : event.outputTokens ≤ maxSafeInteger
  cacheReadTokens : event.cacheReadTokens ≤ maxSafeInteger
  cacheCreationTokens : event.cacheCreationTokens ≤ maxSafeInteger
  cacheCreation1hTokens : event.cacheCreation1hTokens ≤ event.cacheCreationTokens

end UsageEvent

/-! ### What the reader accepts -/

theorem parseU64_toString (n : Nat) :
    parseU64 (toString n) = if n < 2 ^ 64 then some n else none := by
  have chars : (toString n).toList = Nat.toDigits 10 n := by
    rw [Nat.toString_eq_repr, Nat.toList_repr]
  have all : (Nat.toDigits 10 n).all Char.isDigit = true :=
    List.all_eq_true.mpr fun c member => Nat.isDigit_of_mem_toDigits (by decide) (by decide) member
  obtain ⟨c, tail, split⟩ := List.exists_cons_of_ne_nil (Nat.toDigits_ne_nil (n := n) (b := 10))
  have noSign : (match Nat.toDigits 10 n with
      | '+' :: rest => rest
      | s => s) = Nat.toDigits 10 n := by
    rw [split] at all ⊢
    split
    · rename_i same
      cases same
      simp at all
    · rfl
  simp only [parseU64, chars, noSign]
  rw [if_pos ⟨Nat.toDigits_ne_nil, all⟩, Nat.ofDigitChars_ten_toDigits]

theorem bind_eq_ok {ε α β : Type} {x : Except ε α} {f : α → Except ε β} {b : β} :
    x >>= f = .ok b ↔ ∃ a, x = .ok a ∧ f a = .ok b := by
  cases x with
  | error e => simp [bind, Except.bind]
  | ok a => simp [bind, Except.bind]

theorem map_eq_ok_iff {ε α β : Type} {made : Except ε α} {value : α} {f : α → β} {condition : Prop}
    (made_iff : ∀ {read}, made = .ok read ↔ value = read ∧ condition) {read : β} :
    made.map f = .ok read ↔ f value = read ∧ condition := by
  cases read' : made with
  | error error =>
    refine iff_of_false nofun fun ⟨_, holds⟩ => ?_
    have taken := made_iff.mpr ⟨rfl, holds⟩
    rw [read'] at taken
    cases taken
  | ok other =>
    obtain ⟨rfl, holds⟩ := made_iff.mp read'
    rw [Except.map, Except.ok.injEq]
    exact (and_iff_left holds).symm

namespace UsageEvent

/-- **The count reader accepts exactly the safe integers.** -/
theorem tokenCount_countValue {n read : Nat} {field : String} :
    tokenCount (some (countValue n)) field = .ok read ↔ n ≤ maxSafeInteger ∧ n = read := by
  simp only [tokenCount, countValue, parseU64_toString]
  by_cases safe : n ≤ maxSafeInteger
  · have fits : n < 2 ^ 64 := by
      unfold maxSafeInteger at safe
      omega
    rw [if_pos fits]
    simp [safe, Option.filter]
  · by_cases fits : n < 2 ^ 64
    · rw [if_pos fits]
      simp [safe, Option.filter]
    · rw [if_neg fits]
      simp [safe]

theorem optTokenCount_countValue {n read : Nat} {field : String} :
    optTokenCount (some (countValue n)) field = .ok read ↔ n ≤ maxSafeInteger ∧ n = read :=
  tokenCount_countValue

theorem reqString_string {s read field : String} :
    reqString (some (.string s)) field = .ok read ↔ s ≠ "" ∧ s = read := by
  by_cases empty : s = "" <;> simp [reqString, empty]

theorem optString_optValue {s read : Option String} {field : String} :
    optString (some (optValue s)) field = .ok read ↔ s = read := by
  cases s <;> simp [optString, optValue]

theorem costField_zero : costField (some (costValue .zero)) = .ok .zero := by
  decide

theorem get_toJson (event : UsageEvent) :
    event.toJson.get "dedupKey" = some (.string event.dedupKey) ∧
    event.toJson.get "providerKey" = some (.string event.providerKey) ∧
    event.toJson.get "userId" = some (optValue event.userId) ∧
    event.toJson.get "sessionId" = some (optValue event.sessionId) ∧
    event.toJson.get "model" = some (optValue event.model) ∧
    event.toJson.get "ts" = some (.string event.ts) ∧
    event.toJson.get "inputTokens" = some (countValue event.inputTokens) ∧
    event.toJson.get "outputTokens" = some (countValue event.outputTokens) ∧
    event.toJson.get "cacheReadTokens" = some (countValue event.cacheReadTokens) ∧
    event.toJson.get "cacheCreationTokens" = some (countValue event.cacheCreationTokens) ∧
    event.toJson.get "cacheCreation1hTokens" = some (countValue event.cacheCreation1hTokens) ∧
    event.toJson.get "costUsd" = some (costValue event.costUsd) ∧
    event.toJson.get "logAdapter" = some (optValue event.logAdapter) ∧
    event.toJson.get "host" = some (optValue event.host) :=
  ⟨rfl, rfl, rfl, rfl, rfl, rfl, rfl, rfl, rfl, rfl, rfl, rfl, rfl, rfl⟩

/-- **The reader accepts exactly the events within the contract, and reads each as itself.** -/
theorem fromJson_toJson {event read : UsageEvent} (free : event.costUsd = .zero) :
    fromJson event.toJson = .ok read ↔ event.WithinContract ∧ event = read := by
  obtain ⟨dedup, provider, user, session, model, ts, input, output, cacheRead, creation, hour,
    cost, adapter, host⟩ := get_toJson event
  simp only [fromJson, dedup, provider, user, session, model, ts, input, output, cacheRead,
    creation, hour, cost, adapter, host, free, costField_zero, bind_eq_ok, reqString_string,
    optString_optValue, optTokenCount_countValue, tokenCount_countValue]
  constructor
  · rintro ⟨_, ⟨⟩, _, ⟨dedupKey, rfl⟩, _, ⟨providerKey, rfl⟩, _, rfl, _, rfl, _, rfl, _,
      ⟨tsKey, rfl⟩, _, ⟨inputSafe, rfl⟩, _, ⟨outputSafe, rfl⟩, _, ⟨readSafe, rfl⟩, _,
      ⟨creationSafe, rfl⟩, _, ⟨-, rfl⟩, _, rfl, _, rfl, made⟩
    split at made
    case isTrue => cases made
    case isFalse part =>
      refine ⟨⟨dedupKey, providerKey, tsKey, inputSafe, outputSafe, readSafe, creationSafe,
        Nat.not_lt.mp part⟩, ?_⟩
      cases made
      cases event
      cases free
      rfl
  · rintro ⟨valid, rfl⟩
    have hourSafe := valid.cacheCreation1hTokens.trans valid.cacheCreationTokens
    refine ⟨_, rfl, _, ⟨valid.dedupKey, rfl⟩, _, ⟨valid.providerKey, rfl⟩, _, rfl, _, rfl, _, rfl,
      _, ⟨valid.ts, rfl⟩, _, ⟨valid.inputTokens, rfl⟩, _, ⟨valid.outputTokens, rfl⟩, _,
      ⟨valid.cacheReadTokens, rfl⟩, _, ⟨valid.cacheCreationTokens, rfl⟩, _, ⟨hourSafe, rfl⟩, _,
      rfl, _, rfl, ?_⟩
    rw [if_neg (Nat.not_lt.mpr valid.cacheCreation1hTokens)]
    cases event
    cases free
    rfl

theorem printable_optValue (s : Option String) : Json.Printable (optValue s) := by
  cases s <;> trivial

theorem printable_toJson {event : UsageEvent} (free : event.costUsd = .zero) :
    Json.Printable event.toJson := by
  have count : ∀ n, Json.Printable (countValue n) := fun n => Json.numberToken_toString n
  have zero : Json.Printable (costValue event.costUsd) := by
    rw [free]
    exact Json.numberToken_toString 0
  simp only [toJson, Json.Printable, Json.PrintableEntries, printable_optValue, count, zero,
    and_self]

theorem parse_toPretty {event : UsageEvent} (free : event.costUsd = .zero) :
    Json.parse (Json.toPretty event.toJson) = some event.toJson :=
  Json.parse_toPretty (printable_toJson free)

end UsageEvent

end Toard.Shim
