/-
**The wire format as the server reads it (`wire.ts`).**

The server parses the body of a request as JSON and checks each event before anything else looks at
it: the identifiers are not empty, the time is a time, the counts are safe integers, and the
one-hour part of the cache creation is a part of it. One event that fails refuses the whole body.

`jsonParse` is `JSON.parse`. The collector's own parser takes the same texts but for two things: it
lets a number start with zeros or end in a bare point or exponent, and it has no lone surrogates,
which a `String` cannot hold either. A number becomes the binary64 number nearest to it, and of two
entries under one key the later one counts.
-/

import Mathlib.Data.List.Sort
import Toard.Library.Binary64
import Toard.Server.Date
import Toard.Shim.UsageEvent

namespace Toard.Server

open Toard.Json (Value)
open Toard.Library

/-! ### JSON -/

def strictNumber (token : String) : Bool :=
  let minus := Json.minusPart token.toList
  let whole := Json.digits minus.2
  let fraction := Json.fractionPart whole.2
  let exponent := Json.exponentPart fraction.2
  whole.1 ≠ [] && (whole.1.length == 1 || whole.1.head? ≠ some '0') && fraction.1 ≠ ['.'] &&
    (exponent.1 = [] || exponent.1.getLast?.any Char.isDigit) && exponent.2 = []

mutual

def strict : Value → Bool
  | .number token => strictNumber token
  | .array items => strictItems items
  | .object entries => strictEntries entries
  | _ => true

def strictItems : List Value → Bool
  | [] => true
  | item :: items => strict item && strictItems items

def strictEntries : List (String × Value) → Bool
  | [] => true
  | (_, item) :: entries => strict item && strictEntries entries

end

theorem strictItems_of_forall {items : List Value} (each : ∀ item ∈ items, strict item = true) :
    strictItems items = true := by
  induction items with
  | nil => rfl
  | cons item items ih =>
    rw [List.forall_mem_cons] at each
    rw [strictItems, each.1, ih each.2]
    rfl

/-- `JSON.parse`. -/
def jsonParse (text : String) : Option Value := (Json.parse text).filter strict

/-- The property of an object; none for `undefined`. -/
def property (key : String) : Value → Option Value
  | .object entries => (entries.reverse.find? fun entry => entry.1 == key).map Prod.snd
  | _ => none

def isArrayIndex (key : String) : Bool :=
  key.toList ≠ [] && key.toList.all Char.isDigit &&
    (key.toList.length == 1 || key.toList.head? ≠ some '0') &&
    Nat.ofDigitChars 10 key.toList 0 < 4294967295

/-- `Object.keys`: the indices by their size, then the others as they came. -/
def objectKeys (entries : List (String × Value)) : List String :=
  let keys := (entries.map Prod.fst).eraseDups
  (keys.filter isArrayIndex).insertionSort
      (fun left right => Nat.ofDigitChars 10 left.toList 0 ≤ Nat.ofDigitChars 10 right.toList 0) ++
    keys.filter fun key => !isArrayIndex key

theorem mem_objectKeys {entries : List (String × Value)} {key : String} :
    key ∈ objectKeys entries ↔ key ∈ entries.map Prod.fst := by
  rw [objectKeys, List.mem_append, List.mem_insertionSort, List.mem_filter, List.mem_filter,
    List.mem_eraseDups]
  cases isArrayIndex key <;> simp

theorem find?_objectKeys {entries : List (String × Value)} {allowed : List String}
    (known : ∀ entry ∈ entries, entry.1 ∈ allowed) :
    (objectKeys entries).find? (fun key => !allowed.contains key) = none := by
  rw [List.find?_eq_none]
  intro key among
  obtain ⟨entry, isEntry, rfl⟩ := List.mem_map.mp (mem_objectKeys.mp among)
  simpa using known entry isEntry

/-- The number of a numeral; none where it is too large for a finite one. -/
def jsonNumber (token : String) : Option ℚ :=
  (Shim.parseDecimal token.toList).bind fun decimal =>
    let size : ℚ := decimal.mantissa * 10 ^ decimal.exponent
    binary64 (if decimal.negative then -size else size)

/-! ### The event -/

structure UsageEvent where
  dedupKey : String
  providerKey : String
  userId : Option String
  sessionId : Option String
  model : Option String
  ts : Int
  inputTokens : Nat
  outputTokens : Nat
  cacheReadTokens : Nat
  cacheCreationTokens : Nat
  cacheCreation1hTokens : Nat
  costUsd : ℚ
  logAdapter : Option String
  host : Option String
deriving DecidableEq

structure WireParseError where
  message : String
  index : Option Nat
deriving DecidableEq

def WireParseError.text (error : WireParseError) : String :=
  match error.index with
  | none => error.message
  | some index => "events[" ++ toString index ++ "]: " ++ error.message

def refuse {α : Type} (message : String) : Except WireParseError α := .error ⟨message, none⟩

def nonEmptyString (v : Option Value) (field : String) : Except WireParseError String :=
  match v with
  | some (.string s) => if s = "" then refuse (field ++ " 는 비어있지 않은 문자열이어야 합니다") else .ok s
  | _ => refuse (field ++ " 는 비어있지 않은 문자열이어야 합니다")

def nullableString (v : Option Value) (field : String) : Except WireParseError (Option String) :=
  match v with
  | none | some .null => .ok none
  | some (.string s) => .ok (some s)
  | some _ => refuse (field ++ " 는 문자열 또는 null 이어야 합니다")

/-- `Number.isSafeInteger`, and not negative. -/
def safeCount (q : ℚ) : Option Nat :=
  if q.den = 1 ∧ 0 ≤ q.num ∧ q.num ≤ 9007199254740991 then some q.num.toNat else none

def tokenCount (v : Option Value) (field : String) : Except WireParseError Nat :=
  match v with
  | some (.number token) =>
    match (jsonNumber token).bind safeCount with
    | some count => .ok count
    | none => refuse (field ++ " 는 0 이상의 정수여야 합니다")
  | _ => refuse (field ++ " 는 0 이상의 정수여야 합니다")

def optTokenCount (v : Option Value) (field : String) : Except WireParseError Nat :=
  match v with
  | none | some .null => .ok 0
  | _ => tokenCount v field

def costField (v : Option Value) : Except WireParseError ℚ :=
  match v with
  | none => .ok 0
  | some (.number token) =>
    match jsonNumber token with
    | some cost => if cost < 0 then refuse "costUsd 는 0 이상의 숫자여야 합니다" else .ok cost
    | none => refuse "costUsd 는 0 이상의 숫자여야 합니다"
  | some _ => refuse "costUsd 는 0 이상의 숫자여야 합니다"

def isRecord : Value → Bool
  | .object _ => true
  | _ => false

/-- One event of the body; `toUtc` takes a local time of the server to UTC. -/
def parseUsageEventWire (toUtc : Int → Int) (v : Value) : Except WireParseError UsageEvent :=
  if isRecord v then do
    let dedupKey ← nonEmptyString (property "dedupKey" v) "dedupKey"
    let providerKey ← nonEmptyString (property "providerKey" v) "providerKey"
    let userId ← nullableString (property "userId" v) "userId"
    let sessionId ← nullableString (property "sessionId" v) "sessionId"
    let model ← nullableString (property "model" v) "model"
    let tsRaw ← nonEmptyString (property "ts" v) "ts"
    let ts ← match dateParse toUtc tsRaw with
      | some ts => .ok ts
      | none => refuse ("ts 가 유효한 ISO 8601 이 아닙니다: " ++ tsRaw)
    let costUsd ← costField (property "costUsd" v)
    let inputTokens ← tokenCount (property "inputTokens" v) "inputTokens"
    let outputTokens ← tokenCount (property "outputTokens" v) "outputTokens"
    let cacheReadTokens ← tokenCount (property "cacheReadTokens" v) "cacheReadTokens"
    let cacheCreationTokens ← tokenCount (property "cacheCreationTokens" v) "cacheCreationTokens"
    let cacheCreation1hTokens ←
      optTokenCount (property "cacheCreation1hTokens" v) "cacheCreation1hTokens"
    let logAdapter ← nullableString (property "logAdapter" v) "logAdapter"
    let host ← nullableString (property "host" v) "host"
    if cacheCreation1hTokens > cacheCreationTokens then
      refuse "cacheCreation1hTokens 는 cacheCreationTokens 를 초과할 수 없습니다"
    else
      .ok { dedupKey, providerKey, userId, sessionId, model, ts, inputTokens, outputTokens,
            cacheReadTokens, cacheCreationTokens, cacheCreation1hTokens, costUsd, logAdapter, host }
  else refuse "이벤트는 객체여야 합니다"

def parseItems (toUtc : Int → Int) (index : Nat) :
    List Value → Except WireParseError (List UsageEvent)
  | [] => .ok []
  | item :: items =>
    match parseUsageEventWire toUtc item with
    | .error error => .error { error with index := some index }
    | .ok event => (parseItems toUtc (index + 1) items).map (event :: ·)

/-- The body of `POST /api/v1/events`. -/
def parseUsageEventsBody (toUtc : Int → Int) (body : Value) :
    Except WireParseError (List UsageEvent) :=
  match body with
  | .array items => parseItems toUtc 0 items
  | _ => refuse "본문은 UsageEvent 배열이어야 합니다"

end Toard.Server
