/-
**The cursor of a history search (`history-search-cursor.ts`).**

A cursor is the state of a search as JSON in base64url, a dot, and the signature of that text. What
is not signed by the server is no cursor, so the payload is read only as far as the server can have
written it: its bytes are UTF-8 and the record id is a string.

* **`decode_encode`**: a cursor is read back as the state it was made of.
-/

import Toard.History.Records
import Toard.Server.PromptAcceptance

namespace Toard.History

open Toard.Json (Value)
open Toard.Library Toard.Server
open Toard.Server.PromptWire (unitLength isText safeBetween)
open Toard.Shim.PromptRecord (b64url utf8Bytes fromUTF8?_utf8Bytes)
open Toard.Shim.UsageEvent (countValue)

def CURSOR_VERSION : Nat := 2

def MAX_CURSOR_KEY_LENGTH : Nat := 4096

structure SearchResume where
  group : HistorySearchPosition
  afterRecordId : Nat
deriving DecidableEq

structure HistorySearchCursorState where
  fromDate : Date
  toDate : Date
  afterGroup : Option HistorySearchPosition
  resume : Option SearchResume
deriving DecidableEq

structure Hmac where
  digest : String → List UInt8 → List UInt8
  length : ∀ secret payload, (digest secret payload).length = 32

/-- `RECORD_ID` -/
def isRecordId (text : String) : Bool :=
  text.toList.all Char.isDigit && 1 ≤ text.toList.length && text.toList.length ≤ 32

/-- `Buffer.from(text, "base64url")`: both alphabets count, other characters are left out. -/
def bufferFrom (text : List Char) : List UInt8 :=
  Base64.bytes ((text.takeWhile (· != '=')).filterMap fun c =>
    Base64.sextet (if c = '+' then '-' else if c = '/' then '_' else c))

section Encode

variable (hmac : Hmac)

def signature (payload : String) (secret : String) : List UInt8 :=
  hmac.digest secret (utf8Bytes payload)

def encodePosition (position : HistorySearchPosition) : Except String Value :=
  if unitLength position.key = 0 || MAX_CURSOR_KEY_LENGTH < unitLength position.key then
    .error "HISTORY_SEARCH_CURSOR_POSITION_INVALID"
  else .ok (.object [("latestTs", .string position.latestTs.toISOString), ("key", .string position.key)])

def encodeResume (resume : SearchResume) : Except String Value := do
  let group ← encodePosition resume.group
  return .object [("group", group), ("afterRecordId", .string (toString resume.afterRecordId))]

def encodeNullable {α : Type} (encode : α → Except String Value) : Option α → Except String Value
  | none => .ok .null
  | some value => encode value

def cursorPayload (state : HistorySearchCursorState) (scope : String) (afterGroup resume : Value) :
    Value :=
  .object
    [("v", countValue CURSOR_VERSION),
     ("scope", .string scope),
     ("from", .string state.fromDate.toISOString),
     ("to", .string state.toDate.toISOString),
     ("afterGroup", afterGroup),
     ("resume", resume)]

def encodeHistorySearchCursor (state : HistorySearchCursorState) (scope secret : String) :
    Except String String :=
  if secret = "" then .error "HISTORY_SEARCH_CURSOR_SECRET_MISSING"
  else if decide (state.toDate.time ≤ state.fromDate.time) ||
      state.resume.any fun resume => !isRecordId (toString resume.afterRecordId) then
    .error "HISTORY_SEARCH_CURSOR_STATE_INVALID"
  else do
    let afterGroup ← encodeNullable encodePosition state.afterGroup
    let resume ← encodeNullable encodeResume state.resume
    let payload := b64url (utf8Bytes (Json.toCompact (cursorPayload state scope afterGroup resume)))
    return payload ++ "." ++ b64url (signature hmac payload secret)

end Encode

section Decode

variable (hmac : Hmac) (toUtc : Int → Int)

/-- `new Date(value)` of a text. -/
def dateOfText : Option Value → Option Date
  | some (.string text) => (dateParse toUtc text).bind Date.of?
  | _ => none

def decodePosition (v : Option Value) : Option HistorySearchPosition :=
  match v with
  | some (.object entries) =>
    match property "key" (.object entries) with
    | some (.string key) =>
      if unitLength key = 0 || MAX_CURSOR_KEY_LENGTH < unitLength key then none
      else (dateOfText toUtc (property "latestTs" (.object entries))).map fun latestTs =>
        ⟨latestTs, key⟩
    | _ => none
  | _ => none

def decodeResume (v : Option Value) : Option SearchResume :=
  match v with
  | some (.object entries) =>
    match property "afterRecordId" (.object entries) with
    | some (.string id) =>
      if isRecordId id then
        (decodePosition toUtc (property "group" (.object entries))).map fun group =>
          ⟨group, Nat.ofDigitChars 10 id.toList 0⟩
      else none
    | _ => none
  | _ => none

def decodeNullable {α : Type} (decode : Option Value → Option α) (v : Option Value) :
    Option (Option α) :=
  match v with
  | some .null => some none
  | _ => (decode v).map some

def readPayload (scope : String) (value : Value) : Option HistorySearchCursorState := do
  if (safeBetween CURSOR_VERSION CURSOR_VERSION (property "v" value)).isNone then none
  if !isText scope (property "scope" value) then none
  let fromDate ← dateOfText toUtc (property "from" value)
  let toDate ← dateOfText toUtc (property "to" value)
  if toDate.time ≤ fromDate.time then none
  let afterGroup ← decodeNullable (decodePosition toUtc) (property "afterGroup" value)
  let resume ← decodeNullable (decodeResume toUtc) (property "resume" value)
  return { fromDate, toDate, afterGroup, resume }

def decodeHistorySearchCursor (cursor : Option String) (scope secret : String) :
    Except String (Option HistorySearchCursorState) :=
  match cursor with
  | none => .ok none
  | some cursor =>
    if cursor = "" then .ok none
    else if secret = "" then .error "HISTORY_SEARCH_CURSOR_SECRET_MISSING"
    else
      match cursor.toList.splitOn '.' with
      | [payload, encodedSignature] =>
        if payload = [] || encodedSignature = [] then .ok none
        else if bufferFrom encodedSignature ≠ signature hmac (String.ofList payload) secret then
          .ok none
        else .ok (((String.fromUTF8? ⟨(bufferFrom payload).toArray⟩).bind jsonParse).bind
          (readPayload toUtc scope))
      | _ => .ok none

end Decode

/-! ### The text of a cursor -/

theorem digit_spec {n : Nat} (small : n < 64) :
    Base64.digit n ≠ '=' ∧ Base64.digit n ≠ '.' ∧ Base64.digit n ≠ '+' ∧ Base64.digit n ≠ '/' := by
  have each : ∀ n < 64, Base64.digit n ≠ '=' ∧ Base64.digit n ≠ '.' ∧ Base64.digit n ≠ '+' ∧
      Base64.digit n ≠ '/' := by decide
  exact each n small

theorem mem_encode {value : List UInt8} {c : Char} (among : c ∈ Base64.encode value) :
    c ≠ '=' ∧ c ≠ '.' ∧ c ≠ '+' ∧ c ≠ '/' := by
  obtain ⟨n, isNumber, rfl⟩ := List.mem_map.mp among
  exact digit_spec (Base64.sextets_lt value n isNumber)

theorem bufferFrom_encode (value : List UInt8) : bufferFrom (Base64.encode value) = value := by
  have whole : (Base64.encode value).takeWhile (· != '=') = Base64.encode value :=
    List.takeWhile_eq_self_iff.mpr fun c among => by simpa using (mem_encode among).1
  have numbers : (Base64.encode value).filterMap (fun c =>
      Base64.sextet (if c = '+' then '-' else if c = '/' then '_' else c))
        = Base64.sextets value := by
    rw [Base64.encode, List.filterMap_map]
    have each : ∀ n ∈ Base64.sextets value, ((fun c => Base64.sextet
        (if c = '+' then '-' else if c = '/' then '_' else c)) ∘ Base64.digit) n = some n := by
      intro n among
      have small := Base64.sextets_lt value n among
      obtain ⟨-, -, plus, slash⟩ := digit_spec small
      rw [Function.comp_apply, if_neg plus, if_neg slash, Base64.sextet_digit small]
    rw [List.filterMap_congr each, List.filterMap_some]
  rw [bufferFrom, whole, numbers, Base64.bytes_sextets]

theorem splitOn_dot {payload encodedSignature : List UInt8} :
    (b64url payload ++ "." ++ b64url encodedSignature).toList.splitOn '.'
      = [Base64.encode payload, Base64.encode encodedSignature] := by
  have text : (b64url payload ++ "." ++ b64url encodedSignature).toList
      = ['.'].intercalate [Base64.encode payload, Base64.encode encodedSignature] := by
    simp [b64url, String.toList_append]
  rw [text, List.splitOn_intercalate]
  · intro part among dot
    simp only [List.mem_cons, List.not_mem_nil, or_false] at among
    rcases among with rfl | rfl
    · exact (mem_encode dot).2.1 rfl
    · exact (mem_encode dot).2.1 rfl
  · exact List.cons_ne_nil _ _

/-! ### Round trip -/

section RoundTrip

variable {hmac : Hmac} (toUtc : Int → Int)

def Plain (value : Value) : Prop := Json.Printable value ∧ strict value = true

theorem plain_string (text : String) : Plain (.string text) := ⟨trivial, rfl⟩

theorem plain_object {entries : List (String × Value)} (each : ∀ entry ∈ entries, Plain entry.2) :
    Plain (.object entries) := by
  induction entries with
  | nil => exact ⟨trivial, rfl⟩
  | cons entry entries ih =>
    rw [List.forall_mem_cons] at each
    obtain ⟨printable, isStrict⟩ := ih each.2
    refine ⟨⟨each.1.1, printable⟩, ?_⟩
    rw [strict, strictEntries, each.1.2]
    exact isStrict

theorem plain_countValue (n : Nat) : Plain (countValue n) :=
  ⟨Json.numberToken_toString n, strictNumber_toString n⟩

theorem jsonParse_toCompact {value : Value} (plain : Plain value) :
    jsonParse (Json.toCompact value) = some value := by
  rw [jsonParse, Json.parse_toCompact plain.1, Option.filter_some, plain.2, if_pos rfl]

theorem dateOfText_toISOString (date : Date) :
    dateOfText toUtc (some (.string date.toISOString)) = some date := by
  rw [dateOfText, dateParse_toISOString, Option.bind_some, Date.of?_time]

theorem decodePosition_encode {position : HistorySearchPosition} {value : Value}
    (encoded : encodePosition position = .ok value) :
    Plain value ∧ value ≠ .null ∧ decodePosition toUtc (some value) = some position := by
  unfold encodePosition at encoded
  split at encoded
  · cases encoded
  · next short =>
    cases encoded
    refine ⟨plain_object ?_, nofun, ?_⟩
    · simp [plain_string]
    · have key : property "key" (.object [("latestTs", .string position.latestTs.toISOString),
          ("key", .string position.key)]) = some (.string position.key) := rfl
      have latestTs : property "latestTs" (.object
          [("latestTs", .string position.latestTs.toISOString), ("key", .string position.key)])
            = some (.string position.latestTs.toISOString) := rfl
      simp only [decodePosition, key, latestTs, if_neg short, dateOfText_toISOString,
        Option.map_some]

theorem decodeResume_encode {resume : SearchResume} {value : Value}
    (isId : isRecordId (toString resume.afterRecordId) = true)
    (encoded : encodeResume resume = .ok value) :
    Plain value ∧ value ≠ .null ∧ decodeResume toUtc (some value) = some resume := by
  unfold encodeResume at encoded
  cases position : encodePosition resume.group with
  | error error =>
    rw [position] at encoded
    cases encoded
  | ok group =>
    rw [position] at encoded
    cases encoded
    obtain ⟨plain, -, decoded⟩ := decodePosition_encode toUtc position
    refine ⟨plain_object ?_, nofun, ?_⟩
    · simp [plain, plain_string]
    · have id : property "afterRecordId" (.object [("group", group),
          ("afterRecordId", .string (toString resume.afterRecordId))])
            = some (.string (toString resume.afterRecordId)) := rfl
      have isGroup : property "group" (.object [("group", group),
          ("afterRecordId", .string (toString resume.afterRecordId))]) = some group := rfl
      have number : Nat.ofDigitChars 10 (toString resume.afterRecordId).toList 0
          = resume.afterRecordId := by
        rw [Nat.toString_eq_repr, Nat.toList_repr, Nat.ofDigitChars_ten_toDigits]
      simp only [decodeResume, id, isGroup, isId, if_true, decoded, Option.map_some, number]

theorem decodeNullable_encode {α : Type} {encode : α → Except String Value}
    {decode : Option Value → Option α} {part : Option α} {value : Value}
    (back : ∀ a ∈ part, ∀ value, encode a = .ok value →
      Plain value ∧ value ≠ .null ∧ decode (some value) = some a)
    (encoded : encodeNullable encode part = .ok value) :
    Plain value ∧ decodeNullable decode (some value) = some part := by
  cases part with
  | none =>
    cases encoded
    exact ⟨⟨trivial, rfl⟩, rfl⟩
  | some a =>
    obtain ⟨plain, notNull, decoded⟩ := back a rfl value encoded
    refine ⟨plain, ?_⟩
    unfold decodeNullable
    split
    · next isNull => exact absurd (Option.some.inj isNull) notNull
    · rw [decoded, Option.map_some]

theorem of_encode {state : HistorySearchCursorState} {scope secret cursor : String}
    (encoded : encodeHistorySearchCursor hmac state scope secret = .ok cursor) :
    secret ≠ "" ∧ state.fromDate.time < state.toDate.time ∧
      (∀ resume ∈ state.resume, isRecordId (toString resume.afterRecordId) = true) ∧
      ∃ afterGroup resume, encodeNullable encodePosition state.afterGroup = .ok afterGroup ∧
        encodeNullable encodeResume state.resume = .ok resume ∧
        cursor = b64url (utf8Bytes (Json.toCompact (cursorPayload state scope afterGroup resume)))
          ++ "." ++ b64url (signature hmac (b64url (utf8Bytes (Json.toCompact
            (cursorPayload state scope afterGroup resume)))) secret) := by
  unfold encodeHistorySearchCursor at encoded
  split at encoded
  · cases encoded
  · next named =>
    split at encoded
    · cases encoded
    · next isState =>
      rw [Bool.or_eq_true, not_or, decide_eq_true_eq, Bool.not_eq_true, Option.any_eq_false] at isState
      refine ⟨named, not_le.mp isState.1, fun resume isResume => by
        simpa using isState.2 resume isResume, ?_⟩
      cases after : encodeNullable encodePosition state.afterGroup with
      | error error =>
        rw [after] at encoded
        cases encoded
      | ok afterGroup =>
        cases resumed : encodeNullable encodeResume state.resume with
        | error error =>
          rw [after, resumed] at encoded
          cases encoded
        | ok resume =>
          rw [after, resumed] at encoded
          exact ⟨afterGroup, resume, rfl, rfl, (Except.ok.inj encoded).symm⟩

theorem readPayload_cursorPayload {state : HistorySearchCursorState} {scope : String}
    {afterGroup resume : Value} (apart : state.fromDate.time < state.toDate.time)
    (isAfter : decodeNullable (decodePosition toUtc) (some afterGroup) = some state.afterGroup)
    (isResume : decodeNullable (decodeResume toUtc) (some resume) = some state.resume) :
    readPayload toUtc scope (cursorPayload state scope afterGroup resume) = some state := by
  have isVersion : property "v" (cursorPayload state scope afterGroup resume)
      = some (countValue CURSOR_VERSION) := rfl
  have version : safeBetween CURSOR_VERSION CURSOR_VERSION (some (countValue CURSOR_VERSION))
      = some CURSOR_VERSION :=
    (PromptWire.safeBetween_countValue (by decide)).mpr ⟨rfl, Nat.le_refl _, Nat.le_refl _⟩
  have isScope : property "scope" (cursorPayload state scope afterGroup resume)
      = some (.string scope) := rfl
  have isFrom : property "from" (cursorPayload state scope afterGroup resume)
      = some (.string state.fromDate.toISOString) := rfl
  have isTo : property "to" (cursorPayload state scope afterGroup resume)
      = some (.string state.toDate.toISOString) := rfl
  have after : property "afterGroup" (cursorPayload state scope afterGroup resume)
      = some afterGroup := rfl
  have resumed : property "resume" (cursorPayload state scope afterGroup resume)
      = some resume := rfl
  simp [readPayload, isVersion, version, isScope, isText, isFrom, isTo, after, resumed,
    dateOfText_toISOString, not_le.mpr apart, isAfter, isResume]

/-- **A cursor is read back** as the state that it was made of. -/
theorem decode_encode {state : HistorySearchCursorState} {scope secret cursor : String}
    (encoded : encodeHistorySearchCursor hmac state scope secret = .ok cursor) :
    decodeHistorySearchCursor hmac toUtc (some cursor) scope secret = .ok (some state) := by
  obtain ⟨named, apart, ids, afterGroup, resume, isAfter, isResume, rfl⟩ := of_encode encoded
  obtain ⟨plainAfter, after⟩ := @decodeNullable_encode _ _ (decodePosition toUtc) _ _
    (fun _ _ _ => decodePosition_encode toUtc) isAfter
  obtain ⟨plainResume, resumed⟩ := @decodeNullable_encode _ _ (decodeResume toUtc) _ _
    (fun a isPart _ => decodeResume_encode toUtc (ids a isPart)) isResume
  have plain : Plain (cursorPayload state scope afterGroup resume) :=
    plain_object (by simp [plain_string, plain_countValue, plainAfter, plainResume])
  obtain ⟨value, isValue⟩ : ∃ value, value = cursorPayload state scope afterGroup resume :=
    ⟨_, rfl⟩
  rw [← isValue] at plain ⊢
  obtain ⟨payload, isPayload⟩ : ∃ payload, payload = utf8Bytes (Json.toCompact value) := ⟨_, rfl⟩
  rw [← isPayload]
  have some_ : payload ≠ [] := by
    intro empty
    have length := Toard.Shim.PromptRecord.length_utf8Bytes (Json.toCompact value)
    rw [← isPayload, empty, List.length_nil] at length
    have text := jsonParse_toCompact plain
    rw [String.utf8ByteSize_eq_zero_iff.mp length.symm, show jsonParse "" = none from rfl] at text
    cases text
  have signed : signature hmac (b64url payload) secret ≠ [] := by
    intro empty
    have length := hmac.length secret (utf8Bytes (b64url payload))
    rw [show hmac.digest secret (utf8Bytes (b64url payload)) = [] from empty] at length
    cases length
  have nonempty : b64url payload ++ "." ++ b64url (signature hmac (b64url payload) secret) ≠ "" := by
    intro empty
    have chars := congrArg String.toList empty
    simp [String.toList_append] at chars
  simp only [decodeHistorySearchCursor, if_neg nonempty, if_neg named, splitOn_dot,
    Base64.encode_eq_nil, some_, signed, decide_false, Bool.or_self, Bool.false_eq_true, if_false,
    bufferFrom_encode]
  rw [show String.ofList (Base64.encode payload) = b64url payload from rfl, if_neg (by simp),
    isPayload, fromUTF8?_utf8Bytes, Option.bind_some, jsonParse_toCompact plain, Option.bind_some,
    isValue, readPayload_cursorPayload toUtc apart after resumed]

end RoundTrip

end Toard.History
