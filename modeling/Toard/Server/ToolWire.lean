/-
**The tool calls as the server takes them (`tool-wire.ts`, `tool-ingest.ts`, `tool-metadata.ts`).**

A body is bounded, parsed, checked call by call, and inserted. A row has a second set of bounds in
the table. The first call that has a key keeps the row: another one under the key is left out.
-/

import Toard.Library.Keyed
import Toard.Server.Wire
import Toard.Server.Timestamps
import Toard.Shim.ToolEvent

namespace Toard.Server.ToolWire

open Toard.Json (Value)
open Toard.Library
open Toard.Shim (ToolActivityKind ToolOutcome ToolDetection isControl)

/-! ### The check -/

structure ToolActivityEvent where
  dedupKey : String
  providerKey : String
  sessionId : Option String
  host : Option String
  ts : Int
  activityKind : ToolActivityKind
  itemKey : String
  displayName : String
  pluginKey : Option String
  outcome : ToolOutcome
  detection : ToolDetection
deriving DecidableEq

structure ToolWireParseError where
  message : String
  index : Option Nat
deriving DecidableEq

def ToolWireParseError.text (error : ToolWireParseError) : String :=
  match error.index with
  | none => error.message
  | some index => "items[" ++ toString index ++ "]: " ++ error.message

def refuse {α : Type} (message : String) : Except ToolWireParseError α := .error ⟨message, none⟩

def ACTIVITY_KEYS : List String :=
  ["dedupKey", "providerKey", "sessionId", "host", "ts", "activityKind", "itemKey", "displayName",
    "pluginKey", "outcome", "detection"]

def record (value : Value) (field : String) : Except ToolWireParseError (List (String × Value)) :=
  match value with
  | .object entries => .ok entries
  | _ => refuse (field ++ " 는 객체여야 합니다")

def rejectUnknown (entries : List (String × Value)) (allowed : List String) :
    Except ToolWireParseError Unit :=
  match (objectKeys entries).find? fun key => !allowed.contains key with
  | none => .ok ()
  -- An empty key counts as no key.
  | some key => if key = "" then .ok () else refuse ("허용되지 않은 필드: " ++ key)

theorem rejectUnknown_ok {entries : List (String × Value)} {allowed : List String}
    (known : ∀ entry ∈ entries, entry.1 ∈ allowed) : rejectUnknown entries allowed = .ok () := by
  rw [rejectUnknown, find?_objectKeys known]

def text (value : Option Value) (field : String) (max : Nat) : Except ToolWireParseError String :=
  match value with
  | some (.string s) =>
    if s.toList.length = 0 || max < s.toList.length then
      refuse (field ++ " 는 1~" ++ toString max ++ "자 문자열이어야 합니다")
    else .ok s
  | _ => refuse (field ++ " 는 1~" ++ toString max ++ "자 문자열이어야 합니다")

def nullableText (value : Option Value) (field : String) (max : Nat) :
    Except ToolWireParseError (Option String) :=
  match value with
  | none | some .null => .ok none
  | _ => (text value field max).map some

def date (toUtc : Int → Int) (value : Option Value) (field : String) :
    Except ToolWireParseError Int := do
  let raw ← text value field 100
  match dateParse toUtc raw with
  | some parsed => .ok parsed
  | none => refuse (field ++ " 는 유효한 ISO 8601 이어야 합니다")

def oneOf {α : Type} (value : Option Value) (field : String) (allowed : List (String × α)) :
    Except ToolWireParseError α :=
  let message := field ++ " 는 " ++ " | ".intercalate (allowed.map Prod.fst) ++ " 중 하나여야 합니다"
  match value with
  | some (.string s) =>
    match allowed.find? fun entry => entry.1 == s with
    | some entry => .ok entry.2
    | none => refuse message
  | _ => refuse message

/-- `/^[a-f0-9]{64}$/` -/
def isKey (key : String) : Bool :=
  key.toList.length == 64 && key.toList.all fun c => c.isDigit || ('a' ≤ c && c ≤ 'f')

def parseActivity (toUtc : Int → Int) (value : Value) :
    Except ToolWireParseError ToolActivityEvent := do
  let entries ← record value "activity"
  rejectUnknown entries ACTIVITY_KEYS
  let dedupKey ← text (property "dedupKey" value) "dedupKey" 64
  if !isKey dedupKey then refuse "dedupKey 는 64자 lowercase hex 이어야 합니다"
  let providerKey ← text (property "providerKey" value) "providerKey" 100
  let sessionId ← nullableText (property "sessionId" value) "sessionId" 500
  let host ← nullableText (property "host" value) "host" 255
  let ts ← date toUtc (property "ts" value) "ts"
  let activityKind ← oneOf (property "activityKind" value) "activityKind"
    [("mcp", ToolActivityKind.mcp), ("skill", .skill)]
  let itemKey ← text (property "itemKey" value) "itemKey" 200
  let displayName ← text (property "displayName" value) "displayName" 200
  let pluginKey ← nullableText (property "pluginKey" value) "pluginKey" 200
  let outcome ← oneOf (property "outcome" value) "outcome"
    [("success", ToolOutcome.success), ("failure", .failure), ("unknown", .unknown)]
  let detection ← oneOf (property "detection" value) "detection"
    [("explicit", ToolDetection.explicit), ("derived_load", .derivedLoad)]
  return { dedupKey, providerKey, sessionId, host, ts, activityKind, itemKey, displayName,
           pluginKey, outcome, detection }

def parseItems (toUtc : Int → Int) (index : Nat) :
    List Value → Except ToolWireParseError (List ToolActivityEvent)
  | [] => .ok []
  | item :: items =>
    match parseActivity toUtc item with
    | .error error => .error { error with index := some index }
    | .ok event => (parseItems toUtc (index + 1) items).map (event :: ·)

def parseToolActivityBody (toUtc : Int → Int) (value : Value) :
    Except ToolWireParseError (List ToolActivityEvent) :=
  match value with
  | .array items =>
    if 500 < items.length then refuse "activity 배치는 최대 500건입니다"
    else parseItems toUtc 0 items
  | _ => refuse "본문은 activity 배열이어야 합니다"

/-! ### The rows -/

structure ToolIngestOwner where
  userId : String
  tokenId : String
deriving DecidableEq

/-- A row of `tool_activity_events`. -/
structure ToolRow extends ToolActivityEvent where
  userId : String
  ingestTokenId : String
deriving DecidableEq

abbrev ToolTable := OrderedMap String ToolRow

/-- `String.prototype.trim` -/
def jsTrim (s : List Char) : List Char :=
  let isBlank := fun (c : Char) => (Shim.isWhiteSpace c && c.toNat != 0x85) || c.toNat == 0xFEFF
  ((s.dropWhile isBlank).reverse.dropWhile isBlank).reverse

/-- `slice(0, units)` in code units; half a pair is stored as the replacement character. -/
def sliceUnits : Nat → List Char → List Char
  | 0, _ => []
  | _, [] => []
  | units + 1, c :: rest =>
    if c.toNat ≤ 0xFFFF then c :: sliceUnits units rest
    else
      match units with
      | 0 => ['\uFFFD']
      | units + 1 => c :: sliceUnits units rest

def sanitizeHost (host : Option String) : Option String :=
  host.bind fun host =>
    let printable := host.toList.filter fun c => !(c.toNat ≤ 0x1F || c.toNat == 0x7F)
    let cleaned := jsTrim (sliceUnits 255 (jsTrim printable))
    if cleaned = [] then none else some (String.ofList cleaned)

/-- `finalizeToolActivity`, of one call. -/
def finalize (owner : ToolIngestOwner) (event : ToolActivityEvent) : ToolRow where
  toToolActivityEvent := { event with host := sanitizeHost event.host }
  userId := owner.userId
  ingestTokenId := owner.tokenId

def hasNul (text : String) : Bool := text.toList.contains '\x00'

/-- The first time of a `TIMESTAMPTZ`, in the year 4714 BC. -/
def minTimestamp : Int := -210866803200000

/-- `char_length(...) BETWEEN 1 AND 200` -/
def isName (text : String) : Bool := 1 ≤ text.toList.length && text.toList.length ≤ 200

def rowError (providers : List String) (row : ToolRow) : Option String :=
  if hasNul row.dedupKey || hasNul row.providerKey || row.sessionId.any hasNul ||
      row.host.any hasNul || hasNul row.itemKey || hasNul row.displayName ||
      row.pluginKey.any hasNul then some "invalid byte sequence for encoding UTF8"
  else if row.ts < minTimestamp then some "timestamp out of range"
  else if !isName row.itemKey then some "tool_activity_events_item_key_check"
  else if !isName row.displayName then some "tool_activity_events_display_name_check"
  else if row.pluginKey.any fun key => !isName key then some "tool_activity_events_plugin_key_check"
  else if !providers.contains row.providerKey then some "tool_activity_events_provider_key_fkey"
  else none

def insertToolActivity (providers : List String) (table : ToolTable) :
    List ToolRow → ToolTable × Except String Nat
  | [] => (table, .ok 0)
  | row :: rows =>
    match rowError providers row with
    | some message => (table, .error message)
    | none =>
      if (table.get row.dedupKey).isSome then insertToolActivity providers table rows
      else
        let (table, result) := insertToolActivity providers (table.set row.dedupKey row) rows
        (table, result.map (· + 1))

/-! ### The route -/

def MAX_BODY_BYTES : Nat := 512 * 1024

inductive ToolIngestError where
  | payloadTooLarge (maxBytes : Nat)
  | invalidJson
  | wire (error : ToolWireParseError)
  | unknownProviders (keys : List String)
  | database (message : String)
deriving DecidableEq

def readBoundedJson (body : String) (maxBytes : Nat) : Except ToolIngestError Value :=
  if maxBytes < body.utf8ByteSize then .error (.payloadTooLarge maxBytes)
  else
    match jsonParse body with
    | none => .error .invalidJson
    | some value => .ok value

/-- `POST /api/v1/tool-events` with a token of the owner: the rows, and the answer. -/
def postToolEvents (toUtc : Int → Int) (providers : List String) (owner : ToolIngestOwner)
    (table : ToolTable) (body : String) : ToolTable × Except ToolIngestError Nat :=
  match readBoundedJson body MAX_BODY_BYTES with
  | .error error => (table, .error error)
  | .ok value =>
    match parseToolActivityBody toUtc value with
    | .error error => (table, .error (.wire error))
    | .ok events =>
      let unknown := (events.map ToolActivityEvent.providerKey).eraseDups.filter fun key =>
        !providers.contains key
      if unknown ≠ [] then (table, .error (.unknownProviders unknown))
      else
        let (table, result) := insertToolActivity providers table (events.map (finalize owner))
        (table, result.mapError .database)

end Toard.Server.ToolWire
