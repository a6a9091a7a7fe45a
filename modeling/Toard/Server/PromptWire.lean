/-
**The prompts as the server takes them (`prompt-wire.ts`, `e2ee-contract.ts`, `prompts/route.ts`).**

A body is bounded, and its first record says whether all are plain or all are sealed. Both forms
have bounds for each text of a record; lengths are in code units.
-/

import Toard.Server.ToolWire
import Toard.Shim.PromptRecord

namespace Toard.Server.PromptWire

open Toard.Json (Value)
open Toard.Library
open Toard.Shim (TurnRole)
open Toard.Server.ToolWire (readBoundedJson)

/-! ### The values -/

def E2EE_MAX_CIPHERTEXT_BYTES : Nat := 1048576

/-- `length` -/
def unitLength (text : String) : Nat :=
  (text.toList.map fun c => if c.toNat ≤ 0xFFFF then 1 else 2).sum

def isText (text : String) : Option Value → Bool
  | some (.string s) => s == text
  | _ => false

structure PromptAgent where
  id : String
  parentId : Option String
  depth : Option Nat
  name : Option String
  role : Option String
deriving DecidableEq

structure PromptRecordWire where
  dedupKey : String
  sessionId : Option String
  providerKey : String
  turnRole : TurnRole
  ts : Int
  text : String
  agent : Option PromptAgent
deriving DecidableEq

structure E2eePromptRecordWire where
  contentOwnerId : String
  contentKeyVersion : Nat
  dedupKey : String
  sessionId : Option String
  providerKey : String
  turnRole : TurnRole
  ts : Int
  wrappedDek : String
  dekWrapIv : String
  dekWrapAuthTag : String
  iv : String
  ciphertext : String
  authTag : String
  agent : Option PromptAgent
deriving DecidableEq

structure PromptWireError where
  message : String
  index : Option Nat
deriving DecidableEq

def PromptWireError.text (error : PromptWireError) : String :=
  match error.index with
  | none => error.message
  | some index => "records[" ++ toString index ++ "]: " ++ error.message

def refuse {α : Type} (message : String) : Except PromptWireError α := .error ⟨message, none⟩

/-- `Number.isSafeInteger`, of a value between two bounds. -/
def safeBetween (low high : Nat) (v : Option Value) : Option Nat :=
  match v with
  | some (.number token) =>
    match jsonNumber token with
    | some q => if q.den = 1 ∧ (low : Int) ≤ q.num ∧ q.num ≤ high then some q.num.toNat else none
    | none => none
  | _ => none

def turnRoleOf (v : Option Value) : Option TurnRole :=
  match v with
  | some (.string s) =>
    if s = "user" then some .user else if s = "assistant" then some .assistant else none
  | _ => none

/-! ### Plain records -/

def nonEmptyString (v : Option Value) (field : String) : Except PromptWireError String :=
  match v with
  | some (.string s) =>
    if unitLength s = 0 then refuse (field ++ " 는 비어있지 않은 문자열이어야 합니다") else .ok s
  | _ => refuse (field ++ " 는 비어있지 않은 문자열이어야 합니다")

def boundedNullableString (v : Option Value) (field : String) (max : Nat) :
    Except PromptWireError (Option String) :=
  match v with
  | none | some .null => .ok none
  | some (.string s) =>
    if unitLength s = 0 || max < unitLength s then
      refuse (field ++ " 는 1~" ++ toString max ++ "자 문자열 또는 null 이어야 합니다")
    else .ok (some s)
  | some _ => refuse (field ++ " 는 문자열 또는 null 이어야 합니다")

def agentDepth (v : Option Value) (message : String) : Except PromptWireError (Option Nat) :=
  match v with
  | none | some .null => .ok none
  | some _ =>
    match safeBetween 1 32 v with
    | some depth => .ok (some depth)
    | none => refuse message

def parsePromptAgentWire (v : Option Value) : Except PromptWireError (Option PromptAgent) :=
  match v with
  | none | some .null => .ok none
  | some (.object entries) => do
    let v := Value.object entries
    let id ← match ← boundedNullableString (property "id" v) "agent.id" 255 with
      | some id => .ok id
      | none => refuse "agent.id 는 비어있지 않은 문자열이어야 합니다"
    let parentId ← boundedNullableString (property "parentId" v) "agent.parentId" 255
    let name ← boundedNullableString (property "name" v) "agent.name" 100
    let role ← boundedNullableString (property "role" v) "agent.role" 100
    let depth ← agentDepth (property "depth" v) "agent.depth 는 1~32 정수 또는 null 이어야 합니다"
    return some { id, parentId, depth, name, role }
  | some _ => refuse "agent 는 객체 또는 null 이어야 합니다"

/-- `new Date(raw)`, with the message of the form. -/
def dateOf (toUtc : Int → Int) (raw message : String) : Except PromptWireError Int :=
  match dateParse toUtc raw with
  | some ts => .ok ts
  | none => refuse message

def textField (v : Option Value) : Except PromptWireError String := do
  let text ← nonEmptyString v "text"
  if E2EE_MAX_CIPHERTEXT_BYTES < text.utf8ByteSize then
    refuse ("text는 " ++ toString E2EE_MAX_CIPHERTEXT_BYTES ++ " byte 이하여야 합니다")
  else .ok text

def roleField (v : Option Value) (message : String) : Except PromptWireError TurnRole :=
  match turnRoleOf v with
  | some turnRole => .ok turnRole
  | none => refuse message

def parsePromptRecordWire (toUtc : Int → Int) (v : Value) :
    Except PromptWireError PromptRecordWire :=
  if isRecord v then do
    let dedupKey ← nonEmptyString (property "dedupKey" v) "dedupKey"
    let providerKey ← nonEmptyString (property "providerKey" v) "providerKey"
    let sessionId ← boundedNullableString (property "sessionId" v) "sessionId" 255
    let _ ← nonEmptyString (property "turnRole" v) "turnRole"
    let turnRole ← roleField (property "turnRole" v) "turnRole 는 'user' 또는 'assistant' 여야 합니다"
    let tsRaw ← nonEmptyString (property "ts" v) "ts"
    let ts ← dateOf toUtc tsRaw ("ts 가 유효한 ISO 8601 이 아닙니다: " ++ tsRaw)
    let text ← textField (property "text" v)
    let agent ← parsePromptAgentWire (property "agent" v)
    return { dedupKey, sessionId, providerKey, turnRole, ts, text, agent }
  else refuse "레코드는 객체여야 합니다"

def parseItems {α : Type} (parse : Value → Except PromptWireError α) (index : Nat) :
    List Value → Except PromptWireError (List α)
  | [] => .ok []
  | item :: items =>
    match parse item with
    | .error error => .error { error with index := some index }
    | .ok record => (parseItems parse (index + 1) items).map (record :: ·)

/-! ### Sealed records -/

def exactKeys (entries : List (String × Value)) (allowed : List String) :
    Except PromptWireError Unit :=
  match (objectKeys entries).find? fun key => !allowed.contains key with
  | none => .ok ()
  -- An empty key counts as no key.
  | some key => if key = "" then .ok () else refuse ("허용되지 않은 필드: " ++ key)

theorem exactKeys_ok {entries : List (String × Value)} {allowed : List String}
    (known : ∀ entry ∈ entries, entry.1 ∈ allowed) : exactKeys entries allowed = .ok () := by
  rw [exactKeys, find?_objectKeys known]

def boundedString (v : Option Value) (field : String) (max : Nat) : Except PromptWireError String :=
  match v with
  | some (.string s) =>
    if unitLength s = 0 || max < unitLength s then
      refuse (field ++ "는 1~" ++ toString max ++ "자 문자열이어야 합니다")
    else .ok s
  | _ => refuse (field ++ "는 1~" ++ toString max ++ "자 문자열이어야 합니다")

def nullableString (v : Option Value) (field : String) (max : Nat) :
    Except PromptWireError (Option String) :=
  match v with
  | some .null => .ok none
  | _ => (boundedString v field max).map some

def optionalNullableString (v : Option Value) (field : String) (max : Nat) :
    Except PromptWireError (Option String) :=
  match v with
  | none | some .null => .ok none
  | _ => (boundedString v field max).map some

def promptAgent (v : Option Value) : Except PromptWireError (Option PromptAgent) :=
  match v with
  | none | some .null => .ok none
  | some (.object entries) => do
    let v := Value.object entries
    exactKeys entries ["id", "parentId", "depth", "name", "role"]
    let depth ← agentDepth (property "depth" v)
      "agent.depth는 1 이상 32 이하 정수 또는 null이어야 합니다"
    let id ← boundedString (property "id" v) "agent.id" 255
    let parentId ← optionalNullableString (property "parentId" v) "agent.parentId" 255
    let name ← optionalNullableString (property "name" v) "agent.name" 100
    let role ← optionalNullableString (property "role" v) "agent.role" 100
    return some { id, parentId, depth, name, role }
  | some _ => refuse "agent는 객체 또는 null이어야 합니다"

def positiveVersion (v : Option Value) : Except PromptWireError Nat :=
  match safeBetween 1 32767 v with
  | some version => .ok version
  | none => refuse "contentKeyVersion은 1 이상 32767 이하 정수여야 합니다"

def isHex (c : Char) : Bool := c.isDigit || ('a' ≤ c && c ≤ 'f') || ('A' ≤ c && c ≤ 'F')

/-- `UUID_RE` -/
def isUuid (text : String) : Bool :=
  let s := text.toList
  s.length == 36 &&
    (List.range 36).all fun place =>
      let c := s.getD place ' '
      if place = 8 ∨ place = 13 ∨ place = 18 ∨ place = 23 then c == '-'
      else if place = 14 then '1' ≤ c && c ≤ '8'
      else if place = 19 then ['8', '9', 'a', 'b', 'A', 'B'].contains c
      else isHex c

def uuid (v : Option Value) (field : String) : Except PromptWireError String := do
  let parsed ← boundedString v field 64
  if isUuid parsed then .ok parsed else refuse (field ++ "는 UUID여야 합니다")

/-- The time of a record; it is stored as `toISOString` prints it. -/
def isoTimestamp (toUtc : Int → Int) (v : Option Value) : Except PromptWireError Int := do
  let raw ← boundedString v "ts" 64
  dateOf toUtc raw "ts는 유효한 ISO 8601이어야 합니다"

def fromBase64Url (v : Option Value) (field : String) : Except PromptWireError (List UInt8) :=
  let message := field ++ "는 padding 없는 base64url이어야 합니다"
  match v with
  | some (.string s) =>
    match Base64.decode s.toList with
    | none => refuse message
    | some decoded =>
      if decoded = [] || Base64.encode decoded ≠ s.toList then refuse message else .ok decoded
  | _ => refuse message

def textOf : Option Value → String
  | some (.string s) => s
  | _ => ""

def bytes (v : Option Value) (field : String) (length : Nat) : Except PromptWireError String := do
  let decoded ← fromBase64Url v field
  if decoded.length ≠ length then refuse (field ++ "는 " ++ toString length ++ "바이트여야 합니다")
  else .ok (textOf v)

def rangedBytes (v : Option Value) (field : String) (min max : Nat) :
    Except PromptWireError String := do
  if isText "" v then
    refuse (field ++ "는 " ++ toString min ++ "바이트 이상이어야 합니다")
  let decoded ← fromBase64Url v field
  if decoded.length < min then
    refuse (field ++ "는 " ++ toString min ++ "바이트 이상이어야 합니다")
  else if max < decoded.length then
    refuse (field ++ "는 " ++ toString max ++ "바이트 이하여야 합니다")
  else .ok (textOf v)

def E2EE_FIELDS : List String :=
  ["schema", "algorithm", "aadVersion", "contentOwnerId", "contentKeyVersion", "dedupKey",
    "sessionId", "providerKey", "turnRole", "ts", "wrappedDek", "dekWrapIv", "dekWrapAuthTag",
    "iv", "ciphertext", "authTag", "agent"]

def parseE2eePromptRecord (toUtc : Int → Int) (v : Value) :
    Except PromptWireError E2eePromptRecordWire :=
  match v with
  | .object entries => do
    let v := Value.object entries
    exactKeys entries E2EE_FIELDS
    if !isText "e2ee_v1" (property "schema" v) then refuse "schema는 e2ee_v1이어야 합니다"
    if !isText "AES-256-GCM" (property "algorithm" v) then
      refuse "algorithm은 AES-256-GCM이어야 합니다"
    if (safeBetween 1 1 (property "aadVersion" v)).isNone then
      refuse "aadVersion은 1이어야 합니다"
    let turnRole ← roleField (property "turnRole" v) "turnRole은 user 또는 assistant여야 합니다"
    let agent ← promptAgent (property "agent" v)
    let contentOwnerId ← uuid (property "contentOwnerId" v) "contentOwnerId"
    let contentKeyVersion ← positiveVersion (property "contentKeyVersion" v)
    let dedupKey ← boundedString (property "dedupKey" v) "dedupKey" 255
    let sessionId ← nullableString (property "sessionId" v) "sessionId" 255
    let providerKey ← boundedString (property "providerKey" v) "providerKey" 100
    let ts ← isoTimestamp toUtc (property "ts" v)
    let wrappedDek ← bytes (property "wrappedDek" v) "wrappedDek" 32
    let dekWrapIv ← bytes (property "dekWrapIv" v) "dekWrapIv" 12
    let dekWrapAuthTag ← bytes (property "dekWrapAuthTag" v) "dekWrapAuthTag" 16
    let iv ← bytes (property "iv" v) "iv" 12
    let ciphertext ←
      rangedBytes (property "ciphertext" v) "ciphertext" 1 E2EE_MAX_CIPHERTEXT_BYTES
    let authTag ← bytes (property "authTag" v) "authTag" 16
    return { contentOwnerId, contentKeyVersion, dedupKey, sessionId, providerKey, turnRole, ts,
             wrappedDek, dekWrapIv, dekWrapAuthTag, iv, ciphertext, authTag, agent }
  | _ => refuse "레코드는 객체여야 합니다"

def parseE2eePromptRecordsBody (toUtc : Int → Int) (items : List Value) :
    Except PromptWireError (List E2eePromptRecordWire) :=
  if 1000 < items.length then refuse "배치는 최대 1000건이어야 합니다"
  else parseItems (parseE2eePromptRecord toUtc) 0 items

/-! ### The batch -/

inductive ParsedPromptBatch where
  | plaintext (records : List PromptRecordWire)
  | e2ee (records : List E2eePromptRecordWire)
deriving DecidableEq

def parsePromptBatch (toUtc : Int → Int) (body : Value) :
    Except PromptWireError ParsedPromptBatch :=
  match body with
  | .array [] => .ok (.plaintext [])
  | .array items =>
    let isSealed := fun item => isText "e2ee_v1" (property "schema" item)
    if items.all isSealed then (parseE2eePromptRecordsBody toUtc items).map .e2ee
    else if items.any isSealed then
      refuse "plaintext_v1과 e2ee_v1 레코드를 혼합할 수 없습니다"
    else if items.any fun item => (property "schema" item).isSome then
      refuse "지원하지 않는 prompt schema입니다"
    else (parseItems (parsePromptRecordWire toUtc) 0 items).map .plaintext
  | _ => refuse "본문은 PromptRecord 배열이어야 합니다"

/-! ### The route -/

def MAX_BODY_BYTES : Nat := 4 * 1024 * 1024

inductive PromptsError where
  | payloadTooLarge
  | invalidJson
  | wire (error : PromptWireError)
  | unknownProviders (keys : List String)
deriving DecidableEq

def ParsedPromptBatch.providerKeys : ParsedPromptBatch → List String
  | .plaintext records => records.map PromptRecordWire.providerKey
  | .e2ee records => records.map E2eePromptRecordWire.providerKey

/-- `POST /api/v1/prompts`, up to the storing of the records. -/
def postPrompts (toUtc : Int → Int) (providers : List String) (body : String) :
    Except PromptsError ParsedPromptBatch :=
  match readBoundedJson body MAX_BODY_BYTES with
  | .error (.payloadTooLarge _) => .error .payloadTooLarge
  | .error _ => .error .invalidJson
  | .ok value =>
    match parsePromptBatch toUtc value with
    | .error error => .error (.wire error)
    | .ok batch =>
      let unknown := batch.providerKeys.eraseDups.filter fun key => !providers.contains key
      if unknown ≠ [] then .error (.unknownProviders unknown) else .ok batch

end Toard.Server.PromptWire
