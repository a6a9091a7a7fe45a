/-
**The data that a sealed record is bound to, rebuilt by the server's side (`e2ee-contract.ts`,
`e2ee-history.ts`, `e2ee-browser-crypto.ts`).**

A sealed record is bound to its owner, its key, its provider, its role and its time. The collector
writes these as JSON with its own printer; whoever opens the record writes them again from what the
database gives back, with the printer of the language.

* **`canonicalContentAad_toWireRecord`**: for a stored record it is the data that the collector used.
* **`canonicalContentAad_inj`**: no two records have the same data.
-/

import Toard.Server.IsoString
import Toard.Server.PromptAcceptance

namespace Toard.Server.SealedContent

open Toard.Json (Value writeChar writeString hexDigit)
open Toard.Library Toard.Server
open Toard.Server.PromptWire
open Toard.Shim (RawContent ContentAdapter TurnRole epochMsToIso padInt bind_eq_ok)
open Toard.Shim.PromptRecord

/-! ### Printing -/

/-- A character of a string, by the table of escapes and else by its code. -/
def quoteChar (c : Char) : List Char :=
  if c = '\x08' then ['\\', 'b']
  else if c = '\t' then ['\\', 't']
  else if c = '\n' then ['\\', 'n']
  else if c = '\x0c' then ['\\', 'f']
  else if c = '\r' then ['\\', 'r']
  else if c = '"' then ['\\', '"']
  else if c = '\\' then ['\\', '\\']
  else if c.toNat < 0x20 then
    ['\\', 'u', hexDigit (c.toNat / 4096 % 16), hexDigit (c.toNat / 256 % 16),
      hexDigit (c.toNat / 16 % 16), hexDigit (c.toNat % 16)]
  else [c]

def quoteJsonString (text : String) : List Char :=
  '"' :: (text.toList.flatMap quoteChar ++ ['"'])

/-- `JSON.stringify` of an object of texts. -/
def jsonStringify (fields : List (String × String)) : String :=
  String.ofList ('\x7b' :: ([','].intercalate (fields.map fun field =>
    quoteJsonString field.1 ++ ':' :: quoteJsonString field.2) ++ ['\x7d']))

def textObject (fields : List (String × String)) : Value :=
  .object (fields.map fun field => (field.1, .string field.2))

theorem quoteChar_eq (c : Char) : quoteChar c = writeChar c := by
  unfold writeChar
  split
  case h_8 quote back nl cr tab bs ff =>
    by_cases control : c.toNat < 0x20
    · have high : c.toNat / 4096 % 16 = 0 ∧ c.toNat / 256 % 16 = 0 := by omega
      have low : c.toNat / 16 % 16 = c.toNat / 16 := by omega
      have zero : hexDigit 0 = '0' := by decide
      rw [quoteChar, if_neg bs, if_neg tab, if_neg nl, if_neg ff, if_neg cr, if_neg quote,
        if_neg back, if_pos control, if_pos control, high.1, high.2, low, zero]
    · rw [quoteChar, if_neg bs, if_neg tab, if_neg nl, if_neg ff, if_neg cr, if_neg quote,
        if_neg back, if_neg control, if_neg control]
  all_goals rfl

theorem quoteJsonString_eq (text : String) : quoteJsonString text = writeString text := by
  have same : quoteChar = writeChar := funext quoteChar_eq
  rw [quoteJsonString, writeString, same]

theorem intercalate_cons (first : List Char) (rest : List (List Char)) :
    [','].intercalate (first :: rest) = first ++ rest.flatMap fun part => ',' :: part := by
  induction rest generalizing first with
  | nil => simp
  | cons part rest ih =>
    rw [List.intercalate_cons_cons, ih part, List.flatMap_cons]
    simp

/-- **Both printers print the same.** -/
theorem jsonStringify_eq (fields : List (String × String)) :
    jsonStringify fields = Json.toCompact (textObject fields) := by
  have later : ∀ rest : List (String × String), Json.compactEntries
      (rest.map fun field => (field.1, Value.string field.2))
        = rest.flatMap (fun field => ',' :: (quoteJsonString field.1 ++ ':' ::
          quoteJsonString field.2)) ++ ['\x7d'] := by
    intro rest
    induction rest with
    | nil => rfl
    | cons field rest ih =>
      rw [List.map_cons, Json.compactEntries, ih, List.flatMap_cons, Json.writeCompact,
        quoteJsonString_eq, quoteJsonString_eq]
      simp only [List.cons_append, List.append_assoc]
  rw [jsonStringify, Json.toCompact, textObject]
  congr 1
  cases fields with
  | nil => rfl
  | cons field rest =>
    rw [List.map_cons, List.map_cons, intercalate_cons, Json.writeCompact, later, Json.writeCompact,
      quoteJsonString_eq, quoteJsonString_eq, List.flatMap_map]
    simp only [List.append_assoc, List.cons_append]

theorem jsonStringify_inj {fields fields' : List (String × String)}
    (same : jsonStringify fields = jsonStringify fields') : fields = fields' := by
  have printable : ∀ fields : List (String × String), Json.Printable (textObject fields) := by
    intro fields
    rw [textObject]
    induction fields with
    | nil => exact trivial
    | cons field fields ih => exact ⟨trivial, ih⟩
  have read := Json.parse_toCompact (printable fields)
  rw [← jsonStringify_eq, same, jsonStringify_eq, Json.parse_toCompact (printable fields')] at read
  have entries : fields'.map (fun field => (field.1, Value.string field.2))
      = fields.map fun field => (field.1, Value.string field.2) :=
    Value.object.inj (Option.some.inj read)
  have injective : Function.Injective fun field : String × String =>
      (field.1, Value.string field.2) := by
    rintro ⟨key, text⟩ ⟨key', text'⟩ pair
    cases pair
    rfl
  exact (List.map_injective_iff.mpr injective entries).symm

theorem utf8Bytes_inj {text text' : String} (same : utf8Bytes text = utf8Bytes text') :
    text = text' := by
  unfold utf8Bytes at same
  exact String.toByteArray_inj.mp (ByteArray.ext (Array.toList_inj.mp same))

/-! ### The time -/

/-- **A time that the server takes is printed as the collector printed it.** -/
theorem toISOString_eq {date : Date} (prints : PrintsDate date.time) :
    date.toISOString = epochMsToIso date.time := by
  obtain ⟨year, month, day, isDate, isMonth, isDay, days⟩ :=
    Shim.civilFromDays_spec (date.time / 86400000)
  have from0 := year_le_iff 0 year isMonth isDay
  have from10000 := year_le_iff 10000 year isMonth isDay
  have fromLong := year_le_iff (-99999) year isMonth isDay
  have fromLongest := year_le_iff (-999999) year isMonth isDay
  rw [days] at from0 from10000 fromLong fromLongest
  rw [show dayFromYear 0 = -719528 from rfl] at from0
  rw [show dayFromYear 10000 = 2932897 from rfl] at from10000
  rw [show dayFromYear (-99999) = -37243412 from rfl] at fromLong
  rw [show dayFromYear (-999999) = -365961662 from rfl] at fromLongest
  have isYear : PrintsYear year := by
    unfold PrintsDate maxTime at prints
    unfold PrintsYear
    omega
  have sameYear : isoYear year = padInt 4 year := by
    rcases isYear with ⟨low, high⟩ | ⟨low, high⟩
    · rw [isoYear, if_pos ⟨low, high⟩, padInt, if_neg (by omega)]
    · rw [isoYear, if_neg (by omega), if_pos (by omega), padInt, if_pos (by omega),
        zeroPad_six (by omega) (by omega)]
  rw [Date.toISOString, epochMsToIso, isDate]
  change String.ofList (isoYear year ++ _) = String.ofList (padInt 4 year ++ _)
  rw [sameYear]
  rfl

/-! ### The stored record -/

structure ContentAadInput where
  schema : String
  contentOwnerId : String
  dedupKey : String
  providerKey : String
  turnRole : TurnRole
  ts : String
deriving DecidableEq

def canonicalContentAad (toUtc : Int → Int) (input : ContentAadInput) : Option (List UInt8) :=
  ((dateParse toUtc input.ts).bind Date.of?).map fun date => utf8Bytes (jsonStringify
    [("schema", input.schema),
     ("contentOwnerId", input.contentOwnerId),
     ("dedupKey", input.dedupKey),
     ("providerKey", input.providerKey),
     ("turnRole", input.turnRole.text),
     ("ts", date.toISOString)])

/-- The columns of a sealed record. The owner is a uuid and the time an instant. -/
structure StoredRecord where
  contentOwnerId : String
  keyVersion : Nat
  contentKeyVersion : Nat
  aadVersion : Nat
  dedupKey : String
  sessionId : Option String
  providerKey : String
  turnRole : TurnRole
  ts : Date
  wrappedDek : List UInt8
  dekWrapIv : List UInt8
  dekWrapAuthTag : List UInt8
  iv : List UInt8
  ciphertext : List UInt8
  authTag : List UInt8
  agent : Option PromptAgent
deriving DecidableEq

def uuidText (text : String) : String := String.ofList (text.toList.map Char.toLower)

/-- The row that `saveE2eePromptRecords` inserts. -/
def storeRecord (record : E2eePromptRecordWire) : Option StoredRecord := do
  let ts ← Date.of? record.ts
  let wrappedDek ← Base64.decode record.wrappedDek.toList
  let dekWrapIv ← Base64.decode record.dekWrapIv.toList
  let dekWrapAuthTag ← Base64.decode record.dekWrapAuthTag.toList
  let iv ← Base64.decode record.iv.toList
  let ciphertext ← Base64.decode record.ciphertext.toList
  let authTag ← Base64.decode record.authTag.toList
  return {
    contentOwnerId := uuidText record.contentOwnerId
    keyVersion := record.contentKeyVersion
    contentKeyVersion := record.contentKeyVersion
    aadVersion := 1
    dedupKey := record.dedupKey
    sessionId := record.sessionId
    providerKey := record.providerKey
    turnRole := record.turnRole
    ts, wrappedDek, dekWrapIv, dekWrapAuthTag, iv, ciphertext, authTag
    agent := record.agent }

structure WireRecord extends ContentAadInput where
  contentKeyVersion : Nat
  sessionId : Option String
  wrappedDek : String
  dekWrapIv : String
  dekWrapAuthTag : String
  iv : String
  ciphertext : String
  authTag : String
  agent : Option PromptAgent
deriving DecidableEq

/-- `toWireRecord`, for the history. -/
def toWireRecord (row : StoredRecord) : WireRecord where
  schema := "e2ee_v1"
  contentOwnerId := row.contentOwnerId
  contentKeyVersion := row.contentKeyVersion
  dedupKey := row.dedupKey
  sessionId := row.sessionId
  providerKey := row.providerKey
  turnRole := row.turnRole
  ts := row.ts.toISOString
  wrappedDek := b64url row.wrappedDek
  dekWrapIv := b64url row.dekWrapIv
  dekWrapAuthTag := b64url row.dekWrapAuthTag
  iv := b64url row.iv
  ciphertext := b64url row.ciphertext
  authTag := b64url row.authTag
  agent := row.agent

/-- `boundedString` -/
def isBounded (max : Nat) (text : String) : Bool := text != "" && decide (unitLength text ≤ max)

/-- `validateSource` -/
def validateSource (row : StoredRecord) : Bool :=
  decide (1 ≤ row.contentKeyVersion) && decide (row.contentKeyVersion ≤ 32767) &&
    row.keyVersion == row.contentKeyVersion && row.aadVersion == 1 && isUuid row.contentOwnerId &&
    isBounded 255 row.dedupKey && isBounded 100 row.providerKey &&
    row.sessionId.all (isBounded 255) && row.wrappedDek.length == 32 && row.dekWrapIv.length == 12 &&
    row.dekWrapAuthTag.length == 16 && row.iv.length == 12 && decide (1 ≤ row.ciphertext.length) &&
    decide (row.ciphertext.length ≤ E2EE_MAX_CIPHERTEXT_BYTES) && row.authTag.length == 16

/-- `toMigrationSource`, for the migration; the agent stays behind. -/
def toMigrationSource (row : StoredRecord) : Option WireRecord :=
  if validateSource row then some { toWireRecord row with agent := none } else none

/-- AES-256-GCM undone: the key, the nonce, the sealed text with its tag, and the data. -/
abbrev OpenAes256Gcm := Vector UInt8 32 → Vector UInt8 12 → List UInt8 → List UInt8 →
  Option (List UInt8)

def Opens (aes256Gcm : Shim.PromptRecord.Aes256Gcm) (opened : OpenAes256Gcm) : Prop :=
  ∀ key nonce msg aad sealed, aes256Gcm key nonce msg aad = some sealed →
    opened key nonce sealed aad = some msg

/-- `crypto.subtle.decrypt` of some bytes. -/
def openBytes (opened : OpenAes256Gcm) (key nonce ciphertext authTag aad : List UInt8) :
    Option (List UInt8) :=
  if isKey : key.length = 32 then
    if isNonce : nonce.length = 12 then
      opened ⟨key.toArray, isKey⟩ ⟨nonce.toArray, isNonce⟩ (ciphertext ++ authTag) aad
    else none
  else none

/-- `decryptE2eeRecord` -/
def decryptE2eeRecord (opened : OpenAes256Gcm) (toUtc : Int → Int) (uck : List UInt8)
    (record : WireRecord) : Option (List UInt8) := do
  let aad ← canonicalContentAad toUtc record.toContentAadInput
  let dek ← openBytes opened uck (← Base64.decode record.dekWrapIv.toList)
    (← Base64.decode record.wrappedDek.toList) (← Base64.decode record.dekWrapAuthTag.toList) aad
  openBytes opened dek (← Base64.decode record.iv.toList) (← Base64.decode record.ciphertext.toList)
    (← Base64.decode record.authTag.toList) aad

/-! ### The same data -/

variable {sha256Hex : String → String} {adapter : ContentAdapter} {e2ee : E2eeMaterial}
  {toUtc : Int → Int}

def Issued (e2ee : E2eeMaterial) : Prop := uuidText e2ee.ownerId = e2ee.ownerId

def storedOf (sha256Hex : String → String) (adapter : ContentAdapter) (e2ee : E2eeMaterial)
    (record : RawContent) (encrypted : EncryptedPromptRecord) (ts : Date) : StoredRecord where
  contentOwnerId := uuidText e2ee.ownerId
  keyVersion := e2ee.keyVersion.toNat
  contentKeyVersion := e2ee.keyVersion.toNat
  aadVersion := 1
  dedupKey := contentDedupKey sha256Hex adapter record
  sessionId := record.sessionId
  providerKey := adapter.key
  turnRole := record.role
  ts := ts
  wrappedDek := encrypted.wrappedDek
  dekWrapIv := encrypted.dekWrapIv.toList
  dekWrapAuthTag := encrypted.dekWrapAuthTag.toList
  iv := encrypted.iv.toList
  ciphertext := encrypted.ciphertext
  authTag := encrypted.authTag.toList
  agent := record.agent.map receivedAgent

theorem decode_b64url (value : List UInt8) : Base64.decode (b64url value).toList = some value := by
  rw [b64url, String.toList_ofList, Base64.decode_encode]

theorem reached_of_prints {ms : Int} (prints : PrintsDate ms) : -maxTime ≤ ms ∧ ms ≤ maxTime := by
  unfold PrintsDate maxTime at prints
  unfold maxTime
  omega

/-- **What is stored of a record** that fits. -/
theorem storeRecord_receivedSealed {record : RawContent} {encrypted : EncryptedPromptRecord}
    (prints : PrintsDate record.tsMs) :
    storeRecord (receivedSealed sha256Hex adapter e2ee record encrypted)
      = some (storedOf sha256Hex adapter e2ee record encrypted
          ⟨record.tsMs, reached_of_prints prints⟩) := by
  have ts : Date.of? record.tsMs = some ⟨record.tsMs, reached_of_prints prints⟩ :=
    Date.of?_time ⟨_, _⟩
  simp only [storeRecord, receivedSealed, ts, decode_b64url, Option.bind_eq_bind, Option.bind_some]
  rfl

theorem canonicalAad_metadataOf (digest : Shim.ToolEvent.IsSha256Hex sha256Hex) {record : RawContent}
    (owner : e2ee.ownerId ≠ "") : canonicalAad (metadataOf sha256Hex adapter e2ee.ownerId record)
      = .ok (utf8Bytes (jsonStringify
          [("schema", "e2ee_v1"),
           ("contentOwnerId", e2ee.ownerId),
           ("dedupKey", contentDedupKey sha256Hex adapter record),
           ("providerKey", adapter.key),
           ("turnRole", record.role.text),
           ("ts", epochMsToIso record.tsMs)])) := by
  have dedup : contentDedupKey sha256Hex adapter record ≠ "" :=
    contentDedupKey_ne_empty digest record
  have provider : adapter.key ≠ "" := key_ne_empty
  have ts := Shim.epochMsToIso_ne_empty record.tsMs
  have role : record.role.text = "user" ∨ record.role.text = "assistant" := by
    cases record.role with
    | user => exact .inl rfl
    | assistant => exact .inr rfl
  rw [canonicalAad, if_neg, jsonStringify_eq]
  · rfl
  · rcases role with user | assistant
    · simp [metadataOf, owner, dedup, provider, ts, user]
    · simp [metadataOf, owner, dedup, provider, ts, assistant]

/-- **The data rebuilt from a stored record are those of the collector.** -/
theorem canonicalContentAad_toWireRecord (digest : Shim.ToolEvent.IsSha256Hex sha256Hex)
    (issued : Issued e2ee) (owner : e2ee.ownerId ≠ "") {record : RawContent}
    {encrypted : EncryptedPromptRecord} (prints : PrintsDate record.tsMs) :
    ∃ aad, canonicalAad (metadataOf sha256Hex adapter e2ee.ownerId record) = .ok aad ∧
      canonicalContentAad toUtc (toWireRecord (storedOf sha256Hex adapter e2ee record encrypted
        ⟨record.tsMs, reached_of_prints prints⟩)).toContentAadInput = some aad := by
  refine ⟨_, canonicalAad_metadataOf digest owner, ?_⟩
  have printed : (⟨record.tsMs, reached_of_prints prints⟩ : Date).toISOString
      = epochMsToIso record.tsMs := toISOString_eq prints
  unfold Issued at issued
  rw [canonicalContentAad, toWireRecord, storedOf]
  dsimp only
  rw [dateParse_toISOString, Option.bind_some, Date.of?_time, Option.map_some, issued, printed]

/-! ### Opening -/

section Opening

variable {aes256Gcm : Shim.PromptRecord.Aes256Gcm} {opened : OpenAes256Gcm}

theorem sealed_of_sealDetached {key plaintext aad ciphertext : List UInt8} {nonce : Vector UInt8 12}
    {tag : Vector UInt8 16}
    (made : sealDetached aes256Gcm key nonce plaintext aad = .ok (ciphertext, tag)) :
    ∃ isKey : key.length = 32,
      aes256Gcm ⟨key.toArray, isKey⟩ nonce plaintext aad = some (ciphertext ++ tag.toList) := by
  unfold sealDetached at made
  split at made
  case isFalse => cases made
  case isTrue isKey =>
    refine ⟨isKey, ?_⟩
    split at made
    case h_1 => cases made
    case h_2 sealed isSealed =>
      split at made
      case isFalse => cases made
      case isTrue =>
        cases made
        rw [isSealed]
        exact congrArg some (List.take_append_drop _ sealed).symm

theorem openBytes_sealDetached (opens : Opens aes256Gcm opened)
    {key plaintext aad ciphertext : List UInt8} {nonce : Vector UInt8 12} {tag : Vector UInt8 16}
    (made : sealDetached aes256Gcm key nonce plaintext aad = .ok (ciphertext, tag)) :
    openBytes opened key nonce.toList ciphertext tag.toList aad = some plaintext := by
  obtain ⟨isKey, isSealed⟩ := sealed_of_sealDetached made
  rw [openBytes, dif_pos isKey, dif_pos Vector.length_toList]
  exact opens _ _ _ _ _ isSealed

/-- **A stored record is opened** to the text that was sealed. -/
theorem decryptE2eeRecord_storedOf (opens : Opens aes256Gcm opened) {uck aad : List UInt8}
    {record : RawContent} {material : Material} {encrypted : EncryptedPromptRecord} {ts : Date}
    (made : encryptRecord aes256Gcm uck (metadataOf sha256Hex adapter e2ee.ownerId record)
      (utf8Bytes record.text) material = .ok encrypted)
    (isAad : canonicalAad (metadataOf sha256Hex adapter e2ee.ownerId record) = .ok aad)
    (rebuilt : canonicalContentAad toUtc
      (toWireRecord (storedOf sha256Hex adapter e2ee record encrypted ts)).toContentAadInput
        = some aad) :
    decryptE2eeRecord opened toUtc uck
        (toWireRecord (storedOf sha256Hex adapter e2ee record encrypted ts))
      = some (utf8Bytes record.text) := by
  obtain ⟨aad', isAad', made⟩ := bind_eq_ok.mp made
  rw [isAad] at isAad'
  cases isAad'
  obtain ⟨⟨ciphertext, authTag⟩, content, made⟩ := bind_eq_ok.mp made
  obtain ⟨⟨wrappedDek, dekWrapAuthTag⟩, wrapped, made⟩ := bind_eq_ok.mp made
  cases made
  have dek := openBytes_sealDetached opens wrapped
  have text := openBytes_sealDetached opens content
  rw [decryptE2eeRecord, rebuilt]
  simp only [toWireRecord, storedOf, decode_b64url, Option.bind_eq_bind, Option.bind_some, dek, text]

end Opening

/-! ### Different records -/

theorem TurnRole.text_inj {role role' : TurnRole} (same : role.text = role'.text) : role = role' := by
  cases role <;> cases role' <;> first | rfl | exact absurd same (by decide)

/-- **The data tell the record.** -/
theorem canonicalContentAad_inj {input input' : ContentAadInput} {aad : List UInt8}
    (made : canonicalContentAad toUtc input = some aad)
    (made' : canonicalContentAad toUtc input' = some aad) :
    input.schema = input'.schema ∧ input.contentOwnerId = input'.contentOwnerId ∧
      input.dedupKey = input'.dedupKey ∧ input.providerKey = input'.providerKey ∧
      input.turnRole = input'.turnRole ∧
      (dateParse toUtc input.ts).bind Date.of? = (dateParse toUtc input'.ts).bind Date.of? := by
  obtain ⟨date, isDate, bytes⟩ := Option.map_eq_some_iff.mp made
  obtain ⟨date', isDate', bytes'⟩ := Option.map_eq_some_iff.mp made'
  have fields := jsonStringify_inj (utf8Bytes_inj (bytes.trans bytes'.symm))
  simp only [List.cons.injEq, Prod.mk.injEq, true_and, and_true] at fields
  obtain ⟨schema, owner, dedup, provider, role, ts⟩ := fields
  have same := dateParse_toISOString toUtc date
  rw [ts, dateParse_toISOString] at same
  rw [isDate, isDate', Date.ext (Option.some.inj same)]
  exact ⟨schema, owner, dedup, provider, TurnRole.text_inj role, rfl⟩

/-- Two spellings of one instant. -/
theorem canonicalContentAad_inj_spellings : ∃ aad,
    canonicalContentAad id ⟨"e2ee_v1", "owner", "key", "codex", .user, "2026-01-01T00:00:00Z"⟩
      = some aad ∧
    (dateParse id "2026-01-01T00:00:00Z").bind Date.of?
      = (dateParse id "2026-01-01T00:00:00.000Z").bind Date.of? := by
  have made : canonicalContentAad id
      ⟨"e2ee_v1", "owner", "key", "codex", .user, "2026-01-01T00:00:00Z"⟩ = some _ := rfl
  have made' : canonicalContentAad id
      ⟨"e2ee_v1", "owner", "key", "codex", .user, "2026-01-01T00:00:00.000Z"⟩ = some _ := rfl
  exact ⟨_, made, (canonicalContentAad_inj made made').2.2.2.2.2⟩

theorem canonicalAad_inj (digest : Shim.ToolEvent.IsSha256Hex sha256Hex)
    {adapter' : ContentAdapter} {e2ee' : E2eeMaterial} {record record' : RawContent}
    {aad : List UInt8} (owner : e2ee.ownerId ≠ "") (owner' : e2ee'.ownerId ≠ "")
    (prints : PrintsDate record.tsMs) (prints' : PrintsDate record'.tsMs)
    (made : canonicalAad (metadataOf sha256Hex adapter e2ee.ownerId record) = .ok aad)
    (made' : canonicalAad (metadataOf sha256Hex adapter' e2ee'.ownerId record') = .ok aad) :
    e2ee.ownerId = e2ee'.ownerId ∧
      contentDedupKey sha256Hex adapter record = contentDedupKey sha256Hex adapter' record' ∧
      adapter.key = adapter'.key ∧ record.role = record'.role ∧ record.tsMs = record'.tsMs := by
  rw [canonicalAad_metadataOf digest owner, Except.ok.injEq] at made
  rw [canonicalAad_metadataOf digest owner', Except.ok.injEq] at made'
  have fields := jsonStringify_inj (utf8Bytes_inj (made.trans made'.symm))
  simp only [List.cons.injEq, Prod.mk.injEq, true_and, and_true] at fields
  obtain ⟨owners, dedup, provider, role, ts⟩ := fields
  have read := dateParse_epochMsToIso id record.tsMs
  rw [if_pos prints, ts, dateParse_epochMsToIso, if_pos prints'] at read
  exact ⟨owners, dedup, provider, TurnRole.text_inj role, (Option.some.inj read).symm⟩

/-! ### Bodies that the server took -/

section Bodies

variable {aes256Gcm : Shim.PromptRecord.Aes256Gcm} {opened : OpenAes256Gcm} {providers : List String}

theorem parsePromptBatch_of_postPrompts {body : String} {value : Value} {batch : ParsedPromptBatch}
    (taken : postPrompts toUtc providers body = .ok batch) (read : jsonParse body = some value) :
    parsePromptBatch toUtc value = .ok batch := by
  unfold postPrompts ToolWire.readBoundedJson at taken
  by_cases large : MAX_BODY_BYTES < body.utf8ByteSize
  · rw [if_pos large] at taken
    cases taken
  · rw [if_neg large, read] at taken
    dsimp only at taken
    cases parsed : parsePromptBatch toUtc value with
    | error error =>
      rw [parsed] at taken
      cases taken
    | ok other =>
      rw [parsed] at taken
      dsimp only at taken
      split at taken
      · cases taken
      · exact congrArg _ (Except.ok.inj taken)

theorem parseItems_of_parsePromptBatch {items : List Value} {batch : List E2eePromptRecordWire}
    (parsed : parsePromptBatch toUtc (.array items) = .ok (.e2ee batch)) :
    PromptWire.parseItems (parseE2eePromptRecord toUtc) 0 items = .ok batch := by
  have plain : ∀ made : Except PromptWireError (List PromptRecordWire),
      made.map ParsedPromptBatch.plaintext ≠ .ok (.e2ee batch) := by
    rintro (_ | _) same
    · cases same
    · cases same
  cases items with
  | nil => cases parsed
  | cons item items =>
    simp only [parsePromptBatch] at parsed
    split at parsed
    · cases made : parseE2eePromptRecordsBody toUtc (item :: items) with
      | error error =>
        rw [made] at parsed
        cases parsed
      | ok records =>
        rw [made] at parsed
        cases parsed
        unfold parseE2eePromptRecordsBody at made
        split at made
        · cases made
        · exact made
    · split at parsed
      · cases parsed
      · split at parsed
        · cases parsed
        · exact absurd parsed (plain _)

/-- **The records of a body that the server took**, in their order. -/
theorem taken_records (digest : Shim.ToolEvent.IsSha256Hex sha256Hex) (aead : IsAead aes256Gcm)
    {records : List (RawContent × Material)} {body : String} {batch : List E2eePromptRecordWire}
    (made : toE2eePromptsBody sha256Hex aes256Gcm adapter e2ee records = .ok body)
    (taken : postPrompts toUtc providers body = .ok (.e2ee batch)) :
    List.Forall₂ (fun record wire => Fits record.1 ∧ IsOwner e2ee ∧ ∃ encrypted,
      encryptRecord aes256Gcm e2ee.uck.toList (metadataOf sha256Hex adapter e2ee.ownerId record.1)
        (utf8Bytes record.1.text) record.2 = .ok encrypted ∧
      wire = receivedSealed sha256Hex adapter e2ee record.1 encrypted) records batch := by
  obtain ⟨rows, isRows, rfl⟩ := rows_of_toE2eePromptsBody made
  obtain ⟨encrypted, -, rfl, lengths, each⟩ := e2eeRows_sealed aead isRows
  have read := @jsonParse_e2eeWire sha256Hex adapter e2ee encrypted
  have items := parseItems_of_parsePromptBatch (parsePromptBatch_of_postPrompts taken read)
  obtain ⟨rfl, fits⟩ := (PromptWire.parseItems_map fun row among parsed =>
    parseE2eePromptRecord_wire digest
      (lengths row among).1 (lengths row among).2).mp items
  rw [List.forall₂_map_right_iff]
  clear items read taken isRows made lengths
  induction each with
  | nil => exact .nil
  | cons first _ ih =>
    obtain ⟨here, later⟩ := List.forall_mem_cons.mp fits
    obtain ⟨same, isSealed⟩ := first
    refine .cons ⟨same ▸ here.1, here.2, _, isSealed, ?_⟩ (ih later)
    rw [same]

theorem sealed_of_postPrompts (aead : IsAead aes256Gcm) {records : List (RawContent × Material)}
    (nonempty : records ≠ []) (few : records.length ≤ 1000) {body : String}
    {batch : ParsedPromptBatch}
    (made : toE2eePromptsBody sha256Hex aes256Gcm adapter e2ee records = .ok body)
    (taken : postPrompts toUtc providers body = .ok batch) : ∃ rows, batch = .e2ee rows := by
  obtain ⟨rows, isRows, rfl⟩ := rows_of_toE2eePromptsBody made
  obtain ⟨encrypted, same, rfl, -⟩ := e2eeRows_sealed aead isRows
  have count : encrypted.length = records.length := by
    have lengths := congrArg List.length same
    rwa [List.length_map, List.length_map] at lengths
  have some_ : encrypted ≠ [] := by
    rintro rfl
    exact nonempty (List.length_eq_zero_iff.mp count.symm)
  have parsed := parsePromptBatch_of_postPrompts taken
    (@jsonParse_e2eeWire sha256Hex adapter e2ee encrypted)
  rw [parsePromptBatch_e2eeWire some_ (by omega)] at parsed
  cases items : PromptWire.parseItems (parseE2eePromptRecord toUtc) 0
      (encrypted.map fun row => e2eeWire sha256Hex adapter e2ee row.1 row.2) with
  | error error =>
    rw [items] at parsed
    cases parsed
  | ok rows =>
    rw [items] at parsed
    exact ⟨rows, (Except.ok.inj parsed).symm⟩

theorem validateSource_storedOf (digest : Shim.ToolEvent.IsSha256Hex sha256Hex)
    (aead : IsAead aes256Gcm) (issued : Issued e2ee) (isOwner : IsOwner e2ee) {record : RawContent}
    (fits : Fits record) {material : Material} {encrypted : EncryptedPromptRecord} {ts : Date}
    (made : encryptRecord aes256Gcm e2ee.uck.toList (metadataOf sha256Hex adapter e2ee.ownerId record)
      (utf8Bytes record.text) material = .ok encrypted) :
    validateSource (storedOf sha256Hex adapter e2ee record encrypted ts) = true := by
  obtain ⟨ciphertext, wrappedDek⟩ := encryptRecord_lengths aead made
  rw [length_utf8Bytes] at ciphertext
  have bounded : ∀ {max : Nat} {text : String}, Within max text → isBounded max text = true := by
    intro max text within
    simp [isBounded, unitLength_pos.mp within.1, within.2]
  have dedup : isBounded 255 (contentDedupKey sha256Hex adapter record) = true :=
    bounded (within_contentDedupKey digest record)
  have provider : isBounded 100 adapter.key = true := by cases adapter <;> decide
  have session : record.sessionId.all (isBounded 255) = true := by
    cases isId : record.sessionId with
    | none => rfl
    | some id => exact bounded (fits.sessionId id isId)
  have some_ : 1 ≤ record.text.utf8ByteSize := by
    refine Nat.one_le_iff_ne_zero.mpr fun zero => record.nonempty ?_
    exact String.utf8ByteSize_eq_zero_iff.mp zero
  unfold Issued at issued
  simp [validateSource, storedOf, isOwner.keyVersion, issued, isOwner.ownerId, dedup, provider,
    session, wrappedDek, ciphertext, some_, fits.text]

/-- The data of a record, as the collector uses them for its text and for its key. -/
def associatedData (sha256Hex : String → String) (adapter : ContentAdapter) (e2ee : E2eeMaterial)
    (record : RawContent) : Except ContentCryptoError (List UInt8) :=
  canonicalAad (metadataOf sha256Hex adapter e2ee.ownerId record)

/-- **The data agree.** Of every record of a body that the server took, the data rebuilt from what
is stored are those that the collector used, for the history as for the migration, and the record is
opened to its text; and records that differ in their owner, key, provider, role or time have
different data. -/
theorem associatedData_agree (digest : Shim.ToolEvent.IsSha256Hex sha256Hex)
    (aead : IsAead aes256Gcm) (opens : Opens aes256Gcm opened) :
    (∀ adapter e2ee records body batch, Issued e2ee →
      toE2eePromptsBody sha256Hex aes256Gcm adapter e2ee records = .ok body →
      postPrompts toUtc providers body = .ok (.e2ee batch) →
      List.Forall₂ (fun record wire => ∃ row source aad, storeRecord wire = some row ∧
        toMigrationSource row = some source ∧
        associatedData sha256Hex adapter e2ee record.1 = .ok aad ∧
        canonicalContentAad toUtc (toWireRecord row).toContentAadInput = some aad ∧
        canonicalContentAad toUtc source.toContentAadInput = some aad ∧
        decryptE2eeRecord opened toUtc e2ee.uck.toList (toWireRecord row)
          = some (utf8Bytes record.1.text) ∧
        decryptE2eeRecord opened toUtc e2ee.uck.toList source = some (utf8Bytes record.1.text))
        records batch) ∧
    (∀ adapter e2ee records body batch adapter' e2ee' records' body' batch',
      toE2eePromptsBody sha256Hex aes256Gcm adapter e2ee records = .ok body →
      postPrompts toUtc providers body = .ok (.e2ee batch) →
      toE2eePromptsBody sha256Hex aes256Gcm adapter' e2ee' records' = .ok body' →
      postPrompts toUtc providers body' = .ok (.e2ee batch') →
      ∀ record ∈ records, ∀ record' ∈ records', ∀ aad,
        associatedData sha256Hex adapter e2ee record.1 = .ok aad →
        associatedData sha256Hex adapter' e2ee' record'.1 = .ok aad →
        e2ee.ownerId = e2ee'.ownerId ∧
          contentDedupKey sha256Hex adapter record.1 = contentDedupKey sha256Hex adapter' record'.1 ∧
          adapter.key = adapter'.key ∧ record.1.role = record'.1.role ∧
          record.1.tsMs = record'.1.tsMs) := by
  have ownerId : ∀ e2ee, IsOwner e2ee → e2ee.ownerId ≠ "" := by
    intro e2ee isOwner empty
    have isId := isOwner.ownerId
    rw [empty] at isId
    exact absurd isId (by decide)
  constructor
  · intro adapter e2ee records body batch issued made taken
    refine (taken_records digest aead made taken).imp ?_
    rintro record wire ⟨fits, isOwner, encrypted, isSealed, rfl⟩
    obtain ⟨aad, used, rebuilt⟩ := @canonicalContentAad_toWireRecord _ adapter _ toUtc
      digest issued (ownerId e2ee isOwner) _ encrypted fits.ts
    have text := decryptE2eeRecord_storedOf opens isSealed used rebuilt
    refine ⟨_, _, aad, storeRecord_receivedSealed fits.ts, if_pos ?_, used, rebuilt, rebuilt, text,
      text⟩
    exact validateSource_storedOf digest aead issued isOwner fits isSealed
  · intro adapter e2ee records body batch adapter' e2ee' records' body' batch' made taken made' taken'
      record among record' among' aad used used'
    have each : ∀ {adapter e2ee records body batch},
        toE2eePromptsBody sha256Hex aes256Gcm adapter e2ee records = .ok body →
        postPrompts toUtc providers body = .ok (.e2ee batch) → ∀ record ∈ records,
          Fits record.1 ∧ IsOwner e2ee := by
      intro adapter e2ee records body batch made taken
      have all := taken_records digest aead made taken
      clear made taken
      induction all with
      | nil => exact fun _ among => absurd among List.not_mem_nil
      | cons first _ ih => exact List.forall_mem_cons.mpr ⟨⟨first.1, first.2.1⟩, ih⟩
    obtain ⟨fits, isOwner⟩ := each made taken record among
    obtain ⟨fits', isOwner'⟩ := each made' taken' record' among'
    exact canonicalAad_inj digest (ownerId e2ee isOwner) (ownerId e2ee' isOwner') fits.ts fits'.ts
      used used'

end Bodies

def plainE2ee : E2eeMaterial where
  ownerId := "11111111-1111-4111-8111-11111111111a"
  keyVersion := 1
  uck := .replicate 32 7

def openOpened : OpenAes256Gcm := fun _ _ sealed _ => some (sealed.take (sealed.length - 16))

theorem opens_openOpened : Opens openSeal openOpened := by
  intro key nonce msg aad sealed made
  obtain rfl := Option.some_inj.mp made
  rw [openOpened, List.length_append, List.length_replicate, Nat.add_sub_cancel,
    List.take_left' rfl]

theorem fits_plainContent : Fits plainContent where
  sessionId := by
    intro id isId
    obtain rfl := Option.some_inj.mp isId
    exact ⟨by decide, by decide⟩
  ts := by decide
  text := by decide
  agent := fun agent isAgent => absurd isAgent (Option.not_mem_none agent)

set_option maxRecDepth 8000 in
theorem isOk_plainRows : (e2eeRows plainDigest openSeal .claudeCode plainE2ee
    [(plainContent, plainMaterial)]).toOption.any (fun rows =>
      String.utf8Len (Json.writeCompact (.array rows)) ≤ MAX_BODY_BYTES) = true := by
  decide

theorem exists_plainBody : ∃ body batch, toE2eePromptsBody plainDigest openSeal .claudeCode plainE2ee
      [(plainContent, plainMaterial)] = .ok body ∧
    postPrompts id ["claude_code"] body = .ok (.e2ee batch) := by
  have small := isOk_plainRows
  cases isRows : e2eeRows plainDigest openSeal .claudeCode plainE2ee
      [(plainContent, plainMaterial)] with
  | error error =>
    rw [isRows] at small
    cases small
  | ok rows =>
    rw [isRows] at small
    have made : toE2eePromptsBody plainDigest openSeal .claudeCode plainE2ee
        [(plainContent, plainMaterial)] = .ok (Json.toCompact (.array rows)) := by
      rw [toE2eePromptsBody, isRows]
      rfl
    have size : (Json.toCompact (.array rows)).utf8ByteSize ≤ MAX_BODY_BYTES := by
      change (String.ofList (Json.writeCompact (.array rows))).utf8ByteSize ≤ MAX_BODY_BYTES
      rw [String.utf8ByteSize_ofList]
      exact of_decide_eq_true small
    have some_ : [(plainContent, plainMaterial)] ≠ [] := List.cons_ne_nil _ _
    obtain ⟨parsed, taken⟩ := (@postE2eePrompts_iff _ _ _ id ["claude_code"]
      isSha256Hex_plainDigest isAead_openSeal _ _ some_ (by decide) _ made).mpr
      ⟨size, by decide, List.forall_mem_singleton.mpr ⟨fits_plainContent, by decide, by decide⟩⟩
    obtain ⟨batch, rfl⟩ := sealed_of_postPrompts isAead_openSeal some_ (by decide) made taken
    exact ⟨_, batch, made, taken⟩

theorem associatedData_agree_plainContent : ∃ body wire row source,
    toE2eePromptsBody plainDigest openSeal .claudeCode plainE2ee [(plainContent, plainMaterial)]
      = .ok body ∧
    postPrompts id ["claude_code"] body = .ok (.e2ee [wire]) ∧
    storeRecord wire = some row ∧ toMigrationSource row = some source ∧
    decryptE2eeRecord openOpened id plainE2ee.uck.toList (toWireRecord row)
      = some (utf8Bytes "hello") ∧
    decryptE2eeRecord openOpened id plainE2ee.uck.toList source = some (utf8Bytes "hello") := by
  obtain ⟨body, batch, made, taken⟩ := exists_plainBody
  obtain ⟨agree, -⟩ := @associatedData_agree plainDigest id openSeal openOpened ["claude_code"]
    isSha256Hex_plainDigest isAead_openSeal opens_openOpened
  have each := agree .claudeCode plainE2ee _ body batch (by unfold Issued; decide) made taken
  cases each with
  | cons first rest =>
    cases rest
    obtain ⟨row, source, aad, stored, isSource, -, -, -, text, sourceText⟩ := first
    exact ⟨body, _, row, source, made, taken, stored, isSource, text, sourceText⟩

end Toard.Server.SealedContent
