/-
**The prompts that the collector delivers (`collect/mod.rs`, `content_crypto.rs`).**

The adapters read the turns of a conversation from the logs. A turn is sent as it is, or sealed with
a key of its own, which is sealed with the key of the user.
-/

import Toard.Json.Compact
import Toard.Library.Base64
import Toard.Shim.RawUsage

namespace Toard.Shim

open Toard.Json (Value)
open Toard.Library
open Toard.Shim.UsageEvent (optValue countValue printable_optValue)

/-! ### The turns -/

inductive TurnRole where
  | user
  | assistant
deriving DecidableEq

def TurnRole.text : TurnRole → String
  | .user => "user"
  | .assistant => "assistant"

structure RawPromptAgent where
  id : String
  parentId : Option String
  depth : Option UInt8
  name : Option String
  role : Option String
deriving DecidableEq

structure RawContent where
  project : Option LocalProject
  tsMs : Int
  sessionId : Option String
  messageId : Option String
  role : TurnRole
  text : String
  agent : Option RawPromptAgent
  nonempty : text ≠ ""
deriving DecidableEq

inductive ContentAdapter where
  | claudeCode
  | codex
  | cursor
  | gemini
  | qwen
deriving DecidableEq

/-- `LogAdapter::key` -/
def ContentAdapter.key : ContentAdapter → String
  | .claudeCode => "claude_code"
  | .codex => "codex"
  | .cursor => "cursor"
  | .gemini => "gemini"
  | .qwen => "qwen"

namespace PromptRecord

section Plain

variable (sha256Hex : String → String) (adapter : ContentAdapter)

def contentDedupKey (r : RawContent) : String :=
  sha256Hex (adapter.key ++ ":content:" ++ r.messageId.getD "" ++ ":" ++ r.sessionId.getD "" ++
    ":" ++ toString r.tsMs ++ ":" ++ r.role.text ++ ":" ++ r.text)

def depthValue : Option UInt8 → Value
  | none => .null
  | some depth => countValue depth.toNat

def agentValue : Option RawPromptAgent → Value
  | none => .null
  | some agent =>
    .object
      [("depth", depthValue agent.depth),
       ("id", .string agent.id),
       ("name", optValue agent.name),
       ("parentId", optValue agent.parentId),
       ("role", optValue agent.role)]

/-- A turn as it is, its keys in the order of the map that holds them. -/
def wire (r : RawContent) : Value :=
  .object
    [("agent", agentValue r.agent),
     ("dedupKey", .string (contentDedupKey sha256Hex adapter r)),
     ("providerKey", .string adapter.key),
     ("sessionId", optValue r.sessionId),
     ("text", .string r.text),
     ("ts", .string (epochMsToIso r.tsMs)),
     ("turnRole", .string r.role.text)]

def toPromptsBody (records : List RawContent) : String :=
  Json.toCompact (.array (records.map (wire sha256Hex adapter)))

end Plain

/-! ### Sealing -/

structure ContentMetadata where
  schema : String
  contentOwnerId : String
  dedupKey : String
  providerKey : String
  turnRole : String
  ts : String

inductive ContentCryptoError where
  | invalidMetadata
  | invalidKey
  | encryptionFailed
deriving DecidableEq

def utf8Bytes (text : String) : List UInt8 := text.toByteArray.data.toList

theorem length_utf8Bytes (text : String) : (utf8Bytes text).length = text.utf8ByteSize :=
  String.size_toByteArray

theorem fromUTF8?_utf8Bytes (text : String) :
    String.fromUTF8? ⟨(utf8Bytes text).toArray⟩ = some text := by
  have same : (⟨(utf8Bytes text).toArray⟩ : ByteArray) = text.toByteArray := by
    rw [utf8Bytes, Array.toArray_toList]
  rw [same, String.fromUTF8?, dif_pos text.isValidUTF8]
  rfl

def canonicalAad (metadata : ContentMetadata) : Except ContentCryptoError (List UInt8) :=
  if metadata.schema != "e2ee_v1" || metadata.contentOwnerId == "" || metadata.dedupKey == "" ||
      metadata.providerKey == "" ||
      !(["user", "assistant", "system", "tool"].contains metadata.turnRole) ||
      metadata.ts == "" then .error .invalidMetadata
  else
    .ok (utf8Bytes (Json.toCompact (.object
      [("schema", .string metadata.schema),
       ("contentOwnerId", .string metadata.contentOwnerId),
       ("dedupKey", .string metadata.dedupKey),
       ("providerKey", .string metadata.providerKey),
       ("turnRole", .string metadata.turnRole),
       ("ts", .string metadata.ts)])))

abbrev Aes256Gcm := Vector UInt8 32 → Vector UInt8 12 → List UInt8 → List UInt8 →
  Option (List UInt8)

def IsAead (aes256Gcm : Aes256Gcm) : Prop :=
  ∀ key nonce msg aad sealed, aes256Gcm key nonce msg aad = some sealed →
    sealed.length = msg.length + 16

structure EncryptedPromptRecord where
  wrappedDek : List UInt8
  dekWrapIv : Vector UInt8 12
  dekWrapAuthTag : Vector UInt8 16
  iv : Vector UInt8 12
  ciphertext : List UInt8
  authTag : Vector UInt8 16

structure Material where
  dek : Vector UInt8 32
  contentIv : Vector UInt8 12
  dekWrapIv : Vector UInt8 12
  apart : contentIv ≠ dekWrapIv

section Sealed

variable (sha256Hex : String → String) (aes256Gcm : Aes256Gcm) (adapter : ContentAdapter)

def sealDetached (key : List UInt8) (nonce : Vector UInt8 12) (plaintext aad : List UInt8) :
    Except ContentCryptoError (List UInt8 × Vector UInt8 16) :=
  if isKey : key.length = 32 then
    match aes256Gcm ⟨key.toArray, isKey⟩ nonce plaintext aad with
    | none => .error .encryptionFailed
    | some sealed =>
      if isLong : 16 ≤ sealed.length then
        .ok (sealed.take (sealed.length - 16), ⟨(sealed.drop (sealed.length - 16)).toArray, by
          rw [List.size_toArray, List.length_drop]
          omega⟩)
      else .error .encryptionFailed
  else .error .invalidKey

def encryptRecord (uck : List UInt8) (metadata : ContentMetadata) (plaintext : List UInt8)
    (material : Material) : Except ContentCryptoError EncryptedPromptRecord := do
  let aad ← canonicalAad metadata
  let (ciphertext, authTag) ←
    sealDetached aes256Gcm material.dek.toList material.contentIv plaintext aad
  let (wrappedDek, dekWrapAuthTag) ←
    sealDetached aes256Gcm uck material.dekWrapIv material.dek.toList aad
  return { wrappedDek, dekWrapIv := material.dekWrapIv, dekWrapAuthTag, iv := material.contentIv,
           ciphertext, authTag }

def b64url (bytes : List UInt8) : String := String.ofList (Base64.encode bytes)

structure E2eeMaterial where
  ownerId : String
  keyVersion : UInt16
  uck : Vector UInt8 32

def metadataOf (ownerId : String) (record : RawContent) : ContentMetadata where
  schema := "e2ee_v1"
  contentOwnerId := ownerId
  dedupKey := contentDedupKey sha256Hex adapter record
  providerKey := adapter.key
  turnRole := record.role.text
  ts := epochMsToIso record.tsMs

/-- A sealed turn, its keys in the order of the map that holds them. -/
def e2eeWire (e2ee : E2eeMaterial) (record : RawContent) (encrypted : EncryptedPromptRecord) :
    Value :=
  .object
    [("aadVersion", countValue 1),
     ("agent", agentValue record.agent),
     ("algorithm", .string "AES-256-GCM"),
     ("authTag", .string (b64url encrypted.authTag.toList)),
     ("ciphertext", .string (b64url encrypted.ciphertext)),
     ("contentKeyVersion", countValue e2ee.keyVersion.toNat),
     ("contentOwnerId", .string e2ee.ownerId),
     ("dedupKey", .string (contentDedupKey sha256Hex adapter record)),
     ("dekWrapAuthTag", .string (b64url encrypted.dekWrapAuthTag.toList)),
     ("dekWrapIv", .string (b64url encrypted.dekWrapIv.toList)),
     ("iv", .string (b64url encrypted.iv.toList)),
     ("providerKey", .string adapter.key),
     ("schema", .string "e2ee_v1"),
     ("sessionId", optValue record.sessionId),
     ("ts", .string (epochMsToIso record.tsMs)),
     ("turnRole", .string record.role.text),
     ("wrappedDek", .string (b64url encrypted.wrappedDek))]

def e2eeRows (e2ee : E2eeMaterial) (records : List (RawContent × Material)) :
    Except ContentCryptoError (List Value) :=
  records.mapM fun (record, material) =>
    (encryptRecord aes256Gcm e2ee.uck.toList (metadataOf sha256Hex adapter e2ee.ownerId record)
      (utf8Bytes record.text) material).map (e2eeWire sha256Hex adapter e2ee record)

def toE2eePromptsBody (e2ee : E2eeMaterial) (records : List (RawContent × Material)) :
    Except ContentCryptoError String :=
  (e2eeRows sha256Hex aes256Gcm adapter e2ee records).map fun rows => Json.toCompact (.array rows)

end Sealed

/-! ### What was sealed -/

section Lengths

variable {aes256Gcm : Aes256Gcm}

theorem length_sealDetached (aead : IsAead aes256Gcm) {key : List UInt8} {nonce : Vector UInt8 12}
    {plaintext aad ciphertext : List UInt8} {tag : Vector UInt8 16}
    (made : sealDetached aes256Gcm key nonce plaintext aad = .ok (ciphertext, tag)) :
    ciphertext.length = plaintext.length := by
  unfold sealDetached at made
  split at made
  case isFalse => cases made
  case isTrue =>
    split at made
    case h_1 => cases made
    case h_2 sealed isSealed =>
      split at made
      case isFalse => cases made
      case isTrue =>
        have long := aead _ _ _ _ _ isSealed
        cases made
        rw [List.length_take]
        omega

theorem encryptRecord_lengths (aead : IsAead aes256Gcm) {uck plaintext : List UInt8}
    {metadata : ContentMetadata} {material : Material} {encrypted : EncryptedPromptRecord}
    (made : encryptRecord aes256Gcm uck metadata plaintext material = .ok encrypted) :
    encrypted.ciphertext.length = plaintext.length ∧ encrypted.wrappedDek.length = 32 := by
  obtain ⟨aad, -, made⟩ := bind_eq_ok.mp made
  obtain ⟨⟨ciphertext, authTag⟩, content, made⟩ := bind_eq_ok.mp made
  obtain ⟨⟨wrappedDek, dekWrapAuthTag⟩, wrapped, made⟩ := bind_eq_ok.mp made
  cases made
  exact ⟨length_sealDetached aead content,
    (length_sealDetached aead wrapped).trans Vector.length_toList⟩

end Lengths

/-! ### The bodies -/

section Bodies

variable {sha256Hex : String → String} {aes256Gcm : Aes256Gcm} {adapter : ContentAdapter}

theorem printable_agentValue (agent : Option RawPromptAgent) : Json.Printable (agentValue agent) := by
  cases agent with
  | none => exact trivial
  | some agent =>
    have depth : Json.Printable (depthValue agent.depth) := by
      cases agent.depth with
      | none => exact trivial
      | some depth => exact Json.numberToken_toString depth.toNat
    simp only [agentValue, Json.Printable, Json.PrintableEntries, depth, printable_optValue,
      and_self]

theorem printable_wire (r : RawContent) : Json.Printable (wire sha256Hex adapter r) := by
  simp only [wire, Json.Printable, Json.PrintableEntries, printable_optValue, printable_agentValue,
    and_self]

theorem printableItems_wire (records : List RawContent) :
    Json.PrintableItems (records.map (wire sha256Hex adapter)) := by
  induction records with
  | nil => exact trivial
  | cons record records ih => exact ⟨printable_wire record, ih⟩

/-- **A body is read as what was written.** -/
theorem parse_toPromptsBody (records : List RawContent) :
    Json.parse (toPromptsBody sha256Hex adapter records)
      = some (.array (records.map (wire sha256Hex adapter))) :=
  Json.parse_toCompact (printableItems_wire records)

theorem printable_e2eeWire (e2ee : E2eeMaterial) (record : RawContent)
    (encrypted : EncryptedPromptRecord) :
    Json.Printable (e2eeWire sha256Hex adapter e2ee record encrypted) := by
  have count (n : Nat) : Json.Printable (countValue n) := Json.numberToken_toString n
  simp only [e2eeWire, Json.Printable, Json.PrintableEntries, printable_optValue,
    printable_agentValue, count, and_self]

theorem printableItems_e2eeWire {e2ee : E2eeMaterial}
    (encrypted : List (RawContent × EncryptedPromptRecord)) :
    Json.PrintableItems (encrypted.map fun row =>
      e2eeWire sha256Hex adapter e2ee row.1 row.2) := by
  induction encrypted with
  | nil => exact trivial
  | cons row encrypted ih => exact ⟨printable_e2eeWire e2ee row.1 row.2, ih⟩

theorem e2eeRows_sealed (aead : IsAead aes256Gcm) {e2ee : E2eeMaterial}
    {records : List (RawContent × Material)} {rows : List Value}
    (made : e2eeRows sha256Hex aes256Gcm adapter e2ee records = .ok rows) :
    ∃ encrypted : List (RawContent × EncryptedPromptRecord),
      encrypted.map Prod.fst = records.map Prod.fst ∧
      rows = encrypted.map (fun row => e2eeWire sha256Hex adapter e2ee row.1 row.2) ∧
      (∀ row ∈ encrypted, row.2.ciphertext.length = row.1.text.utf8ByteSize ∧
        row.2.wrappedDek.length = 32) ∧
      List.Forall₂ (fun record row => row.1 = record.1 ∧ encryptRecord aes256Gcm e2ee.uck.toList
        (metadataOf sha256Hex adapter e2ee.ownerId record.1) (utf8Bytes record.1.text) record.2
          = .ok row.2) records encrypted := by
  unfold e2eeRows at made
  induction records generalizing rows with
  | nil =>
    cases made
    exact ⟨[], rfl, rfl, fun _ among => absurd among List.not_mem_nil, .nil⟩
  | cons record records ih =>
    rw [List.mapM_cons] at made
    obtain ⟨row, first, made⟩ := bind_eq_ok.mp made
    obtain ⟨rest, later, made⟩ := bind_eq_ok.mp made
    cases made
    obtain ⟨encrypted, same, rfl, lengths, each⟩ := ih later
    cases isSealed : encryptRecord aes256Gcm e2ee.uck.toList
        (metadataOf sha256Hex adapter e2ee.ownerId record.1) (utf8Bytes record.1.text) record.2 with
    | error error =>
      dsimp only at first
      rw [isSealed] at first
      cases first
    | ok sealed =>
      dsimp only at first
      rw [isSealed] at first
      cases first
      obtain ⟨ciphertext, wrappedDek⟩ := encryptRecord_lengths aead isSealed
      refine ⟨(record.1, sealed) :: encrypted, ?_, rfl, List.forall_mem_cons.mpr
        ⟨⟨ciphertext.trans (length_utf8Bytes _), wrappedDek⟩, lengths⟩, .cons ⟨rfl, isSealed⟩ each⟩
      rw [List.map_cons, List.map_cons, same]

theorem rows_of_toE2eePromptsBody {e2ee : E2eeMaterial} {records : List (RawContent × Material)}
    {body : String} (made : toE2eePromptsBody sha256Hex aes256Gcm adapter e2ee records = .ok body) :
    ∃ rows, e2eeRows sha256Hex aes256Gcm adapter e2ee records = .ok rows ∧
      body = Json.toCompact (.array rows) := by
  unfold toE2eePromptsBody at made
  cases isRows : e2eeRows sha256Hex aes256Gcm adapter e2ee records with
  | error error =>
    rw [isRows] at made
    cases made
  | ok rows =>
    rw [isRows] at made
    exact ⟨rows, rfl, (Except.ok.inj made).symm⟩

end Bodies

end PromptRecord

end Toard.Shim
