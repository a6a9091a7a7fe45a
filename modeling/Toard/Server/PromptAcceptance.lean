/-
**Which bodies of prompts the server takes.**

The collector cuts the turns of a run into requests of 1000 and clamps nothing; the server bounds
the body, and each text of a record.

* **`bodies_taken_iff`**: all bodies of a run are taken exactly if each is within the bound and each
  record fits.
-/

import Toard.Server.Agreement
import Toard.Server.PromptWire
import Toard.Server.ToolAcceptance

namespace Toard.Server.PromptWire

open Toard.Json (Value)
open Toard.Library
open Toard.Shim (RawContent RawPromptAgent ContentAdapter TurnRole epochMsToIso bind_eq_ok
  map_eq_ok_iff)
open Toard.Server.ToolWire (CHUNK readBoundedJson)
open Toard.Shim.PromptRecord
open Toard.Shim.ToolEvent (IsSha256Hex)
open Toard.Shim.UsageEvent (optValue countValue)

/-! ### The fields -/

def Within (max : Nat) (text : String) : Prop := 1 ≤ unitLength text ∧ unitLength text ≤ max

theorem unitLength_eq_zero {text : String} : unitLength text = 0 ↔ text = "" := by
  rw [unitLength, ← String.toList_eq_nil_iff]
  cases text.toList with
  | nil => exact iff_of_true rfl rfl
  | cons c rest =>
    refine iff_of_false (fun zero => ?_) nofun
    rw [List.map_cons, List.sum_cons] at zero
    split at zero <;> omega

theorem unitLength_pos {text : String} : 1 ≤ unitLength text ↔ text ≠ "" := by
  exact Nat.one_le_iff_ne_zero.trans unitLength_eq_zero.not

theorem unitLength_le (text : String) : unitLength text ≤ 2 * text.toList.length := by
  rw [unitLength]
  induction text.toList with
  | nil => exact Nat.zero_le _
  | cons c rest ih =>
    rw [List.map_cons, List.sum_cons, List.length_cons]
    split <;> omega

theorem nonEmptyString_string {s read field : String} :
    nonEmptyString (some (.string s)) field = .ok read ↔ s = read ∧ s ≠ "" := by
  rw [nonEmptyString]
  split
  case isTrue empty => exact iff_of_false nofun fun ⟨_, nonempty⟩ => nonempty (unitLength_eq_zero.mp empty)
  case isFalse nonempty =>
    rw [Except.ok.injEq]
    exact (and_iff_left (unitLength_eq_zero.not.mp nonempty)).symm

theorem boundedNullableString_optValue {s read : Option String} {field : String} {max : Nat} :
    boundedNullableString (some (optValue s)) field max = .ok read ↔
      s = read ∧ ∀ t ∈ s, Within max t := by
  cases s with
  | none =>
    rw [optValue, boundedNullableString, Except.ok.injEq]
    exact (and_iff_left fun t isText => absurd isText (Option.not_mem_none t)).symm
  | some s =>
    rw [optValue, boundedNullableString]
    split
    case isTrue outside =>
      simp only [Bool.or_eq_true, decide_eq_true_eq] at outside
      refine iff_of_false (by simp [refuse]) fun both => ?_
      have inside := both.2 s rfl
      unfold Within at inside
      omega
    case isFalse inside =>
      simp only [Bool.or_eq_true, decide_eq_true_eq, not_or] at inside
      rw [Except.ok.injEq]
      refine (and_iff_left fun t isText => ?_).symm
      rw [← Option.some_inj.mp isText, Within]
      omega

theorem boundedString_string {s read field : String} {max : Nat} :
    boundedString (some (.string s)) field max = .ok read ↔ s = read ∧ Within max s := by
  rw [boundedString]
  split
  case isTrue outside =>
    simp only [Bool.or_eq_true, decide_eq_true_eq] at outside
    refine iff_of_false nofun fun ⟨_, inside⟩ => ?_
    unfold Within at inside
    omega
  case isFalse inside =>
    simp only [Bool.or_eq_true, decide_eq_true_eq, not_or] at inside
    rw [Except.ok.injEq]
    refine (and_iff_left ?_).symm
    rw [Within]
    omega

theorem nullableString_optValue {s read : Option String} {field : String} {max : Nat} :
    nullableString (some (optValue s)) field max = .ok read ↔ s = read ∧ ∀ t ∈ s, Within max t := by
  cases s with
  | none =>
    rw [optValue, nullableString, Except.ok.injEq]
    exact (and_iff_left fun t isText => absurd isText (Option.not_mem_none t)).symm
  | some s =>
    have split : nullableString (some (optValue (some s))) field max
        = (boundedString (some (.string s)) field max).map some := rfl
    rw [split, map_eq_ok_iff boundedString_string]
    simp only [Option.mem_some_iff, forall_eq']

theorem optionalNullableString_optValue {s read : Option String} {field : String} {max : Nat} :
    optionalNullableString (some (optValue s)) field max = .ok read ↔
      s = read ∧ ∀ t ∈ s, Within max t := by
  rw [← nullableString_optValue]
  cases s <;> rfl

theorem safeBetween_countValue {low high n read : Nat} (safe : n ≤ Shim.maxSafeInteger) :
    safeBetween low high (some (countValue n)) = some read ↔ n = read ∧ low ≤ n ∧ n ≤ high := by
  have number : safeBetween low high (some (countValue n)) =
      if (low : Int) ≤ n ∧ (n : Int) ≤ high then some n else none := by
    rw [countValue, safeBetween, jsonNumber_toString safe]
    simp
  rw [number]
  split
  case isTrue inside =>
    rw [Option.some_inj]
    exact (and_iff_left (by omega)).symm
  case isFalse outside => exact iff_of_false (by simp) fun both => outside (by omega)

theorem roleField_text (role : TurnRole) (message : String) :
    roleField (some (.string role.text)) message = .ok role := by
  cases role <;> rfl

theorem textField_string {s read : String} : textField (some (.string s)) = .ok read ↔
    s = read ∧ s ≠ "" ∧ s.utf8ByteSize ≤ E2EE_MAX_CIPHERTEXT_BYTES := by
  simp only [textField, bind_eq_ok, nonEmptyString_string, and_assoc, exists_eq_left']
  split
  case isTrue large => exact iff_of_false nofun fun ⟨_, _, small⟩ => not_le.mpr large small
  case isFalse small =>
    rw [Except.ok.injEq, and_iff_left (not_lt.mp small)]
    exact and_comm

theorem dateOf_epochMsToIso {toUtc : Int → Int} {ms read : Int} {message : String} :
    dateOf toUtc (epochMsToIso ms) message = .ok read ↔ ms = read ∧ PrintsDate ms := by
  rw [dateOf, dateParse_epochMsToIso]
  by_cases prints : PrintsDate ms
  · rw [if_pos prints, and_iff_left prints]
    dsimp only
    rw [Except.ok.injEq]
  · rw [if_neg prints]
    exact iff_of_false nofun fun ⟨_, other⟩ => prints other

/-! ### The agent -/

structure AgentFits (agent : RawPromptAgent) : Prop where
  id : Within 255 agent.id
  parentId : ∀ t ∈ agent.parentId, Within 255 t
  name : ∀ t ∈ agent.name, Within 100 t
  role : ∀ t ∈ agent.role, Within 100 t
  depth : ∀ depth ∈ agent.depth, 1 ≤ depth.toNat ∧ depth.toNat ≤ 32

def receivedAgent (agent : RawPromptAgent) : PromptAgent where
  id := agent.id
  parentId := agent.parentId
  depth := agent.depth.map UInt8.toNat
  name := agent.name
  role := agent.role

theorem agentDepth_depthValue {depth : Option UInt8} {read : Option Nat} {message : String} :
    agentDepth (some (depthValue depth)) message = .ok read ↔
      depth.map UInt8.toNat = read ∧ ∀ d ∈ depth, 1 ≤ d.toNat ∧ d.toNat ≤ 32 := by
  cases depth with
  | none =>
    rw [depthValue, agentDepth, Except.ok.injEq, Option.map_none]
    exact (and_iff_left fun d isDepth => absurd isDepth (Option.not_mem_none d)).symm
  | some depth =>
    have safe : depth.toNat ≤ Shim.maxSafeInteger := by
      have := depth.toNat_lt
      unfold Shim.maxSafeInteger
      omega
    rw [Option.map_some]
    cases checked : safeBetween 1 32 (some (countValue depth.toNat)) with
    | none =>
      have refused : agentDepth (some (depthValue (some depth))) message = refuse message := by
        simp only [agentDepth, depthValue, countValue] at checked ⊢
        rw [checked]
      rw [refused]
      refine iff_of_false (by simp [refuse]) fun both => ?_
      have taken : safeBetween 1 32 (some (countValue depth.toNat)) = some depth.toNat :=
        (safeBetween_countValue safe).mpr ⟨rfl, both.2 depth rfl⟩
      rw [checked] at taken
      cases taken
    | some read' =>
      have kept : agentDepth (some (depthValue (some depth))) message = .ok (some read') := by
        simp only [agentDepth, depthValue, countValue] at checked ⊢
        rw [checked]
      obtain ⟨rfl, within⟩ := (safeBetween_countValue safe).mp checked
      rw [kept, Except.ok.injEq]
      exact (and_iff_left fun d isDepth => Option.some_inj.mp isDepth ▸ within).symm

theorem property_agentValue (agent : RawPromptAgent) :
    ∃ entries, agentValue (some agent) = .object entries ∧
      property "id" (.object entries) = some (optValue (some agent.id)) ∧
      property "parentId" (.object entries) = some (optValue agent.parentId) ∧
      property "depth" (.object entries) = some (depthValue agent.depth) ∧
      property "name" (.object entries) = some (optValue agent.name) ∧
      property "role" (.object entries) = some (optValue agent.role) ∧
      exactKeys entries ["id", "parentId", "depth", "name", "role"] = .ok () :=
  ⟨_, rfl, rfl, rfl, rfl, rfl, rfl, exactKeys_ok (by simp)⟩

/-- **Which agents pass**, in the plain form. -/
theorem parsePromptAgentWire_agentValue {agent : Option RawPromptAgent}
    {read : Option PromptAgent} :
    parsePromptAgentWire (some (agentValue agent)) = .ok read ↔
      agent.map receivedAgent = read ∧ ∀ a ∈ agent, AgentFits a := by
  cases agent with
  | none =>
    rw [agentValue, parsePromptAgentWire, Except.ok.injEq, Option.map_none]
    exact (and_iff_left fun a isAgent => absurd isAgent (Option.not_mem_none a)).symm
  | some agent =>
    obtain ⟨entries, object, id, parentId, depth, name, role, -⟩ := property_agentValue agent
    rw [object, parsePromptAgentWire]
    simp only [id, parentId, depth, name, role, bind_eq_ok, boundedNullableString_optValue,
      agentDepth_depthValue, and_assoc, exists_eq_left', Except.ok.injEq, pure, Except.pure,
      Option.map_some, Option.mem_some_iff, forall_eq']
    constructor
    · rintro ⟨id, parentId, name, role, depth, rfl⟩
      exact ⟨rfl, id, parentId, name, role, depth⟩
    · rintro ⟨rfl, fits⟩
      exact ⟨fits.id, fits.parentId, fits.name, fits.role, fits.depth, rfl⟩

theorem promptAgent_agentValue {agent : Option RawPromptAgent} {read : Option PromptAgent} :
    promptAgent (some (agentValue agent)) = .ok read ↔
      agent.map receivedAgent = read ∧ ∀ a ∈ agent, AgentFits a := by
  cases agent with
  | none =>
    rw [agentValue, promptAgent, Except.ok.injEq, Option.map_none]
    exact (and_iff_left fun a isAgent => absurd isAgent (Option.not_mem_none a)).symm
  | some agent =>
    obtain ⟨entries, object, id, parentId, depth, name, role, known⟩ := property_agentValue agent
    have idText : property "id" (.object entries) = some (.string agent.id) := id
    rw [object, promptAgent]
    simp only [idText, parentId, depth, name, role, known, bind_eq_ok, boundedString_string,
      optionalNullableString_optValue, agentDepth_depthValue, and_assoc, exists_eq_left',
      Except.ok.injEq, pure, Except.pure, Option.map_some, Option.mem_some_iff, forall_eq',
      exists_const]
    constructor
    · rintro ⟨-, depth, id, parentId, name, role, rfl⟩
      exact ⟨rfl, id, parentId, name, role, depth⟩
    · rintro ⟨rfl, fits⟩
      exact ⟨trivial, fits.depth, fits.id, fits.parentId, fits.name, fits.role, rfl⟩

/-! ### One record -/

structure Fits (record : RawContent) : Prop where
  sessionId : ∀ id ∈ record.sessionId, Within 255 id
  ts : PrintsDate record.tsMs
  text : record.text.utf8ByteSize ≤ E2EE_MAX_CIPHERTEXT_BYTES
  agent : ∀ agent ∈ record.agent, AgentFits agent

section Records

variable {sha256Hex : String → String} {adapter : ContentAdapter} {toUtc : Int → Int}

def received (sha256Hex : String → String) (adapter : ContentAdapter) (record : RawContent) :
    PromptRecordWire where
  dedupKey := contentDedupKey sha256Hex adapter record
  sessionId := record.sessionId
  providerKey := adapter.key
  turnRole := record.role
  ts := record.tsMs
  text := record.text
  agent := record.agent.map receivedAgent

theorem contentDedupKey_ne_empty (digest : IsSha256Hex sha256Hex) (record : RawContent) :
    contentDedupKey sha256Hex adapter record ≠ "" := by
  intro empty
  have length := digest.length (adapter.key ++ ":content:" ++ record.messageId.getD "" ++ ":" ++
    record.sessionId.getD "" ++ ":" ++ toString record.tsMs ++ ":" ++ record.role.text ++ ":" ++
    record.text)
  change (contentDedupKey sha256Hex adapter record).toList.length = 64 at length
  rw [empty] at length
  cases length

theorem key_ne_empty : adapter.key ≠ "" := by cases adapter <;> decide

/-- **Which plain records pass**, and as what. -/
theorem parsePromptRecordWire_wire (digest : IsSha256Hex sha256Hex) {record : RawContent}
    {parsed : PromptRecordWire} :
    parsePromptRecordWire toUtc (wire sha256Hex adapter record) = .ok parsed ↔
      received sha256Hex adapter record = parsed ∧ Fits record := by
  have fields : property "agent" (wire sha256Hex adapter record)
        = some (agentValue record.agent) ∧
      property "dedupKey" (wire sha256Hex adapter record)
        = some (.string (contentDedupKey sha256Hex adapter record)) ∧
      property "providerKey" (wire sha256Hex adapter record) = some (.string adapter.key) ∧
      property "sessionId" (wire sha256Hex adapter record) = some (optValue record.sessionId) ∧
      property "text" (wire sha256Hex adapter record) = some (.string record.text) ∧
      property "ts" (wire sha256Hex adapter record) = some (.string (epochMsToIso record.tsMs)) ∧
      property "turnRole" (wire sha256Hex adapter record) = some (.string record.role.text) :=
    ⟨rfl, rfl, rfl, rfl, rfl, rfl, rfl⟩
  obtain ⟨agent, dedup, provider, session, text, ts, turnRole⟩ := fields
  have isObject : isRecord (wire sha256Hex adapter record) = true := rfl
  have role : record.role.text ≠ "" := by cases record.role <;> decide
  rw [parsePromptRecordWire, if_pos isObject]
  simp only [agent, dedup, provider, session, text, ts, turnRole, bind_eq_ok, nonEmptyString_string,
    boundedNullableString_optValue, parsePromptAgentWire_agentValue, roleField_text,
    dateOf_epochMsToIso, textField_string, and_assoc, exists_eq_left', Except.ok.injEq, pure,
    Except.pure]
  constructor
  · rintro ⟨-, -, sessionId, -, -, prints, -, small, agent, rfl⟩
    exact ⟨rfl, sessionId, prints, small, agent⟩
  · rintro ⟨rfl, fits⟩
    exact ⟨contentDedupKey_ne_empty digest record, key_ne_empty, fits.sessionId, role,
      Shim.epochMsToIso_ne_empty _, fits.ts, record.nonempty, fits.text, fits.agent, rfl⟩

end Records

/-! ### One sealed record -/

theorem unitLength_of_small {text : String} (small : ∀ c ∈ text.toList, c.toNat ≤ 0xFFFF) :
    unitLength text = text.toList.length := by
  rw [unitLength]
  generalize text.toList = chars at small
  induction chars with
  | nil => rfl
  | cons c rest ih =>
    rw [List.forall_mem_cons] at small
    rw [List.map_cons, List.sum_cons, if_pos small.1, ih small.2, List.length_cons, Nat.add_comm]

theorem toNat_of_isHex {c : Char} (hex : isHex c = true) : c.toNat ≤ 0xFFFF := by
  simp only [isHex, Char.isDigit, Bool.or_eq_true, Bool.and_eq_true, decide_eq_true_eq] at hex
  have letter {a b : Char} (low : a ≤ b) : a.toNat ≤ b.toNat := low
  obtain (⟨-, digit⟩ | ⟨-, small⟩) | ⟨-, large⟩ := hex
  · have : c.toNat ≤ 57 := digit
    omega
  · exact (letter small).trans (by decide)
  · exact (letter large).trans (by decide)

theorem within_of_isUuid {text : String} (isId : isUuid text = true) : Within 64 text := by
  simp only [isUuid, Bool.and_eq_true, beq_iff_eq, List.all_eq_true, List.mem_range] at isId
  obtain ⟨length, places⟩ := isId
  have small : ∀ c ∈ text.toList, c.toNat ≤ 0xFFFF := by
    intro c among
    obtain ⟨place, inside, rfl⟩ := List.mem_iff_getElem.mp among
    have at_ := places place (by omega)
    rw [List.getD_eq_getElem?_getD, List.getElem?_eq_getElem inside, Option.getD_some] at at_
    split at at_
    case isTrue =>
      rw [beq_iff_eq] at at_
      rw [at_]
      decide
    case isFalse =>
      split at at_
      case isTrue =>
        rw [Bool.and_eq_true, decide_eq_true_eq, decide_eq_true_eq] at at_
        have high : (text.toList[place]).toNat ≤ '8'.toNat := at_.2
        exact high.trans (by decide)
      case isFalse =>
        split at at_
        case isTrue =>
          rw [List.contains_iff_mem] at at_
          have all : ∀ c ∈ ['8', '9', 'a', 'b', 'A', 'B'], c.toNat ≤ 0xFFFF :=
            List.all_iff_forall_prop.mp (by decide)
          exact all _ at_
        case isFalse => exact toNat_of_isHex at_
  rw [Within, unitLength_of_small small, length]
  exact ⟨by decide, by decide⟩

theorem fromBase64Url_b64url (value : List UInt8) (field : String) :
    fromBase64Url (some (.string (b64url value))) field
      = if value = [] then refuse (field ++ "는 padding 없는 base64url이어야 합니다")
        else .ok value := by
  have chars : (b64url value).toList = Base64.encode value := String.toList_ofList
  rw [fromBase64Url, chars, Base64.decode_encode]
  simp

theorem bytes_b64url {value : List UInt8} {field read : String} {length : Nat}
    (positive : 0 < length) : bytes (some (.string (b64url value))) field length = .ok read ↔
      b64url value = read ∧ value.length = length := by
  rw [bytes, fromBase64Url_b64url]
  by_cases empty : value = []
  · rw [if_pos empty]
    refine iff_of_false nofun fun ⟨_, sized⟩ => ?_
    rw [empty, List.length_nil] at sized
    omega
  · rw [if_neg empty]
    change (if value.length ≠ length then _ else _) = _ ↔ _
    split
    case isTrue other => exact iff_of_false nofun fun ⟨_, sized⟩ => other sized
    case isFalse sized =>
      rw [Except.ok.injEq, and_iff_left (not_not.mp sized)]
      exact Iff.rfl

theorem rangedBytes_b64url {value : List UInt8} {field read : String} {max : Nat} :
    rangedBytes (some (.string (b64url value))) field 1 max = .ok read ↔
      b64url value = read ∧ value ≠ [] ∧ value.length ≤ max := by
  rw [rangedBytes, fromBase64Url_b64url]
  by_cases empty : value = []
  · rw [empty]
    exact iff_of_false nofun fun ⟨_, other, _⟩ => other rfl
  · have isText : isText "" (some (.string (b64url value))) = false := by
      rw [isText, beq_eq_false_iff_ne]
      intro none
      have chars := congrArg String.toList none
      rw [b64url, String.toList_ofList] at chars
      exact empty (Base64.encode_eq_nil.mp chars)
    have some := List.length_pos_of_ne_nil empty
    rw [isText, if_neg Bool.false_ne_true, if_neg empty]
    change (if value.length < 1 then _ else if max < value.length then _ else _) = _ ↔ _
    rw [if_neg (not_lt.mpr some)]
    split
    case isTrue large => exact iff_of_false nofun fun ⟨_, _, small⟩ => not_le.mpr large small
    case isFalse small =>
      rw [Except.ok.injEq, and_iff_left ⟨empty, not_lt.mp small⟩]
      exact Iff.rfl

/-- What the sealed form asks of the key that a record is sealed for. -/
structure IsOwner (e2ee : E2eeMaterial) : Prop where
  ownerId : isUuid e2ee.ownerId = true
  keyVersion : 1 ≤ e2ee.keyVersion.toNat ∧ e2ee.keyVersion.toNat ≤ 32767

section Sealed

variable {sha256Hex : String → String} {adapter : ContentAdapter} {toUtc : Int → Int}
  {e2ee : E2eeMaterial}

def receivedSealed (sha256Hex : String → String) (adapter : ContentAdapter) (e2ee : E2eeMaterial)
    (record : RawContent) (encrypted : EncryptedPromptRecord) : E2eePromptRecordWire where
  contentOwnerId := e2ee.ownerId
  contentKeyVersion := e2ee.keyVersion.toNat
  dedupKey := contentDedupKey sha256Hex adapter record
  sessionId := record.sessionId
  providerKey := adapter.key
  turnRole := record.role
  ts := record.tsMs
  wrappedDek := b64url encrypted.wrappedDek
  dekWrapIv := b64url encrypted.dekWrapIv.toList
  dekWrapAuthTag := b64url encrypted.dekWrapAuthTag.toList
  iv := b64url encrypted.iv.toList
  ciphertext := b64url encrypted.ciphertext
  authTag := b64url encrypted.authTag.toList
  agent := record.agent.map receivedAgent

theorem within_contentDedupKey (digest : IsSha256Hex sha256Hex) (record : RawContent) :
    Within 255 (contentDedupKey sha256Hex adapter record) := by
  have length : (contentDedupKey sha256Hex adapter record).toList.length = 64 := digest.length _
  refine ⟨unitLength_pos.mpr (contentDedupKey_ne_empty digest record), ?_⟩
  exact (unitLength_le _).trans (by rw [length]; decide)

theorem within_epochMsToIso {ms : Int} (prints : PrintsDate ms) : Within 64 (epochMsToIso ms) := by
  have short := length_epochMsToIso_le prints
  refine ⟨unitLength_pos.mpr (Shim.epochMsToIso_ne_empty ms), (unitLength_le _).trans ?_⟩
  omega

theorem isoTimestamp_epochMsToIso {ms read : Int} :
    isoTimestamp toUtc (some (.string (epochMsToIso ms))) = .ok read ↔ ms = read ∧ PrintsDate ms := by
  simp only [isoTimestamp, bind_eq_ok, boundedString_string, and_assoc, exists_eq_left',
    dateOf_epochMsToIso]
  exact and_iff_right_of_imp fun ⟨_, prints⟩ => within_epochMsToIso prints

theorem uuid_string {s read field : String} :
    uuid (some (.string s)) field = .ok read ↔ s = read ∧ isUuid s = true := by
  simp only [uuid, bind_eq_ok, boundedString_string, and_assoc, exists_eq_left']
  cases isId : isUuid s with
  | false => exact iff_of_false (fun ⟨_, same⟩ => nomatch same) fun ⟨_, same⟩ => nomatch same
  | true =>
    rw [if_pos rfl, Except.ok.injEq, and_iff_left rfl, and_iff_right (within_of_isUuid isId)]

theorem positiveVersion_countValue {n read : Nat} (safe : n ≤ Shim.maxSafeInteger) :
    positiveVersion (some (countValue n)) = .ok read ↔ n = read ∧ 1 ≤ n ∧ n ≤ 32767 := by
  rw [positiveVersion, ← safeBetween_countValue safe]
  cases safeBetween 1 32767 (some (countValue n)) with
  | none => exact iff_of_false nofun nofun
  | some version => rw [Except.ok.injEq, Option.some_inj]

/-- **Which sealed records pass**, and as what. -/
theorem parseE2eePromptRecord_wire (digest : IsSha256Hex sha256Hex) {record : RawContent}
    {encrypted : EncryptedPromptRecord}
    (ciphertext : encrypted.ciphertext.length = record.text.utf8ByteSize)
    (wrappedDek : encrypted.wrappedDek.length = 32) {parsed : E2eePromptRecordWire} :
    parseE2eePromptRecord toUtc (e2eeWire sha256Hex adapter e2ee record encrypted) = .ok parsed ↔
      receivedSealed sha256Hex adapter e2ee record encrypted = parsed ∧ Fits record ∧
        IsOwner e2ee := by
  obtain ⟨entries, object, known, fields⟩ : ∃ entries,
      e2eeWire sha256Hex adapter e2ee record encrypted = .object entries ∧
      exactKeys entries E2EE_FIELDS = .ok () ∧
      isText "e2ee_v1" (property "schema" (.object entries)) = true ∧
      isText "AES-256-GCM" (property "algorithm" (.object entries)) = true ∧
      property "aadVersion" (.object entries) = some (countValue 1) ∧
      property "turnRole" (.object entries) = some (.string record.role.text) ∧
      property "agent" (.object entries) = some (agentValue record.agent) ∧
      property "contentOwnerId" (.object entries) = some (.string e2ee.ownerId) ∧
      property "contentKeyVersion" (.object entries) = some (countValue e2ee.keyVersion.toNat) ∧
      property "dedupKey" (.object entries)
        = some (.string (contentDedupKey sha256Hex adapter record)) ∧
      property "sessionId" (.object entries) = some (optValue record.sessionId) ∧
      property "providerKey" (.object entries) = some (.string adapter.key) ∧
      property "ts" (.object entries) = some (.string (epochMsToIso record.tsMs)) ∧
      property "wrappedDek" (.object entries) = some (.string (b64url encrypted.wrappedDek)) ∧
      property "dekWrapIv" (.object entries)
        = some (.string (b64url encrypted.dekWrapIv.toList)) ∧
      property "dekWrapAuthTag" (.object entries)
        = some (.string (b64url encrypted.dekWrapAuthTag.toList)) ∧
      property "iv" (.object entries) = some (.string (b64url encrypted.iv.toList)) ∧
      property "ciphertext" (.object entries) = some (.string (b64url encrypted.ciphertext)) ∧
      property "authTag" (.object entries) = some (.string (b64url encrypted.authTag.toList)) :=
    ⟨_, rfl, exactKeys_ok (by simp [E2EE_FIELDS]), rfl, rfl, rfl, rfl, rfl, rfl, rfl, rfl, rfl, rfl,
      rfl, rfl, rfl, rfl, rfl, rfl, rfl⟩
  obtain ⟨schema, algorithm, aadVersion, turnRole, agent, owner, version, dedup, session, provider,
    ts, wrapped, wrapIv, wrapTag, iv, cipher, tag⟩ := fields
  have one : safeBetween 1 1 (some (countValue 1)) = some 1 :=
    (safeBetween_countValue (by decide)).mpr ⟨rfl, le_rfl, le_rfl⟩
  have safe : e2ee.keyVersion.toNat ≤ Shim.maxSafeInteger := by
    have := e2ee.keyVersion.toNat_lt
    unfold Shim.maxSafeInteger
    omega
  have isProvider : Within 100 adapter.key := by
    unfold Within
    cases adapter <;> decide
  have isCipher : encrypted.ciphertext ≠ [] := by
    intro empty
    rw [empty, List.length_nil, eq_comm, String.utf8ByteSize_eq_zero_iff] at ciphertext
    exact record.nonempty ciphertext
  rw [object, parseE2eePromptRecord]
  simp only [known, schema, algorithm, aadVersion, turnRole, agent, owner, version, dedup, session,
    provider, ts, wrapped, wrapIv, wrapTag, iv, cipher, tag, one, roleField_text,
    promptAgent_agentValue, uuid_string, positiveVersion_countValue safe, boundedString_string,
    nullableString_optValue, isoTimestamp_epochMsToIso, bytes_b64url (show 0 < 32 by decide),
    bytes_b64url (show 0 < 12 by decide), bytes_b64url (show 0 < 16 by decide),
    rangedBytes_b64url, bind_eq_ok, and_assoc, exists_eq_left', Except.ok.injEq, pure, Except.pure,
    Bool.not_true, Bool.false_eq_true, if_false, Option.isNone_some, exists_const]
  constructor
  · rintro ⟨-, agent, owner, positive, small, -, session, -, ts, -, -, -, -, -, cipher, -, rfl⟩
    exact ⟨rfl, ⟨session, ts, ciphertext ▸ cipher, agent⟩, owner, positive, small⟩
  · rintro ⟨rfl, fits, isOwner⟩
    exact ⟨trivial, fits.agent, isOwner.ownerId, isOwner.keyVersion.1, isOwner.keyVersion.2,
      within_contentDedupKey digest record, fits.sessionId, isProvider, fits.ts, wrappedDek,
      Vector.length_toList, Vector.length_toList, Vector.length_toList, isCipher,
      ciphertext ▸ fits.text, Vector.length_toList, rfl⟩

end Sealed

/-! ### One body -/

theorem parseItems_map {α β : Type} {parse : Value → Except PromptWireError α} {wire : β → Value}
    {received : β → α} {condition : β → Prop} {index : Nat} {records : List β}
    (each : ∀ record ∈ records, ∀ parsed, parse (wire record) = .ok parsed ↔
      received record = parsed ∧ condition record) {parsed : List α} :
    parseItems parse index (records.map wire) = .ok parsed ↔
      records.map received = parsed ∧ ∀ record ∈ records, condition record := by
  induction records generalizing index parsed with
  | nil =>
    rw [List.map_nil, parseItems, Except.ok.injEq, List.map_nil]
    exact (and_iff_left fun _ among => absurd among List.not_mem_nil).symm
  | cons record records ih =>
    rw [List.forall_mem_cons] at each
    rw [List.map_cons, parseItems, List.map_cons, List.forall_mem_cons]
    cases first : parse (wire record) with
    | error error =>
      refine iff_of_false nofun fun ⟨_, holds, _⟩ => ?_
      have taken : parse (wire record) = .ok (received record) := (each.1 _).mpr ⟨rfl, holds⟩
      rw [first] at taken
      cases taken
    | ok read =>
      obtain ⟨rfl, holds⟩ := (each.1 _).mp first
      dsimp only
      rw [map_eq_ok_iff (ih each.2), and_iff_right holds]

theorem strict_agentValue (agent : Option RawPromptAgent) : strict (agentValue agent) = true := by
  have texts : ∀ text, strict (optValue text) = true := by
    rintro (_ | _) <;> rfl
  cases agent with
  | none => rfl
  | some agent =>
    have depth : strict (depthValue agent.depth) = true := by
      cases agent.depth with
      | none => rfl
      | some depth => exact strictNumber_toString depth.toNat
    simp only [agentValue, strict, strictEntries, depth, texts, Bool.and_self]

theorem strict_wire {sha256Hex : String → String} {adapter : ContentAdapter} (record : RawContent) :
    strict (wire sha256Hex adapter record) = true := by
  have texts : ∀ text, strict (optValue text) = true := by
    rintro (_ | _) <;> rfl
  simp only [wire, strict, strictEntries, texts, strict_agentValue, Bool.and_self]

theorem strict_e2eeWire {sha256Hex : String → String} {adapter : ContentAdapter}
    (e2ee : E2eeMaterial) (record : RawContent) (encrypted : EncryptedPromptRecord) :
    strict (e2eeWire sha256Hex adapter e2ee record encrypted) = true := by
  have texts : ∀ text, strict (optValue text) = true := by
    rintro (_ | _) <;> rfl
  have count (n : Nat) : strict (countValue n) = true := strictNumber_toString n
  simp only [e2eeWire, strict, strictEntries, texts, count, strict_agentValue, Bool.and_self]

theorem postPrompts_isOk {toUtc : Int → Int} {providers : List String} {body : String}
    (key : String) {items : List Value} (nonempty : items ≠ []) (read : jsonParse body = some (.array items))
    (keyed : ∀ batch, parsePromptBatch toUtc (.array items) = .ok batch →
      batch.providerKeys = items.map fun _ => key) :
    (∃ batch, postPrompts toUtc providers body = .ok batch) ↔
      body.utf8ByteSize ≤ MAX_BODY_BYTES ∧ key ∈ providers ∧
        ∃ batch, parsePromptBatch toUtc (.array items) = .ok batch := by
  rw [postPrompts, readBoundedJson]
  by_cases small : body.utf8ByteSize ≤ MAX_BODY_BYTES
  case neg =>
    rw [if_pos (not_le.mp small)]
    refine iff_of_false ?_ fun all => small all.1
    rintro ⟨_, same⟩
    cases same
  case pos =>
    rw [if_neg (not_lt.mpr small), read, and_iff_right small]
    dsimp only
    cases parsed : parsePromptBatch toUtc (.array items) with
    | error error =>
      refine iff_of_false ?_ ?_
      · rintro ⟨_, same⟩
        cases same
      · rintro ⟨_, _, same⟩
        cases same
    | ok batch =>
      rw [and_iff_left ⟨batch, rfl⟩]
      have unknown : batch.providerKeys.eraseDups.filter (fun key => !providers.contains key) = [] ↔
          key ∈ providers := by
        rw [keyed batch parsed, List.filter_eq_nil_iff]
        constructor
        · intro known
          obtain ⟨item, rest, rfl⟩ := List.exists_cons_of_ne_nil nonempty
          simpa using known key (List.mem_eraseDups.mpr List.mem_cons_self)
        · intro known key' among
          obtain ⟨_, -, rfl⟩ := List.mem_map.mp (List.mem_eraseDups.mp among)
          simpa using known
      dsimp only
      rw [← unknown]
      split
      case isTrue other =>
        refine iff_of_false ?_ other
        rintro ⟨_, same⟩
        cases same
      case isFalse same => exact iff_of_true ⟨batch, rfl⟩ (not_not.mp same)

section Bodies

variable {sha256Hex : String → String} {aes256Gcm : Aes256Gcm} {adapter : ContentAdapter}
  {toUtc : Int → Int} {providers : List String}

theorem parsePromptBatch_wire {records : List RawContent} (nonempty : records ≠ []) :
    parsePromptBatch toUtc (.array (records.map (wire sha256Hex adapter)))
      = (parseItems (parsePromptRecordWire toUtc) 0
          (records.map (wire sha256Hex adapter))).map .plaintext := by
  have plain (record : RawContent) : property "schema" (wire sha256Hex adapter record) = none := rfl
  have free : (records.map (wire sha256Hex adapter)).any
      (fun item => isText "e2ee_v1" (property "schema" item)) = false :=
    List.any_eq_false.mpr (List.forall_mem_map.mpr fun record _ => by
      rw [plain]
      exact Bool.false_ne_true)
  have unnamed : (records.map (wire sha256Hex adapter)).any
      (fun item => (property "schema" item).isSome) = false :=
    List.any_eq_false.mpr (List.forall_mem_map.mpr fun record _ => by
      rw [plain]
      exact Bool.false_ne_true)
  obtain ⟨record, rest, rfl⟩ := List.exists_cons_of_ne_nil nonempty
  have first : ((record :: rest).map (wire sha256Hex adapter)).all
      (fun item => isText "e2ee_v1" (property "schema" item)) = false := by
    rw [List.map_cons, List.all_cons, plain]
    rfl
  rw [List.map_cons] at free unnamed first ⊢
  simp only [parsePromptBatch, first, free, unnamed, Bool.false_eq_true, if_false]

/-- **Which plain bodies the server takes.** -/
theorem postPrompts_iff (digest : IsSha256Hex sha256Hex) {records : List RawContent}
    (nonempty : records ≠ []) :
    (∃ batch, postPrompts toUtc providers (toPromptsBody sha256Hex adapter records) = .ok batch) ↔
      (toPromptsBody sha256Hex adapter records).utf8ByteSize ≤ MAX_BODY_BYTES ∧
        adapter.key ∈ providers ∧ ∀ record ∈ records, Fits record := by
  have isStrict : strictItems (records.map (wire sha256Hex adapter)) = true :=
    strictItems_of_forall (List.forall_mem_map.mpr fun record _ => strict_wire record)
  have read : jsonParse (toPromptsBody sha256Hex adapter records)
      = some (.array (records.map (wire sha256Hex adapter))) := by
    rw [jsonParse, parse_toPromptsBody, Option.filter_some, strict, isStrict, if_pos rfl]
  have taken_iff {batch : ParsedPromptBatch} :
      parsePromptBatch toUtc (.array (records.map (wire sha256Hex adapter))) = .ok batch ↔
        .plaintext (records.map (received sha256Hex adapter)) = batch ∧
          ∀ record ∈ records, Fits record := by
    have items_iff {parsed : List PromptRecordWire} :
        parseItems (parsePromptRecordWire toUtc) 0 (records.map (wire sha256Hex adapter))
          = .ok parsed ↔ records.map (received sha256Hex adapter) = parsed ∧
            ∀ record ∈ records, Fits record :=
      parseItems_map fun record _ parsed => parsePromptRecordWire_wire digest
    rw [parsePromptBatch_wire nonempty]
    exact map_eq_ok_iff items_iff
  rw [postPrompts_isOk adapter.key (List.map_eq_nil_iff.not.mpr nonempty) read
    (fun batch parsed => by
      obtain ⟨rfl, -⟩ := taken_iff.mp parsed
      rw [ParsedPromptBatch.providerKeys, List.map_map, List.map_map]
      rfl)]
  simp only [taken_iff, exists_eq_left']

theorem parsePromptBatch_e2eeWire {e2ee : E2eeMaterial}
    {encrypted : List (RawContent × EncryptedPromptRecord)} (nonempty : encrypted ≠ [])
    (few : encrypted.length ≤ 1000) :
    parsePromptBatch toUtc
        (.array (encrypted.map fun row => e2eeWire sha256Hex adapter e2ee row.1 row.2))
      = (parseItems (parseE2eePromptRecord toUtc) 0
          (encrypted.map fun row => e2eeWire sha256Hex adapter e2ee row.1 row.2)).map .e2ee := by
  have all : (encrypted.map fun row => e2eeWire sha256Hex adapter e2ee row.1 row.2).all
      (fun item => isText "e2ee_v1" (property "schema" item)) = true :=
    List.all_eq_true.mpr (List.forall_mem_map.mpr fun _ _ => rfl)
  have short : ¬ 1000 < (encrypted.map fun row =>
      e2eeWire sha256Hex adapter e2ee row.1 row.2).length := by
    rw [List.length_map]
    exact not_lt.mpr few
  obtain ⟨row, rest, rfl⟩ := List.exists_cons_of_ne_nil nonempty
  rw [List.map_cons] at all short ⊢
  simp only [parsePromptBatch, all, if_true, parseE2eePromptRecordsBody, short, if_false]

theorem jsonParse_e2eeWire {e2ee : E2eeMaterial}
    (encrypted : List (RawContent × EncryptedPromptRecord)) :
    jsonParse (Json.toCompact (.array (encrypted.map fun row =>
        e2eeWire sha256Hex adapter e2ee row.1 row.2)))
      = some (.array (encrypted.map fun row => e2eeWire sha256Hex adapter e2ee row.1 row.2)) := by
  have printable : Json.Printable (.array (encrypted.map fun row =>
      e2eeWire sha256Hex adapter e2ee row.1 row.2)) := printableItems_e2eeWire encrypted
  have isStrict : strictItems (encrypted.map fun row =>
      e2eeWire sha256Hex adapter e2ee row.1 row.2) = true :=
    strictItems_of_forall (List.forall_mem_map.mpr fun row _ => strict_e2eeWire _ _ _)
  rw [jsonParse, Json.parse_toCompact printable, Option.filter_some, strict, isStrict, if_pos rfl]

/-- **Which sealed bodies the server takes.** -/
theorem postE2eePrompts_iff (digest : IsSha256Hex sha256Hex) (aead : IsAead aes256Gcm)
    {e2ee : E2eeMaterial} {records : List (RawContent × Material)} (nonempty : records ≠ [])
    (few : records.length ≤ 1000) {body : String}
    (made : toE2eePromptsBody sha256Hex aes256Gcm adapter e2ee records = .ok body) :
    (∃ batch, postPrompts toUtc providers body = .ok batch) ↔
      body.utf8ByteSize ≤ MAX_BODY_BYTES ∧ adapter.key ∈ providers ∧
        ∀ record ∈ records, Fits record.1 ∧ IsOwner e2ee := by
  obtain ⟨rows, isRows, rfl⟩ := rows_of_toE2eePromptsBody made
  obtain ⟨encrypted, same, rfl, lengths, -⟩ := e2eeRows_sealed aead isRows
  have count : encrypted.length = records.length := by
    have lengths := congrArg List.length same
    rwa [List.length_map, List.length_map] at lengths
  have some : encrypted ≠ [] := by
    rintro rfl
    exact nonempty (List.length_eq_zero_iff.mp count.symm)
  have read := @jsonParse_e2eeWire sha256Hex adapter e2ee encrypted
  have taken_iff {batch : ParsedPromptBatch} : parsePromptBatch toUtc
        (.array (encrypted.map fun row => e2eeWire sha256Hex adapter e2ee row.1 row.2))
          = .ok batch ↔
        .e2ee (encrypted.map fun row => receivedSealed sha256Hex adapter e2ee row.1 row.2)
          = batch ∧ ∀ row ∈ encrypted, Fits row.1 ∧ IsOwner e2ee := by
    have items_iff {parsed : List E2eePromptRecordWire} :
        parseItems (parseE2eePromptRecord toUtc) 0
            (encrypted.map fun row => e2eeWire sha256Hex adapter e2ee row.1 row.2) = .ok parsed ↔
          (encrypted.map fun row => receivedSealed sha256Hex adapter e2ee row.1 row.2) = parsed ∧
            ∀ row ∈ encrypted, Fits row.1 ∧ IsOwner e2ee :=
      parseItems_map fun row among parsed =>
        parseE2eePromptRecord_wire digest (lengths row among).1 (lengths row among).2
    rw [parsePromptBatch_e2eeWire some (by omega)]
    exact map_eq_ok_iff items_iff
  rw [postPrompts_isOk adapter.key (List.map_eq_nil_iff.not.mpr some) read
    (fun batch parsed => by
      obtain ⟨rfl, -⟩ := taken_iff.mp parsed
      rw [ParsedPromptBatch.providerKeys, List.map_map, List.map_map]
      rfl)]
  simp only [taken_iff, exists_eq_left']
  have each : (∀ row ∈ encrypted, Fits row.1 ∧ IsOwner e2ee) ↔
      ∀ record ∈ records, Fits record.1 ∧ IsOwner e2ee := by
    rw [← List.forall_mem_map (f := Prod.fst) (P := fun record => Fits record ∧ IsOwner e2ee),
      same, List.forall_mem_map]
  rw [each]

/-! ### The bodies of a run -/

def bodyOf (sha256Hex : String → String) (aes256Gcm : Aes256Gcm) (adapter : ContentAdapter)
    (e2ee : Option E2eeMaterial) (chunk : List (RawContent × Material)) :
    Except ContentCryptoError String :=
  match e2ee with
  | some e2ee => toE2eePromptsBody sha256Hex aes256Gcm adapter e2ee chunk
  | none => .ok (toPromptsBody sha256Hex adapter (chunk.map Prod.fst))

/-- The bodies of a run of `collect_content_for`, each with its chunk; one that cannot be sealed
ends the run. -/
def contentBodies (sha256Hex : String → String) (aes256Gcm : Aes256Gcm) (adapter : ContentAdapter)
    (e2ee : Option E2eeMaterial) : List (List (RawContent × Material)) →
    List (List (RawContent × Material) × String)
  | [] => []
  | chunk :: rest =>
    match bodyOf sha256Hex aes256Gcm adapter e2ee chunk with
    | .error _ => []
    | .ok body => (chunk, body) :: contentBodies sha256Hex aes256Gcm adapter e2ee rest

theorem of_mem_contentBodies {e2ee : Option E2eeMaterial}
    {requests : List (List (RawContent × Material))} {built : List (RawContent × Material) × String}
    (among : built ∈ contentBodies sha256Hex aes256Gcm adapter e2ee requests) :
    built.1 ∈ requests ∧ bodyOf sha256Hex aes256Gcm adapter e2ee built.1 = .ok built.2 := by
  induction requests with
  | nil => cases among
  | cons chunk rest ih =>
    rw [contentBodies] at among
    cases made : bodyOf sha256Hex aes256Gcm adapter e2ee chunk with
    | error error =>
      rw [made] at among
      cases among
    | ok body =>
      rw [made] at among
      obtain rfl | later := List.mem_cons.mp among
      · exact ⟨List.mem_cons_self, made⟩
      · exact ⟨List.mem_cons_of_mem _ (ih later).1, (ih later).2⟩

/-- **No body of a run is refused** exactly if each is within 4 MiB and each of its records fits. -/
theorem bodies_taken_iff (digest : IsSha256Hex sha256Hex) (aead : IsAead aes256Gcm)
    {e2ee : Option E2eeMaterial} {records : List (RawContent × Material)} :
    (∀ built ∈ contentBodies sha256Hex aes256Gcm adapter e2ee (chunks CHUNK records),
      ∃ batch, postPrompts toUtc providers built.2 = .ok batch) ↔
    ∀ built ∈ contentBodies sha256Hex aes256Gcm adapter e2ee (chunks CHUNK records),
      built.2.utf8ByteSize ≤ MAX_BODY_BYTES ∧ adapter.key ∈ providers ∧
        ∀ record ∈ built.1, Fits record.1 ∧ ∀ key ∈ e2ee, IsOwner key := by
  refine forall₂_congr fun built among => ?_
  obtain ⟨isChunk, made⟩ := of_mem_contentBodies among
  obtain ⟨nonempty, few⟩ := mem_chunks (by decide) isChunk
  cases e2ee with
  | none =>
    obtain ⟨chunk, body⟩ := built
    dsimp only at nonempty made ⊢
    cases made
    have plain : (∀ record ∈ chunk, Fits record.1 ∧ ∀ key ∈ (none : Option E2eeMaterial),
        IsOwner key) ↔ ∀ record ∈ chunk.map Prod.fst, Fits record := by
      rw [List.forall_mem_map]
      exact forall₂_congr fun record _ => and_iff_left nofun
    rw [plain]
    exact postPrompts_iff digest (List.map_eq_nil_iff.not.mpr nonempty)
  | some key =>
    simp only [Option.mem_some_iff, forall_eq']
    exact postE2eePrompts_iff digest aead nonempty few made

end Bodies

/-! ### A long message -/

def plainContent : RawContent where
  project := none
  tsMs := 1719800000123
  sessionId := some "session-1"
  messageId := some "msg_1"
  role := .user
  text := "hello"
  agent := none
  nonempty := by decide

def plainDigest (_ : String) : String :=
  "7aee13767c619ca368dea023d3a9cef9b7f62909386de6754849a85942f182ea"

theorem isSha256Hex_plainDigest : IsSha256Hex plainDigest :=
  ⟨fun text => by unfold plainDigest; decide,
    fun text => List.all_iff_forall_prop.mp (by unfold plainDigest; decide)⟩

def openSeal : Aes256Gcm := fun _ _ msg _ => some (msg ++ List.replicate 16 0)

theorem isAead_openSeal : IsAead openSeal := by
  intro key nonce msg aad sealed made
  rw [← Option.some_inj.mp made, List.length_append, List.length_replicate]

def plainMaterial : Material where
  dek := .replicate 32 0
  contentIv := .replicate 12 0
  dekWrapIv := .replicate 12 1
  apart := by decide

set_option maxRecDepth 8000 in
theorem bodies_taken_iff_plainContent : ∃ body batch,
    contentBodies plainDigest openSeal .claudeCode none (chunks CHUNK [(plainContent, plainMaterial)])
      = [([(plainContent, plainMaterial)], body)] ∧
    postPrompts id ["claude_code"] body = .ok batch := by
  have one : contentBodies plainDigest openSeal .claudeCode none
      (chunks CHUNK [(plainContent, plainMaterial)]) = [([(plainContent, plainMaterial)],
        toPromptsBody plainDigest .claudeCode [plainContent])] := by
    rw [chunks_of_length_le (List.cons_ne_nil _ _) (by decide)]
    rfl
  suffices taken : ∀ built ∈ contentBodies plainDigest openSeal .claudeCode none
      (chunks CHUNK [(plainContent, plainMaterial)]),
      ∃ batch, postPrompts id ["claude_code"] built.2 = .ok batch by
    obtain ⟨batch, same⟩ := taken _ (one ▸ List.mem_singleton_self _)
    exact ⟨_, batch, one, same⟩
  refine (bodies_taken_iff isSha256Hex_plainDigest isAead_openSeal).mpr ?_
  rw [one]
  refine List.forall_mem_singleton.mpr ⟨?_, by decide, List.forall_mem_singleton.mpr
    ⟨⟨?_, by decide, by decide, nofun⟩, nofun⟩⟩
  · change (toPromptsBody plainDigest .claudeCode [plainContent]).utf8ByteSize ≤ MAX_BODY_BYTES
    rw [toPromptsBody, Json.toCompact, String.utf8ByteSize_ofList]
    decide
  · intro id isId
    obtain rfl := Option.some_inj.mp isId
    exact ⟨by decide, by decide⟩

theorem utf8ByteSize_replicate (n : Nat) :
    (String.ofList (List.replicate n 'x')).utf8ByteSize = n := by
  rw [String.utf8ByteSize_ofList]
  induction n with
  | zero => rfl
  | succ n ih =>
    rw [List.replicate_succ, String.utf8Len_cons, ih]
    rfl

/-- **A turn of 1,048,577 letters**, the only one of its run. -/
theorem long_message_refused : ∃ record : RawContent, ∀ sha256Hex : String → String,
    IsSha256Hex sha256Hex →
    record.text = String.ofList (List.replicate 1048577 'x') ∧
    ∃ built ∈ contentBodies sha256Hex openSeal .claudeCode none
        (chunks CHUNK [(record, plainMaterial)]),
      ∀ batch, postPrompts id ["claude_code"] built.2 ≠ .ok batch := by
  have nonempty : String.ofList (List.replicate 1048577 'x') ≠ "" := by
    intro empty
    have size := utf8ByteSize_replicate 1048577
    rw [empty] at size
    cases size
  refine ⟨{ plainContent with text := String.ofList (List.replicate 1048577 'x'), nonempty },
    fun sha256Hex digest => ⟨rfl, ?_⟩⟩
  rw [chunks_of_length_le (List.cons_ne_nil _ _) (by rw [List.length_singleton]; decide)]
  refine ⟨_, List.mem_cons_self, fun batch taken => ?_⟩
  have fits := ((postPrompts_iff digest (List.cons_ne_nil _ _)).mp ⟨batch, taken⟩).2.2 _
    List.mem_cons_self
  have small := fits.text
  dsimp only at small
  rw [utf8ByteSize_replicate] at small
  exact absurd small (by decide)

end Toard.Server.PromptWire
