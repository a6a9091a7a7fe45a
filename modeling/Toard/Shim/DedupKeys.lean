/-
**What the keys tell apart (`collect/mod.rs`, `tool_event.rs`).**

A key is a digest of fields joined with colons, and the ids among them may have colons of their own.
Two records are told apart by their keys if the ids have equally many colons; without that the parts
of the text can be cut in two ways.
-/

import Toard.Shim.Cursor
import Toard.Shim.PromptRecord
import Toard.Shim.ToolEvent

namespace Toard.Shim

open Library (append_separator_inj append_separator_inj_of_count)

def colons (text : String) : Nat := text.toList.count ':'

theorem toList_colon : ":".toList = [':'] := rfl

/-! ### Turns -/

theorem colon_notMem_role (role : TurnRole) : ':' ∉ role.text.toList := by
  cases role <;> decide

theorem role_inj {role role' : TurnRole} (same : role.text.toList = role'.text.toList) :
    role = role' := by
  cases role <;> cases role' <;> first | rfl | exact absurd same (by decide)

structure SameTurn (left right : RawContent) : Prop where
  messageId : left.messageId.getD "" = right.messageId.getD ""
  sessionId : left.sessionId.getD "" = right.sessionId.getD ""
  tsMs : left.tsMs = right.tsMs
  role : left.role = right.role
  text : left.text = right.text

theorem contentDedupKey_inj {sha256Hex : String → String} (free : Function.Injective sha256Hex)
    {adapter : ContentAdapter} {left right : RawContent}
    (messageColons : colons (left.messageId.getD "") = colons (right.messageId.getD ""))
    (sessionColons : colons (left.sessionId.getD "") = colons (right.sessionId.getD ""))
    (same : PromptRecord.contentDedupKey sha256Hex adapter left
      = PromptRecord.contentDedupKey sha256Hex adapter right) : SameTurn left right := by
  have texts := congrArg String.toList (free same)
  simp only [String.toList_append, List.append_assoc, toList_colon, List.singleton_append] at texts
  have texts := List.append_cancel_left (List.append_cancel_left texts)
  obtain ⟨messages, texts⟩ := append_separator_inj_of_count messageColons texts
  obtain ⟨sessions, texts⟩ := append_separator_inj_of_count sessionColons texts
  obtain ⟨times, texts⟩ := append_separator_inj (colon_notMem_toString_int _)
    (colon_notMem_toString_int _) texts
  obtain ⟨roles, texts⟩ := append_separator_inj (colon_notMem_role _) (colon_notMem_role _) texts
  exact ⟨String.toList_inj.mp messages, String.toList_inj.mp sessions, toList_toString_int_inj times,
    role_inj roles, String.toList_inj.mp texts⟩

/-! ### Usage -/

theorem count_colon_toString (n : Nat) : (toString n).toList.count ':' = 0 :=
  List.count_eq_zero.mpr (colon_notMem_toString n)

theorem count_colon_toString_int (n : Int) : (toString n).toList.count ':' = 0 :=
  List.count_eq_zero.mpr (colon_notMem_toString_int n)

section Usage

variable {sha256Hex : String → String} (free : Function.Injective sha256Hex) {adapter : String}
  {left right : RawUsage}

include free

theorem dedupKey_inj {id id' : String} (isLeft : left.messageId = some id)
    (isRight : right.messageId = some id') (idColons : colons id = colons id')
    (same : dedupKey sha256Hex adapter left = dedupKey sha256Hex adapter right) :
    id = id' ∧ SameBill left right := by
  obtain ⟨input, output, cacheRead, cacheCreation, model⟩ :=
    sameBill_of_dedupKey free isLeft isRight same
  simp only [dedupKey, isLeft, isRight] at same
  have texts := congrArg String.toList (free same)
  simp only [String.toList_append, List.append_assoc, toList_colon, List.singleton_append] at texts
  have texts := (List.cons.inj (List.append_cancel_left texts)).2
  obtain ⟨ids, -⟩ := append_separator_inj_of_count idColons texts
  have ids := String.toList_inj.mp ids
  exact ⟨ids, model ids, input, output, cacheRead, cacheCreation⟩

theorem colons_of_dedupKey {id : String} (isLeft : left.messageId = some id)
    (isRight : right.messageId = none)
    (same : dedupKey sha256Hex adapter left = dedupKey sha256Hex adapter right) :
    colons (right.sessionId.getD "") + colons (right.model.getD "")
      = colons id + colons (left.model.getD "") + 1 := by
  simp only [dedupKey, isLeft, isRight] at same
  have texts := congrArg String.toList (free same)
  have counted := congrArg (List.count ':') texts
  simp only [String.toList_append, List.count_append, toList_colon, List.count_singleton_self]
    at counted
  have time := count_colon_toString_int right.tsMs
  have numbers := And.intro (count_colon_toString right.inputTokens)
    (count_colon_toString right.outputTokens)
  have numbers' := And.intro (count_colon_toString left.inputTokens)
    (count_colon_toString left.outputTokens)
  have caches := And.intro (count_colon_toString left.cacheReadTokens)
    (count_colon_toString left.cacheCreationTokens)
  unfold colons
  omega

end Usage

/-! ### Calls of tools -/

theorem colon_notMem_kind (kind : ToolActivityKind) : ':' ∉ kind.debug.toList := by
  cases kind <;> decide

theorem kind_inj {kind kind' : ToolActivityKind} (same : kind.debug.toList = kind'.debug.toList) :
    kind = kind' := by
  cases kind <;> cases kind' <;> first | rfl | exact absurd same (by decide)

theorem ToolEvent.dedupKey_inj {sha256Hex : String → String} (free : Function.Injective sha256Hex)
    {provider : String} {left right : RawToolActivity}
    (callColons : colons left.callId = colons right.callId)
    (same : ToolEvent.dedupKey sha256Hex provider left = ToolEvent.dedupKey sha256Hex provider right) :
    left.callId = right.callId ∧ left.kind = right.kind ∧ left.itemKey = right.itemKey := by
  have texts := congrArg String.toList (free same)
  simp only [String.toList_append, List.append_assoc, toList_colon, List.singleton_append] at texts
  have texts := List.append_cancel_left (List.append_cancel_left texts)
  obtain ⟨calls, texts⟩ := append_separator_inj_of_count callColons (List.cons.inj texts).2
  obtain ⟨kinds, items⟩ := append_separator_inj (colon_notMem_kind _) (colon_notMem_kind _) texts
  exact ⟨String.toList_inj.mp calls, kind_inj kinds, String.toList_inj.mp items⟩

/-! ### All keys -/

/-- **Keys separate records whose ids have equally many colons.** -/
theorem keys_separate {sha256Hex : String → String} (free : Function.Injective sha256Hex) :
    (∀ adapter (left right : RawContent),
      colons (left.messageId.getD "") = colons (right.messageId.getD "") →
      colons (left.sessionId.getD "") = colons (right.sessionId.getD "") →
      PromptRecord.contentDedupKey sha256Hex adapter left
        = PromptRecord.contentDedupKey sha256Hex adapter right → SameTurn left right) ∧
    (∀ adapter (left right : RawUsage) (id id' : String), left.messageId = some id →
      right.messageId = some id' → colons id = colons id' →
      dedupKey sha256Hex adapter left = dedupKey sha256Hex adapter right →
      id = id' ∧ SameBill left right) ∧
    (∀ provider (left right : RawToolActivity), colons left.callId = colons right.callId →
      ToolEvent.dedupKey sha256Hex provider left = ToolEvent.dedupKey sha256Hex provider right →
      left.callId = right.callId ∧ left.kind = right.kind ∧ left.itemKey = right.itemKey) ∧
    ∀ adapter (left right : RawUsage) (id : String), left.messageId = some id →
      right.messageId = none →
      colons (right.sessionId.getD "") + colons (right.model.getD "")
        ≠ colons id + colons (left.model.getD "") + 1 →
      dedupKey sha256Hex adapter left ≠ dedupKey sha256Hex adapter right := by
  refine ⟨fun _ _ _ => contentDedupKey_inj free, fun _ _ _ _ _ => dedupKey_inj free,
    fun _ _ _ => ToolEvent.dedupKey_inj free, ?_⟩
  intro adapter left right id isLeft isRight uneven same
  exact uneven (colons_of_dedupKey free isLeft isRight same)

/-! ### Texts that are cut in two ways -/

section Collisions

theorem hello_nonempty : "hello" ≠ "" := by decide

def turnOf (messageId sessionId : Option String) : RawContent where
  project := none
  tsMs := 0
  sessionId := sessionId
  messageId := messageId
  role := .user
  text := "hello"
  agent := none
  nonempty := hello_nonempty

def usageOf (messageId sessionId : Option String) (model : String) (tsMs : Int)
    (input output cacheRead cacheCreation : Nat) : RawUsage where
  project := none
  tsMs := tsMs
  sessionId := sessionId
  model := some model
  messageId := messageId
  inputTokens := input
  outputTokens := output
  cacheReadTokens := cacheRead
  cacheCreationTokens := cacheCreation
  cacheCreation1hTokens := 0

def callOf (callId itemKey : String) : RawToolActivity where
  project := none
  tsMs := 0
  sessionId := none
  callId := callId
  kind := .mcp
  itemKey := itemKey
  pluginKey := none
  outcome := .success
  detection := .explicit

theorem keys_separate_plain :
    SameTurn (turnOf (some "m") (some "s")) (turnOf (some "m") (some "s")) ∧
      dedupKey unary "codex" (usageOf (some "m") none "gpt" 0 1 2 3 4)
        ≠ dedupKey unary "codex" (usageOf none (some "m") "gpt" 0 1 2 3 4) := by
  obtain ⟨turns, -, -, apart⟩ := keys_separate unary_injective
  exact ⟨turns .codex _ _ rfl rfl rfl, apart "codex" _ _ "m" rfl rfl (by decide)⟩

/-- Four pairs of records, each of one text: two turns, two usages with ids, a usage with an id and
one without, two calls. -/
theorem keys_collide :
    ¬ ∀ sha256Hex : String → String, Function.Injective sha256Hex →
      (∀ adapter (left right : RawContent),
        PromptRecord.contentDedupKey sha256Hex adapter left
          = PromptRecord.contentDedupKey sha256Hex adapter right → SameTurn left right) ∨
      (∀ adapter (left right : RawUsage) (id id' : String), left.messageId = some id →
        right.messageId = some id' →
        dedupKey sha256Hex adapter left = dedupKey sha256Hex adapter right →
        id = id' ∧ SameBill left right) ∨
      (∀ adapter (left right : RawUsage) (id : String), left.messageId = some id →
        right.messageId = none →
        dedupKey sha256Hex adapter left ≠ dedupKey sha256Hex adapter right) ∨
      ∀ provider (left right : RawToolActivity),
        ToolEvent.dedupKey sha256Hex provider left = ToolEvent.dedupKey sha256Hex provider right →
        left.callId = right.callId ∧ left.kind = right.kind ∧ left.itemKey = right.itemKey := by
  intro separate
  obtain turns | usages | kinds | calls := separate unary unary_injective
  · have same := turns .codex (turnOf (some "a:b") (some "c")) (turnOf (some "a") (some "b:c"))
      (congrArg unary (by decide))
    exact absurd same.messageId (by decide)
  · have same := usages "codex" (usageOf (some "a:b") none "c" 0 1 2 3 4)
      (usageOf (some "a") none "b:c" 0 1 2 3 4) "a:b" "a" rfl rfl (congrArg unary (by decide))
    exact absurd same.1 (by decide)
  · exact kinds "codex" (usageOf (some "s") none "5:m" 0 1 2 3 4)
      (usageOf none (some "s") "m:1:2" 5 3 4 0 0) "s" rfl rfl (congrArg unary (by decide))
  · have same := calls "codex" (callOf "x" "y:Mcp:z") (callOf "x:Mcp:y" "z")
      (congrArg unary (by decide))
    exact absurd same.1 (by decide)

end Collisions

end Toard.Shim
