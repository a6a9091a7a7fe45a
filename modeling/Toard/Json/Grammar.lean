/-
**The parser against the grammar of JSON texts.**

What `parse` takes is a text of the grammar, with its own number tokens for numbers and with
surrogate escapes in pairs; and it takes every text of the grammar whose numbers are tokens of its
scanner.

* **`parse_grammar`**: the standard's texts with paired surrogate escapes are accepted, and an
  accepted text is one of them if its number tokens are numbers of the standard.
-/

import Toard.Json.Spelling

namespace Toard.Json

open Toard.Library

/-! ### Number tokens -/

mutual

def numberTokens : Value → List String
  | .number token => [token]
  | .array items => itemTokens items
  | .object entries => entryTokens entries
  | _ => []

def itemTokens : List Value → List String
  | [] => []
  | item :: items => numberTokens item ++ itemTokens items

def entryTokens : List (String × Value) → List String
  | [] => []
  | (_, item) :: entries => numberTokens item ++ entryTokens entries

end

def Numbers (number : List Char → Prop) (v : Value) : Prop :=
  ∀ token ∈ numberTokens v, number token.toList

section Tokens

variable {number : List Char → Prop}

theorem numbers_array {items : List Value} :
    Numbers number (.array items) ↔ ∀ item ∈ items, Numbers number item := by
  unfold Numbers
  rw [numberTokens]
  induction items with
  | nil => simp [itemTokens]
  | cons item items ih => rw [itemTokens, List.forall_mem_append, List.forall_mem_cons, ih]

theorem numbers_object {entries : List (String × Value)} :
    Numbers number (.object entries) ↔ ∀ entry ∈ entries, Numbers number entry.2 := by
  unfold Numbers
  rw [numberTokens]
  induction entries with
  | nil => simp [entryTokens]
  | cons entry entries ih => rw [entryTokens, List.forall_mem_append, List.forall_mem_cons, ih]

end Tokens

/-! ### What is read is in the grammar -/

section Texts

variable {number : List Char → Prop}

theorem SpellsKey.text {name : String} {key : List Char} (isKey : SpellsKey name key) :
    KeyText (StringBody PairedText) key := by
  obtain ⟨blank, quoted, blank'⟩ := isKey
  simp only [← List.append_assoc]
  exact ⟨blank, quoted.valid, blank'⟩

mutual

theorem Spells.text : ∀ {v : Value} {s : List Char}, Spells v s → Numbers number v →
    ValueText number (StringBody PairedText) s
  | _, _, .null, _ => .null
  | _, _, .isTrue, _ => .true
  | _, _, .isFalse, _ => .false
  | .number token, _, .number _, all => .number (all token (by
    rw [numberTokens]
    exact List.mem_singleton_self token))
  | _, _, .string quoted, _ => .string quoted.valid
  | _, _, .emptyArray blank, _ => .emptyArray blank
  | _, _, .array items, all => by
    obtain ⟨text, rfl, valid⟩ := items.text (numbers_array.mp all)
    exact .array valid
  | _, _, .emptyObject blank, _ => .emptyObject blank
  | _, _, .object members, all => by
    obtain ⟨text, rfl, valid⟩ := members.text (numbers_object.mp all)
    exact .object valid

theorem SpellsItems.text : ∀ {items : List Value} {s : List Char}, SpellsItems items s →
    (∀ item ∈ items, Numbers number item) →
    ∃ text, s = text ++ [']'] ∧ ItemsText number (StringBody PairedText) text
  | _, _, .last blank value blank', all =>
    ⟨_, by simp, .last blank (value.text (all _ List.mem_cons_self)) blank'⟩
  | _, _, .cons blank value blank' others, all => by
    rw [List.forall_mem_cons] at all
    obtain ⟨text, rfl, valid⟩ := others.text all.2
    exact ⟨_, by simp, .cons blank (value.text all.1) blank' valid⟩

theorem SpellsMembers.text : ∀ {entries : List (String × Value)} {s : List Char},
    SpellsMembers entries s → (∀ entry ∈ entries, Numbers number entry.2) →
    ∃ text, s = text ++ ['\x7d'] ∧ MembersText number (StringBody PairedText) text
  | _, _, .last isKey blank value blank', all =>
    ⟨_, by simp, .last isKey.text blank (value.text (all _ List.mem_cons_self)) blank'⟩
  | _, _, .cons isKey blank value blank' others, all => by
    rw [List.forall_mem_cons] at all
    obtain ⟨text, rfl, valid⟩ := others.text all.2
    exact ⟨_, by simp, .cons isKey.text blank (value.text all.1) blank' valid⟩

end

theorem text_of_parse {text : String} {v : Value} (read : parse text = some v)
    (numbers : Numbers number v) : JsonText number (StringBody PairedText) text.toList := by
  have spelled := spells_of_parse read
  generalize text.toList = s at spelled ⊢
  obtain ⟨blank, value, blank'⟩ := spelled
  rw [← List.append_assoc]
  exact ⟨blank, value.text numbers, blank'⟩

/-! ### What is in the grammar is read -/

theorem exists_spellsKey {key : List Char} (isKey : KeyText (StringBody PairedText) key) :
    ∃ name, SpellsKey name key := by
  obtain ⟨blank, quoted, blank'⟩ := isKey
  obtain ⟨name, spelled⟩ := exists_string quoted
  simp only [List.append_assoc]
  exact ⟨name, blank, spelled, blank'⟩

mutual

theorem exists_spells (tokens : ∀ s, number s → NumberToken (String.ofList s)) :
    ∀ {s : List Char}, ValueText number (StringBody PairedText) s → ∃ v, Spells v s
  | _, .null => ⟨_, .null⟩
  | _, .true => ⟨_, .isTrue⟩
  | _, .false => ⟨_, .isFalse⟩
  | s, .number isNumber => ⟨_, by
    have spelled := Spells.number (tokens s isNumber)
    rwa [String.toList_ofList] at spelled⟩
  | _, .string quoted => by
    obtain ⟨text, spelled⟩ := exists_string quoted
    exact ⟨_, .string spelled⟩
  | _, .emptyArray blank => ⟨_, .emptyArray blank⟩
  | _, .array isItems => by
    obtain ⟨items, spelled⟩ := exists_spellsItems tokens isItems
    exact ⟨_, .array spelled⟩
  | _, .emptyObject blank => ⟨_, .emptyObject blank⟩
  | _, .object isMembers => by
    obtain ⟨entries, spelled⟩ := exists_spellsMembers tokens isMembers
    exact ⟨_, .object spelled⟩

theorem exists_spellsItems (tokens : ∀ s, number s → NumberToken (String.ofList s)) :
    ∀ {s : List Char}, ItemsText number (StringBody PairedText) s →
      ∃ items, SpellsItems items (s ++ [']'])
  | _, .last blank isValue blank' => by
    obtain ⟨v, spelled⟩ := exists_spells tokens isValue
    exact ⟨_, by simpa using SpellsItems.last blank spelled blank'⟩
  | _, .cons blank isValue blank' isItems => by
    obtain ⟨v, spelled⟩ := exists_spells tokens isValue
    obtain ⟨items, others⟩ := exists_spellsItems tokens isItems
    exact ⟨_, by simpa using SpellsItems.cons blank spelled blank' others⟩

theorem exists_spellsMembers (tokens : ∀ s, number s → NumberToken (String.ofList s)) :
    ∀ {s : List Char}, MembersText number (StringBody PairedText) s →
      ∃ entries, SpellsMembers entries (s ++ ['\x7d'])
  | _, .last isKey blank isValue blank' => by
    obtain ⟨name, key⟩ := exists_spellsKey isKey
    obtain ⟨v, spelled⟩ := exists_spells tokens isValue
    exact ⟨_, by simpa using SpellsMembers.last key blank spelled blank'⟩
  | _, .cons isKey blank isValue blank' isMembers => by
    obtain ⟨name, key⟩ := exists_spellsKey isKey
    obtain ⟨v, spelled⟩ := exists_spells tokens isValue
    obtain ⟨entries, others⟩ := exists_spellsMembers tokens isMembers
    exact ⟨_, by simpa using SpellsMembers.cons key blank spelled blank' others⟩

end

theorem parse_of_text (tokens : ∀ s, number s → NumberToken (String.ofList s)) {text : String}
    (valid : JsonText number (StringBody PairedText) text.toList) :
    (parse text).isSome = true := by
  obtain ⟨v, spelled⟩ : ∃ v, SpellsText v text.toList := by
    generalize text.toList = s at valid
    obtain ⟨blank, isValue, blank'⟩ := valid
    obtain ⟨v, spelled⟩ := exists_spells tokens isValue
    rw [List.append_assoc]
    exact ⟨v, blank, spelled, blank'⟩
  rw [parse_of_spells spelled]
  rfl

end Texts

/-- **The parser and the grammar.** Every text of the standard is accepted, if its surrogate escapes
come in pairs; and an accepted text whose number tokens are numbers of the standard is such a
text. -/
theorem parse_grammar (text : String) :
    (JsonText NumberText (StringBody PairedText) text.toList → (parse text).isSome = true) ∧
    (∀ v, parse text = some v → Numbers NumberText v →
      JsonText NumberText (StringBody PairedText) text.toList) ∧
    (JsonText NumberText (StringBody PairedText) text.toList →
      JsonText NumberText (StringBody CharText) text.toList) :=
  ⟨parse_of_text fun _ => numberToken_of_text, fun _ => text_of_parse,
    JsonText.mono (fun _ => id) fun _ => stringBody_of_paired⟩

/-- A text of the standard with a single surrogate escape is refused. -/
theorem not_every_text_accepted : ¬ ∀ text : String, (parse text).isSome = true ↔
    JsonText NumberText (StringBody CharText) text.toList := by
  intro claim
  have letter : HexDigit 'd' := .inr (.inl (by decide))
  have eight : HexDigit '8' := .inl (by decide)
  have zero : HexDigit '0' := .inl (by decide)
  have standard : JsonText NumberText (StringBody CharText) "\"\\ud800\"".toList := by
    have body : StringBody CharText ['\\', 'u', 'd', '8', '0', '0'] :=
      .single (.hex letter eight zero zero)
    exact JsonText.mk blankText_nil (.string (.mk body)) blankText_nil
  exact absurd ((claim _).mpr standard) (by decide)

end Toard.Json
