/-
**Reading back what was printed: `parse (toPretty v) = some v`.**

A printed value is read back exactly when its number tokens are tokens of the scanner, which
every token that `parse` itself produced is. So a document that was read, edited and printed is read
as it was left.

* **`parse_toPretty`**: a printed value. **`printable_of_parse`**: every value that `parse` returns;
  **`parse_toPretty_of_parse`**: it is read back from its print.
-/

import Toard.Json.Spelling

namespace Toard.Json

open Toard.Library

mutual

def Printable : Value → Prop
  | .number token => NumberToken token
  | .array items => PrintableItems items
  | .object entries => PrintableEntries entries
  | _ => True

def PrintableItems : List Value → Prop
  | [] => True
  | item :: items => Printable item ∧ PrintableItems items

def PrintableEntries : List (String × Value) → Prop
  | [] => True
  | (_, item) :: entries => Printable item ∧ PrintableEntries entries

end

theorem printableItems_iff {items : List Value} :
    PrintableItems items ↔ ∀ item ∈ items, Printable item := by
  induction items with
  | nil => exact ⟨fun _ => nofun, fun _ => trivial⟩
  | cons item items ih => rw [PrintableItems, ih, List.forall_mem_cons]

theorem printableEntries_iff {entries : List (String × Value)} :
    PrintableEntries entries ↔ ∀ entry ∈ entries, Printable entry.2 := by
  induction entries with
  | nil => exact ⟨fun _ => nofun, fun _ => trivial⟩
  | cons entry entries ih => rw [PrintableEntries, ih, List.forall_mem_cons]

/-! ### Printing -/

theorem blank_newLine (indent : Nat) : BlankText (newLine indent) := by
  intro c among
  rcases List.mem_cons.mp among with rfl | space
  · exact .inr (.inr (.inl rfl))
  · exact .inl (List.eq_of_mem_replicate space)

theorem spellsKey_writeString {blank : List Char} (blanks : BlankText blank) (name : String) :
    SpellsKey name (blank ++ (writeString name ++ ([] ++ [':']))) :=
  ⟨blanks, string_writeString name, blankText_nil⟩

mutual

/-- **A printed value spells it.** -/
theorem spells_writeValue (indent : Nat) (v : Value) (printable : Printable v) :
    Spells v (writeValue indent v) := by
  match v with
  | .null => exact .null
  | .bool true => exact .isTrue
  | .bool false => exact .isFalse
  | .number token => exact .number printable
  | .string text => exact .string (string_writeString text)
  | .array [] => exact .emptyArray blankText_nil
  | .array (item :: items) =>
    rw [Printable, PrintableItems] at printable
    rw [writeValue, List.append_assoc]
    exact .array (spells_writeItems indent items printable.2 item
      (spells_writeValue (indent + 1) item printable.1))
  | .object [] => exact .emptyObject blankText_nil
  | .object ((key, item) :: entries) =>
    rw [Printable, PrintableEntries] at printable
    have spelled := spells_writeEntries indent entries printable.2 key item
      (spells_writeValue (indent + 1) item printable.1)
    rw [writeValue]
    exact .object (by simpa using spelled)

theorem spells_writeItems (indent : Nat) (items : List Value) (printable : PrintableItems items)
    (item : Value) (spelled : Spells item (writeValue (indent + 1) item)) :
    SpellsItems (item :: items)
      (newLine (indent + 1) ++ (writeValue (indent + 1) item ++ writeItems indent items)) := by
  match items with
  | [] => exact .last (blank_newLine _) spelled (blank_newLine indent)
  | next :: items =>
    rw [PrintableItems] at printable
    have others := spells_writeItems indent items printable.2 next
      (spells_writeValue (indent + 1) next printable.1)
    rw [writeItems, List.append_assoc]
    exact .cons (blank_newLine _) spelled blankText_nil others

theorem spells_writeEntries (indent : Nat) (entries : List (String × Value))
    (printable : PrintableEntries entries) (key : String) (item : Value)
    (spelled : Spells item (writeValue (indent + 1) item)) :
    SpellsMembers ((key, item) :: entries) ((newLine (indent + 1) ++ (writeString key ++ ([] ++ [':'])))
      ++ ([' '] ++ (writeValue (indent + 1) item ++ writeEntries indent entries))) := by
  have space : BlankText [' '] := fun c among => .inl (List.mem_singleton.mp among)
  match entries with
  | [] => exact .last (spellsKey_writeString (blank_newLine _) key) space spelled (blank_newLine indent)
  | (nextKey, next) :: entries =>
    rw [PrintableEntries] at printable
    have others := spells_writeEntries indent entries printable.2 nextKey next
      (spells_writeValue (indent + 1) next printable.1)
    have all := SpellsMembers.cons (spellsKey_writeString (blank_newLine (indent + 1)) key) space spelled
      blankText_nil others
    simpa [writeEntries] using all

end

/-- **Round trip**: reading the printed document gives back the value. -/
theorem parse_toPretty {v : Value} (printable : Printable v) : parse (toPretty v) = some v := by
  refine parse_of_spells ?_
  rw [toPretty, String.toList_ofList]
  exact .mk blankText_nil (spells_writeValue 0 v printable) (blank_newLine 0)

theorem utf8ByteSize_toPretty (v : Value) :
    (toPretty v).utf8ByteSize = String.utf8Len (writeValue 0 v) + 1 := by
  rw [toPretty, String.utf8ByteSize_ofList, String.utf8Len_append]
  rfl

/-! ### Printing what was read -/

mutual

theorem Spells.printable : ∀ {v : Value} {s : List Char}, Spells v s → Printable v
  | _, _, .null => trivial
  | _, _, .isTrue => trivial
  | _, _, .isFalse => trivial
  | _, _, .number token => token
  | _, _, .string _ => trivial
  | _, _, .emptyArray _ => trivial
  | _, _, .array items => items.printable
  | _, _, .emptyObject _ => trivial
  | _, _, .object members => members.printable

theorem SpellsItems.printable : ∀ {items : List Value} {s : List Char}, SpellsItems items s →
    PrintableItems items
  | _, _, .last _ value _ => ⟨value.printable, trivial⟩
  | _, _, .cons _ value _ others => ⟨value.printable, others.printable⟩

theorem SpellsMembers.printable : ∀ {entries : List (String × Value)} {s : List Char},
    SpellsMembers entries s → PrintableEntries entries
  | _, _, .last _ _ value _ => ⟨value.printable, trivial⟩
  | _, _, .cons _ _ value _ others => ⟨value.printable, others.printable⟩

end

/-- **Every value that `parse` returns can be printed.** -/
theorem printable_of_parse {text : String} {v : Value} (read : parse text = some v) : Printable v := by
  have spelled := spells_of_parse read
  generalize text.toList = s at spelled
  obtain ⟨-, value, -⟩ := spelled
  exact value.printable

/-- **What was parsed is read back from its print**, number tokens, the order of the keys, repeated
keys and every character of a string included. -/
theorem parse_toPretty_of_parse {text : String} {v : Value} (read : parse text = some v) :
    parse (toPretty v) = some v :=
  parse_toPretty (printable_of_parse read)

theorem parse_toPretty_of_parse_escapes :
    ∃ v, parse "\x7b\"b\": \"\\u0000\\ud83d\\ude00\\\"\", \"b\": [-0.50e+1]\x7d" = some v ∧
      parse (toPretty v) = some v := by
  have accepted :
      (parse "\x7b\"b\": \"\\u0000\\ud83d\\ude00\\\"\", \"b\": [-0.50e+1]\x7d").isSome = true := by
    decide +kernel
  obtain ⟨v, read⟩ := Option.isSome_iff_exists.mp accepted
  exact ⟨v, read, parse_toPretty_of_parse read⟩

end Toard.Json
