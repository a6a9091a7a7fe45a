/-
**The compact text of a value (`serde_json::to_string`).**

The bodies of the requests for tools and prompts are written without blanks between the parts.
Strings are escaped as in the pretty text.

* **`parse_toCompact`**: reading the text gives back the value.
-/

import Toard.Json.RoundTrip

namespace Toard.Json

open Toard.Library

mutual

def writeCompact : Value → List Char
  | .null => ['n', 'u', 'l', 'l']
  | .bool true => ['t', 'r', 'u', 'e']
  | .bool false => ['f', 'a', 'l', 's', 'e']
  | .number token => token.toList
  | .string text => writeString text
  | .array [] => ['[', ']']
  | .array (item :: items) => '[' :: (writeCompact item ++ compactItems items)
  | .object [] => ['\x7b', '\x7d']
  | .object ((key, item) :: entries) =>
    '\x7b' :: (writeString key ++ ':' :: (writeCompact item ++ compactEntries entries))

def compactItems : List Value → List Char
  | [] => [']']
  | item :: items => ',' :: (writeCompact item ++ compactItems items)

def compactEntries : List (String × Value) → List Char
  | [] => ['\x7d']
  | (key, item) :: entries =>
    ',' :: (writeString key ++ ':' :: (writeCompact item ++ compactEntries entries))

end

/-- `serde_json::to_string`. -/
def toCompact (value : Value) : String := String.ofList (writeCompact value)

/-! ### Reading -/

mutual

/-- **The compact text spells the value.** -/
theorem spells_writeCompact (v : Value) (printable : Printable v) : Spells v (writeCompact v) := by
  match v with
  | .null => exact .null
  | .bool true => exact .isTrue
  | .bool false => exact .isFalse
  | .number token => exact .number printable
  | .string text => exact .string (string_writeString text)
  | .array [] => exact .emptyArray blankText_nil
  | .array (item :: items) =>
    rw [Printable, PrintableItems] at printable
    exact .array (spells_compactItems items printable.2 item
      (spells_writeCompact item printable.1))
  | .object [] => exact .emptyObject blankText_nil
  | .object ((key, item) :: entries) =>
    rw [Printable, PrintableEntries] at printable
    have spelled := spells_compactEntries entries printable.2 key item
      (spells_writeCompact item printable.1)
    rw [writeCompact]
    exact .object (by simpa using spelled)

theorem spells_compactItems (items : List Value) (printable : PrintableItems items) (item : Value)
    (spelled : Spells item (writeCompact item)) :
    SpellsItems (item :: items) (writeCompact item ++ compactItems items) := by
  match items with
  | [] => exact .last blankText_nil spelled blankText_nil
  | next :: items =>
    rw [PrintableItems] at printable
    exact .cons blankText_nil spelled blankText_nil
      (spells_compactItems items printable.2 next (spells_writeCompact next printable.1))

theorem spells_compactEntries (entries : List (String × Value))
    (printable : PrintableEntries entries) (key : String) (item : Value)
    (spelled : Spells item (writeCompact item)) :
    SpellsMembers ((key, item) :: entries) (([] ++ (writeString key ++ ([] ++ [':'])))
      ++ (writeCompact item ++ compactEntries entries)) := by
  match entries with
  | [] => exact .last (spellsKey_writeString blankText_nil key) blankText_nil spelled blankText_nil
  | (nextKey, next) :: entries =>
    rw [PrintableEntries] at printable
    have others := spells_compactEntries entries printable.2 nextKey next
      (spells_writeCompact next printable.1)
    have all := SpellsMembers.cons (spellsKey_writeString blankText_nil key) blankText_nil spelled
      blankText_nil others
    simpa [compactEntries] using all

end

/-- **Round trip**: reading the text gives back the value. -/
theorem parse_toCompact {v : Value} (printable : Printable v) : parse (toCompact v) = some v := by
  have spelled := SpellsText.mk blankText_nil (spells_writeCompact v printable) blankText_nil
  rw [List.nil_append, List.append_nil] at spelled
  refine parse_of_spells ?_
  rwa [toCompact, String.toList_ofList]

end Toard.Json
