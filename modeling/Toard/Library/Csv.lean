/-
**Tables of comma-separated values.**

The grammar of RFC 4180. Outside of quotes a cell may have any character but a comma, a quote and
the two characters of a line break. The last line may be without its break if it is not empty.

* **`Csv.unique`**: a text is read in one way only.
* `Csv.of_lines`: lines of cells, each line with its break, are read as those cells.
-/

import Mathlib.Data.List.Forall2

namespace Toard.Library.Csv

def crlf : List Char := ['\r', '\n']

/-- What stands between two quotes, and the text that it is. -/
inductive Escaped : List Char → List Char → Prop
  | nil : Escaped [] []
  | char {c text value} : c ≠ '"' → Escaped text value → Escaped (c :: text) (c :: value)
  | quote {text value} : Escaped text value → Escaped ('"' :: '"' :: text) ('"' :: value)

def isText (c : Char) : Bool := !(['"', ',', '\r', '\n'].contains c)

inductive Field : List Char → List Char → Prop
  | plain {text} : (∀ c ∈ text, isText c = true) → Field text text
  | quoted {text value} : Escaped text value → Field ('"' :: (text ++ ['"'])) value

/-- The rest of a table, within a line or at the start of one. -/
inductive Rest : Bool → List Char → List (List (List Char)) → Prop
  | nil : Rest false [] []
  | last {within text value} : Field text value → (within = true ∨ text ≠ []) →
      Rest within text [[value]]
  | line {within text value after rows} : Field text value → Rest false after rows →
      Rest within (text ++ (crlf ++ after)) ([value] :: rows)
  | comma {within text value after cells rows} : Field text value →
      Rest true after (cells :: rows) → Rest within (text ++ ',' :: after) ((value :: cells) :: rows)

abbrev Table : List Char → List (List (List Char)) → Prop := Rest false

/-! ### One reading -/

/-- What may stand behind a cell. -/
def Ends (after : List Char) : Prop := ∀ c ∈ after.head?, c = ',' ∨ c = '\r'

theorem ends_nil : Ends [] := by
  intro c among
  cases among

theorem Escaped.unique {text value text' value' after after' : List Char}
    (escaped : Escaped text value) (escaped' : Escaped text' value') (ends : Ends after)
    (ends' : Ends after') (same : text ++ '"' :: after = text' ++ '"' :: after') :
    value = value' ∧ after = after' := by
  -- a quote within the text is doubled, and the one that ends it is not
  have closed {rest after : List Char} (ends : Ends after) : after ≠ '"' :: rest := fun isQuote =>
    absurd (ends '"' (by rw [isQuote]; rfl)) (by decide)
  induction escaped generalizing text' value' with
  | nil =>
    cases escaped' with
    | nil => exact ⟨rfl, (List.cons.inj same).2⟩
    | char different => exact absurd (List.cons.inj same).1.symm different
    | quote => exact absurd (List.cons.inj same).2 (closed ends)
  | char different _ ih =>
    cases escaped' with
    | nil => exact absurd (List.cons.inj same).1 different
    | char _ rest' =>
      obtain ⟨rfl, behind⟩ := ih rest' (List.cons.inj same).2
      exact ⟨congrArg (· :: _) (List.cons.inj same).1, behind⟩
    | quote => exact absurd (List.cons.inj same).1 different
  | quote _ ih =>
    cases escaped' with
    | nil => exact absurd (List.cons.inj same).2.symm (closed ends')
    | char different => exact absurd (List.cons.inj same).1.symm different
    | quote rest' =>
      obtain ⟨rfl, behind⟩ := ih rest' (List.cons.inj (List.cons.inj same).2).2
      exact ⟨rfl, behind⟩

theorem Field.unique {text value text' value' after after' : List Char} (field : Field text value)
    (field' : Field text' value') (ends : Ends after) (ends' : Ends after')
    (same : text ++ after = text' ++ after') : value = value' ∧ after = after' := by
  have stops {after : List Char} (ends : Ends after) :
      after.takeWhile isText = [] ∧ after.dropWhile isText = after := by
    cases after with
    | nil => exact ⟨rfl, rfl⟩
    | cons c rest =>
      have noText : isText c = false := by rcases ends c rfl with rfl | rfl <;> rfl
      exact ⟨List.takeWhile_cons_of_neg (by simp [noText]),
        List.dropWhile_cons_of_neg (by simp [noText])⟩
  have unquoted {text after rest : List Char} (plain : ∀ c ∈ text, isText c = true)
      (ends : Ends after) : text ++ after ≠ '"' :: rest := by
    intro same
    cases text with
    | nil => exact absurd (ends '"' (by rw [show after = _ from same]; rfl)) (by decide)
    | cons c text =>
      have isQuote : c = '"' := (List.cons.inj same).1
      exact absurd (plain c List.mem_cons_self) (by rw [isQuote]; decide)
  cases field with
  | plain plain =>
    cases field' with
    | plain plain' =>
      have first := congrArg (List.takeWhile isText) same
      have behind := congrArg (List.dropWhile isText) same
      rw [List.takeWhile_append_of_pos plain, List.takeWhile_append_of_pos plain',
        (stops ends).1, (stops ends').1, List.append_nil, List.append_nil] at first
      rw [List.dropWhile_append_of_pos plain, List.dropWhile_append_of_pos plain',
        (stops ends).2, (stops ends').2] at behind
      exact ⟨first, behind⟩
    | quoted => exact absurd same (unquoted plain ends)
  | quoted escaped =>
    cases field' with
    | plain plain' => exact absurd same.symm (unquoted plain' ends')
    | quoted escaped' =>
      rw [List.cons_append, List.cons_append, List.append_assoc, List.append_assoc] at same
      exact escaped.unique escaped' ends ends' (List.cons.inj same).2

theorem ends_crlf (after : List Char) : Ends (crlf ++ after) := fun _ among =>
  .inr (Option.some.inj among).symm

theorem ends_comma (after : List Char) : Ends (',' :: after) := fun _ among =>
  .inl (Option.some.inj among).symm

theorem Rest.unique {within : Bool} {text text' : List Char} {rows rows' : List (List (List Char))}
    (rest : Rest within text rows) (rest' : Rest within text' rows') (same : text = text') :
    rows = rows' := by
  induction rest generalizing text' rows' with
  | nil =>
    cases rest' with
    | nil => rfl
    | last _ filled => exact absurd same.symm (filled.resolve_left Bool.false_ne_true)
    | line => simp [crlf] at same
    | comma => simp at same
  | last field filled =>
    have ended := (List.append_nil _).trans same
    cases rest' with
    | nil => exact absurd same (filled.resolve_left Bool.false_ne_true)
    | last field' =>
      rw [(field.unique field' ends_nil ends_nil (ended.trans (List.append_nil _).symm)).1]
    | line field' => cases (field.unique field' ends_nil (ends_crlf _) ended).2
    | comma field' => cases (field.unique field' ends_nil (ends_comma _) ended).2
  | line field _ ih =>
    cases rest' with
    | nil => simp [crlf] at same
    | last field' =>
      cases (field.unique field' (ends_crlf _) ends_nil (same.trans (List.append_nil _).symm)).2
    | line field' after' =>
      obtain ⟨rfl, behind⟩ := field.unique field' (ends_crlf _) (ends_crlf _) same
      rw [ih after' (List.append_cancel_left behind)]
    | comma field' => cases (field.unique field' (ends_crlf _) (ends_comma _) same).2
  | comma field _ ih =>
    cases rest' with
    | nil => simp at same
    | last field' =>
      cases (field.unique field' (ends_comma _) ends_nil (same.trans (List.append_nil _).symm)).2
    | line field' => cases (field.unique field' (ends_comma _) (ends_crlf _) same).2
    | comma field' after' =>
      obtain ⟨rfl, behind⟩ := field.unique field' (ends_comma _) (ends_comma _) same
      obtain ⟨rfl, rfl⟩ := List.cons.inj (ih after' (List.cons.inj behind).2)
      rfl

/-- **A text is read in one way only.** -/
theorem unique {text : List Char} {rows rows' : List (List (List Char))}
    (table : Table text rows) (table' : Table text rows') : rows = rows' :=
  Rest.unique table table' rfl

/-! ### Lines of cells -/

theorem Rest.of_cells {within : Bool} {texts cells : List (List Char)} {after : List Char}
    {rows : List (List (List Char))} (fields : List.Forall₂ Field texts cells) (some_ : texts ≠ [])
    (rest : Rest false after rows) :
    Rest within ([','].intercalate texts ++ (crlf ++ after)) (cells :: rows) := by
  induction fields generalizing within with
  | nil => exact absurd rfl some_
  | @cons text value texts cells field fields ih =>
    cases fields with
    | nil =>
      rw [List.intercalate_singleton]
      exact .line field rest
    | cons next fields =>
      rw [List.intercalate_cons_cons, List.append_assoc, List.append_assoc]
      exact .comma field (ih (List.cons_ne_nil _ _))

theorem of_lines {lines : List (List (List Char))} {rows : List (List (List Char))}
    (fields : List.Forall₂ (List.Forall₂ Field) lines rows) (some_ : lines ≠ [])
    (wide : ∀ line ∈ lines, line ≠ []) :
    Table (crlf.intercalate (lines.map ([','].intercalate ·)) ++ crlf) rows := by
  induction fields with
  | nil => exact absurd rfl some_
  | @cons line row lines rows cells fields ih =>
    cases fields with
    | nil =>
      rw [List.map_singleton, List.intercalate_singleton]
      exact .of_cells cells (wide line List.mem_cons_self) .nil
    | cons next fields =>
      rw [List.map_cons, List.map_cons, List.intercalate_cons_cons, List.append_assoc,
        List.append_assoc]
      exact .of_cells cells (wide line List.mem_cons_self)
        (ih (List.cons_ne_nil _ _) fun other among => wide other (List.mem_cons_of_mem _ among))

end Toard.Library.Csv
