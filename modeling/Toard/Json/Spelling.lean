/-
**What the parser reads.**

`Spells v s`: the text `s` writes the value `v`, with blanks anywhere between its parts, a number as
its token and a string in any of its escaped forms. The printers and the bodies of requests are such
texts, and so is every text of the grammar.

* `Spells.reads`: what spells a value is read as it; `spelled`: what is read spells the value.
* **`parse_iff_spells`**: a document is read as a value exactly if it spells it among blanks.
-/

import Toard.Json.Numbers

namespace Toard.Json

open Toard.Library

/-- A key with its colon, and the blanks around the key. -/
inductive SpellsKey (name : String) : List Char → Prop
  | mk {before quoted after : List Char} : BlankText before → SpellsString name quoted →
      BlankText after → SpellsKey name (before ++ (quoted ++ (after ++ [':'])))

mutual

inductive Spells : Value → List Char → Prop
  | null : Spells .null ['n', 'u', 'l', 'l']
  | isTrue : Spells (.bool true) ['t', 'r', 'u', 'e']
  | isFalse : Spells (.bool false) ['f', 'a', 'l', 's', 'e']
  | number {token : String} : NumberToken token → Spells (.number token) token.toList
  | string {text : String} {quoted : List Char} : SpellsString text quoted →
      Spells (.string text) quoted
  | emptyArray {blank : List Char} : BlankText blank →
      Spells (.array []) ('[' :: (blank ++ [']']))
  | array {items : List Value} {s : List Char} : SpellsItems items s → Spells (.array items) ('[' :: s)
  | emptyObject {blank : List Char} : BlankText blank →
      Spells (.object []) ('\x7b' :: (blank ++ ['\x7d']))
  | object {entries : List (String × Value)} {s : List Char} : SpellsMembers entries s →
      Spells (.object entries) ('\x7b' :: s)

/-- The values of an array with commas between them, and its closing bracket. -/
inductive SpellsItems : List Value → List Char → Prop
  | last {v : Value} {before s after : List Char} : BlankText before → Spells v s →
      BlankText after → SpellsItems [v] (before ++ (s ++ (after ++ [']'])))
  | cons {v : Value} {items : List Value} {before s after rest : List Char} : BlankText before →
      Spells v s → BlankText after → SpellsItems items rest →
      SpellsItems (v :: items) (before ++ (s ++ (after ++ ',' :: rest)))

/-- The members of an object with commas between them, and its closing brace. -/
inductive SpellsMembers : List (String × Value) → List Char → Prop
  | last {name : String} {v : Value} {key before s after : List Char} : SpellsKey name key →
      BlankText before → Spells v s → BlankText after →
      SpellsMembers [(name, v)] (key ++ (before ++ (s ++ (after ++ ['\x7d']))))
  | cons {name : String} {v : Value} {entries : List (String × Value)}
      {key before s after rest : List Char} : SpellsKey name key → BlankText before →
      Spells v s → BlankText after → SpellsMembers entries rest →
      SpellsMembers ((name, v) :: entries) (key ++ (before ++ (s ++ (after ++ ',' :: rest))))

end

/-- A document: a value among blanks. -/
inductive SpellsText (v : Value) : List Char → Prop
  | mk {before s after : List Char} : BlankText before → Spells v s → BlankText after →
      SpellsText v (before ++ (s ++ after))

/-! ### Blanks -/

theorem skipWs_blank {blank : List Char} (blanks : BlankText blank) (s : List Char) :
    skipWs (blank ++ s) = skipWs s := by
  rw [skipWs, List.dropWhile_append_of_pos fun c among => ?_]
  · rfl
  · rcases blanks c among with rfl | rfl | rfl | rfl <;> rfl

theorem skipWs_cons {c : Char} {s : List Char} (solid : isBlank c = false) :
    skipWs (c :: s) = c :: s := by
  simp [skipWs, solid]

theorem exists_blank (s : List Char) : ∃ blank, BlankText blank ∧ s = blank ++ skipWs s := by
  refine ⟨s.takeWhile isBlank, fun c among => ?_, List.takeWhile_append_dropWhile.symm⟩
  have blank := List.mem_takeWhile_imp among
  simpa [isBlank, or_assoc] using blank

theorem value_skipWs (fuel : Nat) (s : List Char) : value fuel (skipWs s) = value fuel s := by
  cases fuel with
  | zero => simp [value]
  | succ fuel =>
    have twice : skipWs (skipWs s) = skipWs s := List.dropWhile_idempotent isBlank s
    simp only [value, twice]

theorem value_blank {blank : List Char} (blanks : BlankText blank) (fuel : Nat) (s : List Char) :
    value fuel (blank ++ s) = value fuel s := by
  rw [← value_skipWs fuel (blank ++ s), skipWs_blank blanks, value_skipWs]

theorem arrayLoop_skipWs (fuel : Nat) (s : List Char) (items : List Value) :
    arrayLoop fuel (skipWs s) items = arrayLoop fuel s items := by
  cases fuel with
  | zero => simp [arrayLoop]
  | succ fuel => simp only [arrayLoop, value_skipWs]

theorem objectLoop_skipWs (fuel : Nat) (s : List Char) (entries : List (String × Value)) :
    objectLoop fuel (skipWs s) entries = objectLoop fuel s entries := by
  cases fuel with
  | zero => simp [objectLoop]
  | succ fuel =>
    have twice : skipWs (skipWs s) = skipWs s := List.dropWhile_idempotent isBlank s
    simp only [objectLoop, twice]

theorem stopsNumber_blank {blank : List Char} (blanks : BlankText blank) {c : Char}
    (stop : continuesNumber c = false) (s : List Char) : StopsNumber (blank ++ c :: s) := by
  cases blank with
  | nil => exact stopsNumber_cons stop
  | cons b blank =>
    refine stopsNumber_cons ?_
    rcases blanks b List.mem_cons_self with rfl | rfl | rfl | rfl <;> rfl

/-! ### First characters -/

def startsValue (c : Char) : Bool :=
  c == '\x7b' || c == '[' || c == '"' || c == 't' || c == 'f' || c == 'n' || c == '-' || c.isDigit

theorem startsValue_spec {c : Char} (starts : startsValue c = true) :
    isBlank c = false ∧ c ≠ ']' ∧ c ≠ '\x7d' := by
  refine ⟨?_, ?_, ?_⟩
  · by_contra blank
    simp only [isBlank, Bool.not_eq_false, Bool.or_eq_true, beq_iff_eq] at blank
    rcases blank with ((rfl | rfl) | rfl) | rfl <;> simp [startsValue] at starts
  · rintro rfl
    simp [startsValue] at starts
  · rintro rfl
    simp [startsValue] at starts

theorem Spells.starts {v : Value} {s : List Char} (spelled : Spells v s) :
    ∃ c tail, s = c :: tail ∧ startsValue c = true := by
  cases spelled with
  | number token =>
    obtain ⟨c, tail, split, first⟩ := token.starts
    refine ⟨c, tail, split, ?_⟩
    rcases first with rfl | digit
    · rfl
    · simp [startsValue, digit]
  | string spelled =>
    obtain ⟨body⟩ := spelled.valid
    exact ⟨_, _, rfl, rfl⟩
  | _ => exact ⟨_, _, rfl, rfl⟩

theorem SpellsItems.starts {items : List Value} {s : List Char} (spelled : SpellsItems items s)
    (rest : List Char) : ∃ c tail, skipWs (s ++ rest) = c :: tail ∧ c ≠ ']' := by
  have padded {v : Value} {before s : List Char} (blank : BlankText before) (value : Spells v s)
      (after : List Char) : ∃ c tail, skipWs (before ++ (s ++ after)) = c :: tail ∧ c ≠ ']' := by
    obtain ⟨c, tail, rfl, starts⟩ := value.starts
    obtain ⟨solid, bracket, -⟩ := startsValue_spec starts
    refine ⟨c, tail ++ after, ?_, bracket⟩
    rw [skipWs_blank blank, List.cons_append, skipWs_cons solid]
  cases spelled with
  | last blank value _ =>
    simp only [List.append_assoc]
    exact padded blank value _
  | cons blank value _ _ =>
    simp only [List.append_assoc]
    exact padded blank value _

theorem SpellsMembers.starts {entries : List (String × Value)} {s : List Char}
    (spelled : SpellsMembers entries s) (rest : List Char) :
    ∃ c tail, skipWs (s ++ rest) = c :: tail ∧ c ≠ '\x7d' := by
  have padded {name : String} {key : List Char} (isKey : SpellsKey name key) (after : List Char) :
      ∃ c tail, skipWs (key ++ after) = c :: tail ∧ c ≠ '\x7d' := by
    obtain ⟨blank, quoted, -⟩ := isKey
    obtain ⟨body⟩ := quoted.valid
    simp only [List.append_assoc, skipWs_blank blank]
    exact ⟨'"', _, rfl, by decide⟩
  cases spelled with
  | last isKey _ _ _ =>
    rw [List.append_assoc]
    exact padded isKey _
  | cons isKey _ _ _ _ =>
    rw [List.append_assoc]
    exact padded isKey _

theorem value_array {fuel : Nat} {c : Char} {s tail : List Char} (first : skipWs s = c :: tail)
    (open_ : c ≠ ']') : value (fuel + 1) ('[' :: s)
      = (arrayLoop fuel s []).map fun parsed => (.array parsed.1, parsed.2) := by
  rw [value, skipWs_cons rfl]
  simp only
  rw [← arrayLoop_skipWs, first]
  split
  · rename_i same
    cases same
    exact absurd rfl open_
  · rfl

theorem value_object {fuel : Nat} {c : Char} {s tail : List Char} (first : skipWs s = c :: tail)
    (open_ : c ≠ '\x7d') : value (fuel + 1) ('\x7b' :: s)
      = (objectLoop fuel s []).map fun parsed => (.object parsed.1, parsed.2) := by
  rw [value, skipWs_cons rfl]
  simp only
  rw [← objectLoop_skipWs, first]
  split
  · rename_i same
    cases same
    exact absurd rfl open_
  · rfl

theorem value_number {fuel : Nat} {c : Char} {s : List Char} (first : c = '-' ∨ c.isDigit) :
    value (fuel + 1) (c :: s) = number (c :: s) := by
  have starts : startsValue c = true := by
    rcases first with rfl | digit
    · rfl
    · simp [startsValue, digit]
  have other : ∀ d : Char, d ≠ '-' → d.isDigit = false → c ≠ d := by
    rintro d minus digit rfl
    simp [minus, digit] at first
  rw [value, skipWs_cons (startsValue_spec starts).1]
  split
  case h_7 c' s' _ _ _ _ _ _ same =>
    cases same
    rw [if_pos first]
  case h_8 same => cases same
  all_goals
    rename_i same
    simp only [List.cons.injEq] at same
    exact absurd same.1 (other _ (by decide) (by decide))

/-! ### What spells a value is read as it -/

/-- `value` takes the text, in front of anything that stops a number. -/
def Reads (v : Value) (s : List Char) : Prop :=
  ∀ fuel rest, StopsNumber rest → s.length ≤ fuel → value fuel (s ++ rest) = some (v, rest)

def ReadsItems (items : List Value) (s : List Char) : Prop :=
  ∀ fuel rest done, s.length ≤ fuel →
    arrayLoop fuel (s ++ rest) done = some (done ++ items, rest)

def ReadsMembers (entries : List (String × Value)) (s : List Char) : Prop :=
  ∀ fuel rest done, s.length ≤ fuel →
    objectLoop fuel (s ++ rest) done = some (done ++ entries, rest)

theorem reads_of_one {v : Value} {s : List Char} (some_ : s ≠ [])
    (one : ∀ rest fuel, StopsNumber rest → value (fuel + 1) (s ++ rest) = some (v, rest)) :
    Reads v s := by
  intro fuel rest stops enough
  have length := List.length_pos_iff.mpr some_
  obtain ⟨fuel, rfl⟩ : ∃ more, fuel = more + 1 := ⟨fuel - 1, by omega⟩
  exact one rest fuel stops

theorem Reads.number {token : String} (valid : NumberToken token) :
    Reads (.number token) token.toList := by
  obtain ⟨c, tail, split, first⟩ := valid.starts
  refine reads_of_one (by rw [split]; exact List.cons_ne_nil _ _) fun rest fuel stops => ?_
  rw [← number_append valid stops, split, List.cons_append, value_number first]

theorem Reads.string {text : String} {quoted : List Char} (spelled : SpellsString text quoted) :
    Reads (.string text) quoted := by
  obtain ⟨body⟩ := spelled.valid
  refine reads_of_one (List.cons_ne_nil _ _) fun rest fuel _ => ?_
  have read := spelled rest
  rw [List.cons_append] at read ⊢
  rw [value, skipWs_cons rfl]
  simp only [read, Option.map_some]

theorem Reads.array {items : List Value} {s : List Char} (spelled : SpellsItems items s)
    (reads : ReadsItems items s) : Reads (.array items) ('[' :: s) := by
  intro fuel rest _ enough
  rw [List.length_cons] at enough
  obtain ⟨fuel, rfl⟩ : ∃ more, fuel = more + 1 := ⟨fuel - 1, by omega⟩
  obtain ⟨c, tail, first, other⟩ := spelled.starts rest
  rw [List.cons_append, value_array first other, reads fuel rest [] (by omega)]
  rfl

theorem Reads.object {entries : List (String × Value)} {s : List Char}
    (spelled : SpellsMembers entries s) (reads : ReadsMembers entries s) :
    Reads (.object entries) ('\x7b' :: s) := by
  intro fuel rest _ enough
  rw [List.length_cons] at enough
  obtain ⟨fuel, rfl⟩ : ∃ more, fuel = more + 1 := ⟨fuel - 1, by omega⟩
  obtain ⟨c, tail, first, other⟩ := spelled.starts rest
  rw [List.cons_append, value_object first other, reads fuel rest [] (by omega)]
  rfl

theorem arrayLoop_value {v : Value} {before s after : List Char} (blank : BlankText before)
    (reads : Reads v s) (blank' : BlankText after) {c : Char} (stop : continuesNumber c = false)
    (solid : isBlank c = false) {fuel : Nat} (enough : s.length ≤ fuel) (rest : List Char)
    (done : List Value) :
    arrayLoop (fuel + 1) (before ++ (s ++ (after ++ c :: rest))) done = match c :: rest with
      | ',' :: rest => arrayLoop fuel rest (done ++ [v])
      | ']' :: rest => some (done ++ [v], rest)
      | _ => none := by
  have read := reads fuel _ (stopsNumber_blank blank' stop rest) enough
  rw [arrayLoop, value_blank blank, read]
  simp only [skipWs_blank blank', skipWs_cons solid] <;> rfl

theorem objectLoop_value {name : String} {v : Value} {key before s after : List Char}
    (isKey : SpellsKey name key) (blank : BlankText before) (reads : Reads v s)
    (blank' : BlankText after) {c : Char} (stop : continuesNumber c = false)
    (solid : isBlank c = false) {fuel : Nat} (enough : s.length ≤ fuel) (rest : List Char)
    (done : List (String × Value)) :
    objectLoop (fuel + 1) (key ++ (before ++ (s ++ (after ++ c :: rest)))) done
      = match c :: rest with
        | ',' :: rest => objectLoop fuel rest (done ++ [(name, v)])
        | '\x7d' :: rest => some (done ++ [(name, v)], rest)
        | _ => none := by
  obtain ⟨blankFirst, quoted, blankMiddle⟩ := isKey
  rename_i first text middle
  have read := reads fuel _ (stopsNumber_blank blank' stop rest) enough
  have isName := quoted (middle ++ ':' :: (before ++ (s ++ (after ++ c :: rest))))
  have solidKey : skipWs (text ++ (middle ++ ':' :: (before ++ (s ++ (after ++ c :: rest)))))
      = text ++ (middle ++ ':' :: (before ++ (s ++ (after ++ c :: rest)))) := by
    obtain ⟨body⟩ := quoted.valid
    exact skipWs_cons rfl
  rw [objectLoop]
  simp only [List.append_assoc, List.singleton_append, skipWs_blank blankFirst, solidKey, isName,
    skipWs_blank blankMiddle, skipWs_cons (show isBlank ':' = false from rfl), expect, if_true,
    value_blank blank, read, skipWs_blank blank', skipWs_cons solid] <;> rfl

/-! The induction on the derivation. -/

mutual

theorem Spells.reads : ∀ {v : Value} {s : List Char}, Spells v s → Reads v s
  | _, _, .null => reads_of_one (by simp) fun _ _ _ => rfl
  | _, _, .isTrue => reads_of_one (by simp) fun _ _ _ => rfl
  | _, _, .isFalse => reads_of_one (by simp) fun _ _ _ => rfl
  | _, _, .number token => .number token
  | _, _, .string spelled => .string spelled
  | _, _, .emptyArray blank => reads_of_one (by simp) fun rest fuel _ => by
    rw [List.cons_append, List.append_assoc, List.singleton_append, value, skipWs_cons rfl]
    simp only [skipWs_blank blank, skipWs_cons (show isBlank ']' = false from rfl)]
  | _, _, .array items => .array items items.reads
  | _, _, .emptyObject blank => reads_of_one (by simp) fun rest fuel _ => by
    rw [List.cons_append, List.append_assoc, List.singleton_append, value, skipWs_cons rfl]
    simp only [skipWs_blank blank, skipWs_cons (show isBlank '\x7d' = false from rfl)]
  | _, _, .object members => .object members members.reads

theorem SpellsItems.reads : ∀ {items : List Value} {s : List Char}, SpellsItems items s →
    ReadsItems items s
  | _, _, .last blank value blank' => fun fuel rest done enough => by
    simp only [List.length_append, List.length_singleton] at enough
    obtain ⟨fuel, rfl⟩ : ∃ more, fuel = more + 1 := ⟨fuel - 1, by omega⟩
    simp only [List.append_assoc, List.singleton_append]
    exact arrayLoop_value blank value.reads blank' rfl rfl (by omega) rest done
  | _, _, .cons blank value blank' others => fun fuel rest done enough => by
    simp only [List.length_append, List.length_cons] at enough
    obtain ⟨fuel, rfl⟩ : ∃ more, fuel = more + 1 := ⟨fuel - 1, by omega⟩
    simp only [List.append_assoc, List.cons_append]
    rw [arrayLoop_value blank value.reads blank' rfl rfl (by omega)]
    simp only
    rw [others.reads fuel rest _ (by omega), List.append_assoc, List.singleton_append]

theorem SpellsMembers.reads : ∀ {entries : List (String × Value)} {s : List Char},
    SpellsMembers entries s → ReadsMembers entries s
  | _, _, .last isKey blank value blank' => fun fuel rest done enough => by
    simp only [List.length_append, List.length_singleton] at enough
    obtain ⟨fuel, rfl⟩ : ∃ more, fuel = more + 1 := ⟨fuel - 1, by omega⟩
    simp only [List.append_assoc, List.singleton_append]
    exact objectLoop_value isKey blank value.reads blank' rfl rfl (by omega) rest done
  | _, _, .cons isKey blank value blank' others => fun fuel rest done enough => by
    simp only [List.length_append, List.length_cons] at enough
    obtain ⟨fuel, rfl⟩ : ∃ more, fuel = more + 1 := ⟨fuel - 1, by omega⟩
    simp only [List.append_assoc, List.cons_append]
    rw [objectLoop_value isKey blank value.reads blank' rfl rfl (by omega)]
    simp only
    rw [others.reads fuel rest _ (by omega), List.append_assoc, List.singleton_append]

end

theorem parse_of_spells {text : String} {v : Value} (spelled : SpellsText v text.toList) :
    parse text = some v := by
  generalize isText : text.toList = s at spelled
  obtain ⟨blank, value, blank'⟩ := spelled
  rename_i before s after
  have stops : StopsNumber after := by
    cases after with
    | nil => exact stopsNumber_nil
    | cons b after =>
      refine stopsNumber_cons ?_
      rcases blank' b List.mem_cons_self with rfl | rfl | rfl | rfl <;> rfl
  have closed : skipWs after = [] := by
    have skipped := skipWs_blank blank' []
    rwa [List.append_nil] at skipped
  rw [parse, isText, value_skipWs, value_blank blank,
    value.reads _ after stops (by simp only [List.length_append]; omega)]
  exact if_pos closed

/-! ### What is read spells the value -/

theorem literal_eq_some {word s rest : List Char} (read : literal word s = some rest) :
    s = word ++ rest := by
  induction word generalizing s with
  | nil =>
    rw [literal] at read
    cases read
    rfl
  | cons c word ih =>
    rw [literal] at read
    obtain ⟨after, first, others⟩ := Option.bind_eq_some_iff.mp read
    cases s with
    | nil => cases first
    | cons got tail =>
      rw [expect] at first
      split at first
      case isTrue same =>
        cases first
        rw [same, ih others, List.cons_append]
      case isFalse => cases first

theorem SpellsItems.pad {items : List Value} {blank s : List Char} (blanks : BlankText blank)
    (spelled : SpellsItems items s) : SpellsItems items (blank ++ s) := by
  cases spelled with
  | last before v after =>
    rw [← List.append_assoc]
    exact .last (blanks.append before) v after
  | cons before v after rest =>
    rw [← List.append_assoc]
    exact .cons (blanks.append before) v after rest

theorem SpellsMembers.pad {entries : List (String × Value)} {blank s : List Char}
    (blanks : BlankText blank) (spelled : SpellsMembers entries s) :
    SpellsMembers entries (blank ++ s) := by
  have padded {name : String} {key : List Char} (isKey : SpellsKey name key) :
      SpellsKey name (blank ++ key) := by
    obtain ⟨before, quoted, after⟩ := isKey
    rw [← List.append_assoc]
    exact ⟨blanks.append before, quoted, after⟩
  cases spelled with
  | last isKey before v after =>
    rw [← List.append_assoc]
    exact .last (padded isKey) before v after
  | cons isKey before v after rest =>
    rw [← List.append_assoc]
    exact .cons (padded isKey) before v after rest

/-- What is read with some fuel. -/
structure Spelled (fuel : Nat) : Prop where
  value : ∀ {s v rest}, value fuel s = some (v, rest) → ∃ before text, BlankText before ∧
    s = before ++ (text ++ rest) ∧ Spells v text
  object : ∀ {s entries read rest}, objectLoop fuel s entries = some (read, rest) →
    ∃ text more, s = text ++ rest ∧ read = entries ++ more ∧ SpellsMembers more text
  array : ∀ {s items read rest}, arrayLoop fuel s items = some (read, rest) →
    ∃ text more, s = text ++ rest ∧ read = items ++ more ∧ SpellsItems more text

theorem Spelled.array_succ {fuel : Nat} (spelled : Spelled fuel) {s rest : List Char}
    {items read : List Value} (loop : arrayLoop (fuel + 1) s items = some (read, rest)) :
    ∃ text more, s = text ++ rest ∧ read = items ++ more ∧ SpellsItems more text := by
  rw [arrayLoop] at loop
  split at loop
  · cases loop
  next item after one =>
  obtain ⟨before, v, blank, rfl, valid⟩ := spelled.value one
  obtain ⟨blanks, blank', isAfter⟩ := exists_blank after
  split at loop
  case h_1 others skipped =>
    obtain ⟨text, more, rfl, rfl, validRest⟩ := spelled.array loop
    refine ⟨_, item :: more, ?_, ?_, .cons blank valid blank' validRest⟩
    · rw [isAfter, skipped]
      simp
    · simp
  case h_2 others skipped =>
    cases loop
    refine ⟨_, [item], ?_, rfl, .last blank valid blank'⟩
    rw [isAfter, skipped]
    simp
  case h_3 => cases loop

theorem Spelled.object_succ {fuel : Nat} (spelled : Spelled fuel) {s rest : List Char}
    {entries read : List (String × Value)}
    (loop : objectLoop (fuel + 1) s entries = some (read, rest)) :
    ∃ text more, s = text ++ rest ∧ read = entries ++ more ∧ SpellsMembers more text := by
  rw [objectLoop] at loop
  split at loop
  · cases loop
  next key afterKey isKey =>
  split at loop
  · cases loop
  next afterColon isColon =>
  split at loop
  · cases loop
  next item after one =>
  obtain ⟨quoted, isString, skipped⟩ := spellsString_of_read isKey
  obtain ⟨first, blankFirst, isS⟩ := exists_blank s
  obtain ⟨middle, blankMiddle, isMiddle⟩ := exists_blank afterKey
  obtain ⟨before, v, blank, rfl, valid⟩ := spelled.value one
  obtain ⟨blanks, blank', isAfter⟩ := exists_blank after
  have colon : skipWs afterKey = ':' :: (before ++ (v ++ after)) := by
    cases skipped' : skipWs afterKey with
    | nil =>
      rw [skipped'] at isColon
      cases isColon
    | cons c tail =>
      rw [skipped', expect] at isColon
      split at isColon
      case isTrue same =>
        cases isColon
        rw [same]
      case isFalse => cases isColon
  have keyText : SpellsKey key (first ++ (quoted ++ (middle ++ [':']))) :=
    ⟨blankFirst, isString, blankMiddle⟩
  split at loop
  case h_1 others comma =>
    obtain ⟨text, more, rfl, rfl, validRest⟩ := spelled.object loop
    refine ⟨_, (key, item) :: more, ?_, ?_, .cons keyText blank valid blank' validRest⟩
    · rw [isS, skipped, isMiddle, colon, isAfter, comma]
      simp
    · simp
  case h_2 others brace =>
    cases loop
    refine ⟨_, [(key, item)], ?_, rfl, .last keyText blank valid blank'⟩
    rw [isS, skipped, isMiddle, colon, isAfter, brace]
    simp
  case h_3 => cases loop

theorem Spelled.value_succ {fuel : Nat} (spelled : Spelled fuel) {s rest : List Char} {v : Value}
    (read : Toard.Json.value (fuel + 1) s = some (v, rest)) :
    ∃ before text, BlankText before ∧ s = before ++ (text ++ rest) ∧ Spells v text := by
  obtain ⟨blanks, blank, isS⟩ := exists_blank s
  -- The blanks at the front aside, each branch gives the text of the value.
  suffices whole : ∃ text, skipWs s = text ++ rest ∧ Spells v text by
    obtain ⟨text, skipped, valid⟩ := whole
    exact ⟨blanks, text, blank, by rw [← skipped, ← isS], valid⟩
  rw [Toard.Json.value] at read
  split at read
  case h_1 after first =>
    obtain ⟨inner, blank', isAfter⟩ := exists_blank after
    split at read
    case h_1 closed =>
      cases read
      exact ⟨_, by rw [first, isAfter, closed]; simp, .emptyObject blank'⟩
    case h_2 =>
      obtain ⟨⟨entries, end_⟩, loop, same⟩ := Option.map_eq_some_iff.mp read
      cases same
      obtain ⟨text, more, skipped, rfl, valid⟩ := spelled.object loop
      refine ⟨_, ?_, .object (valid.pad blank')⟩
      rw [first, isAfter, skipped]
      simp
  case h_2 after first =>
    obtain ⟨inner, blank', isAfter⟩ := exists_blank after
    split at read
    case h_1 closed =>
      cases read
      exact ⟨_, by rw [first, isAfter, closed]; simp, .emptyArray blank'⟩
    case h_2 =>
      obtain ⟨⟨items, end_⟩, loop, same⟩ := Option.map_eq_some_iff.mp read
      cases same
      obtain ⟨text, more, skipped, rfl, valid⟩ := spelled.array loop
      refine ⟨_, ?_, .array (valid.pad blank')⟩
      rw [first, isAfter, skipped]
      simp
  case h_3 after first =>
    obtain ⟨⟨text, end_⟩, isString, same⟩ := Option.map_eq_some_iff.mp read
    cases same
    obtain ⟨quoted, valid, split⟩ := spellsString_of_read isString
    exact ⟨quoted, by rw [first, split], .string valid⟩
  case h_4 after first =>
    obtain ⟨end_, isWord, same⟩ := Option.map_eq_some_iff.mp read
    cases same
    exact ⟨_, by rw [first, literal_eq_some isWord], .isTrue⟩
  case h_5 after first =>
    obtain ⟨end_, isWord, same⟩ := Option.map_eq_some_iff.mp read
    cases same
    exact ⟨_, by rw [first, literal_eq_some isWord], .isFalse⟩
  case h_6 after first =>
    obtain ⟨end_, isWord, same⟩ := Option.map_eq_some_iff.mp read
    cases same
    exact ⟨_, by rw [first, literal_eq_some isWord], .null⟩
  case h_7 c after _ _ _ _ _ _ first =>
    split at read
    case isTrue starts =>
      obtain ⟨token, valid, rfl, split⟩ := number_eq_some starts read
      exact ⟨token.toList, by rw [first, split], .number valid⟩
    case isFalse => cases read
  case h_8 => cases read

/-- **What is read spells the value**, by induction on the fuel. -/
theorem spelled (fuel : Nat) : Spelled fuel := by
  induction fuel with
  | zero =>
    refine ⟨fun read => ?_, fun loop => ?_, fun loop => ?_⟩
    · rw [value] at read
      cases read
    · rw [objectLoop] at loop
      cases loop
    · rw [arrayLoop] at loop
      cases loop
  | succ fuel ih =>
    exact ⟨fun read => ih.value_succ read, fun loop => ih.object_succ loop,
      fun loop => ih.array_succ loop⟩

theorem spells_of_parse {text : String} {v : Value} (read : parse text = some v) :
    SpellsText v text.toList := by
  rw [parse] at read
  split at read
  case h_2 => cases read
  case h_1 parsed rest one =>
    split at read
    case isFalse => cases read
    case isTrue closed =>
      cases read
      obtain ⟨first, blankFirst, isText⟩ := exists_blank text.toList
      obtain ⟨before, inner, blank, skipped, valid⟩ := (spelled _).value one
      obtain ⟨last, blankLast, isLast⟩ := exists_blank rest
      rw [closed, List.append_nil] at isLast
      rw [isText, skipped, isLast, ← List.append_assoc]
      exact ⟨blankFirst.append blank, valid, blankLast⟩

end Toard.Json
