/-
**The numbers of a JSON text.**

A number keeps the token that the scanner took, and the scanner takes that token whole when it meets
it again, in front of any text that cannot continue a number (`number_append`, `number_eq_some`).
-/

import Toard.Json.Strings

namespace Toard.Json

open Toard.Library

def continuesNumber (c : Char) : Bool :=
  c.isDigit || c == '.' || c == 'e' || c == 'E' || c == '+' || c == '-'

def StopsNumber (rest : List Char) : Prop :=
  ∀ c tail, rest = c :: tail → continuesNumber c = false

theorem stopsNumber_nil : StopsNumber [] := by
  intro c tail empty
  cases empty

theorem stopsNumber_cons {c : Char} {tail : List Char} (stop : continuesNumber c = false) :
    StopsNumber (c :: tail) := by
  intro c' tail' equal
  cases equal
  exact stop

theorem digits_append (s : List Char) {rest : List Char} (stops : StopsNumber rest) :
    digits (s ++ rest) = ((digits s).1, (digits s).2 ++ rest) := by
  simp only [digits]
  induction s with
  | nil =>
    cases rest with
    | nil => rfl
    | cons c tail =>
      have stop := stops c tail rfl
      simp only [continuesNumber, Bool.or_eq_false_iff] at stop
      simp [stop]
  | cons c s ih =>
    by_cases digit : c.isDigit
    · simpa [digit] using ih
    · simp [digit]

theorem minusPart_append (s : List Char) {rest : List Char} (stops : StopsNumber rest) :
    minusPart (s ++ rest) = ((minusPart s).1, (minusPart s).2 ++ rest) := by
  cases s with
  | nil =>
    cases rest with
    | nil => rfl
    | cons c tail =>
      have stop := stops c tail rfl
      have other : c ≠ '-' := by rintro rfl; simp [continuesNumber] at stop
      simp [minusPart, other]
  | cons c s => by_cases minus : c = '-' <;> simp [minusPart, minus]

theorem signPart_append (s : List Char) {rest : List Char} (stops : StopsNumber rest) :
    signPart (s ++ rest) = ((signPart s).1, (signPart s).2 ++ rest) := by
  cases s with
  | nil =>
    cases rest with
    | nil => rfl
    | cons c tail =>
      have stop := stops c tail rfl
      have plus : c ≠ '+' := by rintro rfl; simp [continuesNumber] at stop
      have minus : c ≠ '-' := by rintro rfl; simp [continuesNumber] at stop
      simp [signPart, plus, minus]
  | cons c s =>
    by_cases plus : c = '+'
    · simp [signPart, plus]
    · by_cases minus : c = '-' <;> simp [signPart, plus, minus]

theorem fractionPart_append (s : List Char) {rest : List Char} (stops : StopsNumber rest) :
    fractionPart (s ++ rest) = ((fractionPart s).1, (fractionPart s).2 ++ rest) := by
  cases s with
  | nil =>
    cases rest with
    | nil => rfl
    | cons c tail =>
      have stop := stops c tail rfl
      have other : c ≠ '.' := by rintro rfl; simp [continuesNumber] at stop
      simp [fractionPart, other]
  | cons c s =>
    by_cases point : c = '.'
    · simp [fractionPart, point, digits_append s stops]
    · simp [fractionPart, point]

theorem exponentPart_append (s : List Char) {rest : List Char} (stops : StopsNumber rest) :
    exponentPart (s ++ rest) = ((exponentPart s).1, (exponentPart s).2 ++ rest) := by
  cases s with
  | nil =>
    cases rest with
    | nil => rfl
    | cons c tail =>
      have stop := stops c tail rfl
      have other : ¬ (c = 'e' ∨ c = 'E') := by
        rintro (rfl | rfl) <;> simp [continuesNumber] at stop
      simp [exponentPart, other]
  | cons c s =>
    by_cases exponent : c = 'e' ∨ c = 'E'
    · simp [exponentPart, exponent, signPart_append s stops, digits_append _ stops]
    · simp [exponentPart, exponent]

theorem scanNumber_append (s : List Char) {rest : List Char} (stops : StopsNumber rest) :
    scanNumber (s ++ rest) = ((scanNumber s).1, (scanNumber s).2 ++ rest) := by
  simp only [scanNumber, minusPart_append s stops, digits_append _ stops,
    fractionPart_append _ stops, exponentPart_append _ stops]

/-- A token the scanner takes whole: what `parse` puts into `Value.number`. -/
structure NumberToken (token : String) : Prop where
  whole : scanNumber token.toList = (token.toList, [])
  more : ¬ (token.toList = [] ∨ token.toList = ['-'])
  starts : ∃ c tail, token.toList = c :: tail ∧ (c = '-' ∨ c.isDigit)

/-- **A whole token is scanned whole** in front of any stopping text. -/
theorem number_append {token : String} (valid : NumberToken token) {rest : List Char}
    (stops : StopsNumber rest) :
    number (token.toList ++ rest) = some (.number token, rest) := by
  rw [number, scanNumber_append _ stops, valid.whole]
  simp only [if_neg valid.more, List.nil_append, String.ofList_toList]

theorem numberToken_toString (n : Nat) : NumberToken (toString n) := by
  have chars : (toString n).toList = Nat.toDigits 10 n := by
    rw [Nat.toString_eq_repr, Nat.toList_repr]
  have all : ∀ c ∈ Nat.toDigits 10 n, c.isDigit = true := fun c member =>
    Nat.isDigit_of_mem_toDigits (by decide) (by decide) member
  have scanned : ∀ ds : List Char, (∀ c ∈ ds, c.isDigit = true) → digits ds = (ds, []) := by
    intro ds allDigits
    rw [digits, List.takeWhile_eq_self_iff.mpr allDigits,
      List.dropWhile_eq_nil_iff.mpr allDigits]
  obtain ⟨c, tail, split⟩ := List.exists_cons_of_ne_nil (Nat.toDigits_ne_nil (n := n) (b := 10))
  have digit : c.isDigit = true := all c (by rw [split]; simp)
  have notMinus : c ≠ '-' := by rintro rfl; simp at digit
  refine ⟨?_, ?_, c, tail, by rw [chars, split], Or.inr digit⟩
  · rw [chars, scanNumber, split]
    have minus : minusPart (c :: tail) = ([], c :: tail) := by simp [minusPart, notMinus]
    rw [← split] at minus ⊢
    simp [minus, scanned _ all, fractionPart, exponentPart]
  · rw [chars, split]
    simp [notMinus]

/-! ### Tokens -/

def NoDigitFirst (text : List Char) : Prop := ∀ c tail, text = c :: tail → c.isDigit = false

theorem digits_self {ds text : List Char} (all : ∀ c ∈ ds, c.isDigit = true)
    (first : NoDigitFirst text) : digits (ds ++ text) = (ds, text) := by
  induction ds with
  | nil =>
    cases text with
    | nil => rfl
    | cons c tail => simp [digits, first c tail rfl]
  | cons c ds ih =>
    have rest := ih fun other among => all other (List.mem_cons_of_mem c among)
    simp only [digits, Prod.mk.injEq] at rest
    simp [digits, all c List.mem_cons_self, rest.1, rest.2]

theorem digits_all (s : List Char) : ∀ c ∈ (digits s).1, c.isDigit = true :=
  fun _ among => List.mem_takeWhile_imp among

/-- The exponent of a token: nothing, or a letter, a sign and digits. -/
def ExponentToken (text : List Char) : Prop :=
  text = [] ∨ ∃ c sign ds, (c = 'e' ∨ c = 'E') ∧ (sign = [] ∨ sign = ['+'] ∨ sign = ['-']) ∧
    (∀ d ∈ ds, d.isDigit = true) ∧ text = c :: (sign ++ ds)

def FractionToken (text : List Char) : Prop :=
  text = [] ∨ ∃ ds, (∀ d ∈ ds, d.isDigit = true) ∧ text = '.' :: ds

theorem exponentPart_token (s : List Char) : ExponentToken (exponentPart s).1 := by
  cases s with
  | nil => exact .inl rfl
  | cons c rest =>
    rw [exponentPart]
    split
    case isTrue letter =>
      refine .inr ⟨c, (signPart rest).1, _, letter, ?_, digits_all _, rfl⟩
      unfold signPart
      split
      · exact .inr (.inl rfl)
      · exact .inr (.inr rfl)
      · exact .inl rfl
    case isFalse => exact .inl rfl

theorem fractionPart_token (s : List Char) : FractionToken (fractionPart s).1 := by
  unfold fractionPart
  split
  · exact .inr ⟨_, digits_all _, rfl⟩
  · exact .inl rfl

theorem minusPart_token (s : List Char) : (minusPart s).1 = [] ∨ (minusPart s).1 = ['-'] := by
  unfold minusPart
  split
  · exact .inr rfl
  · exact .inl rfl

theorem isDigit_cases {c : Char} (letter : c = 'e' ∨ c = 'E') : c.isDigit = false := by
  obtain rfl | rfl := letter <;> rfl

theorem exponentPart_self {text : List Char} (token : ExponentToken text) :
    exponentPart text = (text, []) := by
  obtain rfl | ⟨c, sign, ds, letter, signed, all, rfl⟩ := token
  · rfl
  have whole : digits ds = (ds, []) := by
    have self : digits (ds ++ []) = (ds, []) := digits_self all nofun
    rwa [List.append_nil] at self
  have kept : signPart (sign ++ ds) = (sign, ds) := by
    obtain rfl | rfl | rfl := signed
    · cases ds with
      | nil => rfl
      | cons d ds =>
        have digit := all d List.mem_cons_self
        have plus : d ≠ '+' := by rintro rfl; cases digit
        have minus : d ≠ '-' := by rintro rfl; cases digit
        simp [signPart, plus, minus]
    · rfl
    · rfl
  rw [exponentPart, if_pos letter, kept, whole]

theorem ExponentToken.noDigitFirst {text : List Char} (token : ExponentToken text) :
    NoDigitFirst text := by
  obtain rfl | ⟨c, sign, ds, letter, -, -, rfl⟩ := token
  · exact nofun
  · rintro _ _ ⟨⟩
    exact isDigit_cases letter

theorem fractionPart_self {text rest : List Char} (token : FractionToken text)
    (exponent : ExponentToken rest) : fractionPart (text ++ rest) = (text, rest) := by
  obtain rfl | ⟨ds, all, rfl⟩ := token
  · obtain rfl | ⟨c, sign, ds, letter, -, -, rfl⟩ := exponent
    · rfl
    · obtain rfl | rfl := letter <;> rfl
  · rw [List.cons_append, fractionPart, digits_self all exponent.noDigitFirst]

theorem FractionToken.noDigitFirst {text rest : List Char} (token : FractionToken text)
    (exponent : ExponentToken rest) : NoDigitFirst (text ++ rest) := by
  obtain rfl | ⟨ds, -, rfl⟩ := token
  · exact exponent.noDigitFirst
  · rintro _ _ ⟨⟩
    rfl

theorem scanNumber_parts {m ds f e : List Char} (minus : m = [] ∨ m = ['-'])
    (all : ∀ c ∈ ds, c.isDigit = true) (fraction : FractionToken f) (exponent : ExponentToken e) :
    scanNumber (m ++ ds ++ f ++ e) = (m ++ ds ++ f ++ e, []) := by
  have first : minusPart (m ++ (ds ++ (f ++ e))) = (m, ds ++ (f ++ e)) := by
    obtain rfl | rfl := minus
    · have other : ∀ c tail, ds ++ (f ++ e) = c :: tail → c ≠ '-' := by
        rintro _ tail same rfl
        cases ds with
        | nil =>
          obtain rfl | ⟨ds, -, rfl⟩ := fraction
          · obtain rfl | ⟨c, sign, ds, letter, -, -, rfl⟩ := exponent
            · cases same
            · cases same
              obtain letter | letter := letter <;> cases letter
          · cases same
        | cons d ds =>
          cases same
          exact Bool.false_ne_true (all _ List.mem_cons_self)
      unfold minusPart
      split
      case h_1 rest same => exact absurd rfl (other _ rest same)
      case h_2 => rfl
    · rfl
  rw [List.append_assoc, List.append_assoc, scanNumber]
  rw [first, digits_self all (fraction.noDigitFirst exponent), fractionPart_self fraction exponent,
    exponentPart_self exponent, List.append_assoc, List.append_assoc]

/-- **A token is scanned to its end.** -/
theorem scanNumber_token (s : List Char) :
    scanNumber (scanNumber s).1 = ((scanNumber s).1, []) :=
  scanNumber_parts (minusPart_token s) (digits_all _) (fractionPart_token _) (exponentPart_token _)

theorem digits_split (s : List Char) : (digits s).1 ++ (digits s).2 = s :=
  List.takeWhile_append_dropWhile

theorem scanNumber_split (s : List Char) : (scanNumber s).1 ++ (scanNumber s).2 = s := by
  have minus : ∀ t, (minusPart t).1 ++ (minusPart t).2 = t := by
    intro t
    unfold minusPart
    split <;> rfl
  have fraction : ∀ t, (fractionPart t).1 ++ (fractionPart t).2 = t := by
    intro t
    unfold fractionPart
    split
    · rw [List.cons_append, digits_split]
    · rfl
  have sign : ∀ t, (signPart t).1 ++ (signPart t).2 = t := by
    intro t
    unfold signPart
    split <;> rfl
  have exponent : ∀ t, (exponentPart t).1 ++ (exponentPart t).2 = t := by
    intro t
    cases t with
    | nil => rfl
    | cons c rest =>
      rw [exponentPart]
      split
      · rw [List.cons_append, List.append_assoc, digits_split, sign]
      · rfl
  rw [scanNumber]
  dsimp only
  rw [List.append_assoc, exponent, List.append_assoc, fraction, List.append_assoc, digits_split,
    minus]

theorem number_eq_some {c : Char} {s rest : List Char} {v : Value} (first : c = '-' ∨ c.isDigit)
    (read : number (c :: s) = some (v, rest)) :
    ∃ token, NumberToken token ∧ v = .number token ∧ c :: s = token.toList ++ rest := by
  rw [number] at read
  dsimp only at read
  split at read
  case isTrue => cases read
  case isFalse more =>
    cases read
    have starts : ∃ tail, (scanNumber (c :: s)).1 = c :: tail := by
      rw [scanNumber]
      obtain rfl | digit := first
      · exact ⟨_, rfl⟩
      · have other : minusPart (c :: s) = ([], c :: s) := by
          unfold minusPart
          split
          case h_1 same =>
            cases same
            cases digit
          case h_2 => rfl
        dsimp only
        rw [other]
        simp [digits, digit]
    obtain ⟨tail, head⟩ := starts
    refine ⟨_, ⟨?_, ?_, c, tail, ?_, first⟩, rfl, ?_⟩
    · rw [String.toList_ofList]
      exact scanNumber_token (c :: s)
    · rwa [String.toList_ofList]
    · rw [String.toList_ofList, head]
    · rw [String.toList_ofList, scanNumber_split]

theorem numberToken_of_text {s : List Char} (text : NumberText s) :
    NumberToken (String.ofList s) := by
  obtain ⟨minus, whole, fraction, exponent⟩ := text
  rename_i m ds f e
  have all : ∀ c ∈ ds, c.isDigit = true := by
    cases whole with
    | zero => simp
    | nonzero digit _ others => exact List.forall_mem_cons.mpr ⟨digit, others⟩
  obtain ⟨d, ds', isDs⟩ : ∃ d ds', ds = d :: ds' := by
    cases whole with
    | zero => exact ⟨_, _, rfl⟩
    | nonzero => exact ⟨_, _, rfl⟩
  have digit : d.isDigit = true := all d (by rw [isDs]; exact List.mem_cons_self)
  have fractionToken : FractionToken f := by
    cases fraction with
    | none => exact .inl rfl
    | point ds => exact .inr ⟨_, ds.2, rfl⟩
  have exponentToken : ExponentToken e := by
    cases exponent with
    | none => exact .inl rfl
    | exponent letter sign ds => exact .inr ⟨_, _, _, letter, sign, ds.2, rfl⟩
  have scanned := scanNumber_parts minus all fractionToken exponentToken
  constructor
  · rw [String.toList_ofList, scanned]
  · rw [String.toList_ofList, isDs]
    rcases minus with rfl | rfl
    · rintro (empty | only)
      · cases empty
      · rw [(List.cons.inj only).1] at digit
        cases digit
    · rintro (empty | only)
      · cases empty
      · cases (List.cons.inj only).2
  · rw [String.toList_ofList, isDs]
    rcases minus with rfl | rfl
    · exact ⟨d, _, rfl, .inr digit⟩
    · exact ⟨'-', _, rfl, .inl rfl⟩

end Toard.Json
