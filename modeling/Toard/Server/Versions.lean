/-
**The order of versions (`packages/core/src/version.ts`).**

A collector tells its version in a header, and the server compares it with its own. A version is
three numbers; public releases were started again at 0.0.1, so the numbers alone do not give the
order: the old releases from 0.1.0 on come before 0.0.1, and the release 0.0.0 stands for a
development build.

* **`versions_ordered`**: the sign orders all versions, and is the order of the places for numbers
  that a JavaScript number holds.
-/

import Mathlib.Data.List.Lex
import Toard.Pricing.Cost

namespace Toard.Server.Versions

open Toard.Pricing (JsNumber)
open Toard.Library

/-! ### The comparison -/

/-- `\d+` -/
def isDigits (part : List Char) : Bool := !part.isEmpty && part.all Char.isDigit

/-- `SEMVER_RE` -/
def isSemver (v : String) : Bool :=
  match v.toList.splitOn '.' with
  | [major, minor, patch] => isDigits major && isDigits minor && isDigits patch
  | _ => false

def precedence (v : String) : List Nat :=
  (v.toList.splitOn '.').map fun digits => Nat.ofDigitChars 10 digits 0

/-- `Number`, of a text of digits with this value -/
def jsNumber (n : Nat) : JsNumber := .ofRat n

/-- A difference; none is `NaN`. -/
def sub : JsNumber → JsNumber → Option JsNumber
  | .finite left, .finite right => some (.ofRat (left - right))
  | .finite _, .infinite negative => some (.infinite !negative)
  | .infinite negative, .finite _ => some (.infinite negative)
  | .infinite negative, .infinite negative' =>
    if negative = negative' then none else some (.infinite negative)

def difference : List JsNumber → List JsNumber → Option JsNumber
  | pa :: restA, pb :: restB => if pa ≠ pb then sub pa pb else difference restA restB
  | _, _ => some (.finite 0)

def compareSemver (a b : String) : Option JsNumber :=
  difference ((precedence a).map jsNumber) ((precedence b).map jsNumber)

/-- `major! >= 1` -/
def atLeastOne : JsNumber → Bool
  | .finite value => 1 ≤ value
  | .infinite negative => !negative

def epoch (version : String) : Int :=
  let major := ((precedence version).map jsNumber)[0]?
  let minor := ((precedence version).map jsNumber)[1]?
  if major.any atLeastOne then 2
  else if minor = some (.finite 0) then 1
  else 0

def compareToardVersions (a b : String) : Option JsNumber :=
  if a = "0.0.0" ∨ b = "0.0.0" then compareSemver a b
  else
    let epochDifference := epoch a - epoch b
    if epochDifference = 0 then compareSemver a b else some (.finite epochDifference)

def sign (difference : JsNumber) : Ordering :=
  if difference.isNegative then .lt else if difference.isPositive then .gt else .eq

def order (a b : String) : Option Ordering := (compareToardVersions a b).map sign

/-! ### Rounded numbers -/

def rounded (n : Nat) : WithTop ℚ := binary64 n

theorem jsNumber_of_coe {n : Nat} {value : ℚ} (isRounded : rounded n = (value : WithTop ℚ)) :
    jsNumber n = .finite value := by
  have isRounded : binary64 n = some value := isRounded
  rw [jsNumber, JsNumber.ofRat, isRounded]

theorem jsNumber_of_top {n : Nat} (isTop : rounded n = ⊤) : jsNumber n = .infinite false := by
  have isTop : binary64 n = none := isTop
  have nonneg : ¬ (n : ℚ) < 0 := not_lt.mpr (Nat.cast_nonneg n)
  rw [jsNumber, JsNumber.ofRat, isTop, decide_eq_false nonneg]

theorem jsNumber_eq_iff (m n : Nat) : jsNumber m = jsNumber n ↔ rounded m = rounded n := by
  cases left : rounded m with
  | top =>
    cases right : rounded n with
    | top => simp [jsNumber_of_top left, jsNumber_of_top right]
    | coe value' => simp [jsNumber_of_top left, jsNumber_of_coe right]
  | coe value =>
    cases right : rounded n with
    | top => simp [jsNumber_of_coe left, jsNumber_of_top right]
    | coe value' => simp [jsNumber_of_coe left, jsNumber_of_coe right]

theorem eq_roundLastPlace {n : Nat} {value : ℚ} (isRounded : rounded n = (value : WithTop ℚ)) :
    value = roundLastPlace n := by
  have isRounded : binary64 n = some value := isRounded
  rw [binary64, Option.ite_none_right_eq_some] at isRounded
  exact (Option.some_inj.mp isRounded.2).symm

theorem rounded_of_exact {n : Nat} (fits : n < 2 ^ 53) : rounded n = ((n : ℚ) : WithTop ℚ) :=
  binary64_natCast fits

theorem rounded_zero : rounded 0 = ((0 : ℚ) : WithTop ℚ) := by
  rw [rounded_of_exact (by decide), Nat.cast_zero]

theorem rounded_pos {n : Nat} (positive : 0 < n) : ((0 : ℚ) : WithTop ℚ) < rounded n := by
  cases isRounded : rounded n with
  | top => exact WithTop.coe_lt_top 0
  | coe value =>
    rw [WithTop.coe_lt_coe, eq_roundLastPlace isRounded]
    exact roundLastPlace_pos (Nat.one_le_cast.mpr positive)

theorem atLeastOne_jsNumber (n : Nat) : atLeastOne (jsNumber n) = decide (1 ≤ n) := by
  rcases Nat.eq_zero_or_pos n with rfl | positive
  · rw [jsNumber_of_coe rounded_zero]
    rfl
  · rw [decide_eq_true (show 1 ≤ n from positive)]
    cases isRounded : rounded n with
    | top =>
      rw [jsNumber_of_top isRounded]
      rfl
    | coe value =>
      rw [jsNumber_of_coe isRounded, atLeastOne, decide_eq_true_iff]
      have above := roundLastPlace_pos (Nat.one_le_cast (α := ℚ).mpr positive)
      obtain ⟨m, isInteger⟩ := exists_roundLastPlace_natCast n
      rw [eq_roundLastPlace isRounded]
      rw [isInteger] at above ⊢
      exact_mod_cast Int.cast_pos.mp above

theorem jsNumber_eq_zero (n : Nat) : jsNumber n = .finite 0 ↔ n = 0 := by
  rw [← jsNumber_of_coe rounded_zero, jsNumber_eq_iff]
  constructor
  · intro same
    by_contra positive
    exact absurd (rounded_zero ▸ same).symm (rounded_pos (Nat.pos_of_ne_zero positive)).ne
  · rintro rfl
    rfl

/-! ### The sign of a difference -/

theorem sign_ofRat_neg {q : ℚ} (large : q ≤ -1) : sign (.ofRat q) = .lt := by
  have negative : q < 0 := large.trans_lt (by norm_num)
  rw [JsNumber.ofRat, binary64]
  split
  case h_1 value isRounded =>
    obtain ⟨-, isRounded⟩ := Option.ite_none_right_eq_some.mp isRounded
    have below := roundLastPlace_neg large
    rw [Option.some_inj.mp isRounded] at below
    exact if_pos (decide_eq_true below)
  case h_2 => exact if_pos (decide_eq_true negative)

theorem sign_ofRat_pos {q : ℚ} (large : 1 ≤ q) : sign (.ofRat q) = .gt := by
  have positive : 0 < q := zero_lt_one.trans_le large
  rw [JsNumber.ofRat, binary64]
  split
  case h_1 value isRounded =>
    obtain ⟨-, isRounded⟩ := Option.ite_none_right_eq_some.mp isRounded
    have above := roundLastPlace_pos large
    rw [Option.some_inj.mp isRounded] at above
    rw [sign, if_neg (by simpa [JsNumber.isNegative] using above.le)]
    exact if_pos (decide_eq_true above)
  case h_2 =>
    rw [decide_eq_false (not_lt.mpr positive.le)]
    rfl

def Compared {α : Type*} [LT α] (difference : Option JsNumber) (left right : α) : Prop :=
  ∃ result, difference.map sign = some result ∧ result.Compares left right

theorem sign_sub {m n : Nat} (apart : rounded m ≠ rounded n) :
    Compared (sub (jsNumber m) (jsNumber n)) (rounded m) (rounded n) := by
  cases left : rounded m with
  | top =>
    cases right : rounded n with
    | top => exact absurd (left.trans right.symm) apart
    | coe value' =>
      rw [jsNumber_of_top left, jsNumber_of_coe right]
      exact ⟨.gt, rfl, WithTop.coe_lt_top value'⟩
  | coe value =>
    cases right : rounded n with
    | top =>
      rw [jsNumber_of_coe left, jsNumber_of_top right]
      exact ⟨.lt, rfl, WithTop.coe_lt_top value⟩
    | coe value' =>
      obtain ⟨i, isI⟩ := exists_roundLastPlace_natCast m
      obtain ⟨j, isJ⟩ := exists_roundLastPlace_natCast n
      have integers : value = i ∧ value' = j :=
        ⟨(eq_roundLastPlace left).trans isI, (eq_roundLastPlace right).trans isJ⟩
      rw [left, right, integers.1, integers.2, Ne, WithTop.coe_inj, Int.cast_inj] at apart
      rw [jsNumber_of_coe left, jsNumber_of_coe right, integers.1, integers.2]
      rcases lt_or_gt_of_ne apart with below | above
      · refine ⟨.lt, congrArg some (sign_ofRat_neg ?_), WithTop.coe_lt_coe.mpr (Int.cast_lt.mpr below)⟩
        exact_mod_cast (show i - j ≤ -1 by omega)
      · refine ⟨.gt, congrArg some (sign_ofRat_pos ?_), WithTop.coe_lt_coe.mpr (Int.cast_lt.mpr above)⟩
        exact_mod_cast (show 1 ≤ i - j by omega)

theorem compares_cons {α : Type*} [LT α] {a b : α} {l l' : List α} {result : Ordering}
    (compares : result.Compares a b) (apart : a ≠ b) : result.Compares (a :: l) (b :: l') := by
  cases result with
  | lt => exact List.cons_lt_cons_iff.mpr (.inl compares)
  | eq => exact absurd compares apart
  | gt => exact List.cons_lt_cons_iff.mpr (.inl compares)

theorem compares_cons_same {α : Type*} [LT α] {a : α} {l l' : List α} {result : Ordering}
    (compares : result.Compares l l') : result.Compares (a :: l) (a :: l') := by
  cases result with
  | lt => exact List.cons_lt_cons_iff.mpr (.inr ⟨rfl, compares⟩)
  | eq => exact congrArg (a :: ·) compares
  | gt => exact List.cons_lt_cons_iff.mpr (.inr ⟨rfl, compares⟩)

/-- **The sign of a difference** is the order of the rounded numbers. -/
theorem sign_difference {l l' : List Nat} (lengths : l.length = l'.length) :
    Compared (difference (l.map jsNumber) (l'.map jsNumber)) (l.map rounded) (l'.map rounded) := by
  induction l generalizing l' with
  | nil =>
    obtain rfl := List.length_eq_zero_iff.mp lengths.symm
    exact ⟨.eq, rfl, rfl⟩
  | cons n rest ih =>
    cases l' with
    | nil => exact absurd lengths (Nat.succ_ne_zero _)
    | cons n' rest' =>
      simp only [List.map_cons, difference, ne_eq, jsNumber_eq_iff, ite_not]
      split
      case isTrue same =>
        obtain ⟨result, isResult, compares⟩ := ih (Nat.succ.inj lengths)
        rw [same]
        exact ⟨result, isResult, compares_cons_same compares⟩
      case isFalse apart =>
        obtain ⟨result, isResult, compares⟩ := sign_sub apart
        exact ⟨result, isResult, compares_cons compares apart⟩

/-! ### Versions -/

structure Version where
  text : String
  accepted : isSemver text = true
  release : precedence text = [0, 0, 0] → text = "0.0.0"

theorem exists_precedence {v : String} (accepted : isSemver v = true) :
    ∃ major minor patch, precedence v = [major, minor, patch] := by
  unfold isSemver at accepted
  split at accepted
  case h_1 major minor patch split =>
    exact ⟨_, _, _, by rw [precedence, split]; rfl⟩
  case h_2 => exact absurd accepted Bool.false_ne_true

/-- Development builds, the old releases, the new ones before 1.0.0, and those from there on. -/
def series (v : String) : Nat :=
  match precedence v with
  | [0, 0, 0] => 0
  | 0 :: 0 :: _ => 2
  | 0 :: _ => 1
  | _ => 3

def place (v : String) : List Nat := series v :: precedence v

theorem epoch_eq {v : String} {major minor patch : Nat}
    (isPrecedence : precedence v = [major, minor, patch]) :
    epoch v = if 1 ≤ major then 2 else if minor = 0 then 1 else 0 := by
  simp [epoch, isPrecedence, atLeastOne_jsNumber, jsNumber_eq_zero]

theorem series_eq {v : String} {major minor patch : Nat}
    (isPrecedence : precedence v = [major, minor, patch]) :
    series v = if major = 0 ∧ minor = 0 ∧ patch = 0 then 0
      else if 1 ≤ major then 3 else if minor = 0 then 2 else 1 := by
  rw [series, isPrecedence]
  rcases major with _ | major <;> rcases minor with _ | minor <;> rcases patch with _ | patch <;> simp

theorem epoch_of_release {v : String} (accepted : isSemver v = true)
    (release : precedence v ≠ [0, 0, 0]) : epoch v + 1 = series v := by
  obtain ⟨major, minor, patch, isPrecedence⟩ := exists_precedence accepted
  have nonzero : ¬ (major = 0 ∧ minor = 0 ∧ patch = 0) := fun zeros =>
    release (by rw [isPrecedence, zeros.1, zeros.2.1, zeros.2.2])
  rw [series_eq isPrecedence, if_neg nonzero, epoch_eq isPrecedence]
  split
  case isTrue => rfl
  case isFalse => split <;> rfl

theorem series_pos {v : String} (accepted : isSemver v = true)
    (release : precedence v ≠ [0, 0, 0]) : 0 < series v := by
  obtain ⟨major, minor, patch, isPrecedence⟩ := exists_precedence accepted
  have nonzero : ¬ (major = 0 ∧ minor = 0 ∧ patch = 0) := fun zeros =>
    release (by rw [isPrecedence, zeros.1, zeros.2.1, zeros.2.2])
  rw [series_eq isPrecedence, if_neg nonzero]
  split
  case isTrue => decide
  case isFalse => split <;> decide

theorem series_le (v : String) : series v ≤ 3 := by
  unfold series
  split <;> decide

theorem compared_compareSemver {a b : String} (acceptedA : isSemver a = true)
    (acceptedB : isSemver b = true) :
    Compared (compareSemver a b) ((precedence a).map rounded) ((precedence b).map rounded) := by
  obtain ⟨_, _, _, isA⟩ := exists_precedence acceptedA
  obtain ⟨_, _, _, isB⟩ := exists_precedence acceptedB
  exact sign_difference (by rw [isA, isB]; rfl)

theorem rounded_lt_iff {m n : Nat} (exactM : m < 2 ^ 53) (exactN : n < 2 ^ 53) :
    rounded m < rounded n ↔ m < n := by
  rw [rounded_of_exact exactM, rounded_of_exact exactN, WithTop.coe_lt_coe, Nat.cast_lt]

theorem development_lt {v : String} (accepted : isSemver v = true)
    (release : precedence v ≠ [0, 0, 0]) : [0, 0, 0].map rounded < (precedence v).map rounded := by
  obtain ⟨major, minor, patch, isPrecedence⟩ := exists_precedence accepted
  rw [isPrecedence] at release ⊢
  have above : ∀ {n : Nat}, 0 < n → rounded 0 < rounded n := fun positive =>
    rounded_zero ▸ rounded_pos positive
  rcases Nat.eq_zero_or_pos major with rfl | positive
  · refine List.cons_lt_cons_iff.mpr (.inr ⟨rfl, ?_⟩)
    rcases Nat.eq_zero_or_pos minor with rfl | positive
    · refine List.cons_lt_cons_iff.mpr (.inr ⟨rfl, ?_⟩)
      have positive : 0 < patch := Nat.pos_of_ne_zero fun zero => release (by rw [zero])
      exact List.cons_lt_cons_iff.mpr (.inl (above positive))
    · exact List.cons_lt_cons_iff.mpr (.inl (above positive))
  · exact List.cons_lt_cons_iff.mpr (.inl (above positive))

theorem sign_finite_int (n : ℤ) : (sign (.finite n)).Compares n 0 := by
  rcases lt_trichotomy n 0 with below | rfl | above
  · have negative : JsNumber.isNegative (.finite n) = true :=
      decide_eq_true (Int.cast_lt_zero.mpr below)
    rw [sign, if_pos negative]
    exact below
  · rfl
  · have negative : ¬ JsNumber.isNegative (.finite n) = true := fun negative =>
      absurd (Int.cast_lt_zero.mp (of_decide_eq_true negative)) above.not_gt
    have positive : JsNumber.isPositive (.finite n) = true :=
      decide_eq_true (Int.cast_pos.mpr above)
    rw [sign, if_neg negative, if_pos positive]
    exact above

theorem compared_cons {difference : Option JsNumber} {n : Nat} {l l' : List Nat}
    (compared : Compared difference (l.map rounded) (l'.map rounded)) :
    Compared difference ((n :: l).map rounded) ((n :: l').map rounded) := by
  obtain ⟨result, isResult, compares⟩ := compared
  exact ⟨result, isResult, compares_cons_same compares⟩

theorem lt_of_series {a b : String} (below : series a < series b) :
    (place a).map rounded < (place b).map rounded := by
  have fits : ∀ v, series v < 2 ^ 53 := fun v => (series_le v).trans_lt (by decide)
  exact List.cons_lt_cons_iff.mpr (.inl ((rounded_lt_iff (fits a) (fits b)).mpr below))

theorem series_development {v : String} (development : precedence v = [0, 0, 0]) : series v = 0 := by
  rw [series_eq development, if_pos ⟨rfl, rfl, rfl⟩]

/-- **The difference of two versions tells the order of their places.** -/
theorem compared_versions (a b : Version) :
    Compared (compareToardVersions a.text b.text) ((place a.text).map rounded)
      ((place b.text).map rounded) := by
  have zeros : precedence "0.0.0" = [0, 0, 0] := rfl
  have compared := compared_compareSemver a.accepted b.accepted
  unfold compareToardVersions
  split
  case isTrue =>
    by_cases isA : precedence a.text = [0, 0, 0] <;> by_cases isB : precedence b.text = [0, 0, 0]
    · rw [place, place, series_development isA, series_development isB]
      exact compared_cons compared
    · obtain ⟨result, isResult, compares⟩ := compared
      have numbers := development_lt b.accepted isB
      rw [← isA] at numbers
      obtain rfl : result = .lt := compares.eq_lt.mpr numbers
      refine ⟨.lt, isResult, lt_of_series ?_⟩
      rw [series_development isA]
      exact series_pos b.accepted isB
    · obtain ⟨result, isResult, compares⟩ := compared
      have numbers := development_lt a.accepted isA
      rw [← isB] at numbers
      obtain rfl : result = .gt := compares.eq_gt.mpr numbers
      refine ⟨.gt, isResult, lt_of_series ?_⟩
      rw [series_development isB]
      exact series_pos a.accepted isA
    · rename_i development
      rcases development with isText | isText
      · exact absurd (isText ▸ zeros) isA
      · exact absurd (isText ▸ zeros) isB
  case isFalse releases =>
    have isA : precedence a.text ≠ [0, 0, 0] := fun zeros => releases (.inl (a.release zeros))
    have isB : precedence b.text ≠ [0, 0, 0] := fun zeros => releases (.inr (b.release zeros))
    have seriesA := epoch_of_release a.accepted isA
    have seriesB := epoch_of_release b.accepted isB
    dsimp only
    split
    case isTrue same =>
      have series : series a.text = series b.text := by omega
      rw [place, place, series]
      exact compared_cons compared
    case isFalse apart =>
      have compares := sign_finite_int (epoch a.text - epoch b.text)
      rcases lt_or_gt_of_ne apart with below | above
      · exact ⟨.lt, congrArg some (compares.eq_lt.mpr below), lt_of_series (by omega)⟩
      · exact ⟨.gt, congrArg some (compares.eq_gt.mpr above), lt_of_series (by omega)⟩

/-! ### The order -/

/-- All numbers are ones that a JavaScript number holds, whatever comes after it. -/
def Exact (v : String) : Prop := ∀ n ∈ precedence v, n < 2 ^ 53

theorem map_rounded_lt {l l' : List Nat} (fits : ∀ n ∈ l, n < 2 ^ 53) (fits' : ∀ n ∈ l', n < 2 ^ 53)
    (below : l < l') : l.map rounded < l'.map rounded := by
  have kept : ∀ {l : List Nat}, (∀ n ∈ l, n < 2 ^ 53) →
      l.map rounded = l.map fun n : Nat => ((n : ℚ) : WithTop ℚ) := fun fits =>
    List.map_congr_left fun n among => rounded_of_exact (fits n among)
  rw [kept fits, kept fits']
  exact List.map_lt (fun m n below => WithTop.coe_lt_coe.mpr (Nat.cast_lt.mpr below)) below

/-- **Exact numbers are compared by value.** -/
theorem compares_of_exact {l l' : List Nat} (fits : ∀ n ∈ l, n < 2 ^ 53)
    (fits' : ∀ n ∈ l', n < 2 ^ 53) {result : Ordering}
    (compares : result.Compares (l.map rounded) (l'.map rounded)) : result.Compares l l' := by
  refine (Ordering.compares_iff_of_compares_impl (fun {result} compares => ?_) result).mpr compares
  cases result with
  | lt => exact map_rounded_lt fits fits' compares
  | eq => exact congrArg (List.map rounded) compares
  | gt => exact map_rounded_lt fits' fits compares

theorem exact_place {v : String} (fits : Exact v) : ∀ n ∈ place v, n < 2 ^ 53 := by
  intro n among
  rcases List.mem_cons.mp among with rfl | among
  · exact (series_le v).trans_lt (by decide)
  · exact fits n among

/-- **Versions are ordered**: any two are comparable, one way round as the other, the order is
transitive, and it is that of the places, as far as the numbers are exact. -/
theorem versions_ordered :
    (∀ a b : Version, ∃ result, order a.text b.text = some result ∧
      order b.text a.text = some result.swap) ∧
    (∀ a b c : Version, order a.text b.text ≠ some .gt → order b.text c.text ≠ some .gt →
      order a.text c.text ≠ some .gt) ∧
    (∀ a b : Version, precedence a.text = precedence b.text → order a.text b.text = some .eq) ∧
    ∀ a b : Version, Exact a.text → Exact b.text → ∃ result, order a.text b.text = some result ∧
      result.Compares (place a.text) (place b.text) ∧
      (result = .eq ↔ precedence a.text = precedence b.text) := by
  have le_iff : ∀ a b : Version, order a.text b.text ≠ some .gt ↔
      (place a.text).map rounded ≤ (place b.text).map rounded := by
    intro a b
    obtain ⟨result, isResult, compares⟩ := compared_versions a b
    rw [order, isResult, Ne, Option.some_inj]
    exact compares.ne_gt
  have samePlace : ∀ {a b : String}, precedence a = precedence b → place a = place b := by
    intro a b same
    rw [place, place, series, series, same]
  refine ⟨fun a b => ?_, fun a b c => ?_, fun a b same => ?_, fun a b exactA exactB => ?_⟩
  · obtain ⟨result, isResult, compares⟩ := compared_versions a b
    obtain ⟨back, isBack, comparesBack⟩ := compared_versions b a
    refine ⟨result, isResult, isBack.trans (congrArg some ?_)⟩
    exact comparesBack.inj (Ordering.compares_swap.mpr compares)
  · rw [le_iff, le_iff, le_iff]
    exact le_trans
  · obtain ⟨result, isResult, compares⟩ := compared_versions a b
    exact isResult.trans (congrArg some (compares.eq_eq.mpr (congrArg _ (samePlace same))))
  · obtain ⟨result, isResult, compares⟩ := compared_versions a b
    have byValue := compares_of_exact (exact_place exactA) (exact_place exactB) compares
    refine ⟨result, isResult, byValue, byValue.eq_eq.trans ⟨fun same => ?_, samePlace⟩⟩
    exact (List.cons.inj same).2

def lastOld : Version where
  text := "0.15.55"
  accepted := by decide
  release zeros := absurd zeros (by decide)

def firstNew : Version where
  text := "0.0.1"
  accepted := by decide
  release zeros := absurd zeros (by decide)

theorem versions_ordered_restart : order "0.15.55" "0.0.1" = some .lt ∧
    order "0.0.1" "0.15.55" = some .gt := by
  obtain ⟨turned, -, -, byPlace⟩ := versions_ordered
  obtain ⟨result, isResult, compares, -⟩ := byPlace lastOld firstNew (by unfold Exact; decide)
    (by unfold Exact; decide)
  obtain rfl : result = .lt := compares.eq_lt.mpr (by decide)
  obtain ⟨result', isResult', isTurned⟩ := turned lastOld firstNew
  obtain rfl : result' = .lt := Option.some_inj.mp (isResult'.symm.trans isResult)
  exact ⟨isResult, isTurned⟩

theorem compares_development {a b : String} (development : a = "0.0.0" ∨ b = "0.0.0")
    (acceptedA : isSemver a = true) (acceptedB : isSemver b = true) (exactA : Exact a)
    (exactB : Exact b) :
    ∃ result, order a b = some result ∧ result.Compares (precedence a) (precedence b) := by
  obtain ⟨result, isResult, compares⟩ := compared_compareSemver acceptedA acceptedB
  refine ⟨result, ?_, compares_of_exact exactA exactB compares⟩
  rw [order, compareToardVersions, if_pos development, isResult]

/-- The old release is the larger one by its numbers, and below the new one; and a spelling of the
development build with a zero more is above a version that the development build is below. -/
theorem not_by_numbers :
    ¬ (∀ a b : String, isSemver a = true → isSemver b = true →
        (order a b = some .lt ↔ precedence a < precedence b)) ∧
      ¬ ∀ a b c : String, isSemver a = true → isSemver b = true → isSemver c = true →
        order a b ≠ some .gt → order b c ≠ some .gt → order a c ≠ some .gt := by
  constructor
  · intro byNumbers
    obtain ⟨result, isResult, compares⟩ := compared_versions firstNew lastOld
    have isLess := (byNumbers "0.0.1" "0.15.55" (by decide) (by decide)).mpr (by decide)
    obtain rfl : result = .lt := Option.some_inj.mp (isResult.symm.trans isLess)
    have below : place "0.0.1" < place "0.15.55" :=
      compares_of_exact (exact_place (by unfold Exact; decide))
        (exact_place (by unfold Exact; decide)) compares
    exact absurd below (by decide)
  · intro transitive
    have above : order "00.0.0" "0.1.0" = some .gt := by
      have zeros : epoch "00.0.0" = 1 := epoch_eq (show precedence "00.0.0" = [0, 0, 0] from rfl)
      have old : epoch "0.1.0" = 0 := epoch_eq (show precedence "0.1.0" = [0, 1, 0] from rfl)
      have apart : ¬ ("00.0.0" = "0.0.0" ∨ "0.1.0" = "0.0.0") := by decide
      rw [order, compareToardVersions, if_neg apart, zeros, old]
      exact congrArg some ((sign_finite_int 1).eq_gt.mpr Int.zero_lt_one)
    refine transitive "00.0.0" "0.0.0" "0.1.0" (by decide) (by decide) (by decide) ?_ ?_ above
    · obtain ⟨result, isResult, compares⟩ := compares_development (a := "00.0.0") (b := "0.0.0")
        (.inr rfl) (by decide) (by decide) (by unfold Exact; decide) (by unfold Exact; decide)
      rw [isResult, Ne, Option.some_inj, compares.eq_gt]
      decide
    · obtain ⟨result, isResult, compares⟩ := compares_development (a := "0.0.0") (b := "0.1.0")
        (.inl rfl) (by decide) (by decide) (by unfold Exact; decide) (by unfold Exact; decide)
      rw [isResult, Ne, Option.some_inj, compares.eq_gt]
      decide

end Toard.Server.Versions
