/-
**Canonical texts of collections: the elements in order, each behind its length.**

* `framed`: a value behind its length and a separator; `framed_append_inj`, framed values are a
  prefix code, and `flatMap_framed_inj`, a list is told by its frames.
* `insertionSort_pairwise_iff`: sorting by one order gives a list that is sorted strictly by
  another, exactly if the two agree on every pair, with ties broken by the list as it came.
* `injective_patched`: a function without collisions has none after some values of it are replaced
  by ones that it does not take.
-/

import Mathlib.Data.List.Sort

namespace Toard.Library

/-! ### Values behind their length -/

section Frames

variable {α : Type*} (lengthText : Nat → List α) (separator : α)

/-- A value behind its length, with a separator after both. -/
def framed (value : List α) : List α :=
  lengthText value.length ++ separator :: (value ++ [separator])

/-- The texts of lengths tell the lengths, and have no separator in them. -/
structure LengthTexts : Prop where
  injective : Function.Injective lengthText
  plain : ∀ length, separator ∉ lengthText length

variable {lengthText} {separator}

theorem append_separator_inj {left left' right right' : List α} (plain : separator ∉ left)
    (plain' : separator ∉ left') (same : left ++ separator :: right = left' ++ separator :: right') :
    left = left' ∧ right = right' := by
  induction left generalizing left' with
  | nil =>
    cases left' with
    | nil => exact ⟨rfl, (List.cons.inj same).2⟩
    | cons first rest =>
      obtain ⟨rfl, -⟩ := List.cons.inj same
      exact absurd List.mem_cons_self plain'
  | cons first rest ih =>
    cases left' with
    | nil =>
      obtain ⟨rfl, -⟩ := List.cons.inj same
      exact absurd List.mem_cons_self plain
    | cons first' rest' =>
      obtain ⟨rfl, later⟩ := List.cons.inj same
      obtain ⟨rfl, tails⟩ := ih (fun among => plain (List.mem_cons_of_mem _ among))
        (fun among => plain' (List.mem_cons_of_mem _ among)) later
      exact ⟨rfl, tails⟩

theorem append_separator_inj_of_count [DecidableEq α] {left left' right right' : List α}
    (balanced : left.count separator = left'.count separator)
    (same : left ++ separator :: right = left' ++ separator :: right') :
    left = left' ∧ right = right' := by
  induction left generalizing left' with
  | nil =>
    cases left' with
    | nil => exact ⟨rfl, (List.cons.inj same).2⟩
    | cons first rest =>
      obtain ⟨rfl, -⟩ := List.cons.inj same
      simp at balanced
  | cons first rest ih =>
    cases left' with
    | nil =>
      obtain ⟨rfl, -⟩ := List.cons.inj same
      simp at balanced
    | cons first' rest' =>
      obtain ⟨rfl, later⟩ := List.cons.inj same
      rw [List.count_cons, List.count_cons, Nat.add_right_cancel_iff] at balanced
      obtain ⟨rfl, tails⟩ := ih balanced later
      exact ⟨rfl, tails⟩

theorem append_separator_inj_right {left left' right right' : List α} (plain : separator ∉ right)
    (plain' : separator ∉ right')
    (same : left ++ separator :: right = left' ++ separator :: right') :
    left = left' ∧ right = right' := by
  have reversed := congrArg List.reverse same
  simp only [List.reverse_append, List.reverse_cons, List.append_assoc, List.singleton_append]
    at reversed
  obtain ⟨behind, before⟩ := append_separator_inj (by simpa using plain) (by simpa using plain')
    reversed
  exact ⟨List.reverse_injective before, List.reverse_injective behind⟩

/-- **Framed values are a prefix code.** -/
theorem framed_append_inj (texts : LengthTexts lengthText separator)
    {value value' rest rest' : List α}
    (same : framed lengthText separator value ++ rest = framed lengthText separator value' ++ rest') :
    value = value' ∧ rest = rest' := by
  simp only [framed, List.append_assoc, List.cons_append] at same
  obtain ⟨lengths, same⟩ := append_separator_inj (texts.plain _) (texts.plain _) same
  obtain ⟨rfl, tails⟩ := List.append_inj same (texts.injective lengths)
  exact ⟨rfl, (List.cons.inj tails).2⟩

theorem framed_ne_nil (value : List α) : framed lengthText separator value ≠ [] :=
  List.append_ne_nil_of_right_ne_nil _ (List.cons_ne_nil _ _)

/-- **A list of records is told by the frames of their fields.** -/
theorem flatMap_framed_inj {β : Type*} (texts : LengthTexts lengthText separator)
    {name content : β → List α}
    (told : ∀ record record', name record = name record' → content record = content record' →
      record = record')
    {records records' : List β}
    (same : records.flatMap (fun record => framed lengthText separator (name record) ++
        framed lengthText separator (content record))
      = records'.flatMap fun record => framed lengthText separator (name record) ++
        framed lengthText separator (content record)) : records = records' := by
  induction records generalizing records' with
  | nil =>
    cases records' with
    | nil => rfl
    | cons record rest =>
      rw [List.flatMap_nil, List.flatMap_cons, List.append_assoc] at same
      exact absurd (List.append_eq_nil_iff.mp same.symm).1 (framed_ne_nil _)
  | cons record rest ih =>
    cases records' with
    | nil =>
      rw [List.flatMap_nil, List.flatMap_cons, List.append_assoc] at same
      exact absurd (List.append_eq_nil_iff.mp same).1 (framed_ne_nil _)
    | cons record' rest' =>
      rw [List.flatMap_cons, List.flatMap_cons, List.append_assoc, List.append_assoc] at same
      obtain ⟨names, later⟩ := framed_append_inj texts same
      obtain ⟨contents, tails⟩ := framed_append_inj texts later
      rw [told record record' names contents, ih tails]

end Frames

/-! ### Two orders -/

section Orders

variable {α : Type*} {le lt : α → α → Prop} [DecidableRel le]

/-- One order puts a pair as the other does. -/
def AgreeOn (le lt : α → α → Prop) (first second : α) : Prop :=
  (le first second → lt first second) ∧ (¬ le first second → lt second first)

instance [DecidableRel lt] : DecidableRel (AgreeOn le lt) := fun first second =>
  inferInstanceAs (Decidable ((le first second → lt first second) ∧
    (¬ le first second → lt second first)))

theorem orderedInsert_pairwise (trans : ∀ a b c, lt a b → lt b c → lt a c) {value : α}
    {sorted : List α} (strict : sorted.Pairwise lt)
    (agree : ∀ other ∈ sorted, AgreeOn le lt value other) :
    (sorted.orderedInsert le value).Pairwise lt := by
  induction sorted with
  | nil => exact List.pairwise_singleton lt value
  | cons head rest ih =>
    obtain ⟨below, strictRest⟩ := List.pairwise_cons.mp strict
    have agreeHead := agree head List.mem_cons_self
    rw [List.orderedInsert_cons]
    split
    case isTrue before =>
      refine List.pairwise_cons.mpr ⟨fun other among => ?_, strict⟩
      obtain rfl | among := List.mem_cons.mp among
      · exact agreeHead.1 before
      · exact trans _ _ _ (agreeHead.1 before) (below other among)
    case isFalse after =>
      refine List.pairwise_cons.mpr ⟨fun other among => ?_,
        ih strictRest fun other among => agree other (List.mem_cons_of_mem _ among)⟩
      obtain rfl | among := (List.mem_orderedInsert le).mp among
      · exact agreeHead.2 after
      · exact below other among

theorem agree_of_orderedInsert (leTrans : ∀ a b c, le a b → le b c → le a c) {value : α}
    {sorted : List α} (isSorted : sorted.Pairwise le)
    (strict : (sorted.orderedInsert le value).Pairwise lt) :
    ∀ other ∈ sorted, AgreeOn le lt value other := by
  induction sorted with
  | nil => exact fun _ among => absurd among List.not_mem_nil
  | cons head rest ih =>
    obtain ⟨leHead, leRest⟩ := List.pairwise_cons.mp isSorted
    rw [List.orderedInsert_cons] at strict
    split at strict
    case isTrue before =>
      obtain ⟨above, -⟩ := List.pairwise_cons.mp strict
      intro other among
      refine ⟨fun _ => above other among, fun after => absurd ?_ after⟩
      obtain rfl | among := List.mem_cons.mp among
      · exact before
      · exact leTrans _ _ _ before (leHead other among)
    case isFalse after =>
      obtain ⟨above, strictRest⟩ := List.pairwise_cons.mp strict
      intro other among
      obtain rfl | among := List.mem_cons.mp among
      · exact ⟨fun before => absurd before after,
          fun _ => above value ((List.mem_orderedInsert le).mpr (.inl rfl))⟩
      · exact ih leRest strictRest other among

/-- **Sorted by one order, a list is strictly sorted in another** exactly if the orders agree on
every two of its elements, in the order in which they came. -/
theorem insertionSort_pairwise_iff (total : ∀ a b, le a b ∨ le b a)
    (leTrans : ∀ a b c, le a b → le b c → le a c) (trans : ∀ a b c, lt a b → lt b c → lt a c)
    {values : List α} :
    (values.insertionSort le).Pairwise lt ↔ values.Pairwise (AgreeOn le lt) := by
  have : Std.Total le := ⟨total⟩
  have : IsTrans α le := ⟨leTrans⟩
  induction values with
  | nil => simp
  | cons value rest ih =>
    have isSorted : (rest.insertionSort le).Pairwise le := List.pairwise_insertionSort le rest
    rw [List.insertionSort_cons, List.pairwise_cons]
    refine Iff.trans ?_ (and_congr_right fun _ => ih)
    constructor
    · intro strict
      refine ⟨fun other among => agree_of_orderedInsert leTrans isSorted strict other
        ((List.mem_insertionSort le).mpr among), ?_⟩
      exact strict.sublist (List.sublist_orderedInsert value _)
    · rintro ⟨agree, strict⟩
      exact orderedInsert_pairwise trans strict fun other among =>
        agree other ((List.mem_insertionSort le).mp among)

end Orders

/-! ### Known values of a function -/

section Patches

variable {α β : Type*} [BEq α] [LawfulBEq α] {known : List (α × β)} {other : α → β}

theorem injective_patched (injective : Function.Injective other)
    (distinct : ∀ entry ∈ known, ∀ entry' ∈ known, entry.2 = entry'.2 → entry = entry')
    (apart : ∀ entry ∈ known, ∀ value, entry.2 ≠ other value) :
    Function.Injective fun value => (known.lookup value).getD (other value) := by
  have isKnown : ∀ {value image}, known.lookup value = some image → (value, image) ∈ known :=
    fun {value image} looked => by
      obtain ⟨before, after, same, -⟩ := List.lookup_eq_some_iff.mp looked
      rw [same]
      exact List.mem_append_right _ List.mem_cons_self
  intro left right same
  dsimp only at same
  cases first : known.lookup left with
  | some image =>
    cases second : known.lookup right with
    | some image' =>
      rw [first, second] at same
      exact congrArg Prod.fst (distinct _ (isKnown first) _ (isKnown second) same)
    | none =>
      rw [first, second, Option.getD_some, Option.getD_none] at same
      exact absurd same (apart _ (isKnown first) right)
  | none =>
    cases second : known.lookup right with
    | some image =>
      rw [first, second, Option.getD_some, Option.getD_none] at same
      exact absurd same.symm (apart _ (isKnown second) left)
    | none =>
      rw [first, second, Option.getD_none, Option.getD_none] at same
      exact injective same

end Patches

end Toard.Library
