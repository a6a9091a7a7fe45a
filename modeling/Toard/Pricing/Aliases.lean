/-
**Whether a price list resolves the same in every order (`resolveAliasEntry`).**

The exact and the normalized stage look a key up; only the last one, which takes the longest key
that overlaps with the name, depends on where a key stands: of several that are equally long it
takes the first. A name that is nothing but a vendor prefix or a date is stripped to the empty text,
and that is part of every key.

* **`resolution_settled_iff`**: exactly then no order matters and an empty name matches nothing.
-/

import Mathlib.Data.List.MinMax
import Toard.Pricing.Price

namespace Toard.Pricing

open Toard.Library (OrderedMap)

/-! ### The stages -/

section Stages

variable {α : Type} (model : String) (values : OrderedMap String α)

def strippedName : String := stripDateSuffix (stripVendorPrefix model)

/-- What the lookups find: the name itself, then what is left of it. -/
def listedEntry : Option (ResolvedAliasEntry α) :=
  ((values.get model).map fun value => ⟨model, value, .exact⟩) <|>
    ((values.get (stripVendorPrefix model)).map fun value =>
      ⟨stripVendorPrefix model, value, .normalized⟩) <|>
    if strippedName model ≠ stripVendorPrefix model then
      (values.get (strippedName model)).map fun value => ⟨strippedName model, value, .normalized⟩
    else none

def overlaps (entry : String × α) : Bool :=
  includes (stripVendorPrefix model) entry.1 || includes entry.1 (strippedName model)

def keyLength (entry : String × α) : Nat := (codeUnits entry.1).length

def fuzzyEntries : List (String × α) :=
  values.entries.filter fun entry => overlaps model entry ∧ 0 < keyLength entry

def inferredEntry (entry : String × α) : ResolvedAliasEntry α := ⟨entry.1, entry.2, .inferred⟩

def widen (sofar : Option (ResolvedAliasEntry α) × Nat) (entry : String × α) :
    Option (ResolvedAliasEntry α) × Nat :=
  if overlaps model entry && keyLength entry > sofar.2 then
    (some (inferredEntry entry), keyLength entry)
  else sofar

theorem foldl_widen (entries : List (String × α)) :
    entries.foldl (widen model) (none, 0) =
      let best := (entries.filter fun entry => overlaps model entry ∧ 0 < keyLength entry).argmax
        keyLength
      (best.map inferredEntry, (best.map keyLength).getD 0) := by
  induction entries using List.reverseRecOn with
  | nil => rfl
  | append_singleton before last ih =>
    rw [List.foldl_append, ih, List.filter_append, List.foldl_cons, List.foldl_nil]
    dsimp only
    by_cases candidate : overlaps model last = true ∧ 0 < keyLength last
    · rw [List.filter_cons_of_pos (by simpa using candidate), List.filter_nil, List.argmax_concat]
      cases (before.filter fun entry => overlaps model entry ∧ 0 < keyLength entry).argmax
          keyLength with
      | none => simp [widen, candidate]
      | some best =>
        by_cases longer : keyLength best < keyLength last
        · simp [widen, candidate, longer]
        · simp [widen, longer]
    · rw [List.filter_cons_of_neg (by simpa using candidate), List.filter_nil, List.append_nil]
      refine if_neg fun both => candidate ?_
      obtain ⟨overlapping, longer⟩ := (Bool.and_eq_true _ _).mp both
      exact ⟨overlapping, (Nat.zero_le _).trans_lt (of_decide_eq_true longer)⟩

theorem fuzzyAliasEntry_eq :
    fuzzyAliasEntry (stripVendorPrefix model) (strippedName model) values
      = ((fuzzyEntries model values).argmax keyLength).map inferredEntry := by
  show (values.entries.foldl (widen model) (none, 0)).1 = _
  rw [foldl_widen]
  rfl

/-- **The stages of a resolution**: the lookups, then the longest key. -/
theorem resolveAliasEntry_eq (named : model ≠ "") :
    resolveAliasEntry model values = (listedEntry model values <|>
      ((fuzzyEntries model values).argmax keyLength).map inferredEntry) := by
  rw [← fuzzyAliasEntry_eq, resolveAliasEntry, if_neg named, listedEntry]
  unfold strippedName
  cases values.get model with
  | some direct => simp
  | none =>
    cases found : values.get (stripVendorPrefix model) with
    | some afterPrefix => simp [found]
    | none =>
      by_cases dated : stripDateSuffix (stripVendorPrefix model) = stripVendorPrefix model
      · simp [found, dated]
      · cases dateless : values.get (stripDateSuffix (stripVendorPrefix model)) with
        | some afterDate => simp [found, dated, dateless]
        | none => simp [found, dated, dateless]

end Stages

/-! ### Other orders -/

section Orders

variable {α : Type} {model : String} {values other : OrderedMap String α}

theorem get_perm (perm : other.entries.Perm values.entries) (key : String) :
    other.get key = values.get key := by
  refine Option.ext fun value => ?_
  rw [Library.OrderedMap.get_eq_some, Library.OrderedMap.get_eq_some, perm.mem_iff]

theorem matched_listedEntry {resolved : ResolvedAliasEntry α}
    (listed : listedEntry model values = some resolved) : resolved.matched ≠ .inferred := by
  rw [listedEntry] at listed
  cases direct : values.get model with
  | some value =>
    rw [direct] at listed
    cases listed
    exact AliasMatch.noConfusion
  | none =>
    cases plain : values.get (stripVendorPrefix model) with
    | some value =>
      rw [direct, plain] at listed
      cases listed
      exact AliasMatch.noConfusion
    | none =>
      rw [direct, plain] at listed
      have dateless : (if strippedName model ≠ stripVendorPrefix model then
          (values.get (strippedName model)).map fun value =>
            ResolvedAliasEntry.mk (strippedName model) value .normalized
        else none) = some resolved := listed
      split at dateless
      · obtain ⟨value, -, rfl⟩ := Option.map_eq_some_iff.mp dateless
        exact AliasMatch.noConfusion
      · cases dateless

theorem listedEntry_perm (perm : other.entries.Perm values.entries) :
    listedEntry model other = listedEntry model values := by
  simp only [listedEntry, get_perm perm]

/-- No other entry that the last stage chooses from has a longer key. -/
def Longest (model : String) (values : OrderedMap String α) (entry : String × α) : Prop :=
  entry ∈ fuzzyEntries model values ∧
    ∀ rival ∈ fuzzyEntries model values, keyLength rival ≤ keyLength entry

theorem longest_of_argmax {entry : String × α}
    (best : (fuzzyEntries model values).argmax keyLength = some entry) :
    Longest model values entry :=
  ⟨List.argmax_mem best, fun _ rival => List.le_of_mem_argmax rival best⟩

theorem longest_perm (perm : other.entries.Perm values.entries) {entry : String × α} :
    Longest model other entry ↔ Longest model values entry := by
  unfold Longest fuzzyEntries
  simp only [(perm.filter _).mem_iff]

theorem argmax_of_first {entry : String × α} {rest : List (String × α)}
    (longest : Longest model values entry) (first : values.entries = entry :: rest) :
    (fuzzyEntries model values).argmax keyLength = some entry := by
  obtain ⟨among, longer⟩ := longest
  obtain ⟨others, split⟩ : ∃ others, fuzzyEntries model values = entry :: others := by
    rw [fuzzyEntries, first]
    exact ⟨_, List.filter_cons_of_pos (List.mem_filter.mp among).2⟩
  rw [split] at longer
  rw [split, List.argmax_cons]
  cases best : others.argmax keyLength with
  | none => rfl
  | some rival =>
    have shorter := longer rival (List.mem_cons_of_mem _ (List.argmax_mem best))
    exact if_neg shorter.not_gt

theorem exists_first {entry : String × α} (among : entry ∈ values.entries) :
    ∃ front : OrderedMap String α, front.entries.Perm values.entries ∧
      ∃ rest, front.entries = entry :: rest := by
  obtain ⟨before, after, split⟩ := List.append_of_mem among
  have perm : (entry :: (before ++ after)).Perm values.entries := by
    rw [split]
    exact List.perm_middle.symm
  exact ⟨⟨entry :: (before ++ after), (perm.map Prod.fst).nodup_iff.mpr values.distinct⟩, perm, _,
    rfl⟩

end Orders

/-! ### When no order matters -/

/-- The resolution is the same in every order of the catalog, and a name that is stripped to the
empty text is matched by no key that is not part of it. -/
structure OrderFree {α : Type} (model : String) (values : OrderedMap String α) : Prop where
  perm : ∀ other : OrderedMap String α, other.entries.Perm values.entries →
    resolveAliasEntry model other = resolveAliasEntry model values
  empty : strippedName model = "" → ∀ resolved, resolveAliasEntry model values = some resolved →
    resolved.matched = .inferred → includes (stripVendorPrefix model) resolved.key = true

/-- There is no name, it is listed, or of the keys that overlap with it one is longest; and if it is
stripped to the empty text, this key is part of it. -/
def Settled {α : Type} (model : String) (values : OrderedMap String α) : Prop :=
  model = "" ∨ (listedEntry model values).isSome = true ∨
    (∀ entry rival, Longest model values entry → Longest model values rival →
      entry.1 = rival.1) ∧
    (strippedName model = "" → ∀ entry, Longest model values entry →
      includes (stripVendorPrefix model) entry.1 = true)

section Free

variable {α : Type} {model : String} {values : OrderedMap String α}

theorem argmax_perm {other : OrderedMap String α}
    (one : ∀ entry rival, Longest model values entry → Longest model values rival →
      entry.1 = rival.1) (perm : other.entries.Perm values.entries) :
    (fuzzyEntries model other).argmax keyLength = (fuzzyEntries model values).argmax keyLength := by
  cases best : (fuzzyEntries model other).argmax keyLength with
  | none =>
    have empty : fuzzyEntries model other = [] := List.argmax_eq_none.mp best
    have empty' : fuzzyEntries model values = [] :=
      List.Perm.eq_nil (empty ▸ (perm.filter _).symm)
    rw [empty', List.argmax_nil]
  | some entry =>
    have longest := (longest_perm perm).mp (longest_of_argmax best)
    cases best' : (fuzzyEntries model values).argmax keyLength with
    | none =>
      rw [List.argmax_eq_none] at best'
      exact absurd (best' ▸ longest.1) List.not_mem_nil
    | some rival =>
      have longest' := longest_of_argmax best'
      have value : values.get rival.1 = some rival.2 :=
        Library.OrderedMap.get_eq_some.mpr (List.mem_filter.mp longest'.1).1
      have value' : values.get entry.1 = some entry.2 :=
        Library.OrderedMap.get_eq_some.mpr (List.mem_filter.mp longest.1).1
      rw [one entry rival longest longest', value] at value'
      exact congrArg some (Prod.ext (one entry rival longest longest')
        (Option.some_inj.mp value').symm)

theorem resolve_of_first (named : model ≠ "") (unlisted : listedEntry model values = none)
    {entry : String × α} {rest : List (String × α)} (longest : Longest model values entry)
    (first : values.entries = entry :: rest) :
    resolveAliasEntry model values = some (inferredEntry entry) := by
  rw [resolveAliasEntry_eq model values named, unlisted, argmax_of_first longest first]
  rfl

theorem Settled.orderFree (settled : Settled model values) : OrderFree model values := by
  by_cases named : model = ""
  · have nothing : ∀ entries : OrderedMap String α, resolveAliasEntry model entries = none :=
      fun entries => if_pos named
    refine ⟨fun other _ => by rw [nothing, nothing], fun _ resolved found => ?_⟩
    rw [nothing] at found
    cases found
  rcases settled.resolve_left named with listed | ⟨one, part⟩
  · obtain ⟨entry, isEntry⟩ := Option.isSome_iff_exists.mp listed
    have found : ∀ other : OrderedMap String α, other.entries.Perm values.entries →
        resolveAliasEntry model other = some entry := by
      intro other perm
      rw [resolveAliasEntry_eq model other named, listedEntry_perm perm, isEntry]
      rfl
    refine ⟨fun other perm => by rw [found other perm, found values .rfl], ?_⟩
    intro _ resolved isResolved inferred
    rw [found values .rfl] at isResolved
    cases isResolved
    exact absurd inferred (matched_listedEntry isEntry)
  · constructor
    · intro other perm
      rw [resolveAliasEntry_eq model other named, resolveAliasEntry_eq model values named,
        listedEntry_perm perm, argmax_perm one perm]
    · intro empty resolved found inferred
      rw [resolveAliasEntry_eq model values named] at found
      cases listed : listedEntry model values with
      | some entry =>
        rw [listed] at found
        cases found
        exact absurd inferred (matched_listedEntry listed)
      | none =>
        rw [listed] at found
        obtain ⟨entry, best, rfl⟩ := Option.map_eq_some_iff.mp found
        exact part empty entry (longest_of_argmax best)

/-- With one of the longest entries in front the last stage takes it, so that each of them is the
one that is always taken. -/
theorem OrderFree.settled (free : OrderFree model values) : Settled model values := by
  by_cases named : model = ""
  · exact Or.inl named
  refine Or.inr ?_
  cases listed : listedEntry model values with
  | some entry => exact Or.inl rfl
  | none =>
    have taken : ∀ entry, Longest model values entry →
        resolveAliasEntry model values = some (inferredEntry entry) := by
      intro entry longest
      obtain ⟨front, perm, rest, first⟩ := exists_first (List.mem_filter.mp longest.1).1
      rw [← free.perm front perm]
      exact resolve_of_first named ((listedEntry_perm perm).trans listed)
        ((longest_perm perm).mpr longest) first
    refine Or.inr ⟨fun entry rival longest longest' => ?_, fun empty entry longest => ?_⟩
    · have same := (taken entry longest).symm.trans (taken rival longest')
      exact congrArg ResolvedAliasEntry.key (Option.some_inj.mp same)
    · exact free.empty empty _ (taken entry longest) rfl

end Free

/-- **Which resolutions depend on no order.** A price list resolves a name in the same way in every
order, and an empty stripped name matches nothing, exactly if the name is settled. -/
theorem resolution_settled_iff (model : String) :
    (∀ {α : Type} (values : OrderedMap String α), OrderFree model values ↔ Settled model values) ∧
      ∀ pricing other : PricingMap, Settled model pricing → other.entries.Perm pricing.entries →
        resolvePricingEntry model other = resolvePricingEntry model pricing := by
  refine ⟨fun values => ⟨OrderFree.settled, Settled.orderFree⟩, ?_⟩
  intro pricing other settled perm
  rw [resolvePricingEntry, resolvePricingEntry, settled.orderFree.perm other perm]

/-- Two keys of one length that both hold the name `gpt-4`. -/
def tiedKeys : OrderedMap String Nat := ⟨[("gpt-4a", 1), ("gpt-4b", 2)], by decide⟩

def tiedKeysReversed : OrderedMap String Nat := ⟨[("gpt-4b", 2), ("gpt-4a", 1)], by decide⟩

/-- The order decides between two keys of one length, and a vendor's prefix alone is priced like
the longest key. -/
theorem not_order_free :
    (¬ ∀ (model : String) (values other : OrderedMap String Nat),
      other.entries.Perm values.entries →
        resolveAliasEntry model other = resolveAliasEntry model values) ∧
    ¬ ∀ (model : String) (values : OrderedMap String Nat), strippedName model = "" →
      ∀ resolved, resolveAliasEntry model values = some resolved → resolved.matched = .inferred →
        includes (stripVendorPrefix model) resolved.key = true := by
  constructor
  · intro claim
    have keys := congrArg (Option.map ResolvedAliasEntry.key)
      (claim "gpt-4" tiedKeys tiedKeysReversed (List.Perm.swap _ _ _))
    have first : (resolveAliasEntry "gpt-4" tiedKeys).map ResolvedAliasEntry.key
        = some "gpt-4a" := by decide
    have second : (resolveAliasEntry "gpt-4" tiedKeysReversed).map ResolvedAliasEntry.key
        = some "gpt-4b" := by decide
    rw [first, second] at keys
    exact absurd keys (by decide)
  · intro claim
    have found : (resolveAliasEntry "openai/" tiedKeys).map
        (fun resolved => (resolved.key, resolved.matched)) = some ("gpt-4a", .inferred) := by
      decide
    obtain ⟨resolved, isResolved, keyAndMatch⟩ := Option.map_eq_some_iff.mp found
    obtain ⟨isKey, inferred⟩ := Prod.mk.inj keyAndMatch
    have part := claim "openai/" tiedKeys (by decide) resolved isResolved inferred
    rw [isKey] at part
    exact absurd part (by decide)

end Toard.Pricing
