/-
**What a history search finds in a text (`prompt-history.ts`).**

A text and the query are brought to one form: compatibility characters are replaced, runs of white
space become one blank, and the ends are trimmed. The query is found in the lower case of the text,
and a long text is cut down around it.

* **`showsSnippet_iff`**: a text yields a snippet that is not empty if it contains the query.
* **`snippet_of_text`**: what is shown is cut out of the text, and has the query where lower-casing
  keeps the places of the letters.
-/

import Mathlib.Data.List.DropRight
import Mathlib.Data.List.Infix

namespace Toard.History

abbrev JsString := List UInt16

/-- `normalize("NFKC")` and `toLowerCase`. -/
structure Unicode where
  nfkc : JsString → JsString
  toLowerCase : JsString → JsString
  toLowerCase_nil : toLowerCase [] = []

def HISTORY_SEARCH_QUERY_LIMIT : Nat := 200

/-- `\s` -/
def isSpace (unit : UInt16) : Bool :=
  (9 ≤ unit && unit ≤ 13) || unit == 0x20 || unit == 0xA0 || unit == 0x1680 ||
    (0x2000 ≤ unit && unit ≤ 0x200A) || unit == 0x2028 || unit == 0x2029 || unit == 0x202F ||
    unit == 0x205F || unit == 0x3000 || unit == 0xFEFF

/-- `replace(/\s+/g, " ")`; the flag says that a run is under way. -/
def collapse : Bool → JsString → JsString
  | _, [] => []
  | inRun, unit :: rest =>
    if isSpace unit then if inRun then collapse true rest else 0x20 :: collapse true rest
    else unit :: collapse false rest

/-- `trim` -/
def trim (text : JsString) : JsString := (text.dropWhile isSpace).rdropWhile isSpace

/-- `indexOf` -/
def indexOf (query text : JsString) : Option Nat :=
  (List.range (text.length + 1)).find? fun index => query.isPrefixOf (text.drop index)

/-- `slice` of two places of the text. -/
def slice (text : JsString) (start stop : Nat) : JsString := (text.take stop).drop start

variable (unicode : Unicode)

def normalizedSearchText (value : JsString) : JsString := trim (collapse false (unicode.nfkc value))

def normalizeHistorySearchQuery (value : JsString) : JsString :=
  unicode.toLowerCase ((normalizedSearchText unicode value).take HISTORY_SEARCH_QUERY_LIMIT)

/-- `…` -/
def ellipsis : JsString := [0x2026]

/-- `toHistorySearchSnippet`; two fifths of the room left go before the query. -/
def toHistorySearchSnippet (text query : JsString) (maxLength : Nat) : Option JsString :=
  let normalized := normalizedSearchText unicode text
  match indexOf query (unicode.toLowerCase normalized) with
  | none => none
  | some index =>
    if normalized.length ≤ maxLength then some normalized
    else
      let contextBefore := (maxLength - query.length) * 2 / 5
      let start := index - contextBefore
      let stop := min normalized.length (start + maxLength)
      let start := if stop - start < maxLength then stop - maxLength else start
      some ((if 0 < start then ellipsis else []) ++ trim (slice normalized start stop)
        ++ if stop < normalized.length then ellipsis else [])

def Contains (text query : JsString) : Prop :=
  query <:+: unicode.toLowerCase (normalizedSearchText unicode text)

instance (text query : JsString) : Decidable (Contains unicode text query) := by
  unfold Contains
  infer_instance

theorem isSome_indexOf {query text : JsString} : (indexOf query text).isSome ↔ query <:+: text := by
  rw [indexOf, List.find?_isSome]
  constructor
  · rintro ⟨index, -, starts⟩
    obtain ⟨rest, isRest⟩ := List.isPrefixOf_iff_prefix.mp starts
    refine ⟨text.take index, rest, ?_⟩
    rw [List.append_assoc, isRest, List.take_append_drop]
  · rintro ⟨before, rest, rfl⟩
    refine ⟨before.length, ?_, ?_⟩
    · rw [List.mem_range, List.length_append, List.length_append]
      omega
    · rw [List.isPrefixOf_iff_prefix, List.append_assoc, List.drop_left]
      exact List.prefix_append _ _

theorem normalizedSearchText_ne_nil {text query : JsString} (asked : query ≠ [])
    (found : Contains unicode text query) : normalizedSearchText unicode text ≠ [] := by
  intro empty
  rw [Contains, empty, unicode.toLowerCase_nil] at found
  exact asked (List.infix_nil.mp found)

/-- **A snippet that counts is one of a text that contains the query**: it is never empty. -/
theorem showsSnippet_iff {text query : JsString} {maxLength : Nat} (asked : query ≠ []) :
    (∃ snippet, toHistorySearchSnippet unicode text query maxLength = some snippet ∧ snippet ≠ []) ↔
      Contains unicode text query := by
  rw [Contains, ← isSome_indexOf, Option.isSome_iff_exists]
  constructor
  · rintro ⟨snippet, shown, -⟩
    unfold toHistorySearchSnippet at shown
    cases index : indexOf query (unicode.toLowerCase (normalizedSearchText unicode text)) with
    | none =>
      simp only [index] at shown
      cases shown
    | some place => exact ⟨place, rfl⟩
  · rintro ⟨place, index⟩
    simp only [toHistorySearchSnippet, index]
    by_cases short : (normalizedSearchText unicode text).length ≤ maxLength
    · rw [if_pos short]
      exact ⟨_, rfl, normalizedSearchText_ne_nil unicode asked
        (isSome_indexOf.mp (Option.isSome_iff_exists.mpr ⟨place, index⟩))⟩
    · rw [if_neg short]
      refine ⟨_, rfl, fun empty => ?_⟩
      -- A cut that starts at the beginning ends before the end of the text.
      rw [List.append_eq_nil_iff, List.append_eq_nil_iff] at empty
      obtain ⟨⟨before, -⟩, after⟩ := empty
      rw [ite_eq_right_iff] at before after
      have start := mt before (by decide)
      have stop := mt after (by decide)
      split at start <;> omega

/-! ### What is shown -/

/-- Each code unit has a lower case of its own, and white space stays. -/
def UnitWise (text : JsString) : Prop :=
  ∃ lower : UInt16 → UInt16, (∀ unit, isSpace unit = true → lower unit = unit) ∧
    ∀ part, part <:+: text → unicode.toLowerCase part = part.map lower

def Solid (query : JsString) : Prop :=
  (∀ unit ∈ query.head?, isSpace unit = false) ∧ ∀ unit ∈ query.getLast?, isSpace unit = false

theorem trim_eq (text : JsString) : ∃ before after,
    (∀ unit ∈ before, isSpace unit = true) ∧ (∀ unit ∈ after, isSpace unit = true) ∧
      text = before ++ trim text ++ after := by
  refine ⟨text.takeWhile isSpace, (text.dropWhile isSpace).rtakeWhile isSpace,
    fun _ among => List.mem_takeWhile_imp among, fun _ => List.mem_rtakeWhile_imp, ?_⟩
  rw [trim, List.append_assoc, List.rdropWhile_append_rtakeWhile, List.takeWhile_append_dropWhile]

theorem trim_isInfix (text : JsString) : trim text <:+: text := by
  obtain ⟨before, after, -, -, isText⟩ := trim_eq text
  exact ⟨before, after, isText.symm⟩

theorem slice_isInfix (text : JsString) (start stop : Nat) : slice text start stop <:+: text :=
  (List.drop_suffix ..).isInfix.trans (List.take_prefix ..).isInfix

theorem infix_of_blank_before {query blank text : JsString} (asked : query ≠ [])
    (solid : ∀ unit ∈ query.head?, isSpace unit = false) (blanks : ∀ unit ∈ blank, isSpace unit = true)
    (found : query <:+: blank ++ text) : query <:+: text := by
  obtain ⟨before, after, split⟩ := found
  rw [List.append_assoc, List.append_eq_append_iff] at split
  rcases split with ⟨part, isBlank, rest⟩ | ⟨part, -, isText⟩
  · cases part with
    | nil => exact ⟨[], after, rest⟩
    | cons unit part =>
      obtain ⟨first, others, rfl⟩ := List.exists_cons_of_ne_nil asked
      obtain ⟨rfl, -⟩ := List.cons.inj rest
      have space := blanks first (isBlank ▸ List.mem_append_right _ List.mem_cons_self)
      exact absurd space (Bool.eq_false_iff.mp (solid first rfl))
  · exact ⟨part, after, by rw [isText, List.append_assoc]⟩

theorem infix_of_blank_after {query blank text : JsString} (asked : query ≠ [])
    (solid : ∀ unit ∈ query.getLast?, isSpace unit = false) (blanks : ∀ unit ∈ blank, isSpace unit = true)
    (found : query <:+: text ++ blank) : query <:+: text := by
  rw [← List.reverse_infix] at found ⊢
  rw [List.reverse_append] at found
  refine infix_of_blank_before (mt List.reverse_eq_nil_iff.mp asked) ?_ ?_ found
  · rwa [List.head?_reverse]
  · exact fun unit among => blanks unit (List.mem_reverse.mp among)

theorem infix_trim {lower : UInt16 → UInt16} (stays : ∀ unit, isSpace unit = true → lower unit = unit)
    {query part : JsString} (asked : query ≠ []) (solid : Solid query)
    (found : query <:+: part.map lower) : query <:+: (trim part).map lower := by
  have blank : ∀ {units : JsString}, (∀ unit ∈ units, isSpace unit = true) →
      ∀ unit ∈ units.map lower, isSpace unit = true := by
    intro units spaces unit among
    obtain ⟨old, isOld, rfl⟩ := List.mem_map.mp among
    rw [stays old (spaces old isOld)]
    exact spaces old isOld
  obtain ⟨before, after, blankBefore, blankAfter, isPart⟩ := trim_eq part
  rw [isPart, List.map_append, List.map_append] at found
  exact infix_of_blank_before asked solid.1 (blank blankBefore)
    (infix_of_blank_after asked solid.2 (blank blankAfter) found)

theorem prefix_of_indexOf {query text : JsString} {index : Nat}
    (found : indexOf query text = some index) :
    index ≤ text.length ∧ ∃ rest, text.drop index = query ++ rest := by
  rw [indexOf] at found
  have starts := @List.find?_some _ (fun index => query.isPrefixOf (text.drop index)) _ _ found
  obtain ⟨rest, isRest⟩ := List.isPrefixOf_iff_prefix.mp starts
  exact ⟨Nat.lt_succ_iff.mp (List.mem_range.mp (List.mem_of_find?_eq_some found)), rest, isRest.symm⟩

theorem infix_slice {query text : JsString} {index start stop : Nat}
    (found : indexOf query text = some index) (first : start ≤ index)
    (last : index + query.length ≤ stop) : query <:+: slice text start stop := by
  obtain ⟨inText, rest, isRest⟩ := prefix_of_indexOf found
  obtain ⟨front, size, cut⟩ : ∃ front, front.length = index - start ∧
      text.drop start = front ++ (query ++ rest) := by
    refine ⟨(text.take index).drop start, ?_, ?_⟩
    · rw [List.length_drop, List.length_take_of_le inText]
    · rw [← isRest, ← List.drop_append_of_le_length (by rwa [List.length_take_of_le inText]),
        List.take_append_drop]
  have enough : stop - start = front.length + (query.length + (stop - index - query.length)) := by omega
  refine ⟨front, rest.take (stop - index - query.length), ?_⟩
  rw [slice, List.drop_take, cut, enough, List.take_length_add_append, List.take_length_add_append,
    List.append_assoc]

theorem window_bounds {length place asked maxLength first start stop : Nat} (long : maxLength < length)
    (isFirst : first = place - (maxLength - asked) * 2 / 5)
    (isStop : stop = min length (first + maxLength))
    (isStart : start = if stop - first < maxLength then stop - maxLength else first) :
    stop - start ≤ maxLength ∧
      (place + asked ≤ length → asked ≤ maxLength → start ≤ place ∧ place + asked ≤ stop) := by
  split at isStart <;> omega

/-- **What is shown of a text**: a part of it, no longer than asked, between two ellipses at most. The
query is in the part, if lower-casing keeps the places of the text and the query has room. -/
theorem snippet_of_text {text query : JsString} {maxLength : Nat} (asked : query ≠ []) :
    (toHistorySearchSnippet unicode text query maxLength = none ↔ ¬ Contains unicode text query) ∧
    ∀ snippet, toHistorySearchSnippet unicode text query maxLength = some snippet →
      ∃ first part last, snippet = first ++ part ++ last ∧ (first = [] ∨ first = ellipsis) ∧
        (last = [] ∨ last = ellipsis) ∧ part <:+: normalizedSearchText unicode text ∧
        part.length ≤ maxLength ∧
        (UnitWise unicode (normalizedSearchText unicode text) → Solid query →
          query.length ≤ maxLength → query <:+: unicode.toLowerCase part) := by
  have finds := @isSome_indexOf query (unicode.toLowerCase (normalizedSearchText unicode text))
  cases place : indexOf query (unicode.toLowerCase (normalizedSearchText unicode text)) with
  | none =>
    rw [place] at finds
    simp only [toHistorySearchSnippet, place]
    exact ⟨iff_of_true trivial (mt finds.mpr Bool.false_ne_true), fun _ shown => by cases shown⟩
  | some index =>
    have contains : Contains unicode text query := finds.mp (Option.isSome_of_eq_some place)
    simp only [toHistorySearchSnippet, place]
    refine ⟨iff_of_false (fun shown => by split at shown <;> cases shown) (not_not_intro contains),
      fun snippet shown => ?_⟩
    by_cases short : (normalizedSearchText unicode text).length ≤ maxLength
    · rw [if_pos short] at shown
      cases shown
      exact ⟨[], _, [], by rw [List.nil_append, List.append_nil], .inl rfl, .inl rfl, List.infix_rfl,
        short, fun _ _ _ => contains⟩
    · rw [if_neg short] at shown
      cases shown
      obtain ⟨size, window⟩ := @window_bounds _ index query.length _ _ _ _ (not_le.mp short)
        rfl rfl rfl
      refine ⟨_, _, _, rfl, (ite_eq_or_eq ..).symm, (ite_eq_or_eq ..).symm, ?_, ?_, ?_⟩
      · exact (trim_isInfix _).trans (slice_isInfix ..)
      · refine ((trim_isInfix _).length_le.trans ?_).trans size
        rw [slice, List.length_drop, List.length_take]
        exact Nat.sub_le_sub_right (Nat.min_le_left ..) _
      · rintro ⟨lower, stays, isLower⟩ solid room
        have whole := isLower _ List.infix_rfl
        obtain ⟨inText, rest, isRest⟩ := prefix_of_indexOf place
        have ends := congrArg List.length isRest
        rw [whole, List.length_drop, List.length_map, List.length_append] at ends
        rw [whole, List.length_map] at inText
        obtain ⟨before, after⟩ := window (by omega) room
        rw [isLower _ ((trim_isInfix _).trans (slice_isInfix ..))]
        refine infix_trim stays asked solid ?_
        rw [slice, List.map_drop, List.map_take, ← whole]
        exact infix_slice place before after

theorem id_nil : id ([] : JsString) = [] := rfl

def plainUnicode : Unicode where
  nfkc := id
  toLowerCase := id
  toLowerCase_nil := id_nil

/-- `login error`, shown in five code units. -/
theorem snippet_of_text_error :
    (toHistorySearchSnippet plainUnicode [108, 111, 103, 105, 110, 32, 101, 114, 114, 111, 114]
        [101, 114, 114, 111, 114] 5 = none ↔
      ¬ Contains plainUnicode [108, 111, 103, 105, 110, 32, 101, 114, 114, 111, 114]
        [101, 114, 114, 111, 114]) ∧
    ∃ first part last, ellipsis ++ [101, 114, 114, 111, 114] = first ++ part ++ last ∧
      part.length ≤ 5 ∧ [101, 114, 114, 111, 114] <:+: plainUnicode.toLowerCase part := by
  obtain ⟨finds, shows⟩ := @snippet_of_text plainUnicode
    [108, 111, 103, 105, 110, 32, 101, 114, 114, 111, 114] [101, 114, 114, 111, 114] 5 (by decide)
  obtain ⟨first, part, last, isSnippet, -, -, -, size, found⟩ :=
    shows (ellipsis ++ [101, 114, 114, 111, 114]) (by decide)
  have unitWise : UnitWise plainUnicode (normalizedSearchText plainUnicode
      [108, 111, 103, 105, 110, 32, 101, 114, 114, 111, 114]) :=
    ⟨id, fun _ _ => rfl, fun part _ => (List.map_id part).symm⟩
  have solid : Solid [101, 114, 114, 111, 114] := by simp [Solid, isSpace]
  exact ⟨finds, first, part, last, isSnippet, size, found unitWise solid (by decide)⟩

def pairsWhole : JsString → Bool
  | [] => true
  | unit :: rest =>
    (!(0xD800 ≤ unit && unit ≤ 0xDBFF) || rest.head?.any fun next => 0xDC00 ≤ next && next ≤ 0xDFFF) &&
      pairsWhole rest

/-- `a😀`, shown in two code units, ends with a half of its second character. -/
theorem snippet_splits_pair : ¬ ∀ text query maxLength snippet, query ≠ [] →
    toHistorySearchSnippet plainUnicode text query maxLength = some snippet →
      pairsWhole text = true → pairsWhole snippet = true := by
  intro claim
  exact absurd (claim [97, 0xD83D, 0xDE00] [97] 2 [97, 0xD83D, 0x2026] (by decide) (by decide) (by decide))
    (by decide)

end Toard.History
