/-
**The block in Codex's configuration (`codex.rs`).**

The shim keeps a block of its own, between two marker lines, in a file that is otherwise the user's.
Each run takes the block out and puts a current one at the end, unless the user has an `[otel]` table.

* **`injections_keep`**: which texts keep the user's lines over any runs.
-/

import Mathlib.Data.Bool.AllAny
import Toard.Library.Substring
import Toard.Shim.Iso

namespace Toard.Shim.Codex

open Toard.Library

/-- `BEGIN` -/
def beginMarker : List Char := "# >>> toard otel >>>".toList

/-- `END` -/
def endMarker : List Char := "# <<< toard otel <<<".toList

inductive Plan
  | unchanged
  | write (content : List Char)
  | skipUserOtel (cleaned : Option (List Char))
deriving DecidableEq

def dropNewline (rest : List Char) : List Char :=
  match rest with
  | '\n' :: after => after
  | rest => rest

/-- `strip_toard_block` -/
def stripToardBlock (existing : List Char) : List Char :=
  match firstAt beginMarker existing, firstAt endMarker existing with
  | some b, some e =>
    if b ≤ e then existing.take b ++ dropNewline (existing.drop (e + endMarker.length))
    else existing
  | _, _ => existing

def stripReturn (line : List Char) : List Char :=
  if line.getLast? = some '\r' then line.dropLast else line

/-- `str::lines` -/
def strLines (text : List Char) : List (List Char) :=
  let pieces := text.splitOn '\n'
  let last := pieces.getLastD []
  pieces.dropLast.map stripReturn ++ if last = [] then [] else [last]

def namesOtel (line : List Char) : Bool :=
  let t := line.dropWhile isWhiteSpace
  "[otel]".toList.isPrefixOf t || "[otel.".toList.isPrefixOf t

/-- `has_user_otel` -/
def hasUserOtel (base : List Char) : Bool := (strLines base).any namesOtel

def logsAddress (endpoint : List Char) : List Char :=
  endpoint.rdropWhile (· == '/') ++ "/v1/logs".toList

def blockStart : List Char :=
  "[otel]\nlog_user_prompt = false\n\n[otel.exporter.otlp-http]\nendpoint = \"".toList

def blockMiddle : List Char :=
  "\nprotocol = \"json\"\nheaders = \x7b \"Authorization\" = \"Bearer ".toList

def blockRest : List Char := " \x7d\n".toList

def otelLines (endpoint token : List Char) : List Char :=
  blockStart ++ (logsAddress endpoint ++ '"' :: (blockMiddle ++ (token ++ '"' :: blockRest)))

/-- `render_block` -/
def renderBlock (endpoint token : List Char) : List Char :=
  beginMarker ++ '\n' :: (otelLines endpoint token ++ (endMarker ++ ['\n']))

def sep (base : List Char) : List Char :=
  if base = [] ∨ base.getLast? = some '\n' then [] else ['\n']

def plan (existing endpoint token : List Char) : Plan :=
  let base := stripToardBlock existing
  if hasUserOtel base then
    .skipUserOtel (if base ≠ existing then some base else none)
  else
    let full := base ++ sep base ++ renderBlock endpoint token
    if full = existing then .unchanged else .write full

/-- `inject_config`: what a run leaves in the file. -/
def injectConfig (existing : List Char) (call : List Char × List Char) : List Char :=
  match plan existing call.1 call.2 with
  | .unchanged => existing
  | .write content => content
  | .skipUserOtel cleaned => cleaned.getD existing

def injected (text : List Char) (calls : List (List Char × List Char)) : List Char :=
  calls.foldl injectConfig text

/-! ### The user's lines, and the tables -/

def lines (text : List Char) : List (List Char) := text.splitOn '\n'

def isMarker (marker line : List Char) : Bool := stripReturn line == marker

/-- The lines outside complete blocks; those since the last begin marker are held back. -/
def outsideFrom : Option (List (List Char)) → List (List Char) → List (List Char)
  | none, [] => []
  | some held, [] => held
  | none, line :: rest =>
    if isMarker beginMarker line then outsideFrom (some [line]) rest
    else line :: outsideFrom none rest
  | some held, line :: rest =>
    if isMarker endMarker line then outsideFrom none rest
    else if isMarker beginMarker line then held ++ outsideFrom (some [line]) rest
    else outsideFrom (some (held ++ [line])) rest

/-- A complete block is a begin marker, lines that are no markers, and an end marker. -/
def outside (text : List Char) : List (List Char) := outsideFrom none (lines text)

def isBlank (c : Char) : Bool := c == ' ' || c == '\t'

/-- A line that begins the table `otel`, in any spelling. -/
def beginsOtel (line : List Char) : Bool :=
  match line.dropWhile isBlank with
  | '[' :: rest =>
    ["otel", "\"otel\"", "'otel'"].any fun key =>
      match key.toList.isPrefixOf? (rest.dropWhile isBlank) with
      | some after => (after.dropWhile isBlank).head? == some ']'
      | none => false
  | _ => false

def otelTables (text : List Char) : Nat := (lines text).countP beginsOtel

/-- A run is plain if neither argument breaks the line or holds the end marker. -/
structure PlainCall (call : List Char × List Char) : Prop where
  endpointLine : '\n' ∉ call.1
  tokenLine : '\n' ∉ call.2
  endpointMark : firstAt endMarker call.1 = none
  tokenMark : firstAt endMarker call.2 = none

/-- The text has one block in whole lines, before which there are no markers, and the other is the
text without it. -/
def HasBlock (text base : List Char) : Prop :=
  ∃ before return_ body tail : List Char,
    text = before ++ (beginMarker ++ return_ ++ '\n' :: (body ++ (endMarker ++ tail))) ∧
    base = before ++ dropNewline tail ∧
    Whole '\n' before ∧ Whole '\n' body ∧ return_ ∈ [[], ['\r']] ∧
    tail.takeWhile (· ≠ '\n') ∈ [[], ['\r']] ∧
    firstAt beginMarker before = none ∧ firstAt endMarker before = none ∧
    firstAt endMarker body = none ∧ ∀ line ∈ lines body, isMarker beginMarker line = false

/-- No begin marker is without an end marker before it, unless the user has a table. -/
def Settled (base : List Char) : Prop :=
  match firstAt beginMarker base, firstAt endMarker base with
  | none, _ => True
  | some b, some e => e < b
  | some _, none => hasUserOtel base = true

/-- Outside at most one block there is no begin marker that a block's end marker could be taken for
the end of, and no table that is not seen. -/
def Orderly (text : List Char) : Prop :=
  ∃ base, (base = text ∨ HasBlock text base) ∧ Settled base ∧
    otelTables base ≤ if hasUserOtel base then 1 else 0

/-! ### What is taken out -/

theorem beginMarker_ne_nil : beginMarker ≠ [] := by decide

theorem endMarker_ne_nil : endMarker ≠ [] := by decide

theorem newline_notMem_beginMarker : '\n' ∉ beginMarker := by decide

theorem newline_notMem_endMarker : '\n' ∉ endMarker := by decide

theorem strip_settled {base : List Char} (settled : Settled base) : stripToardBlock base = base := by
  unfold Settled at settled
  unfold stripToardBlock
  split
  case h_1 b e first last =>
    rw [first, last] at settled
    rw [if_neg (Nat.not_le.mpr settled)]
  case h_2 => rfl

theorem firstAt_begin {return_ : List Char} (ends : return_ ∈ [[], ['\r']]) (rest : List Char) :
    firstAt endMarker (beginMarker ++ return_ ++ '\n' :: rest)
      = (firstAt endMarker rest).map (· + ((beginMarker ++ return_).length + 1)) := by
  have absent : firstAt endMarker (beginMarker ++ return_) = none := by
    rw [List.mem_cons, List.mem_singleton] at ends
    obtain rfl | rfl := ends <;> decide
  rw [firstAt_append_sep newline_notMem_endMarker endMarker_ne_nil, absent, Option.none_or]

/-- **A block between whole lines without markers is what is taken out.** -/
theorem strip_between {before body return_ : List Char} (tail : List Char) (wholeBefore : Whole '\n' before)
    (wholeBody : Whole '\n' body) (ends : return_ ∈ [[], ['\r']])
    (noBegin : firstAt beginMarker before = none) (noEnd : firstAt endMarker before = none)
    (noEndIn : firstAt endMarker body = none) :
    stripToardBlock (before ++ (beginMarker ++ return_ ++ '\n' :: (body ++ (endMarker ++ tail))))
      = before ++ dropNewline tail := by
  have first : firstAt beginMarker
      (before ++ (beginMarker ++ return_ ++ '\n' :: (body ++ (endMarker ++ tail))))
        = some before.length := by
    rw [firstAt_whole newline_notMem_beginMarker beginMarker_ne_nil wholeBefore noBegin,
      List.append_assoc, firstAt_self beginMarker_ne_nil, Option.map_some, Nat.zero_add]
  have last : firstAt endMarker
      (before ++ (beginMarker ++ return_ ++ '\n' :: (body ++ (endMarker ++ tail))))
        = some (body.length + ((beginMarker ++ return_).length + 1) + before.length) := by
    rw [firstAt_whole newline_notMem_endMarker endMarker_ne_nil wholeBefore noEnd,
      firstAt_begin ends, firstAt_whole newline_notMem_endMarker endMarker_ne_nil wholeBody noEndIn,
      firstAt_self endMarker_ne_nil, Option.map_some, Option.map_some, Option.map_some, Nat.zero_add]
  have cut : (before ++ (beginMarker ++ return_ ++ '\n' :: (body ++ (endMarker ++ tail)))).drop
      (body.length + ((beginMarker ++ return_).length + 1) + before.length + endMarker.length)
        = tail := by
    have whole : before ++ (beginMarker ++ return_ ++ '\n' :: (body ++ (endMarker ++ tail)))
        = (before ++ (beginMarker ++ return_) ++ ['\n'] ++ body ++ endMarker) ++ tail := by
      simp only [List.append_assoc, List.cons_append, List.nil_append]
    rw [whole, List.drop_left' (by
      simp only [List.length_append, List.length_singleton]
      omega)]
  rw [stripToardBlock, first, last]
  dsimp only
  rw [if_pos (by omega), cut, List.take_left]

theorem strip_block {text base : List Char} (block : HasBlock text base) :
    stripToardBlock text = base := by
  obtain ⟨before, return_, body, tail, rfl, rfl, wholeBefore, wholeBody, ends, -, noBegin, noEnd,
    noEndIn, -⟩ := block
  exact strip_between tail wholeBefore wholeBody ends noBegin noEnd noEndIn

/-! ### The lines outside blocks -/

theorem lines_whole {text : List Char} (whole : Whole '\n' text) (rest : List Char) :
    lines (text ++ rest) = (lines text).dropLast ++ lines rest :=
  splitOn_whole whole rest

theorem lines_line {line : List Char} (one : '\n' ∉ line) (rest : List Char) :
    lines (line ++ '\n' :: rest) = line :: lines rest :=
  List.splitOn_append_cons_self_of_not_mem one rest

theorem outsideFrom_sublist (all : List (List Char)) :
    (outsideFrom none all).Sublist all ∧ ∀ held, (outsideFrom (some held) all).Sublist (held ++ all) := by
  induction all with
  | nil => exact ⟨List.Sublist.refl [], fun held => (List.append_nil held).symm ▸ List.Sublist.refl held⟩
  | cons line rest ih =>
    constructor
    · rw [outsideFrom]
      split
      case isTrue => exact ih.2 [line]
      case isFalse => exact ih.1.cons_cons line
    · intro held
      rw [outsideFrom]
      split
      case isTrue => exact ((ih.1.cons line).trans (List.sublist_append_right held _))
      split
      case isTrue => exact (List.Sublist.refl held).append (ih.2 [line])
      case isFalse =>
        have later := ih.2 (held ++ [line])
        rwa [List.append_assoc, List.singleton_append] at later

theorem outsideFrom_before {before : List (List Char)}
    (none_ : ∀ line ∈ before, isMarker beginMarker line = false) (rest : List (List Char)) :
    outsideFrom none (before ++ rest) = before ++ outsideFrom none rest := by
  induction before with
  | nil => rfl
  | cons line before ih =>
    rw [List.cons_append, outsideFrom, if_neg (by rw [none_ line List.mem_cons_self]; decide),
      ih fun other among => none_ other (List.mem_cons_of_mem line among), List.cons_append]

theorem outsideFrom_body {body : List (List Char)} {held : List (List Char)}
    (noBegin : ∀ line ∈ body, isMarker beginMarker line = false)
    (noEnd : ∀ line ∈ body, isMarker endMarker line = false) {last : List Char}
    (ends : isMarker endMarker last = true) (rest : List (List Char)) :
    outsideFrom (some held) (body ++ last :: rest) = outsideFrom none rest := by
  induction body generalizing held with
  | nil => rw [List.nil_append, outsideFrom, if_pos ends]
  | cons line body ih =>
    rw [List.cons_append, outsideFrom, if_neg (by rw [noEnd line List.mem_cons_self]; decide),
      if_neg (by rw [noBegin line List.mem_cons_self]; decide)]
    exact ih (fun other among => noBegin other (List.mem_cons_of_mem line among))
      fun other among => noEnd other (List.mem_cons_of_mem line among)

theorem firstAt_of_isMarker {marker line : List Char} (nonempty : marker ≠ [])
    (is : isMarker marker line = true) : firstAt marker line = some 0 := by
  have same : stripReturn line = marker := eq_of_beq is
  rw [stripReturn] at same
  split at same
  case isTrue last =>
    rw [← List.dropLast_append_getLast? _ last, same]
    exact firstAt_self nonempty _
  case isFalse =>
    have here := firstAt_self nonempty []
    rw [List.append_nil] at here
    rw [same, here]

theorem isMarker_of_absent {marker text : List Char} (nonempty : marker ≠ [])
    (oneLine : '\n' ∉ marker) (absent : firstAt marker text = none) :
    ∀ line ∈ lines text, isMarker marker line = false := by
  intro line among
  by_contra marks
  have here := firstAt_of_isMarker nonempty (Bool.not_eq_false _ ▸ marks)
  rw [firstAt_splitOn oneLine nonempty absent line among] at here
  cases here

theorem lines_end {tail : List Char} (ends : tail.takeWhile (· ≠ '\n') ∈ [[], ['\r']]) :
    ∃ last rest, lines (endMarker ++ tail) = last :: rest ∧ isMarker endMarker last = true ∧
      rest.Sublist (lines (dropNewline tail)) := by
  have piece : '\n' ∉ endMarker ++ tail.takeWhile (· ≠ '\n') := by
    intro among
    obtain in_ | in_ := List.mem_append.mp among
    · exact newline_notMem_endMarker in_
    · have no := List.mem_takeWhile_imp in_
      simp at no
  have marks : isMarker endMarker (endMarker ++ tail.takeWhile (· ≠ '\n')) = true := by
    rw [List.mem_cons, List.mem_singleton] at ends
    obtain none_ | return_ := ends
    · rw [none_]
      decide
    · rw [return_]
      decide
  have whole : tail = tail.takeWhile (· ≠ '\n') ++ tail.dropWhile (· ≠ '\n') :=
    (List.takeWhile_append_dropWhile).symm
  cases left : tail.dropWhile (· ≠ '\n') with
  | nil =>
    rw [left, List.append_nil] at whole
    refine ⟨_, [], ?_, marks, List.nil_sublist _⟩
    rw [lines, ← whole, List.splitOn_eq_singleton (whole ▸ piece)]
  | cons c rest =>
    have newline : c = '\n' := by
      have head := List.head?_dropWhile_not (· ≠ '\n') tail
      rw [left] at head
      simpa using head
    subst newline
    rw [left] at whole
    refine ⟨_, lines rest, ?_, marks, ?_⟩
    · conv_lhs => rw [whole]
      rw [← List.append_assoc, lines_line piece]
    · rw [List.mem_cons, List.mem_singleton] at ends
      obtain none_ | return_ := ends
      · rw [whole, none_]
        exact List.Sublist.refl _
      · rw [whole, return_]
        exact List.sublist_cons_self _ _

theorem outside_block {text base : List Char} (block : HasBlock text base) :
    (outside text).Sublist (lines base) := by
  obtain ⟨before, return_, body, tail, rfl, rfl, wholeBefore, wholeBody, ends, tailEnds, noBegin, noEnd,
    noEndIn, noBeginIn⟩ := block
  obtain ⟨last, rest, split, marks, kept⟩ := lines_end tailEnds
  have piece : '\n' ∉ beginMarker ++ return_ := by
    rw [List.mem_cons, List.mem_singleton] at ends
    obtain rfl | rfl := ends <;> decide
  have first : isMarker beginMarker (beginMarker ++ return_) = true := by
    rw [List.mem_cons, List.mem_singleton] at ends
    obtain rfl | rfl := ends <;> decide
  have outBefore : ∀ line ∈ (lines before).dropLast, isMarker beginMarker line = false :=
    fun line among => isMarker_of_absent beginMarker_ne_nil newline_notMem_beginMarker noBegin line
      (List.dropLast_subset _ among)
  have noEndLine : ∀ line ∈ (lines body).dropLast, isMarker endMarker line = false :=
    fun line among => isMarker_of_absent endMarker_ne_nil newline_notMem_endMarker noEndIn line
      (List.dropLast_subset _ among)
  have noBeginLine : ∀ line ∈ (lines body).dropLast, isMarker beginMarker line = false :=
    fun line among => noBeginIn line (List.dropLast_subset _ among)
  rw [outside, lines_whole wholeBefore, lines_line piece, lines_whole wholeBody, split,
    outsideFrom_before outBefore, outsideFrom, if_pos first,
    outsideFrom_body noBeginLine noEndLine marks, lines_whole wholeBefore]
  exact (List.Sublist.refl _).append ((outsideFrom_sublist rest).1.trans kept)

/-! ### Tables -/

theorem prefix_concat_of_notMem {pattern line : List Char} {c : Char} (out : c ∉ pattern) :
    pattern.isPrefixOf (line ++ [c]) = pattern.isPrefixOf line := by
  rw [Bool.eq_iff_iff, List.isPrefixOf_iff_prefix, List.isPrefixOf_iff_prefix,
    prefix_append_sep out]

theorem namesOtel_stripReturn (line : List Char) : namesOtel (stripReturn line) = namesOtel line := by
  rw [stripReturn]
  split
  case isTrue last =>
    obtain ⟨start, rfl⟩ : ∃ start, line = start ++ ['\r'] :=
      ⟨_, (List.dropLast_append_getLast? _ last).symm⟩
    rw [List.dropLast_concat, namesOtel, namesOtel, List.dropWhile_append]
    split
    case isTrue empty =>
      rw [List.isEmpty_iff.mp empty]
      decide
    case isFalse =>
      rw [prefix_concat_of_notMem (by decide), prefix_concat_of_notMem (by decide)]
  case isFalse => rfl

theorem hasUserOtel_eq (text : List Char) : hasUserOtel text = (lines text).any namesOtel := by
  have nonempty : lines text ≠ [] := List.splitOn_ne_nil _ _
  have ends : lines text = (lines text).dropLast ++ [(lines text).getLastD []] := by
    rw [List.getLastD_eq_getLast?, List.getLast?_eq_some_getLast nonempty, Option.getD_some,
      List.dropLast_concat_getLast]
  have strip : (namesOtel ∘ stripReturn) = namesOtel := funext namesOtel_stripReturn
  conv_rhs => rw [ends]
  change ((lines text).dropLast.map stripReturn ++
    if (lines text).getLastD [] = [] then [] else [(lines text).getLastD []]).any namesOtel = _
  rw [List.any_append, List.any_append, List.any_map, strip]
  split
  case isTrue empty =>
    rw [empty]
    rfl
  case isFalse => rfl

theorem hasUserOtel_whole {text : List Char} (whole : Whole '\n' text) (rest : List Char) :
    hasUserOtel (text ++ rest) = (hasUserOtel text || hasUserOtel rest) := by
  have last : lines text = (lines text).dropLast ++ [[]] := splitOn_dropLast whole
  have all : (lines text).any namesOtel = (lines text).dropLast.any namesOtel := by
    conv_lhs => rw [last, List.any_append]
    exact Bool.or_false _
  rw [hasUserOtel_eq, hasUserOtel_eq, hasUserOtel_eq, lines_whole whole, List.any_append, all]

theorem otelTables_whole {text : List Char} (whole : Whole '\n' text) (rest : List Char) :
    otelTables (text ++ rest) = otelTables text + otelTables rest := by
  have last : lines text = (lines text).dropLast ++ [[]] := splitOn_dropLast whole
  have all : (lines text).countP beginsOtel = (lines text).dropLast.countP beginsOtel := by
    conv_lhs => rw [last, List.countP_append]
    rfl
  rw [otelTables, otelTables, otelTables, lines_whole whole, List.countP_append, all]

/-! ### The block that is put in -/

def spaced (base : List Char) : List Char := base ++ sep base

theorem spaced_cases (base : List Char) :
    (spaced base = base ∧ Whole '\n' base) ∨ spaced base = base ++ ['\n'] := by
  rw [spaced, sep]
  split
  case isTrue ended =>
    refine .inl ⟨List.append_nil base, ?_⟩
    obtain empty | last := ended
    · exact .inl empty
    · exact .inr ⟨_, (List.dropLast_append_getLast? _ last).symm⟩
  case isFalse => exact .inr rfl

theorem whole_spaced (base : List Char) : Whole '\n' (spaced base) := by
  obtain ⟨same, whole⟩ | more := spaced_cases base
  · rwa [same]
  · exact .inr ⟨base, more⟩

theorem spaced_whole {text : List Char} (whole : Whole '\n' text) : spaced text = text := by
  have ended : text = [] ∨ text.getLast? = some '\n' := by
    obtain empty | ⟨start, rfl⟩ := whole
    · exact .inl empty
    · exact .inr List.getLast?_concat
  rw [spaced, sep, if_pos ended, List.append_nil]

theorem lines_newline (text : List Char) : lines (text ++ ['\n']) = lines text ++ [[]] :=
  List.splitOn_append_cons_self text []

theorem lines_spaced (base : List Char) : (lines base).Sublist (lines (spaced base)) := by
  obtain ⟨same, -⟩ | more := spaced_cases base
  · rw [same]
  · rw [more, lines_newline]
    exact List.sublist_append_left _ _

theorem hasUserOtel_spaced (base : List Char) : hasUserOtel (spaced base) = hasUserOtel base := by
  obtain ⟨same, -⟩ | more := spaced_cases base
  · rw [same]
  · rw [more, hasUserOtel_eq, hasUserOtel_eq, lines_newline, List.any_append]
    exact Bool.or_false _

theorem otelTables_spaced (base : List Char) : otelTables (spaced base) = otelTables base := by
  obtain ⟨same, -⟩ | more := spaced_cases base
  · rw [same]
  · rw [more, otelTables, otelTables, lines_newline, List.countP_append]
    rfl

theorem firstAt_spaced {pattern base : List Char} (oneLine : '\n' ∉ pattern) (nonempty : pattern ≠ [])
    (absent : firstAt pattern base = none) : firstAt pattern (spaced base) = none := by
  obtain ⟨same, -⟩ | more := spaced_cases base
  · rw [same, absent]
  · rw [more, firstAt_append_sep oneLine nonempty, absent, firstAt, if_neg nonempty]
    rfl

theorem whole_otelLines (endpoint token : List Char) : Whole '\n' (otelLines endpoint token) := by
  have ends : blockRest = " \x7d".toList ++ ['\n'] := by decide
  refine .inr ⟨blockStart ++ (logsAddress endpoint ++ '"' ::
    (blockMiddle ++ (token ++ '"' :: " \x7d".toList))), ?_⟩
  rw [otelLines, ends]
  simp only [List.append_assoc, List.cons_append]

section Block

variable {call : List Char × List Char} (plain : PlainCall call)

include plain

theorem endMarker_logsAddress : firstAt endMarker (logsAddress call.1) = none := by
  have trimmed : firstAt endMarker (call.1.rdropWhile (· == '/')) = none := by
    obtain ⟨slashes, whole⟩ := List.rdropWhile_prefix (· == '/') call.1
    cases found : firstAt endMarker (call.1.rdropWhile (· == '/')) with
    | none => rfl
    | some n =>
      have still := firstAt_append slashes endMarker_ne_nil found
      rw [whole, plain.endpointMark] at still
      cases still
  have path : "/v1/logs".toList = '/' :: "v1/logs".toList := by decide
  have version : firstAt endMarker "v1/logs".toList = none := by decide
  rw [logsAddress, path, firstAt_append_sep (by decide) endMarker_ne_nil, trimmed, version]
  rfl

theorem endMarker_otelLines : firstAt endMarker (otelLines call.1 call.2) = none := by
  have start : ∀ c ∈ blockStart, endMarker.head? ≠ some c :=
    List.all_iff_forall_prop.mp (by decide)
  have middle : ∀ c ∈ blockMiddle, endMarker.head? ≠ some c :=
    List.all_iff_forall_prop.mp (by decide)
  have closing : firstAt endMarker blockRest = none := by decide
  have quote : '"' ∉ endMarker := by decide
  rw [otelLines, firstAt_skip start endMarker_ne_nil,
    firstAt_append_sep quote endMarker_ne_nil, endMarker_logsAddress plain,
    firstAt_skip middle endMarker_ne_nil, firstAt_append_sep quote endMarker_ne_nil,
    plain.tokenMark, closing]
  rfl

/-- **What is put in behind a text without markers is what is taken out of it.** -/
theorem strip_injected {base : List Char} (noBegin : firstAt beginMarker base = none)
    (noEnd : firstAt endMarker base = none) :
    stripToardBlock (spaced base ++ renderBlock call.1 call.2) = spaced base := by
  have block := strip_between ['\n'] (whole_spaced base)
    (whole_otelLines call.1 call.2) List.mem_cons_self
    (firstAt_spaced newline_notMem_beginMarker beginMarker_ne_nil noBegin)
    (firstAt_spaced newline_notMem_endMarker endMarker_ne_nil noEnd) (endMarker_otelLines plain)
  rwa [List.append_nil, dropNewline, List.append_nil] at block

end Block

theorem strip_kept {base : List Char} {e : Nat} (last : firstAt endMarker base = some e)
    (settled : Settled base) (rest : List Char) :
    stripToardBlock (spaced base ++ rest) = spaced base ++ rest := by
  have spacedLast : firstAt endMarker (spaced base) = some e := firstAt_append _ endMarker_ne_nil last
  have before : ∀ b, firstAt beginMarker (spaced base ++ rest) = some b → e < b := by
    intro b first
    cases own : firstAt beginMarker base with
    | some b' =>
      have spacedFirst : firstAt beginMarker (spaced base) = some b' :=
        firstAt_append _ beginMarker_ne_nil own
      rw [Settled, own, last] at settled
      rw [firstAt_append rest beginMarker_ne_nil spacedFirst] at first
      exact Option.some.inj first ▸ settled
    | none =>
      have absent := firstAt_spaced newline_notMem_beginMarker beginMarker_ne_nil own
      rw [firstAt_whole newline_notMem_beginMarker beginMarker_ne_nil (whole_spaced base) absent]
        at first
      obtain ⟨n, -, rfl⟩ := Option.map_eq_some_iff.mp first
      have room := firstAt_le spacedLast
      have long : 0 < endMarker.length := by decide
      omega
  rw [stripToardBlock]
  split
  case h_1 b e' first last' =>
    rw [firstAt_append rest endMarker_ne_nil spacedLast] at last'
    have small := before b first
    rw [if_neg (by rw [← Option.some.inj last']; omega)]
  case h_2 => rfl

/-! ### Runs -/

def settleIn (base : List Char) (call : List Char × List Char) : List Char :=
  if hasUserOtel base then base else spaced base ++ renderBlock call.1 call.2

theorem injectConfig_eq {existing base : List Char} (stripped : stripToardBlock existing = base)
    (call : List Char × List Char) : injectConfig existing call = settleIn base call := by
  rw [injectConfig, plan, stripped, settleIn]
  dsimp only
  by_cases user : hasUserOtel base = true
  · rw [if_pos user, if_pos user]
    by_cases same : base = existing
    · rw [if_neg (not_not.mpr same)]
      exact same.symm
    · rw [if_pos same]
      rfl
  · rw [if_neg user, if_neg user]
    by_cases same : base ++ sep base ++ renderBlock call.1 call.2 = existing
    · rw [if_pos same]
      exact same.symm
    · rw [if_neg same]
      rfl

theorem whole_renderBlock (endpoint token : List Char) : Whole '\n' (renderBlock endpoint token) := by
  refine .inr ⟨beginMarker ++ '\n' :: (otelLines endpoint token ++ endMarker), ?_⟩
  rw [renderBlock]
  simp only [List.append_assoc, List.cons_append]

theorem hasUserOtel_renderBlock (endpoint token : List Char) :
    hasUserOtel (renderBlock endpoint token) = true := by
  have start : blockStart = "[otel]".toList ++ '\n' ::
      "log_user_prompt = false\n\n[otel.exporter.otlp-http]\nendpoint = \"".toList := by decide
  have names : namesOtel "[otel]".toList = true := by decide
  rw [hasUserOtel_eq, renderBlock, lines_line newline_notMem_beginMarker, otelLines, start,
    List.append_assoc, List.append_assoc, List.cons_append, lines_line (by decide), List.any_cons,
    List.any_cons, names, Bool.true_or, Bool.or_true]

theorem beginsOtel_cons {c : Char} (solid : isBlank c = false) (other : c ≠ '[')
    (rest : List Char) : beginsOtel (c :: rest) = false := by
  rw [beginsOtel, List.dropWhile_cons_of_neg (by rw [solid]; decide)]
  split
  case h_1 same => exact absurd (List.cons.inj same).1 other
  case h_2 => rfl

theorem otelTables_line {line : List Char} (one : '\n' ∉ line) (other : beginsOtel line = false)
    (rest : List Char) : otelTables (line ++ '\n' :: rest) = otelTables rest := by
  rw [otelTables, lines_line one, List.countP_cons_of_neg (by rw [other]; decide), otelTables]

theorem otelTables_renderBlock {call : List Char × List Char} (plain : PlainCall call) :
    otelTables (renderBlock call.1 call.2) = 1 := by
  have start : blockStart = "[otel]\nlog_user_prompt = false\n\n[otel.exporter.otlp-http]\n".toList
      ++ 'e' :: "ndpoint = \"".toList := by decide
  have middle : blockMiddle = '\n' :: ("protocol = \"json\"\n".toList
      ++ 'h' :: "eaders = \x7b \"Authorization\" = \"Bearer ".toList) := by decide
  have rest : blockRest = " \x7d".toList ++ '\n' :: [] := by decide
  have address : '\n' ∉ logsAddress call.1 := by
    intro among
    obtain in_ | in_ := List.mem_append.mp among
    · exact plain.endpointLine ((List.rdropWhile_prefix _ call.1).subset in_)
    · exact absurd in_ (by decide)
  have endpointLine : '\n' ∉ 'e' :: ("ndpoint = \"".toList ++ (logsAddress call.1 ++ ['"'])) := by
    simp [address]
  have headersLine : '\n' ∉ 'h' :: ("eaders = \x7b \"Authorization\" = \"Bearer ".toList
      ++ (call.2 ++ '"' :: " \x7d".toList)) := by
    simp [plain.tokenLine]
  have split : otelLines call.1 call.2
      = "[otel]\nlog_user_prompt = false\n\n[otel.exporter.otlp-http]\n".toList ++
        ('e' :: ("ndpoint = \"".toList ++ (logsAddress call.1 ++ ['"'])) ++ '\n' ::
          ("protocol = \"json\"\n".toList ++
            ('h' :: ("eaders = \x7b \"Authorization\" = \"Bearer ".toList
              ++ (call.2 ++ '"' :: " \x7d".toList)) ++ '\n' :: []))) := by
    rw [otelLines, start, middle, rest]
    simp only [List.append_assoc, List.cons_append, List.nil_append]
  have one : otelTables "[otel]\nlog_user_prompt = false\n\n[otel.exporter.otlp-http]\n".toList = 1 := by
    decide
  have protocol : otelTables "protocol = \"json\"\n".toList = 0 := by decide
  have ending : otelTables (endMarker ++ ['\n']) = 0 := by decide
  rw [renderBlock, otelTables_line newline_notMem_beginMarker (by decide),
    otelTables_whole (whole_otelLines call.1 call.2), ending, split,
    otelTables_whole (.inr ⟨"[otel]\nlog_user_prompt = false\n\n[otel.exporter.otlp-http]".toList,
      by decide⟩), one, otelTables_line endpointLine (beginsOtel_cons (by decide) (by decide) _),
    otelTables_whole (.inr ⟨"protocol = \"json\"".toList, by decide⟩), protocol,
    otelTables_line headersLine (beginsOtel_cons (by decide) (by decide) _)]
  rfl

/-- **A run on a settled text leaves it, or replaces the block.** -/
theorem inject_settled {base : List Char} (settled : Settled base) {call : List Char × List Char}
    (plain : PlainCall call) (next : List Char × List Char) :
    injectConfig (settleIn base call) next = settleIn base next ∨
      ∀ other, injectConfig (settleIn base call) other = settleIn base call := by
  by_cases user : hasUserOtel base = true
  · refine .inl (injectConfig_eq ?_ next)
    rw [settleIn, if_pos user, strip_settled settled]
  · have text : settleIn base call = spaced base ++ renderBlock call.1 call.2 := if_neg user
    cases last : firstAt endMarker base with
    | some e =>
      -- a stray end marker keeps the shim's own block from being found
      refine .inr fun other => ?_
      have kept := strip_kept last settled (renderBlock call.1 call.2)
      have own : hasUserOtel (spaced base ++ renderBlock call.1 call.2) = true := by
        rw [hasUserOtel_whole (whole_spaced base), hasUserOtel_renderBlock, Bool.or_true]
      rw [text, injectConfig_eq kept, settleIn, if_pos own]
    | none =>
      have noBegin : firstAt beginMarker base = none := by
        cases first : firstAt beginMarker base with
        | none => rfl
        | some b =>
          rw [Settled, first, last] at settled
          exact absurd settled user
      refine .inl ?_
      have stripped := strip_injected plain noBegin last
      rw [text, injectConfig_eq stripped, settleIn, settleIn, hasUserOtel_spaced, if_neg user,
        if_neg user, spaced_whole (whole_spaced base)]

theorem injected_settled {text base : List Char} (stripped : stripToardBlock text = base)
    (settled : Settled base) {calls : List (List Char × List Char)}
    (plain : ∀ call ∈ calls, PlainCall call) (some_ : calls ≠ []) :
    ∃ call, PlainCall call ∧ injected text calls = settleIn base call := by
  induction calls using List.reverseRecOn with
  | nil => exact absurd rfl some_
  | append_singleton calls last ih =>
    have isPlain := plain last (List.mem_append_right _ (List.mem_singleton_self last))
    rw [injected, List.foldl_append]
    by_cases empty : calls = []
    · subst empty
      exact ⟨last, isPlain, injectConfig_eq stripped last⟩
    · obtain ⟨call, plainCall, before⟩ :=
        ih (fun call among => plain call (List.mem_append_left _ among)) empty
      have run : List.foldl injectConfig (List.foldl injectConfig text calls) [last]
          = injectConfig (settleIn base call) last := congrArg (injectConfig · last) before
      obtain replaced | left := inject_settled settled plainCall last
      · exact ⟨last, isPlain, run.trans replaced⟩
      · exact ⟨call, plainCall, run.trans (left last)⟩

theorem inject_again {base : List Char} (settled : Settled base) {call : List Char × List Char}
    (plain : PlainCall call) : injectConfig (settleIn base call) call = settleIn base call := by
  obtain replaced | left := inject_settled settled plain call
  · exact replaced
  · exact left call

theorem inject_twice {base : List Char} (settled : Settled base) {before call : List Char × List Char}
    (plainBefore : PlainCall before) (plain : PlainCall call) :
    injectConfig (injectConfig (settleIn base before) call) call
      = injectConfig (settleIn base before) call := by
  obtain replaced | left := inject_settled settled plainBefore call
  · rw [replaced, inject_again settled plain]
  · rw [left call, left call]

theorem lines_settleIn (base : List Char) (call : List Char × List Char) :
    (lines base).Sublist (lines (settleIn base call)) := by
  rw [settleIn]
  split
  case isTrue => exact List.Sublist.refl _
  case isFalse =>
    have last : lines (spaced base) = (lines (spaced base)).dropLast ++ [[]] :=
      splitOn_dropLast (whole_spaced base)
    have ended : [[]].Sublist (lines (renderBlock call.1 call.2)) := by
      rw [lines, splitOn_dropLast (whole_renderBlock call.1 call.2)]
      exact List.sublist_append_right _ _
    refine (lines_spaced base).trans ?_
    rw [lines_whole (whole_spaced base), last, List.dropLast_concat]
    exact (List.Sublist.refl _).append ended

theorem otelTables_settleIn {base : List Char} {call : List Char × List Char} (plain : PlainCall call)
    (few : otelTables base ≤ if hasUserOtel base then 1 else 0) :
    otelTables (settleIn base call) ≤ 1 := by
  rw [settleIn]
  split
  case isTrue user => rwa [if_pos user] at few
  case isFalse user =>
    rw [if_neg user] at few
    rw [otelTables_whole (whole_spaced base), otelTables_spaced, otelTables_renderBlock plain]
    omega

/-- The user's lines are kept over all plain runs on an orderly text, a repeated run changes nothing,
and there is at most one table. -/
theorem injections_keep {text : List Char} (orderly : Orderly text)
    {calls : List (List Char × List Char)} (plain : ∀ call ∈ calls, PlainCall call) :
    (outside text).Sublist (lines (injected text calls)) ∧
      (∀ call, PlainCall call →
        injected text (calls ++ [call, call]) = injected text (calls ++ [call])) ∧
      (calls ≠ [] → otelTables (injected text calls) ≤ 1) := by
  obtain ⟨base, is, settled, few⟩ := orderly
  have stripped : stripToardBlock text = base := by
    obtain rfl | block := is
    · exact strip_settled settled
    · exact strip_block block
  have kept : (outside text).Sublist (lines base) := by
    obtain rfl | block := is
    · exact (outsideFrom_sublist _).1
    · exact outside_block block
  refine ⟨?_, fun call isPlain => ?_, fun some_ => ?_⟩
  · by_cases none_ : calls = []
    · rw [none_]
      exact (outsideFrom_sublist _).1
    · obtain ⟨call, -, after⟩ := injected_settled stripped settled plain none_
      rw [after]
      exact kept.trans (lines_settleIn base call)
  · have runs : injected text (calls ++ [call, call])
        = injectConfig (injectConfig (injected text calls) call) call := by
      rw [injected, injected, List.foldl_append]
      rfl
    have once : injected text (calls ++ [call]) = injectConfig (injected text calls) call := by
      rw [injected, injected, List.foldl_append]
      rfl
    rw [runs, once]
    by_cases none_ : calls = []
    · have first : injected text calls = text := by rw [none_]; rfl
      rw [first, injectConfig_eq stripped, inject_again settled isPlain]
    · obtain ⟨before, plainBefore, after⟩ := injected_settled stripped settled plain none_
      rw [after, inject_twice settled plainBefore isPlain]
  · obtain ⟨call, plainCall, after⟩ := injected_settled stripped settled plain some_
    rw [after]
    exact otelTables_settleIn plainCall few

def exampleCall : List Char × List Char := ("https://toard.example.com/api".toList, "tk_test".toList)

theorem injections_keep_settings :
    PlainCall exampleCall ∧ Orderly "model = \"o3\"\n".toList ∧
      (outside "model = \"o3\"\n".toList).Sublist
        (lines (injected "model = \"o3\"\n".toList [exampleCall])) := by
  have plain : PlainCall exampleCall := ⟨by decide, by decide, by decide, by decide⟩
  have orderly : Orderly "model = \"o3\"\n".toList := by
    refine ⟨_, .inl rfl, ?_, by decide⟩
    have first : firstAt beginMarker "model = \"o3\"\n".toList = none := by decide
    rw [Settled, first]
    exact trivial
  exact ⟨plain, orderly, (injections_keep orderly fun call among => by
    rw [List.mem_singleton.mp among]
    exact plain).1⟩

set_option maxRecDepth 8000 in
/-- A begin marker without an end: the second run takes what is behind it for the block. -/
theorem not_injections_keep_stray :
    ¬ (outside "# >>> toard otel >>>\nmodel = \"o3\"\n".toList).Sublist
      (lines (injected "# >>> toard otel >>>\nmodel = \"o3\"\n".toList [exampleCall, exampleCall])) := by
  intro kept
  have there : "model = \"o3\"".toList ∈ outside "# >>> toard otel >>>\nmodel = \"o3\"\n".toList := by
    decide
  have gone : "model = \"o3\"".toList ∉ lines (injected
      "# >>> toard otel >>>\nmodel = \"o3\"\n".toList [exampleCall, exampleCall]) := by
    decide
  exact gone (kept.subset there)

end Toard.Shim.Codex
