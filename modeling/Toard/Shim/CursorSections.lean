/-
**The turns of a text with headings, when the text grows (`collect/cursor_usage.rs`).**

* **`sections_grow`**: of a text that grows, only the last section changes.
-/

import Toard.Shim.CursorTranscript

namespace Toard.Shim.CursorAgent

/-! ### Sections -/

structure LegacySection where
  role : TurnRole
  lines : List (List Char)
deriving DecidableEq

namespace LegacySection

def text (part : LegacySection) : String :=
  String.ofList (cleanText (['\n'].intercalate part.lines) part.role)

def hasText (part : LegacySection) : Bool := part.text ≠ ""

end LegacySection

def continued (lines : List (List Char)) : List (List Char) :=
  (lines.takeWhile fun line => (heading line).isNone).filter fun line => !(isAside line)

def sections : List (List Char) → List LegacySection
  | [] => []
  | line :: rest =>
    (heading line).elim (sections rest) fun next =>
      ⟨next.1, next.2 :: continued rest⟩ :: sections rest

theorem continued_plain {line : List Char} (plain : heading line = none)
    (lines : List (List Char)) :
    continued (line :: lines) = (if isAside line then [] else [line]) ++ continued lines := by
  rw [continued, List.takeWhile_cons_of_pos (by rw [plain]; rfl), List.filter_cons]
  cases isAside line <;> rfl

theorem continued_heading {line : List Char} {next : TurnRole × List Char}
    (isHeading : heading line = some next) (lines : List (List Char)) :
    continued (line :: lines) = [] := by
  rw [continued, List.takeWhile_cons_of_neg (by simp [isHeading]), List.filter_nil]

theorem sections_plain {line : List Char} (plain : heading line = none)
    (lines : List (List Char)) : sections (line :: lines) = sections lines := by
  rw [sections, plain, Option.elim_none]

theorem sections_heading {line : List Char} {next : TurnRole × List Char}
    (isHeading : heading line = some next) (lines : List (List Char)) :
    sections (line :: lines) = ⟨next.1, next.2 :: continued lines⟩ :: sections lines := by
  rw [sections, isHeading, Option.elim_some]

/-! ### The turns of the sections -/

section Turns

variable (file : TranscriptFile) (mtimeMs : Int)

def sectionContents (messageIndex : Nat) (parts : List LegacySection) : List (Option RawContent) :=
  parts.mapIdx fun place part =>
    legacyTurn file mtimeMs (messageIndex + (parts.take place).countP LegacySection.hasText)
      part.role part.lines

variable {file mtimeMs}

theorem getElem?_sectionContents {parts : List LegacySection} {place : Nat} :
    (sectionContents file mtimeMs 0 parts)[place]? = parts[place]?.map fun part =>
      legacyTurn file mtimeMs ((parts.take place).countP LegacySection.hasText) part.role
        part.lines := by
  rw [sectionContents, List.getElem?_mapIdx]
  simp only [Nat.zero_add]

theorem legacyTurn_isSome (file : TranscriptFile) (mtimeMs : Int) (messageIndex : Nat) (part : LegacySection) :
    (legacyTurn file mtimeMs messageIndex part.role part.lines).isSome = part.hasText := by
  show (turn file mtimeMs file.session _ part.role part.text).isSome = part.hasText
  rw [turn, LegacySection.hasText]
  by_cases empty : part.text = ""
  · rw [dif_pos empty, decide_eq_false (not_not_intro empty)]
    rfl
  · rw [dif_neg empty, decide_eq_true empty]
    rfl

theorem sectionContents_cons (messageIndex : Nat) (part : LegacySection)
    (parts : List LegacySection) :
    sectionContents file mtimeMs messageIndex (part :: parts)
      = legacyTurn file mtimeMs messageIndex part.role part.lines ::
          sectionContents file mtimeMs (messageIndex + if part.hasText then 1 else 0) parts := by
  have later (place : Nat) : messageIndex + ((part :: parts).take (place + 1)).countP
        LegacySection.hasText
      = (messageIndex + if part.hasText then 1 else 0)
          + (parts.take place).countP LegacySection.hasText := by
    rw [List.take_succ_cons, List.countP_cons]
    omega
  rw [sectionContents, List.mapIdx_cons, sectionContents]
  simp only [later]
  rfl

def LegacyLog.openPart (log : LegacyLog) (more : List (List Char)) : List LegacySection :=
  (log.role.map fun role => ⟨role, log.lines ++ more⟩).toList

theorem flushLegacyContent_contents (file : TranscriptFile) (mtimeMs : Int) (log : LegacyLog)
    (parts : List LegacySection) :
    (flushLegacyContent file mtimeMs log).content
        ++ (sectionContents file mtimeMs (flushLegacyContent file mtimeMs log).messageIndex
          parts).reduceOption
      = log.content
        ++ (sectionContents file mtimeMs log.messageIndex
          (log.openPart [] ++ parts)).reduceOption := by
  unfold flushLegacyContent LegacyLog.openPart
  cases log.role with
  | none => rfl
  | some role =>
    have isSome := legacyTurn_isSome file mtimeMs log.messageIndex
      ⟨role, log.lines⟩
    rw [Option.elim_some, Option.map_some, Option.toList_some, List.append_nil, List.cons_append,
      List.nil_append, sectionContents_cons]
    cases isTurn : legacyTurn file mtimeMs log.messageIndex role log.lines with
    | none =>
      rw [isTurn] at isSome
      rw [← isSome, List.reduceOption_cons_of_none]
      rfl
    | some content =>
      rw [isTurn] at isSome
      rw [← isSome, List.reduceOption_cons_of_some, Option.elim_some, List.append_assoc]
      rfl

theorem foldl_readLegacyLine (log : LegacyLog) (lines : List (List Char)) :
    (flushLegacyContent file mtimeMs (lines.foldl (readLegacyLine file mtimeMs) log)).content
      = log.content ++ (sectionContents file mtimeMs log.messageIndex
          (log.openPart (continued lines) ++ sections lines)).reduceOption := by
  induction lines generalizing log with
  | nil =>
    have closed := flushLegacyContent_contents file mtimeMs log []
    rw [sectionContents, List.mapIdx_nil, List.reduceOption_nil, List.append_nil] at closed
    exact closed
  | cons line rest ih =>
    rw [List.foldl_cons, ih, readLegacyLine]
    cases isHeading : heading line with
    | none =>
      rw [Option.elim_none, continued_plain isHeading, sections_plain isHeading]
      cases isAside line with
      | true => rfl
      | false =>
        simp only [LegacyLog.openPart, Bool.false_eq_true, if_false, List.append_assoc]
    | some next =>
      rw [Option.elim_some, continued_heading isHeading, sections_heading isHeading]
      exact flushLegacyContent_contents file mtimeMs log _

/-- **A text has a turn of each section.** -/
theorem parseLegacyTranscript_sections (text : List Char) :
    parseLegacyTranscript file mtimeMs text
      = (sectionContents file mtimeMs 0 (sections (linesFrom [] text))).reduceOption :=
  foldl_readLegacyLine _ _

end Turns

/-! ### Growing -/

theorem linesFrom_append (current text : List Char) :
    ∃ (closed : List (List Char)) (last : List Char),
      ∀ more, linesFrom current (text ++ more) = closed ++ linesFrom last more := by
  induction text generalizing current with
  | nil => exact ⟨[], current, fun _ => rfl⟩
  | cons c rest ih =>
    by_cases newline : c = '\n'
    · obtain ⟨closed, last, split⟩ := ih []
      refine ⟨(if current.getLast? = some '\r' then current.dropLast else current) :: closed, last,
        fun more => ?_⟩
      rw [List.cons_append, linesFrom, if_pos newline, split, List.cons_append]
    · obtain ⟨closed, last, split⟩ := ih (current ++ [c])
      refine ⟨closed, last, fun more => ?_⟩
      rw [List.cons_append, linesFrom, if_neg newline, split]

theorem marker_prefix_closed {marker line : List Char} (plain : '\r' ∉ marker)
    (begins : marker <+: line) :
    marker <+: (if line.getLast? = some '\r' then line.dropLast else line) := by
  split
  · rename_i ends
    obtain ⟨rest, rfl⟩ := begins
    by_cases empty : rest = []
    · rw [empty, List.append_nil] at ends
      exact absurd (List.mem_of_getLast? ends) plain
    · rw [List.dropLast_append_of_ne_nil empty]
      exact List.prefix_append _ _
  · exact begins

theorem linesFrom_open {current : List Char} (nonempty : current ≠ []) (more : List Char) :
    ∃ line rest, linesFrom current more = line :: rest ∧
      ∀ marker, '\r' ∉ marker → marker <+: current → marker <+: line := by
  induction more generalizing current with
  | nil =>
    rw [linesFrom, if_neg (by rw [List.isEmpty_iff]; exact nonempty)]
    exact ⟨current, [], rfl, fun _ _ begins => begins⟩
  | cons c rest ih =>
    rw [linesFrom]
    by_cases newline : c = '\n'
    · rw [if_pos newline]
      exact ⟨_, _, rfl, fun _ => marker_prefix_closed⟩
    · rw [if_neg newline]
      have still : current ++ [c] ≠ [] := by simp
      obtain ⟨line, later, isLine, kept⟩ := ih still
      exact ⟨line, later, isLine, fun marker plain begins =>
        kept marker plain (begins.trans (List.prefix_append _ _))⟩

theorem heading_kept {line later : List Char} {next : TurnRole × List Char}
    (isHeading : heading line = some next)
    (kept : ∀ marker, '\r' ∉ marker → marker <+: line → marker <+: later) :
    ∃ words, heading later = some (next.1, words) := by
  unfold heading at isHeading ⊢
  by_cases user : "user:".toList.isPrefixOf line
  · rw [if_pos user] at isHeading
    obtain rfl := Option.some.inj isHeading
    have begins := kept _ (by decide) (List.isPrefixOf_iff_prefix.mp user)
    exact ⟨_, if_pos (List.isPrefixOf_iff_prefix.mpr begins)⟩
  · rw [if_neg user] at isHeading
    obtain ⟨assistant, isNext⟩ := Option.ite_none_right_eq_some.mp isHeading
    obtain rfl := Option.some.inj isNext
    have begins := kept _ (by decide) (List.isPrefixOf_iff_prefix.mp assistant)
    have other : ¬ "user:".toList.isPrefixOf later := by
      intro both
      have short := List.prefix_of_prefix_length_le begins (List.isPrefixOf_iff_prefix.mp both)
        (by decide)
      exact absurd short (by decide)
    exact ⟨_, (if_neg other).trans (if_pos (List.isPrefixOf_iff_prefix.mpr begins))⟩

theorem continued_append {before : List (List Char)}
    (headed : ¬ ∀ line ∈ before, heading line = none) (lines : List (List Char)) :
    continued (before ++ lines) = continued before := by
  have cut : (before.takeWhile fun line => (heading line).isNone).length ≠ before.length := by
    intro same
    have all := List.takeWhile_prefix (l := before) fun line => (heading line).isNone
    refine headed fun line among => ?_
    rw [← all.eq_of_length same] at among
    exact Option.isNone_iff_eq_none.mp
      (List.mem_takeWhile_imp (p := fun line => (heading line).isNone) among)
  rw [continued, List.takeWhile_append, if_neg cut, continued]

theorem sections_append_plain {before : List (List Char)}
    (plain : ∀ line ∈ before, heading line = none) (lines : List (List Char)) :
    sections (before ++ lines) = sections lines := by
  induction before with
  | nil => rfl
  | cons line rest ih =>
    rw [List.forall_mem_cons] at plain
    rw [List.cons_append, sections_plain plain.1, ih plain.2]

theorem sections_append {before : List (List Char)}
    (headed : ¬ ∀ line ∈ before, heading line = none) :
    ∃ closed role under, ∀ lines,
      sections (before ++ lines) = closed ++ ⟨role, under ++ continued lines⟩ :: sections lines := by
  induction before with
  | nil => exact absurd (by simp) headed
  | cons line rest ih =>
    by_cases plain : ∀ later ∈ rest, heading later = none
    · -- the heading is this line
      obtain ⟨next, isHeading⟩ : ∃ next, heading line = some next := by
        rw [← Option.isSome_iff_exists, Option.isSome_iff_ne_none]
        exact fun none => headed (List.forall_mem_cons.mpr ⟨none, plain⟩)
      refine ⟨[], next.1, next.2 :: rest.filter fun line => !(isAside line), fun lines => ?_⟩
      have taken : continued (rest ++ lines)
          = (rest.filter fun line => !(isAside line)) ++ continued lines := by
        rw [continued, List.takeWhile_append_of_pos (fun later among => by rw [plain later among]; rfl),
          List.filter_append, continued]
      rw [List.cons_append, sections_heading isHeading, sections_append_plain plain, taken]
      rfl
    · obtain ⟨closed, role, under, split⟩ := ih plain
      cases isHeading : heading line with
      | none =>
        refine ⟨closed, role, under, fun lines => ?_⟩
        rw [List.cons_append, sections_plain isHeading, split]
      | some next =>
        refine ⟨⟨next.1, next.2 :: continued rest⟩ :: closed, role, under, fun lines => ?_⟩
        rw [List.cons_append, sections_heading isHeading, split, continued_append plain,
          List.cons_append]

def Grows (before after : List LegacySection) : Prop :=
  before = [] ∨ ∃ closed role lines lines' later,
    before = closed ++ [⟨role, lines⟩] ∧ after = closed ++ ⟨role, lines'⟩ :: later

theorem sections_open (last more : List Char) :
    sections (linesFrom last []) = [] ∨ ∃ role lines lines' later,
      (continued (linesFrom last []) = [] ∧ sections (linesFrom last []) = [⟨role, lines⟩]) ∧
      continued (linesFrom last more) = [] ∧
        sections (linesFrom last more) = ⟨role, lines'⟩ :: later := by
  by_cases nonempty : last = []
  · rw [nonempty]
    exact .inl rfl
  have alone : linesFrom last [] = [last] := by
    rw [linesFrom, if_neg (by rw [List.isEmpty_iff]; exact nonempty)]
  rw [alone]
  cases isHeading : heading last with
  | none => exact .inl (sections_plain isHeading [])
  | some next =>
    obtain ⟨line, rest, isLine, kept⟩ := linesFrom_open nonempty more
    obtain ⟨words, still⟩ := heading_kept isHeading kept
    refine .inr ⟨next.1, next.2 :: [], words :: continued rest, sections rest,
      ⟨continued_heading isHeading [], sections_heading isHeading []⟩, ?_⟩
    rw [isLine]
    exact ⟨continued_heading still rest, sections_heading still rest⟩

/-- **Of a text that grows, only the last section changes**, and not its role. -/
theorem sections_grow (text more : List Char) :
    Grows (sections (linesFrom [] text)) (sections (linesFrom [] (text ++ more))) := by
  obtain ⟨before, last, split⟩ := linesFrom_append [] text
  have whole := split []
  rw [List.append_nil] at whole
  rw [whole, split]
  by_cases plain : ∀ line ∈ before, heading line = none
  · rw [sections_append_plain plain, sections_append_plain plain]
    rcases sections_open last more with none | ⟨role, lines, lines', later, early, late⟩
    · exact .inl none
    · exact .inr ⟨[], role, lines, lines', later, early.2, late.2⟩
  · obtain ⟨closed, role, under, parts⟩ := sections_append plain
    rw [parts, parts]
    rcases sections_open last more with none | ⟨next, lines, lines', later, early, late⟩
    · rw [none]
      exact .inr ⟨closed, role, _, _, _, rfl, rfl⟩
    · rw [early.1, early.2, late.1, late.2]
      refine .inr ⟨closed ++ [⟨role, under ++ []⟩], next, lines, lines', later, ?_, ?_⟩
      · rw [List.append_assoc]
        rfl
      · rw [List.append_assoc]
        rfl

theorem Grows.at {before after : List LegacySection} (grows : Grows before after) {place : Nat}
    {part : LegacySection} (isPart : before[place]? = some part) :
    ∃ later, after[place]? = some later ∧ later.role = part.role ∧
      after.take place = before.take place ∧ (place + 1 = before.length ∨ later = part) := by
  rcases grows with rfl | ⟨closed, role, lines, lines', later, rfl, rfl⟩
  · cases isPart
  have within : place < closed.length + 1 := by
    simpa using (List.getElem?_eq_some_iff.mp isPart).1
  rcases Nat.lt_succ_iff_lt_or_eq.mp within with inside | rfl
  · rw [List.getElem?_append_left inside] at isPart ⊢
    refine ⟨part, isPart, rfl, ?_, .inr rfl⟩
    rw [List.take_append_of_le_length inside.le, List.take_append_of_le_length inside.le]
  · rw [List.getElem?_append_right le_rfl, Nat.sub_self] at isPart ⊢
    obtain rfl := Option.some.inj isPart
    refine ⟨⟨role, lines'⟩, rfl, rfl, ?_, .inl (by simp)⟩
    rw [List.take_left, List.take_left]

end Toard.Shim.CursorAgent
