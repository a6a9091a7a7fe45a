/-
**Collecting a transcript of the Cursor agent that grows.**

The key of a turn has its time and its text. A turn without a time of its own has the time of the
file, and the last turn of a text grows with the text, so that its key may change.

* **`turns_keep_keys`**: then the queue has one key of each turn.
-/

import Toard.Shim.CursorSections
import Toard.Shim.GrowingLog

namespace Toard.Shim.CursorAgent

open Toard.Json (Value)
open Toard.Shim.Claude (TranscriptLine field hasError)
open Toard.Shim.PromptRecord (contentDedupKey)

/-! ### Places -/

section Places

variable {α β : Type*}

def Keeps (before after : List (Option α)) : Prop :=
  ∀ (place : Nat) (a : α), before[place]? = some (some a) → after[place]? = some (some a)

theorem Keeps.map {before after : List (Option α)} (keeps : Keeps before after) (f : α → β) :
    Keeps (before.map (Option.map f)) (after.map (Option.map f)) := by
  intro place b isPlace
  rw [List.getElem?_map] at isPlace ⊢
  obtain ⟨a?, here, isSome⟩ := Option.map_eq_some_iff.mp isPlace
  obtain ⟨a, rfl, rfl⟩ := Option.map_eq_some_iff.mp isSome
  rw [keeps place a here]
  rfl

theorem Keeps.mem_reduceOption {before after : List (Option α)} (keeps : Keeps before after) {a : α}
    (among : a ∈ before.reduceOption) : a ∈ after.reduceOption := by
  rw [List.reduceOption_mem_iff] at among ⊢
  obtain ⟨place, here⟩ := List.mem_iff_getElem?.mp among
  exact List.mem_of_getElem? (keeps place a here)

end Places

/-! ### What a key tells of a turn -/

theorem contentDedupKey_inj {sha256Hex : String → String} (free : Function.Injective sha256Hex)
    {adapter : ContentAdapter} {left right : RawContent} (message : left.messageId = right.messageId)
    (session : left.sessionId = right.sessionId) (role : left.role = right.role)
    (same : contentDedupKey sha256Hex adapter left = contentDedupKey sha256Hex adapter right) :
    left.tsMs = right.tsMs ∧ left.text = right.text := by
  have texts := congrArg String.toList (free same)
  have colon : ":".toList = [':'] := rfl
  simp only [message, session, role, String.toList_append, colon, List.append_assoc,
    List.append_cancel_left_eq, List.cons_append, List.cons.injEq, true_and] at texts
  obtain ⟨time, texts⟩ := Library.append_separator_inj (colon_notMem_toString_int _)
    (colon_notMem_toString_int _) texts
  exact ⟨toList_toString_int_inj time,
    String.toList_inj.mp (List.cons.inj (List.append_cancel_left texts)).2⟩

/-! ### JSON lines -/

def timedTurn (tsMs : Int) (content : RawContent) : RawContent := { content with tsMs := tsMs }

def lineTime (line : TranscriptLine) : Option Int :=
  line.value.bind fun value => ownTime value ((field "message" value).getD value)

section Jsonl

variable {sha256Hex : String → String} {file : TranscriptFile}

theorem turn_timed (tsMs before : Int) (sessionId : Option String) (messageId : String)
    (role : TurnRole) (text : String) :
    turn file tsMs sessionId messageId role text
      = (turn file before sessionId messageId role text).map (timedTurn tsMs) := by
  unfold turn
  by_cases empty : text = ""
  · rw [dif_pos empty, dif_pos empty]
    rfl
  · rw [dif_neg empty, dif_neg empty]
    rfl

theorem lineContent_timed (mtimeMs before : Int) (lineIndex : Nat) (line : TranscriptLine) :
    lineContent file mtimeMs lineIndex line
      = (lineContent file before lineIndex line).map
          (timedTurn ((lineTime line).getD mtimeMs)) := by
  simp only [lineContent, lineTime]
  cases line.value with
  | none => rfl
  | some value =>
    rw [Option.bind_some, Option.bind_some, Option.bind_some]
    cases (((field "role" value).or (field "role" ((field "message" value).getD value))).bind
        Value.asStr).bind roleOf with
    | none => rfl
    | some role =>
      rw [Option.bind_some, Option.bind_some]
      exact turn_timed _ _ _ _ _ _

def lineContents (file : TranscriptFile) (mtimeMs : Int) (lines : List TranscriptLine) :
    List (Option RawContent) :=
  lines.zipIdx.map fun entry => lineContent file mtimeMs entry.2 entry.1

def lineKeys (sha256Hex : String → String) (file : TranscriptFile) (mtimeMs : Int)
    (lines : List TranscriptLine) : List (Option String) :=
  (lineContents file mtimeMs lines).map (Option.map (contentDedupKey sha256Hex .cursor))

theorem getElem?_lineContents {mtimeMs : Int} {lines : List TranscriptLine} {place : Nat} :
    (lineContents file mtimeMs lines)[place]?
      = lines[place]?.map (lineContent file mtimeMs place) := by
  rw [lineContents, List.getElem?_map, List.getElem?_zipIdx, Option.map_map, Nat.zero_add]
  rfl

/-- Every turn has a time of its own, or the time of the file has not changed. -/
def LinesDated (file : TranscriptFile) (lines : List TranscriptLine) (mtimeMs laterMs : Int) : Prop :=
  ∀ (place : Nat) (line : TranscriptLine), lines[place]? = some line →
    (lineContent file mtimeMs place line).isSome → (lineTime line).isSome ∨ mtimeMs = laterMs

theorem LinesDated.keeps {lines : List TranscriptLine} {mtimeMs laterMs : Int}
    (dated : LinesDated file lines mtimeMs laterMs) (more : List TranscriptLine) :
    Keeps (lineContents file mtimeMs lines) (lineContents file laterMs (lines ++ more)) := by
  intro place content isContent
  rw [getElem?_lineContents] at isContent ⊢
  obtain ⟨line, isLine, isTurn⟩ := Option.map_eq_some_iff.mp isContent
  have there : (lines ++ more)[place]? = some line := by
    rw [List.getElem?_append_left (List.getElem?_eq_some_iff.mp isLine).1, isLine]
  rw [there, Option.map_some, Option.some_inj, ← isTurn]
  have sameTime : (lineTime line).getD laterMs = (lineTime line).getD mtimeMs := by
    rcases dated place line isLine (by rw [isTurn]; rfl) with own | rfl
    · obtain ⟨tsMs, isOwn⟩ := Option.isSome_iff_exists.mp own
      rw [isOwn, Option.getD_some, Option.getD_some]
    · rfl
  rw [lineContent_timed laterMs mtimeMs, lineContent_timed mtimeMs mtimeMs, sameTime,
    Option.map_map]
  rfl

/-- **When each turn of a transcript of lines keeps its key.** -/
theorem keeps_lineKeys_iff (free : Function.Injective sha256Hex) (lines more : List TranscriptLine)
    (mtimeMs laterMs : Int) :
    Keeps (lineKeys sha256Hex file mtimeMs lines) (lineKeys sha256Hex file laterMs (lines ++ more)) ↔
      LinesDated file lines mtimeMs laterMs := by
  refine ⟨fun keeps place line isLine isTurn => ?_, fun dated => (dated.keeps more).map _⟩
  obtain ⟨content, isContent⟩ := Option.isSome_iff_exists.mp isTurn
  have there : (lines ++ more)[place]? = some line := by
    rw [List.getElem?_append_left (List.getElem?_eq_some_iff.mp isLine).1, isLine]
  have kept := keeps place (contentDedupKey sha256Hex .cursor content) (by
    rw [lineKeys, List.getElem?_map, getElem?_lineContents, isLine, Option.map_some,
      Option.map_some, isContent, Option.map_some])
  rw [lineKeys, List.getElem?_map, getElem?_lineContents, there, Option.map_some,
    Option.map_some, lineContent_timed laterMs mtimeMs, isContent, Option.map_some,
    Option.map_some, Option.some_inj, Option.some_inj] at kept
  have sameIds : (timedTurn ((lineTime line).getD laterMs) content).messageId
      = content.messageId := rfl
  have sameTime := (contentDedupKey_inj free sameIds rfl rfl kept).1
  have ownTime : content.tsMs = (lineTime line).getD mtimeMs := by
    have again : some content = (some content).map (timedTurn ((lineTime line).getD mtimeMs)) := by
      rw [← isContent]
      exact lineContent_timed mtimeMs mtimeMs place line
    exact congrArg RawContent.tsMs (Option.some.inj again)
  rw [ownTime] at sameTime
  cases isOwn : lineTime line with
  | some tsMs => exact .inl rfl
  | none =>
    rw [isOwn] at sameTime
    exact .inr sameTime.symm

end Jsonl

/-! ### Texts with headings -/

section Legacy

variable {sha256Hex : String → String} {file : TranscriptFile}

def legacyContents (file : TranscriptFile) (mtimeMs : Int) (text : List Char) :
    List (Option RawContent) :=
  sectionContents file mtimeMs 0 (sections (linesFrom [] text))

def sectionKeys (sha256Hex : String → String) (file : TranscriptFile) (mtimeMs : Int)
    (text : List Char) : List (Option String) :=
  (legacyContents file mtimeMs text).map (Option.map (contentDedupKey sha256Hex .cursor))

/-- The time of the file has not changed, if there are turns, nor has the text of the last one. -/
structure SectionsSettled (text later : List Char) (mtimeMs laterMs : Int) : Prop where
  dated : ∀ part ∈ sections (linesFrom [] text), part.hasText → mtimeMs = laterMs
  finished : ∀ (place : Nat) (part longer : LegacySection),
    place + 1 = (sections (linesFrom [] text)).length →
      (sections (linesFrom [] text))[place]? = some part → part.hasText →
        (sections (linesFrom [] later))[place]? = some longer → longer.text = part.text

theorem legacyTurn_congr {mtimeMs : Int} {messageIndex : Nat} {part longer : LegacySection}
    (role : longer.role = part.role) (text : longer.text = part.text) :
    legacyTurn file mtimeMs messageIndex longer.role longer.lines
      = legacyTurn file mtimeMs messageIndex part.role part.lines := by
  show turn file mtimeMs file.session _ longer.role longer.text
    = turn file mtimeMs file.session _ part.role part.text
  rw [role, text]

theorem legacyTurn_eq {mtimeMs : Int} {messageIndex : Nat} {part : LegacySection}
    {content : RawContent}
    (isTurn : legacyTurn file mtimeMs messageIndex part.role part.lines = some content) :
    content.tsMs = mtimeMs ∧ content.text = part.text ∧ content.role = part.role ∧
      content.sessionId = file.session ∧
      content.messageId
        = some (file.session.getD "cursor" ++ ":legacy:" ++ toString messageIndex) := by
  change turn file mtimeMs file.session _ part.role part.text = some content at isTurn
  unfold turn at isTurn
  obtain ⟨nonempty, isContent⟩ := Option.dite_none_left_eq_some.mp isTurn
  obtain rfl := Option.some.inj isContent
  exact ⟨rfl, rfl, rfl, rfl, rfl⟩

theorem SectionsSettled.keeps {text later : List Char} {mtimeMs laterMs : Int}
    (settled : SectionsSettled text later mtimeMs laterMs) (begins : text <+: later) :
    Keeps (legacyContents file mtimeMs text) (legacyContents file laterMs later) := by
  intro place content isContent
  obtain ⟨more, rfl⟩ := begins
  rw [legacyContents, getElem?_sectionContents] at isContent ⊢
  obtain ⟨part, isPart, isTurn⟩ := Option.map_eq_some_iff.mp isContent
  obtain ⟨longer, isLonger, sameRole, sameTake, isLast⟩ := (sections_grow text more).at isPart
  have hasText : part.hasText := by
    rw [← legacyTurn_isSome, isTurn]
    rfl
  have sameText : longer.text = part.text := by
    rcases isLast with last | same
    · exact settled.finished place part longer last isPart hasText isLonger
    · rw [same]
  rw [isLonger, Option.map_some, sameTake, ← settled.dated part (List.mem_of_getElem? isPart) hasText,
    legacyTurn_congr sameRole sameText, isTurn]

/-- **When each turn of a text keeps its key.** -/
theorem keeps_sectionKeys_iff (free : Function.Injective sha256Hex) (text more : List Char)
    (mtimeMs laterMs : Int) :
    Keeps (sectionKeys sha256Hex file mtimeMs text)
        (sectionKeys sha256Hex file laterMs (text ++ more)) ↔
      SectionsSettled text (text ++ more) mtimeMs laterMs := by
  refine ⟨fun keeps => ?_, fun settled => (settled.keeps (List.prefix_append _ _)).map _⟩
  have same (place : Nat) (part longer : LegacySection)
      (isPart : (sections (linesFrom [] text))[place]? = some part) (hasText : part.hasText)
      (isLonger : (sections (linesFrom [] (text ++ more)))[place]? = some longer) :
      laterMs = mtimeMs ∧ longer.text = part.text := by
    obtain ⟨other, isOther, sameRole, sameTake, -⟩ := (sections_grow text more).at isPart
    obtain rfl := Option.some.inj (isLonger.symm.trans isOther)
    obtain ⟨content, isContent⟩ := Option.isSome_iff_exists.mp
      ((legacyTurn_isSome file mtimeMs _ part).trans hasText)
    have early : (sectionKeys sha256Hex file mtimeMs text)[place]?
        = some (some (contentDedupKey sha256Hex .cursor content)) := by
      rw [sectionKeys, List.getElem?_map, legacyContents, getElem?_sectionContents, isPart,
        Option.map_some, isContent, Option.map_some, Option.map_some]
    have late := keeps place _ early
    rw [sectionKeys, List.getElem?_map, legacyContents, getElem?_sectionContents, isLonger,
      Option.map_some, sameTake, Option.map_some, Option.some_inj] at late
    obtain ⟨later, isLater, sameKey⟩ := Option.map_eq_some_iff.mp late
    obtain ⟨time, words, role, session, message⟩ := legacyTurn_eq isContent
    obtain ⟨time', words', role', session', message'⟩ := legacyTurn_eq isLater
    obtain ⟨sameTime, sameText⟩ := contentDedupKey_inj free (message'.trans message.symm)
      (session'.trans session.symm) ((role'.trans sameRole).trans role.symm) sameKey
    exact ⟨(time'.symm.trans sameTime).trans time, (words'.symm.trans sameText).trans words⟩
  refine ⟨fun part among hasText => ?_, fun place part longer _ isPart hasText isLonger =>
    (same place part longer isPart hasText isLonger).2⟩
  obtain ⟨place, isPart⟩ := List.mem_iff_getElem?.mp among
  obtain ⟨longer, isLonger, -⟩ := (sections_grow text more).at isPart
  exact (same place part longer isPart hasText isLonger).1.symm

end Legacy

/-! ### Runs -/

/-- Whether `collect_content_for` sends a turn. -/
def isCollected (sinceMs : Int) (allows : Option String → Bool) (content : RawContent) : Bool :=
  sinceMs ≤ content.tsMs && allows (content.project.map LocalProject.id)

/-- `read_to_string`, of characters of which the last one may be written only in part. -/
def readToString (text : List (Option Char)) : List Char :=
  if none ∈ text then [] else text.reduceOption

section Runs

variable (sha256Hex : String → String) (file : String → TranscriptFile) (sinceMs : Int)
  (allows : Option String → Bool)

def collectedKeys (turns : List RawContent) : List String :=
  (turns.filter (isCollected sinceMs allows)).map (contentDedupKey sha256Hex .cursor)

def jsonlReader : LogReader TranscriptLine where
  keys path mtimeMs lines :=
    collectedKeys sha256Hex sinceMs allows (parseJsonlTranscript (file path) mtimeMs lines)
  isError line := hasError [line]
  torn := [.invalid]

def legacyReader : LogReader (Option Char) where
  keys path mtimeMs text :=
    collectedKeys sha256Hex sinceMs allows
      (parseLegacyTranscript (file path) mtimeMs (readToString text))
  isError character := character.isNone
  torn := [none]

variable {sha256Hex file sinceMs allows}

theorem oneLine_collectedKeys (digest : CollisionFree sha256Hex) (turns : List RawContent) :
    OneLine (collectedKeys sha256Hex sinceMs allows turns) := by
  intro key among
  obtain ⟨content, -, rfl⟩ := List.mem_map.mp among
  exact digest.oneLine _

theorem Keeps.mem_collectedKeys {before after : List (Option RawContent)}
    (keeps : Keeps before after) {key : String}
    (among : key ∈ collectedKeys sha256Hex sinceMs allows before.reduceOption) :
    key ∈ collectedKeys sha256Hex sinceMs allows after.reduceOption := by
  obtain ⟨content, isContent, rfl⟩ := List.mem_map.mp among
  obtain ⟨inside, isCollected⟩ := List.mem_filter.mp isContent
  exact List.mem_map_of_mem (List.mem_filter.mpr ⟨keeps.mem_reduceOption inside, isCollected⟩)

theorem parseJsonlTranscript_torn (file : TranscriptFile) (mtimeMs : Int)
    (lines : List TranscriptLine) (torn : Bool) :
    parseJsonlTranscript file mtimeMs (lines ++ if torn then [.invalid] else [])
      = parseJsonlTranscript file mtimeMs lines := by
  cases torn with
  | false => rw [if_neg (by decide), List.append_nil]
  | true =>
    rw [if_pos rfl, parseJsonlTranscript, List.zipIdx_append, List.map_append,
      List.reduceOption_append]
    exact List.append_nil _

theorem readToString_map (text : List Char) : readToString (text.map some) = text := by
  have whole : none ∉ text.map some := by
    rw [List.mem_map]
    rintro ⟨c, -, isNone⟩
    cases isNone
  rw [readToString, if_neg whole, List.reduceOption, List.filterMap_map]
  exact List.filterMap_some

theorem readToString_seen (text : List Char) (seen : Nat) (torn : Bool) :
    readToString ((text.map some).take seen ++ if torn then [none] else [])
      = if torn then [] else text.take seen := by
  cases torn with
  | true => exact if_pos (List.mem_append_right _ List.mem_cons_self)
  | false =>
    rw [if_neg (by decide), List.append_nil, ← List.map_take, readToString_map]
    rfl

theorem LinesDated.mem_keys {logs : String → List TranscriptLine} {visit final : Visit}
    (dated : LinesDated (file visit.path) ((logs visit.path).take visit.seen) visit.stamp.mtimeMs
      final.stamp.mtimeMs) {key : String}
    (among : key ∈ visit.keys (jsonlReader sha256Hex file sinceMs allows) logs) :
    key ∈ (jsonlReader sha256Hex file sinceMs allows).keys visit.path final.stamp.mtimeMs
      (logs visit.path) := by
  have keeps := dated.keeps ((logs visit.path).drop visit.seen)
  rw [List.take_append_drop] at keeps
  change key ∈ collectedKeys sha256Hex sinceMs allows (parseJsonlTranscript (file visit.path)
    visit.stamp.mtimeMs ((logs visit.path).take visit.seen ++
      if visit.torn then [TranscriptLine.invalid] else [])) at among
  rw [parseJsonlTranscript_torn] at among
  exact keeps.mem_collectedKeys among

theorem SectionsSettled.mem_keys {texts : String → List Char} {visit final : Visit}
    (settled : SectionsSettled ((texts visit.path).take visit.seen) (texts visit.path)
      visit.stamp.mtimeMs final.stamp.mtimeMs) {key : String}
    (among : key ∈ visit.keys (legacyReader sha256Hex file sinceMs allows)
      fun path => (texts path).map some) :
    key ∈ (legacyReader sha256Hex file sinceMs allows).keys visit.path final.stamp.mtimeMs
      ((texts visit.path).map some) := by
  change key ∈ collectedKeys sha256Hex sinceMs allows (parseLegacyTranscript (file visit.path)
    visit.stamp.mtimeMs (readToString (((texts visit.path).map some).take visit.seen ++
      if visit.torn then [none] else []))) at among
  change key ∈ collectedKeys sha256Hex sinceMs allows (parseLegacyTranscript (file visit.path)
    final.stamp.mtimeMs (readToString ((texts visit.path).map some)))
  rw [readToString_seen] at among
  rw [readToString_map, parseLegacyTranscript_sections]
  by_cases torn : visit.torn
  · rw [if_pos torn] at among
    cases among
  · rw [if_neg torn, parseLegacyTranscript_sections] at among
    exact (settled.keeps (List.take_prefix _ _)).mem_collectedKeys among

/-- **A turn keeps its key**, of a transcript of lines and of a text, just if it has a time of its
own or the file has the same time, and if its text has not changed. If all runs found that, the
queue has the keys of the whole transcripts and no others. -/
theorem turns_keep_keys (digest : CollisionFree sha256Hex) (file : String → TranscriptFile)
    (sinceMs : Int) (allows : Option String → Bool) (cursor : Cursor)
    (legacy : ∀ path state, cursor.files path = some state → state.sent = 0)
    (rounds : List Round) (final : String → Visit) :
    ((∀ path lines more mtimeMs laterMs,
        Keeps (lineKeys sha256Hex (file path) mtimeMs lines)
            (lineKeys sha256Hex (file path) laterMs (lines ++ more)) ↔
          LinesDated (file path) lines mtimeMs laterMs) ∧
      ∀ logs, ReadWhole logs rounds final →
        (∀ visit, .read visit ∈ rounds →
          LinesDated (file visit.path) ((logs visit.path).take visit.seen) visit.stamp.mtimeMs
            (final visit.path).stamp.mtimeMs) →
        DeliversWhole (jsonlReader sha256Hex file sinceMs allows) logs sha256Hex cursor rounds
          final) ∧
    ((∀ path text more mtimeMs laterMs,
        Keeps (sectionKeys sha256Hex (file path) mtimeMs text)
            (sectionKeys sha256Hex (file path) laterMs (text ++ more)) ↔
          SectionsSettled text (text ++ more) mtimeMs laterMs) ∧
      ∀ texts : String → List Char, ReadWhole (fun path => (texts path).map some) rounds final →
        (∀ visit, .read visit ∈ rounds →
          SectionsSettled ((texts visit.path).take visit.seen) (texts visit.path)
            visit.stamp.mtimeMs (final visit.path).stamp.mtimeMs) →
        DeliversWhole (legacyReader sha256Hex file sinceMs allows)
          (fun path => (texts path).map some) sha256Hex cursor rounds final) := by
  have plainLines (path mtimeMs lines) :
      OneLine ((jsonlReader sha256Hex file sinceMs allows).keys path mtimeMs lines) :=
    oneLine_collectedKeys digest _
  have plainTexts (path mtimeMs text) :
      OneLine ((legacyReader sha256Hex file sinceMs allows).keys path mtimeMs text) :=
    oneLine_collectedKeys digest _
  refine ⟨⟨fun path => keeps_lineKeys_iff digest.injective, fun logs whole dated => ?_⟩,
    fun path => keeps_sectionKeys_iff digest.injective, fun texts whole settled => ?_⟩
  · exact delivered_whole digest legacy plainLines whole fun visit isRound key =>
      (dated visit isRound).mem_keys
  · exact delivered_whole digest legacy plainTexts whole fun visit isRound key =>
      (settled visit isRound).mem_keys

end Runs

def plainFile : TranscriptFile := ⟨none, some "s1", none⟩

def datedLine (text : String) : TranscriptLine :=
  .json (.object [("role", .string "user"), ("timestamp", .string "2026-05-17T11:07:32.000Z"),
    ("content", .string text)])

def undatedLine (text : String) : TranscriptLine :=
  .json (.object [("role", .string "user"), ("content", .string text)])

/-- A run that finds a part of a transcript, and one that finds it all. -/
def growingRounds (seen size : Nat) : List Round :=
  [.read ⟨"s1", seen, false, ⟨1, seen⟩, none⟩, .read ⟨"s1", size, false, ⟨2, size⟩, none⟩]

theorem readWhole_growingRounds {L : Type*} (log : List L) (seen : Nat) :
    ReadWhole (fun _ => log) (growingRounds seen log.length)
      fun _ => ⟨"s1", log.length, false, ⟨2, log.length⟩, none⟩ := by
  intro visit isRound
  have samePath : visit.path = "s1" := by
    simp only [growingRounds, List.mem_cons, Round.read.injEq, List.not_mem_nil, or_false] at isRound
    rcases isRound with rfl | rfl <;> rfl
  exact ⟨List.mem_cons_of_mem _ List.mem_cons_self, samePath.symm, le_rfl, rfl, rfl⟩

/-- Lines with times of their own, and a text that has its first turn when it is whole. -/
theorem turns_keep_keys_dated :
    DeliversWhole (jsonlReader unary (fun _ => plainFile) 0 fun _ => true)
        (fun _ => [datedLine "hello", datedLine "there"]) unary ⟨fun _ => none⟩ (growingRounds 1 2)
        (fun _ => ⟨"s1", 2, false, ⟨2, 2⟩, none⟩) ∧
      DeliversWhole (legacyReader unary (fun _ => plainFile) 0 fun _ => true)
        (fun _ => "\nA: hi".toList.map some) unary ⟨fun _ => none⟩ (growingRounds 1 6)
        (fun _ => ⟨"s1", 6, false, ⟨2, 6⟩, none⟩) := by
  obtain ⟨⟨-, lines⟩, -⟩ := turns_keep_keys collisionFree_unary (fun _ => plainFile) 0
    (fun _ => true) ⟨fun _ => none⟩ (by simp) (growingRounds 1 2)
    fun _ => ⟨"s1", 2, false, ⟨2, 2⟩, none⟩
  obtain ⟨-, -, texts⟩ := turns_keep_keys collisionFree_unary (fun _ => plainFile) 0
    (fun _ => true) ⟨fun _ => none⟩ (by simp) (growingRounds 1 6)
    fun _ => ⟨"s1", 6, false, ⟨2, 6⟩, none⟩
  constructor
  · refine lines _ (readWhole_growingRounds [datedLine "hello", datedLine "there"] 1) ?_
    intro visit _ place line isLine _
    have dated : ∀ line ∈ [datedLine "hello", datedLine "there"], (lineTime line).isSome := by
      decide
    exact .inl (dated line (List.mem_of_mem_take (List.mem_of_getElem? isLine)))
  · refine texts (fun _ => "\nA: hi".toList)
      (readWhole_growingRounds ("\nA: hi".toList.map some) 1) ?_
    intro visit isRound
    simp only [growingRounds, List.mem_cons, Round.read.injEq, List.not_mem_nil, or_false] at isRound
    rcases isRound with rfl | rfl
    · have none : sections (linesFrom [] ("\nA: hi".toList.take 1)) = [] := by decide
      exact ⟨by rw [none]; simp, by rw [none]; simp⟩
    · refine ⟨fun _ _ _ => rfl, fun place part longer _ isPart _ isLonger => ?_⟩
      obtain rfl := Option.some.inj (isPart.symm.trans isLonger)
      rfl

theorem hello_nonempty : "hello" ≠ "" := by decide

def undatedTurn (tsMs : Int) : RawContent where
  project := none
  tsMs := tsMs
  sessionId := some "s1"
  messageId := some "s1:0:user"
  role := .user
  text := "hello"
  agent := none
  nonempty := hello_nonempty

/-- A line without a time is sent once more when the transcript has grown. -/
theorem undated_turn_sent_twice :
    lineContent plainFile 1 0 (undatedLine "hello") = some (undatedTurn 1) ∧
      lineContent plainFile 2 0 (undatedLine "hello") = some (undatedTurn 2) ∧
      contentDedupKey unary .cursor (undatedTurn 1) ≠ contentDedupKey unary .cursor (undatedTurn 2) ∧
      ∀ content ∈ [undatedTurn 1, undatedTurn 2], contentDedupKey unary .cursor content ∈
        delivered (jsonlReader unary (fun _ => plainFile) 0 fun _ => true)
          (fun _ => [undatedLine "hello", undatedLine "there"]) unary ⟨fun _ => none⟩
          (growingRounds 1 2) := by
  have early : lineContent plainFile 1 0 (undatedLine "hello") = some (undatedTurn 1) := by
    decide
  have late : lineContent plainFile 2 0 (undatedLine "hello") = some (undatedTurn 2) := by
    decide
  refine ⟨early, late, fun same => ?_, ?_⟩
  · have sameIds : (undatedTurn 1).messageId = (undatedTurn 2).messageId := rfl
    exact absurd (contentDedupKey_inj unary_injective sameIds rfl rfl same).1 (by decide)
  have sent : ∀ visit, .read visit ∈ growingRounds 1 2 → visit.stored = none →
      ∀ key ∈ visit.keys (jsonlReader unary (fun _ => plainFile) 0 fun _ => true)
          (fun _ => [undatedLine "hello", undatedLine "there"]),
        key ∈ delivered (jsonlReader unary (fun _ => plainFile) 0 fun _ => true)
          (fun _ => [undatedLine "hello", undatedLine "there"]) unary ⟨fun _ => none⟩
          (growingRounds 1 2) :=
    (delivered_rounds collisionFree_unary (by simp) (fun _ _ _ =>
      oneLine_collectedKeys collisionFree_unary _) (growingRounds 1 2)).2
  have first : undatedTurn 1 ∈ (parseJsonlTranscript plainFile 1 [undatedLine "hello"]).filter
      (isCollected 0 fun _ => true) := by
    decide
  have second : undatedTurn 2 ∈ (parseJsonlTranscript plainFile 2
      [undatedLine "hello", undatedLine "there"]).filter (isCollected 0 fun _ => true) := by
    decide
  intro content among
  rcases List.mem_pair.mp among with rfl | rfl
  · refine sent _ List.mem_cons_self rfl _ ?_
    show _ ∈ collectedKeys unary 0 (fun _ => true)
      (parseJsonlTranscript plainFile 1 [undatedLine "hello"])
    exact List.mem_map_of_mem first
  · refine sent _ (List.mem_cons_of_mem _ List.mem_cons_self) rfl _ ?_
    show _ ∈ collectedKeys unary 0 (fun _ => true)
      (parseJsonlTranscript plainFile 2 [undatedLine "hello", undatedLine "there"])
    exact List.mem_map_of_mem second

end Toard.Shim.CursorAgent
