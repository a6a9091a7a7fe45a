/-
**The turns in a transcript of the Cursor agent (`collect/cursor_usage.rs`).**

A transcript has JSON lines, or a text in which each turn begins with a heading. A turn has an id of
its own or one by its place, and a time of its own or the time of the file.
-/

import Mathlib.Data.List.ReduceOption
import Toard.Shim.PromptRecord
import Toard.Shim.Transcript

namespace Toard.Shim.CursorAgent

open Toard.Json (Value)
open Toard.Shim.Claude (TranscriptLine asArray field splitOnce stringField)

/-! ### The path -/

/-- A path by its components, with the name of the file up to its extension. -/
structure TranscriptPath where
  components : List String
  fileStem : Option String

structure TranscriptFile where
  project : Option LocalProject
  session : Option String
  agent : Option RawPromptAgent

namespace TranscriptPath

def transcriptGroup (groupOf : String → Option LocalProject) (path : TranscriptPath) :
    Option LocalProject :=
  let parts := path.components
  (((parts.zip (parts.drop 1)).zip (parts.drop 2)).reverse.find? fun window =>
    window.1.1 == "projects" && window.2 == "agent-transcripts").bind fun window =>
      groupOf window.1.2

def parts (path : TranscriptPath) : List String :=
  (path.components.dropWhile fun component => component != "agent-transcripts").drop 1

/-- The name of the file, or of its directory if all files have the same name. -/
def ownName (path : TranscriptPath) : Option String :=
  path.fileStem.bind fun stem =>
    if stem == "transcript" || stem == "agent-transcript" then path.components.dropLast.getLast?
    else some stem

def sessionIdFromPath (path : TranscriptPath) : Option String :=
  if 2 ≤ path.parts.length ∧ "subagents" ∈ path.parts then path.parts.head? else path.ownName

def promptAgentFromPath (path : TranscriptPath) : Option RawPromptAgent :=
  let positions := path.parts.findIdxs fun part => part == "subagents"
  positions.getLast?.bind fun lastSubagent =>
    path.ownName.map fun id =>
      { id := id
        parentId := if positions.length = 1 then path.parts.head?
          else if lastSubagent = 0 then none else path.parts[lastSubagent - 1]?
        depth := if positions.length < 256 then some (UInt8.ofNat positions.length) else none
        name := none
        role := none }

def file (groupOf : String → Option LocalProject) (path : TranscriptPath) : TranscriptFile where
  project := path.transcriptGroup groupOf
  session := path.sessionIdFromPath
  agent := path.promptAgentFromPath

end TranscriptPath

/-! ### Times -/

def inI64 (n : Int) : Bool := -2 ^ 63 ≤ n ∧ n < 2 ^ 63

def epochMs (raw : Int) : Option Int :=
  if 1 ≤ raw ∧ raw < 10000000000 then some (raw * 1000) else if 0 < raw then some raw else none

/-- `Value::as_i64` -/
def asI64 : Value → Option Int
  | .number token => (parseI64 token.toList).filter inI64
  | _ => none

def timestampValue (value : Value) : Option Int :=
  (asI64 value).elim
    (value.asStr.bind fun raw =>
      (isoToEpochMs raw).or (((parseI64 raw.toList).filter inI64).bind epochMs))
    epochMs

def ownTime (value message : Value) : Option Int :=
  let timeOf := fun value =>
    ["timestamp", "createdAt", "created_at"].findSome? fun key =>
      (field key value).bind timestampValue
  (timeOf value).or (timeOf message)

/-! ### Texts -/

/-- The sections between two tags. Each round of the loop takes a section off the text. -/
def taggedSections (opening closing : List Char) : Nat → List Char → List (List Char)
  | 0, _ => []
  | fuel + 1, rest =>
    ((splitOnce opening rest).bind fun found => splitOnce closing found.2).elim [] fun closed =>
      closed.1 :: taggedSections opening closing fuel closed.2

def removeTaggedSections (opening closing : List Char) : Nat → List Char → List Char
  | 0, text => text
  | fuel + 1, text =>
    (splitOnce opening text).elim text fun found =>
      (splitOnce closing found.2).elim found.1 fun closed =>
        removeTaggedSections opening closing fuel (found.1 ++ closed.2)

theorem length_splitOnce {separator text : List Char} {parts : List Char × List Char}
    (split : splitOnce separator text = some parts) :
    parts.1.length + separator.length + parts.2.length = text.length := by
  induction text generalizing parts with
  | nil => cases split
  | cons c rest ih =>
    rw [splitOnce] at split
    by_cases here : separator.isPrefixOf (c :: rest)
    · rw [if_pos here] at split
      obtain rfl := Option.some.inj split
      have fits := (List.isPrefixOf_iff_prefix.mp here).length_le
      rw [List.length_drop]
      simp only [List.length_nil]
      omega
    · rw [if_neg here] at split
      obtain ⟨later, isLater, rfl⟩ := Option.map_eq_some_iff.mp split
      have shorter := ih isLater
      simp only [List.length_cons]
      omega

section Tags

variable {opening closing : List Char} (nonempty : opening ≠ [])

include nonempty

theorem taggedSections_fuel {fuel : Nat} {text : List Char} (enough : text.length ≤ fuel) :
    taggedSections opening closing (fuel + 1) text = taggedSections opening closing fuel text := by
  have positive := List.length_pos_of_ne_nil nonempty
  induction fuel generalizing text with
  | zero =>
    obtain rfl := List.length_eq_zero_iff.mp (Nat.le_zero.mp enough)
    rfl
  | succ fuel ih =>
    rw [taggedSections]
    conv_rhs => rw [taggedSections]
    cases isClosed : (splitOnce opening text).bind fun found => splitOnce closing found.2 with
    | none => rfl
    | some closed =>
      obtain ⟨found, isFound, isClosed⟩ := Option.bind_eq_some_iff.mp isClosed
      have first := length_splitOnce isFound
      have second := length_splitOnce isClosed
      rw [Option.elim_some, Option.elim_some, ih (by omega)]

theorem removeTaggedSections_fuel {fuel : Nat} {text : List Char} (enough : text.length ≤ fuel) :
    removeTaggedSections opening closing (fuel + 1) text
      = removeTaggedSections opening closing fuel text := by
  have positive := List.length_pos_of_ne_nil nonempty
  induction fuel generalizing text with
  | zero =>
    obtain rfl := List.length_eq_zero_iff.mp (Nat.le_zero.mp enough)
    rfl
  | succ fuel ih =>
    rw [removeTaggedSections]
    conv_rhs => rw [removeTaggedSections]
    cases isFound : splitOnce opening text with
    | none => rfl
    | some found =>
      rw [Option.elim_some, Option.elim_some]
      cases isClosed : splitOnce closing found.2 with
      | none => rfl
      | some closed =>
        have first := length_splitOnce isFound
        have second := length_splitOnce isClosed
        rw [Option.elim_some, Option.elim_some, ih (by rw [List.length_append]; omega)]

end Tags

def openTag (tag : String) : List Char := '<' :: tag.toList ++ ['>']

def closeTag (tag : String) : List Char := '<' :: '/' :: tag.toList ++ ['>']

def cleanText (text : List Char) (role : TurnRole) : List Char :=
  let userQueries :=
    if role = .user then
      taggedSections (openTag "user_query") (closeTag "user_query") text.length text
    else []
  let cleaned := if userQueries.isEmpty then text else ['\n'].intercalate userQueries
  trim (["timestamp", "system_reminder", "environment_context", "attached_files",
    "workspace_context"].foldl
      (fun text tag => removeTaggedSections (openTag tag) (closeTag tag) text.length text) cleaned)

def textFromContent (content : Option Value) (role : TurnRole) : List Char :=
  let values := (content.bind Value.asStr).elim
    ((content.bind asArray).elim [] fun blocks => blocks.filterMap fun block =>
      if stringField "type" block == some "text" then stringField "text" block else none)
    fun text => [text]
  cleanText (['\n'].intercalate (values.map String.toList)) role

/-! ### JSON lines -/

def roleOf (role : String) : Option TurnRole :=
  if role = "user" then some .user else if role = "assistant" then some .assistant else none

def turn (file : TranscriptFile) (tsMs : Int) (sessionId : Option String) (messageId : String)
    (role : TurnRole) (text : String) : Option RawContent :=
  if nonempty : text = "" then none
  else some {
    project := file.project
    tsMs := tsMs
    sessionId := sessionId
    messageId := some messageId
    role := role
    text := text
    agent := file.agent
    nonempty := nonempty }

section Jsonl

variable (file : TranscriptFile) (mtimeMs : Int)

def lineContent (lineIndex : Nat) (line : TranscriptLine) : Option RawContent :=
  line.value.bind fun value =>
    let message := (field "message" value).getD value
    ((((field "role" value).or (field "role" message)).bind Value.asStr).bind roleOf).bind fun role =>
      let explicit := ((field "sessionId" value).or (field "session_id" value)).bind Value.asStr
      let session := if file.agent.isSome then file.session.or explicit else explicit.or file.session
      let messageId := (((((field "id" value).or (field "uuid" value)).or
        (field "generation_id" value)).or (field "id" message)).bind Value.asStr).getD
          (session.getD "cursor" ++ ":" ++ toString lineIndex ++ ":" ++ role.text)
      turn file ((ownTime value message).getD mtimeMs) session messageId role
        (String.ofList (textFromContent ((field "content" message).or (field "content" value)) role))

/-- The turns of `parse_jsonl_transcript`. -/
def parseJsonlTranscript (lines : List TranscriptLine) : List RawContent :=
  (lines.zipIdx.map fun entry => lineContent file mtimeMs entry.2 entry.1).reduceOption

end Jsonl

/-! ### Texts with headings -/

structure LegacyLog where
  content : List RawContent
  role : Option TurnRole
  lines : List (List Char)
  messageIndex : Nat

def heading (line : List Char) : Option (TurnRole × List Char) :=
  if "user:".toList.isPrefixOf line then
    some (.user, (line.drop 5).dropWhile isWhiteSpace)
  else if "A:".toList.isPrefixOf line then
    some (.assistant, (line.drop 2).dropWhile isWhiteSpace)
  else none

def isAside (line : List Char) : Bool :=
  ["[Tool call]", "[Tool result]", "[Thinking]", "[tool]"].any fun marker =>
    marker.toList.isPrefixOf (line.dropWhile isWhiteSpace)

/-- `str::lines` -/
def linesFrom (current : List Char) : List Char → List (List Char)
  | [] => if current.isEmpty then [] else [current]
  | c :: rest =>
    if c = '\n' then
      (if current.getLast? = some '\r' then current.dropLast else current) :: linesFrom [] rest
    else linesFrom (current ++ [c]) rest

section Legacy

variable (file : TranscriptFile) (mtimeMs : Int)

def legacyTurn (messageIndex : Nat) (role : TurnRole) (lines : List (List Char)) :
    Option RawContent :=
  turn file mtimeMs file.session
    (file.session.getD "cursor" ++ ":legacy:" ++ toString messageIndex) role
    (String.ofList (cleanText (['\n'].intercalate lines) role))

def flushLegacyContent (log : LegacyLog) : LegacyLog :=
  log.role.elim { log with lines := [] } fun role =>
    (legacyTurn file mtimeMs log.messageIndex role log.lines).elim { log with lines := [] }
      fun content =>
        { log with
          content := log.content ++ [content]
          lines := []
          messageIndex := log.messageIndex + 1 }

def readLegacyLine (log : LegacyLog) (line : List Char) : LegacyLog :=
  (heading line).elim
    (if isAside line then log else { log with lines := log.lines ++ [line] })
    fun next =>
      { flushLegacyContent file mtimeMs log with role := some next.1, lines := [next.2] }

/-- The turns of `parse_legacy_transcript`. -/
def parseLegacyTranscript (text : List Char) : List RawContent :=
  (flushLegacyContent file mtimeMs
    ((linesFrom [] text).foldl (readLegacyLine file mtimeMs) ⟨[], none, [], 0⟩)).content

end Legacy

end Toard.Shim.CursorAgent
