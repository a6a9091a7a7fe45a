/-
**The tool calls of a Claude transcript (`collect/claude.rs`).**

A transcript is a file of JSON lines that only grows. An assistant's line holds calls, a user's line
the results of earlier ones; a call is `unknown` until its result is read.

* **`readLines_keeps`**: more lines keep each call as it is, unless the first block that mentions it
  is a result.
-/

import Toard.Library.Keyed
import Toard.Shim.ToolEvent

namespace Toard.Shim.Claude

open Toard.Json (Value)
open Toard.Library

/-! ### The values -/

def field (key : String) : Value → Option Value
  | .object entries => (entries.reverse.find? fun entry => entry.1 == key).map Prod.snd
  | _ => none

def asBool : Value → Option Bool
  | .bool flag => some flag
  | _ => none

/-- A number that is written as an integer of 64 bits without a sign. -/
def asU64 : Value → Option Nat
  | .number token =>
    if token.toList ≠ [] ∧ token.toList.all Char.isDigit ∧
        Nat.ofDigitChars 10 token.toList 0 < 2 ^ 64 then
      some (Nat.ofDigitChars 10 token.toList 0)
    else none
  | _ => none

def asArray : Value → Option (List Value)
  | .array items => some items
  | _ => none

def asObject : Value → Option Value
  | .object entries => some (.object entries)
  | _ => none

def stringField (key : String) (value : Value) : Option String :=
  (field key value).bind Value.asStr

def objectField (key : String) (value : Value) : Option Value :=
  (field key value).bind asObject

def count (key : String) (value : Value) : Nat :=
  ((field key value).bind asU64).getD 0

/-! ### The names of the tools -/

/-- `str::split_once` -/
def splitOnce (separator : List Char) : List Char → Option (List Char × List Char)
  | [] => none
  | c :: rest =>
    if separator.isPrefixOf (c :: rest) then some ([], (c :: rest).drop separator.length)
    else (splitOnce separator rest).map fun parts => (c :: parts.1, parts.2)

/-- `replace("__", ".")` -/
def dotted : List Char → List Char
  | '_' :: '_' :: rest => '.' :: dotted rest
  | c :: rest => c :: dotted rest
  | [] => []

def parseMcpName (name : String) : Option String :=
  if "mcp__".toList.isPrefixOf name.toList then
    match splitOnce "__".toList (name.toList.drop 5) with
    | none => none
    | some (server, tool) =>
      if server.isEmpty || tool.isEmpty then none
      else some (String.ofList (server ++ '.' :: dotted tool))
  else none

def skillIdentity (input : Value) : Option (String × Option String) := do
  let named ← match field "skill" input with
    | some named => some named
    | none => field "name" input
  let raw ← named.asStr
  let name := trim ((raw.toList.splitOn ':').getLastD [])
  if name.isEmpty then none
  else
    let plugin := ((splitOnce [':'] raw.toList).map fun parts => trim parts.1).filter fun owner =>
      !owner.isEmpty && owner != name
    some (String.ofList name, plugin.map String.ofList)

/-! ### The lines -/

inductive TranscriptLine where
  | blank
  | invalid
  | json (value : Value)

/-- The calls so far, and the places of those that wait for a result. -/
structure ToolLog where
  tools : List RawToolActivity
  pending : OrderedMap String Nat

def ToolLog.empty : ToolLog := ⟨[], .empty⟩

def activityOf (block : Value) (name : String) :
    Option (ToolActivityKind × String × Option String) :=
  match parseMcpName name with
  | some itemKey => some (.mcp, itemKey, none)
  | none =>
    if name == "Skill" then
      ((field "input" block).bind skillIdentity).map fun identity =>
        (.skill, identity.1, identity.2)
    else none

def useBlock (project : Option LocalProject) (tsMs : Int) (sessionId : Option String)
    (log : ToolLog) (block : Value) : ToolLog :=
  if stringField "type" block != some "tool_use" then log
  else
    match stringField "id" block, stringField "name" block with
    | some callId, some name =>
      match activityOf block name with
      | none => log
      | some (kind, itemKey, pluginKey) =>
        { tools := log.tools ++
            [{ project, tsMs, sessionId, callId, kind, itemKey, pluginKey, outcome := .unknown,
               detection := .explicit }]
          pending := log.pending.set callId log.tools.length }
    | _, _ => log

def outcomeOf (block : Value) : ToolOutcome :=
  match (field "is_error" block).bind asBool with
  | some true => .failure
  | some false => .success
  | none => .unknown

def resultBlock (log : ToolLog) (block : Value) : ToolLog :=
  if stringField "type" block != some "tool_result" then log
  else
    match stringField "tool_use_id" block with
    | none => log
    | some callId =>
      match log.pending.get callId with
      | none => log
      | some index =>
        { tools := log.tools.modify index fun call => { call with outcome := outcomeOf block }
          pending := log.pending.delete callId }

def blocksOf (role : String) (value : Value) : List Value :=
  if stringField "type" value == some role then
    (((field "message" value).bind asObject).bind fun message =>
      (field "content" message).bind asArray).getD []
  else []

section Parse

-- The project of a directory, and the time of the file.
variable (projectOf : String → Option LocalProject) (fallback : Int)

def readLine (log : ToolLog) : TranscriptLine → ToolLog
  | .json value =>
    let project := (stringField "cwd" value).bind projectOf
    let tsMs := ((stringField "timestamp" value).bind isoToEpochMs).getD fallback
    let log := (blocksOf "assistant" value).foldl
      (useBlock project tsMs (stringField "sessionId" value)) log
    (blocksOf "user" value).foldl resultBlock log
  | _ => log

def readLines (log : ToolLog) (lines : List TranscriptLine) : ToolLog :=
  lines.foldl (readLine projectOf fallback) log

/-- The tools of `parse_transcript_all`. -/
def parseTools (lines : List TranscriptLine) : List RawToolActivity :=
  (readLines projectOf fallback .empty lines).tools

end Parse

def TranscriptLine.value : TranscriptLine → Option Value
  | .json value => some value
  | _ => none

def TranscriptLine.isBlank : TranscriptLine → Bool
  | .blank => true
  | _ => false

def TranscriptLine.object : TranscriptLine → Option Value
  | .json value => asObject value
  | _ => none

/-- Whether `ParsedLog::source_error` is set. -/
def hasError (lines : List TranscriptLine) : Bool :=
  lines.any fun
    | .invalid => true
    | _ => false

/-! ### The blocks of a transcript -/

def callOf (block : Value) : Option (String × ToolActivityKind × String × Option String) :=
  if stringField "type" block != some "tool_use" then none
  else
    match stringField "id" block, stringField "name" block with
    | some callId, some name => (activityOf block name).map fun activity => (callId, activity)
    | _, _ => none

/-- The call that a block of a user's line answers, and the outcome that it tells. -/
def answerOf (block : Value) : Option (String × ToolOutcome) :=
  if stringField "type" block != some "tool_result" then none
  else (stringField "tool_use_id" block).map fun callId => (callId, outcomeOf block)

theorem useBlock_none {project : Option LocalProject} {tsMs : Int} {sessionId : Option String}
    {block : Value} (other : callOf block = none) (log : ToolLog) :
    useBlock project tsMs sessionId log block = log := by
  unfold callOf at other
  unfold useBlock
  split at other
  case isTrue untyped => rw [if_pos untyped]
  case isFalse typed =>
    rw [if_neg typed]
    split at other
    case h_1 callId name isId isName =>
      rw [Option.map_eq_none_iff] at other
      simp only [other]
    case h_2 => rfl

theorem useBlock_some {project : Option LocalProject} {tsMs : Int} {sessionId : Option String}
    {block : Value} {callId : String} {kind : ToolActivityKind} {itemKey : String}
    {pluginKey : Option String} (call : callOf block = some (callId, kind, itemKey, pluginKey))
    (log : ToolLog) :
    useBlock project tsMs sessionId log block =
      { tools := log.tools ++
          [{ project, tsMs, sessionId, callId, kind, itemKey, pluginKey, outcome := .unknown,
             detection := .explicit }]
        pending := log.pending.set callId log.tools.length } := by
  unfold callOf at call
  unfold useBlock
  split at call
  case isTrue => cases call
  case isFalse typed =>
    rw [if_neg typed]
    split at call
    case h_1 callId' name isId isName =>
      obtain ⟨activity, isActivity, same⟩ := Option.map_eq_some_iff.mp call
      cases same
      simp only [isActivity]
    case h_2 => cases call

theorem resultBlock_none {block : Value} (other : answerOf block = none) (log : ToolLog) :
    resultBlock log block = log := by
  unfold answerOf at other
  unfold resultBlock
  split at other
  case isTrue untyped => rw [if_pos untyped]
  case isFalse typed =>
    rw [Option.map_eq_none_iff] at other
    simp only [if_neg typed, other]

theorem resultBlock_some {block : Value} {callId : String} {outcome : ToolOutcome}
    (answer : answerOf block = some (callId, outcome)) (log : ToolLog) :
    resultBlock log block =
      match log.pending.get callId with
      | none => log
      | some index =>
        { tools := log.tools.modify index fun call => { call with outcome }
          pending := log.pending.delete callId } := by
  unfold answerOf at answer
  unfold resultBlock
  split at answer
  case isTrue => cases answer
  case isFalse typed =>
    obtain ⟨id, isId, same⟩ := Option.map_eq_some_iff.mp answer
    cases same
    simp only [if_neg typed, isId]

inductive Block where
  | use (line block : Value)
  | result (block : Value)

def lineBlocks : TranscriptLine → List Block
  | .json value =>
    (blocksOf "assistant" value).map (.use value) ++ (blocksOf "user" value).map .result
  | _ => []

section Blocks

variable (projectOf : String → Option LocalProject) (fallback : Int)

def readBlock (log : ToolLog) : Block → ToolLog
  | .use line block =>
    useBlock ((stringField "cwd" line).bind projectOf)
      (((stringField "timestamp" line).bind isoToEpochMs).getD fallback)
      (stringField "sessionId" line) log block
  | .result block => resultBlock log block

theorem readLine_eq (log : ToolLog) (line : TranscriptLine) :
    readLine projectOf fallback log line
      = (lineBlocks line).foldl (readBlock projectOf fallback) log := by
  cases line with
  | json value =>
    rw [lineBlocks, List.foldl_append, List.foldl_map, List.foldl_map]
    rfl
  | blank => rfl
  | invalid => rfl

/-- **The transcript as one list of blocks.** -/
theorem readLines_eq (log : ToolLog) (lines : List TranscriptLine) :
    readLines projectOf fallback log lines
      = (lines.flatMap lineBlocks).foldl (readBlock projectOf fallback) log := by
  rw [readLines, List.foldl_flatMap]
  refine List.foldl_ext _ _ _ fun log line _ => ?_
  exact readLine_eq projectOf fallback log line

theorem readLines_append (log : ToolLog) (lines more : List TranscriptLine) :
    readLines projectOf fallback log (lines ++ more)
      = readLines projectOf fallback (readLines projectOf fallback log lines) more :=
  List.foldl_append

/-! ### The time of the file -/

def untimed (call : RawToolActivity) : RawToolActivity := { call with tsMs := 0 }

def timeless (log : ToolLog) : ToolLog := { log with tools := log.tools.map untimed }

theorem timeless_readBlock (fallback' : Int) {log log' : ToolLog}
    (same : timeless log = timeless log') (block : Block) :
    timeless (readBlock projectOf fallback log block)
      = timeless (readBlock projectOf fallback' log' block) := by
  have tools := congrArg ToolLog.tools same
  change log.tools.map untimed = log'.tools.map untimed at tools
  have pending := congrArg ToolLog.pending same
  change log.pending = log'.pending at pending
  have lengths := congrArg List.length tools
  rw [List.length_map, List.length_map] at lengths
  cases block with
  | use line block =>
    cases call : callOf block with
    | none =>
      rw [readBlock, readBlock, useBlock_none call, useBlock_none call]
      exact same
    | some activity =>
      obtain ⟨callId, kind, itemKey, pluginKey⟩ := activity
      rw [readBlock, readBlock, useBlock_some call, useBlock_some call, timeless, timeless,
        List.map_append, List.map_append, pending, lengths, tools]
      rfl
  | result block =>
    cases answer : answerOf block with
    | none =>
      rw [readBlock, readBlock, resultBlock_none answer, resultBlock_none answer]
      exact same
    | some told =>
      obtain ⟨callId, outcome⟩ := told
      rw [readBlock, readBlock, resultBlock_some answer, resultBlock_some answer, pending]
      cases log'.pending.get callId with
      | none => exact same
      | some index =>
        have modified (tools : List RawToolActivity) :
            (tools.modify index fun call => { call with outcome }).map untimed
              = (tools.map untimed).modify index fun call => { call with outcome } := by
          apply List.ext_getElem?
          intro place
          simp only [List.getElem?_map, List.getElem?_modify]
          split <;> cases tools[place]? <;> rfl
        dsimp only [timeless]
        rw [modified, modified, tools]

/-- **The time of the file is only in the times of the calls.** -/
theorem timeless_readLines (fallback' : Int) {log log' : ToolLog}
    (same : timeless log = timeless log') (lines : List TranscriptLine) :
    timeless (readLines projectOf fallback log lines)
      = timeless (readLines projectOf fallback' log' lines) := by
  rw [readLines_eq, readLines_eq]
  generalize lines.flatMap lineBlocks = blocks
  induction blocks generalizing log log' with
  | nil => exact same
  | cons block blocks ih =>
    rw [List.foldl_cons, List.foldl_cons]
    exact ih (timeless_readBlock projectOf fallback fallback' same block)

/-! ### More lines -/

/-- The calls that wait are in the log, under their ids, without an outcome. -/
def ToolLog.Sound (log : ToolLog) : Prop :=
  ∀ callId index, log.pending.get callId = some index →
    ∃ call, log.tools[index]? = some call ∧ call.callId = callId ∧ call.outcome = .unknown

inductive Mention where
  | call
  | result (outcome : ToolOutcome)

def mention (callId : String) : Block → Option Mention
  | .use _ block => ((callOf block).filter fun call => call.1 = callId).map fun _ => .call
  | .result block =>
    ((answerOf block).filter fun answer => answer.1 = callId).map fun answer => .result answer.2

def firstMention (callId : String) (lines : List TranscriptLine) : Option Mention :=
  (lines.flatMap lineBlocks).findSome? (mention callId)

theorem sound_empty : ToolLog.empty.Sound := nofun

theorem sound_readBlock {log : ToolLog} (sound : log.Sound) (block : Block) :
    (readBlock projectOf fallback log block).Sound := by
  cases block with
  | use line block =>
    cases isCall : callOf block with
    | none =>
      rw [readBlock, useBlock_none isCall]
      exact sound
    | some activity =>
      obtain ⟨callId, kind, itemKey, pluginKey⟩ := activity
      rw [readBlock, useBlock_some isCall]
      intro id index waits
      rw [OrderedMap.get_set] at waits
      split at waits
      case isTrue here =>
        cases waits
        exact ⟨_, List.getElem?_concat_length, here.symm, rfl⟩
      case isFalse =>
        obtain ⟨call, held, isId, open'⟩ := sound id index waits
        refine ⟨call, ?_, isId, open'⟩
        rw [List.getElem?_append_left (List.getElem?_eq_some_iff.mp held).1, held]
  | result block =>
    cases answer : answerOf block with
    | none =>
      rw [readBlock, resultBlock_none answer]
      exact sound
    | some told =>
      obtain ⟨callId, outcome⟩ := told
      rw [readBlock, resultBlock_some answer]
      cases place : log.pending.get callId with
      | none => exact sound
      | some index =>
        intro id other waits
        rw [OrderedMap.get_delete] at waits
        split at waits
        case isTrue => cases waits
        case isFalse apart =>
          obtain ⟨call, held, isId, open'⟩ := sound id other waits
          obtain ⟨answered, there, isCallId, -⟩ := sound callId index place
          have elsewhere : index ≠ other := by
            rintro rfl
            rw [there, Option.some_inj] at held
            exact apart (by rw [← isId, ← held, isCallId])
          exact ⟨call, (List.getElem?_modify_ne _ _ elsewhere).trans held, isId, open'⟩

theorem sound_readLines {log : ToolLog} (sound : log.Sound) (lines : List TranscriptLine) :
    (readLines projectOf fallback log lines).Sound := by
  rw [readLines_eq]
  generalize lines.flatMap lineBlocks = blocks
  induction blocks generalizing log with
  | nil => exact sound
  | cons block blocks ih => exact ih (sound_readBlock projectOf fallback sound block)

theorem readBlock_keeps {log : ToolLog} (sound : log.Sound) {index : Nat} {call : RawToolActivity}
    (held : log.tools[index]? = some call) {block : Block}
    (quiet : log.pending.get call.callId = some index →
      ∀ outcome, mention call.callId block = some (.result outcome) → outcome = .unknown) :
    (readBlock projectOf fallback log block).tools[index]? = some call ∧
      ((readBlock projectOf fallback log block).pending.get call.callId = some index →
        log.pending.get call.callId = some index ∧ mention call.callId block = none) := by
  have inside := (List.getElem?_eq_some_iff.mp held).1
  cases block with
  | use line block =>
    cases isCall : callOf block with
    | none =>
      rw [readBlock, useBlock_none isCall]
      exact ⟨held, fun waits => ⟨waits, by rw [mention, isCall]; rfl⟩⟩
    | some activity =>
      obtain ⟨callId, kind, itemKey, pluginKey⟩ := activity
      rw [readBlock, useBlock_some isCall]
      refine ⟨by rw [List.getElem?_append_left inside, held], fun waits => ?_⟩
      rw [OrderedMap.get_set] at waits
      split at waits
      case isTrue =>
        cases waits
        exact absurd inside (lt_irrefl _)
      case isFalse apart =>
        refine ⟨waits, ?_⟩
        rw [mention, isCall, Option.filter_some, if_neg (by simpa using Ne.symm apart)]
        rfl
  | result block =>
    cases answer : answerOf block with
    | none =>
      rw [readBlock, resultBlock_none answer]
      exact ⟨held, fun waits => ⟨waits, by rw [mention, answer]; rfl⟩⟩
    | some told =>
      obtain ⟨callId, outcome⟩ := told
      rw [readBlock, resultBlock_some answer]
      have other (apart : call.callId ≠ callId) : mention call.callId (.result block) = none := by
        rw [mention, answer, Option.filter_some, if_neg (by simpa using Ne.symm apart)]
        rfl
      cases place : log.pending.get callId with
      | none =>
        refine ⟨held, fun waits => ⟨waits, other ?_⟩⟩
        rintro rfl
        rw [place] at waits
        cases waits
      | some answered =>
        obtain ⟨call', there, isCallId, open'⟩ := sound callId answered place
        constructor
        · by_cases here : answered = index
          · subst here
            obtain rfl : call' = call := Option.some_inj.mp (there.symm.trans held)
            have unknown := quiet (by rw [isCallId, place]) outcome (by
              rw [mention, answer, isCallId, Option.filter_some, if_pos (by simp)]
              rfl)
            refine (List.getElem?_modify_eq _ _ _).trans ?_
            rw [held, unknown, ← open']
            rfl
          · exact (List.getElem?_modify_ne _ _ here).trans held
        · intro waits
          rw [OrderedMap.get_delete] at waits
          split at waits
          case isTrue => cases waits
          case isFalse apart => exact ⟨waits, other apart⟩

/-- **More lines keep a call as it is**, unless it waits for a result and the first block that
mentions it is one. -/
theorem readLines_keeps {log : ToolLog} (sound : log.Sound) {index : Nat} {call : RawToolActivity}
    (held : log.tools[index]? = some call) {more : List TranscriptLine}
    (quiet : log.pending.get call.callId = some index →
      ∀ outcome, firstMention call.callId more = some (.result outcome) → outcome = .unknown) :
    (readLines projectOf fallback log more).tools[index]? = some call := by
  rw [readLines_eq]
  unfold firstMention at quiet
  generalize more.flatMap lineBlocks = blocks at quiet ⊢
  induction blocks generalizing log with
  | nil => exact held
  | cons block blocks ih =>
    rw [List.foldl_cons]
    obtain ⟨kept, still⟩ := @readBlock_keeps projectOf fallback log sound index call held block
      fun waits outcome told => quiet waits outcome (by rw [List.findSome?_cons, told])
    refine ih (sound_readBlock projectOf fallback sound block) kept fun waits outcome told => ?_
    obtain ⟨waited, silent⟩ := still waits
    exact quiet waited outcome (by rw [List.findSome?_cons, silent, told])

end Blocks

end Toard.Shim.Claude
