/-
**The usage in a session of Gemini (`collect/gemini.rs`).**

A session is one JSON document, or a file of JSON lines in which a line may replace an earlier one
of the same id.

* **`mem_parseLog`**: the usage of a session is what its lines made and no later line replaced.
-/

import Mathlib.Data.Rat.Floor
import Toard.Library.Indexed
import Toard.Shim.GeminiTokens
import Toard.Shim.Transcript

namespace Toard.Shim.Gemini

open Toard.Json (Value)
open Toard.Library (Indexed)
open Toard.Shim.Claude (TranscriptLine field stringField asArray asObject)

/-! ### The records -/

def nonEmptyJsonString (value : Option Value) : Option String :=
  (value.bind Value.asStr).bind fun text =>
    if (trim text.toList).isEmpty then none else some (String.ofList (trim text.toList))

structure GeminiRecord where
  type : Option String
  sessionIdCamel : Option String
  sessionId : Option String
  model : Option String
  id : Option String
  timestamp : Option String
  createdAt : Option String
  startTime : Option String
  lastUpdated : Option String
  messages : Option Value
  tokens : Option Value
  stats : Option Value
  result : Option Value

/-- The value of a field, by its name in an object or by its place in an array. -/
def recordField (value : Value) (place : Nat) (key : String) : Option Value :=
  (asArray value).elim (field key value) fun items => items[place]?

def notNull (value : Option Value) : Option Value :=
  value.filter fun value => match value with
    | .null => false
    | _ => true

/-- `serde_json::from_value::<GeminiRecord>`: of an object, or of an array of all fields. -/
def readRecord (value : Value) : Option GeminiRecord :=
  if (asObject value).isSome || (asArray value).any fun items => items.length == 13 then
    let text := fun place key => (recordField value place key).bind Value.asStr
    let nonEmpty := fun place key => nonEmptyJsonString (recordField value place key)
    let raw := fun place key => notNull (recordField value place key)
    some {
      type := text 0 "type"
      sessionIdCamel := nonEmpty 1 "sessionId"
      sessionId := nonEmpty 2 "session_id"
      model := nonEmpty 3 "model"
      id := nonEmpty 4 "id"
      timestamp := text 5 "timestamp"
      createdAt := text 6 "created_at"
      startTime := text 7 "startTime"
      lastUpdated := text 8 "lastUpdated"
      messages := raw 9 "messages"
      tokens := raw 10 "tokens"
      stats := raw 11 "stats"
      result := raw 12 "result" }
  else none

namespace GeminiRecord

def session (record : GeminiRecord) : Option String := record.sessionIdCamel.or record.sessionId

def statistics (record : GeminiRecord) : Option Value :=
  record.stats.or (record.result.bind (field "stats"))

end GeminiRecord

section Records

-- What `serde_json` has for a number, which is always a finite float.
variable (asF64 : Value → Option ℚ)

def valueU64 (value : Option Value) : Option Nat :=
  (value.bind asF64).map fun number => min ⌊max number 0⌋.toNat (2 ^ 64 - 1)

def tokenNumber (record : Value) (keys : List String) : Nat :=
  (keys.findSome? fun key => valueU64 asF64 (field key record)).getD 0

def parseTokens (value : Option Value) : Option GeminiTokens :=
  (value.bind asObject).map fun record =>
    { input := tokenNumber asF64 record ["input", "prompt", "input_tokens", "prompt_tokens"]
      output := tokenNumber asF64 record
        ["output", "candidates", "output_tokens", "candidates_tokens"]
      cached := tokenNumber asF64 record ["cached", "cached_tokens"]
      thoughts := tokenNumber asF64 record
        ["thoughts", "reasoning", "thoughts_tokens", "reasoning_tokens"]
      tool := tokenNumber asF64 record ["tool", "tool_tokens"]
      total := valueU64 asF64 ((field "total" record).or (field "total_tokens" record)) }

def parseDirectEvent (record : Value) (sessionId : String) (fallbackTimestamp : Int) :
    Option RawUsage :=
  (parseTokens asF64 (field "tokens" record)).bind fun tokens =>
    buildEvent (nonEmptyJsonString (field "model" record)) sessionId
      ((((stringField "timestamp" record).bind isoToEpochMs).or
        ((stringField "created_at" record).bind isoToEpochMs)).getD fallbackTimestamp)
      tokens normalizeSessionInput (nonEmptyJsonString (field "id" record))

def parseDirectEventRecord (record : GeminiRecord) (modelHint : Option String) (sessionId : String)
    (fallbackTimestamp : Int) : Option RawUsage :=
  (parseTokens asF64 record.tokens).bind fun tokens =>
    buildEvent (record.model.or modelHint) sessionId
      (((record.timestamp.bind isoToEpochMs).or (record.createdAt.bind isoToEpochMs)).getD
        fallbackTimestamp)
      tokens normalizeSessionInput record.id

/-- The entries of a `Map` of `serde_json`, by their keys. -/
def mapEntries : Value → List (String × Value)
  | .object entries => ((entries.map Prod.fst).dedup.insertionSort (· ≤ ·)).filterMap fun key =>
      (field key (.object entries)).map fun value => (key, value)
  | _ => []

def modelEvents (models : Value) (sessionId : String) (tsMs : Int) : List RawUsage :=
  (mapEntries models).filterMap fun entry =>
    (asObject entry.2).bind fun data =>
      (parseTokens asF64 (field "tokens" data)).bind fun tokens =>
        buildEvent (some entry.1) sessionId tsMs tokens subtractCachedOverlapTokens none

def parseStatsEvents (stats : Option Value) (modelHint : Option String) (sessionId : String)
    (tsMs : Int) : List RawUsage :=
  (stats.bind asObject).elim [] fun stats =>
    let events := ((field "models" stats).bind asObject).elim [] fun models =>
      modelEvents asF64 models sessionId tsMs
    if !events.isEmpty then events
    else ((parseTokens asF64 (some stats)).bind fun tokens =>
      buildEvent (modelHint.or (some "unknown")) sessionId tsMs tokens subtractCachedOverlapTokens
        none).toList

end Records

/-! ### The lines -/

structure Context where
  sessionId : String
  currentModel : Option String
  project : Option LocalProject

/-- What a usage is replaced by: in lines, by one of the same id. Statistics have none. -/
def replacedBy (jsonl : Bool) (usage : RawUsage) : Option String :=
  if jsonl then usage.messageId else none

structure Session where
  context : Context
  usage : Indexed String RawUsage

def Session.start (fileStem : String) : Session := ⟨⟨fileStem, none, none⟩, .empty⟩

def recordOf (line : TranscriptLine) : Option (Value × GeminiRecord) :=
  line.value.bind fun value => (readRecord value).map fun record => (value, record)

/-- A line that is neither blank nor a record is counted as a parse error. -/
def isError (line : TranscriptLine) : Bool := !line.isBlank && (recordOf line).isNone

section Lines

variable (asF64 : Value → Option ℚ) (groupOf : String → Option LocalProject)

def Context.enter (context : Context) (value : Value) (record : GeminiRecord) : Context :=
  let named := record.session.elim context fun id =>
    { context with
      project := if id = context.sessionId then context.project else none
      sessionId := id }
  { named with
    project := (field "projectHash" value).elim named.project fun hash => hash.asStr.bind groupOf
    currentModel := record.model.or named.currentModel }

def messageEvents (messages : List Value) (sessionId : String) (fallbackTimestamp : Int) :
    List RawUsage :=
  ((messages.filterMap asObject).filter fun message =>
    stringField "type" message == some "gemini").filterMap fun message =>
      parseDirectEvent asF64 message sessionId fallbackTimestamp

def recordEvents (jsonl : Bool) (mtimeMs : Int) (context : Context) (record : GeminiRecord) :
    List RawUsage :=
  if record.type = some "gemini" then
    (parseDirectEventRecord asF64 record (if jsonl then context.currentModel else none)
      context.sessionId mtimeMs).toList
  else parseStatsEvents asF64 record.statistics context.currentModel context.sessionId
    ((record.timestamp.bind isoToEpochMs).getD mtimeMs)

def eventsOf (jsonl : Bool) (mtimeMs : Int) (context : Context) (record : GeminiRecord) :
    List RawUsage :=
  let sessionTimestamp := ((record.startTime.bind isoToEpochMs).or
    (record.lastUpdated.bind isoToEpochMs)).getD mtimeMs
  let events := (if jsonl then none else record.messages.bind asArray).elim
    (recordEvents asF64 jsonl mtimeMs context record) fun messages =>
      messageEvents asF64 messages context.sessionId sessionTimestamp
  events.map fun event => { event with project := context.project }

def readChunk (jsonl : Bool) (mtimeMs : Int) (session : Session) (line : TranscriptLine) : Session :=
  (recordOf line).elim session fun entry =>
    let context := session.context.enter groupOf entry.1 entry.2
    { context := context
      usage := session.usage.putAll (replacedBy jsonl)
        (eventsOf asF64 jsonl mtimeMs context entry.2) }

/-- The usage of `parse_log`: of the lines of a file, or of the one document in it. -/
def parseLog (jsonl : Bool) (fileStem : String) (mtimeMs : Int) (lines : List TranscriptLine) :
    List RawUsage :=
  (lines.foldl (readChunk asF64 groupOf jsonl mtimeMs) (.start fileStem)).usage.items

end Lines

/-! ### What the lines make -/

section Made

variable (asF64 : Value → Option ℚ) (groupOf : String → Option LocalProject)

def Context.after (context : Context) (line : TranscriptLine) : Context :=
  (recordOf line).elim context fun entry => context.enter groupOf entry.1 entry.2

def made (jsonl : Bool) (mtimeMs : Int) : Context → List TranscriptLine → List RawUsage
  | _, [] => []
  | context, line :: rest =>
    (recordOf line).elim [] (fun entry =>
      eventsOf asF64 jsonl mtimeMs (context.after groupOf line) entry.2) ++
      made jsonl mtimeMs (context.after groupOf line) rest

variable {asF64 groupOf}

theorem usage_readChunk (jsonl : Bool) (mtimeMs : Int) (session : Session)
    (lines : List TranscriptLine) :
    (lines.foldl (readChunk asF64 groupOf jsonl mtimeMs) session).usage
      = session.usage.putAll (replacedBy jsonl)
          (made asF64 groupOf jsonl mtimeMs session.context lines) := by
  induction lines generalizing session with
  | nil => rfl
  | cons line rest ih =>
    rw [List.foldl_cons, ih, made]
    cases isRecord : recordOf line with
    | none =>
      have same : session.context.after groupOf line = session.context := by
        rw [Context.after, isRecord, Option.elim_none]
      rw [readChunk, isRecord, Option.elim_none, Option.elim_none, List.nil_append, same]
    | some entry =>
      have next : session.context.after groupOf line = session.context.enter groupOf entry.1 entry.2 := by
        rw [Context.after, isRecord, Option.elim_some]
      rw [readChunk, isRecord, Option.elim_some, Option.elim_some, next, Indexed.putAll_append]

/-- **The usage of a session** is what its lines made and no later line replaced. -/
theorem mem_parseLog {jsonl : Bool} {fileStem : String} {mtimeMs : Int}
    {lines : List TranscriptLine} {usage : RawUsage} :
    usage ∈ parseLog asF64 groupOf jsonl fileStem mtimeMs lines ↔
      Indexed.Latest (replacedBy jsonl)
        (made asF64 groupOf jsonl mtimeMs (Session.start fileStem).context lines) usage := by
  rw [parseLog, usage_readChunk]
  exact Indexed.mem_putAll.2 usage

end Made

end Toard.Shim.Gemini
