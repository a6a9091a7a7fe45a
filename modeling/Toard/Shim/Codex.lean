/-
**The usage in a rollout of Codex (`collect/codex.rs`).**

A rollout is a file of JSON lines. What a turn used stands in a `token_count`, with the total of the
session so far; the model and the session stand in lines before it. A rollout of a fork starts with
the rollout it was forked from, whose usage is told apart in the end.

* **`state_readLines`**: what the parser has of some lines is what stands in them; it makes a
  record of each `token_count` that is `billed`.
-/

import Toard.Shim.Transcript

namespace Toard.Shim.Codex

open Toard.Json (Value)
open Toard.Shim.Claude (TranscriptLine field objectField stringField count asObject)

/-! ### The parser -/

/-- The state of `parse_rollout_all`, as far as it is about usage. -/
structure Rollout where
  project : Option LocalProject
  metadataCount : Nat
  sessionId : Option String
  model : Option String
  lastSeenTotal : Option (Nat × Nat)
  firstSessionId : Option String
  sourceIsSubagent : Bool
  sawForeignSession : Bool
  firstLiveForkTask : Option Nat
  firstInterAgentMarker : Option Nat
  positionedUsage : List (Nat × RawUsage)
  /-- The operands of the additions of token counts, of which the source asks no check. -/
  additions : List (Nat × Nat)

def Rollout.empty : Rollout where
  project := none
  metadataCount := 0
  sessionId := none
  model := none
  lastSeenTotal := none
  firstSessionId := none
  sourceIsSubagent := false
  sawForeignSession := false
  firstLiveForkTask := none
  firstInterAgentMarker := none
  positionedUsage := []
  additions := []

/-- The counts of a `last_token_usage`. -/
structure LastUsage where
  inputTokens : Nat
  cachedInputTokens : Nat
  outputTokens : Nat
deriving DecidableEq

namespace LastUsage

def read (last : Value) : LastUsage where
  inputTokens := count "input_tokens" last
  cachedInputTokens := count "cached_input_tokens" last
  outputTokens := count "output_tokens" last

/-- The tokens that were not in the cache; the subtraction saturates. -/
def fresh (last : LastUsage) : Nat := last.inputTokens - last.cachedInputTokens

def additions (last : LastUsage) : List (Nat × Nat) :=
  [(last.fresh, last.outputTokens),
   ((last.fresh + last.outputTokens) % 2 ^ 64, last.cachedInputTokens)]

def sum (last : LastUsage) : Nat :=
  ((last.fresh + last.outputTokens) % 2 ^ 64 + last.cachedInputTokens) % 2 ^ 64

def record (last : LastUsage) (project : Option LocalProject) (tsMs : Int)
    (sessionId : Option String) (model : String) : RawUsage where
  project := project
  tsMs := tsMs
  sessionId := sessionId
  model := some model
  messageId := none
  inputTokens := last.fresh
  outputTokens := last.outputTokens
  cacheReadTokens := last.cachedInputTokens
  cacheCreationTokens := 0
  cacheCreation1hTokens := 0

end LastUsage

def readTotal (total : Value) : Nat × Nat := (count "input_tokens" total, count "output_tokens" total)

section Lines

-- The project of a directory, and the time of the file.
variable (projectOf : String → Option LocalProject) (fallback : Int)

def sessionMeta (log : Rollout) (payload : Option Value) : Rollout :=
  let next := payload.bind (stringField "session_id")
  let isFirst := log.firstSessionId.isNone
  { log with
    metadataCount := log.metadataCount + 1
    project := (payload.bind (stringField "cwd")).bind projectOf
    firstSessionId := if isFirst then next else log.firstSessionId
    sourceIsSubagent := if isFirst then
        (payload.bind (objectField "source")).any fun source => (field "subagent" source).isSome
      else log.sourceIsSubagent
    -- A resumed session copies the whole record of another one behind its own first line.
    sawForeignSession := log.sawForeignSession || (!isFirst && next != log.firstSessionId)
    sessionId := next }

def turnContext (log : Rollout) (payload : Option Value) : Rollout :=
  { log with
    project := (payload.bind (field "cwd")).elim log.project fun cwd => cwd.asStr.bind projectOf
    model := (payload.bind (stringField "model")).or log.model }

def taskStarted (log : Rollout) (index : Nat) (item : Value) : Rollout :=
  if log.sawForeignSession && !log.sourceIsSubagent && log.firstLiveForkTask.isNone &&
      ((stringField "turn_id" item).any fun turnId =>
        log.firstSessionId.any fun current => decide (current ≤ turnId)) then
    { log with firstLiveForkTask := some index }
  else log

/-- A `last_token_usage` that is billed. -/
def bill (log : Rollout) (index : Nat) (tsMs : Int) (model : String) (last : LastUsage) : Rollout :=
  { log with
    additions := log.additions ++ last.additions
    positionedUsage := if 0 < last.sum then
        log.positionedUsage ++ [(index, last.record log.project tsMs log.sessionId model)]
      else log.positionedUsage }

def tokenCount (log : Rollout) (index : Nat) (tsMs : Int) (item : Value) : Rollout :=
  (objectField "info" item).elim log fun info =>
    -- Before the first model, a rollout repeats the usage of the session it came from.
    (log.model.filter fun model => model != "").elim log fun model =>
      let current := (objectField "total_token_usage" info).map readTotal
      if current.isSome && log.lastSeenTotal == current then log
      else
        let seen := { log with lastSeenTotal := current.or log.lastSeenTotal }
        (objectField "last_token_usage" info).elim seen fun last =>
          bill seen index tsMs model (.read last)

def readLine (log : Rollout) (index : Nat) (line : TranscriptLine) : Rollout :=
  line.object.elim log fun value =>
    let ty := stringField "type" value
    let payload := objectField "payload" value
    let tsMs := ((stringField "timestamp" value).bind isoToEpochMs).getD fallback
    if ty == some "session_meta" then sessionMeta projectOf log payload
    else if ty == some "inter_agent_communication_metadata" then
      { log with firstInterAgentMarker := log.firstInterAgentMarker.or (some index) }
    else if ty == some "turn_context" then turnContext projectOf log payload
    else if ty == some "event_msg" then
      payload.elim log fun item =>
        if stringField "type" item == some "task_started" then taskStarted log index item
        else if stringField "type" item == some "token_count" then tokenCount log index tsMs item
        else log
    else log

def readLines (lines : List TranscriptLine) : Rollout :=
  lines.zipIdx.foldl (fun log entry => readLine projectOf fallback log entry.2 entry.1) .empty

structure ParsedUsage where
  usage : List RawUsage
  replayedUsage : List RawUsage

def Rollout.replayCutoff (log : Rollout) : Option Nat :=
  if log.sourceIsSubagent then log.firstInterAgentMarker
  else if log.sawForeignSession then log.firstLiveForkTask
  else none

def Rollout.owned (log : Rollout) (usage : RawUsage) : RawUsage :=
  if 1 < log.metadataCount then { usage with project := none } else usage

def Rollout.isReplayed (log : Rollout) (entry : Nat × RawUsage) : Bool :=
  log.replayCutoff.any fun cutoff => decide (entry.1 < cutoff)

/-- The usage of `parse_rollout_all`. -/
def parseRollout (lines : List TranscriptLine) : ParsedUsage :=
  let log := readLines projectOf fallback lines
  { usage := (log.positionedUsage.filter fun entry => !log.isReplayed entry).map
      fun entry => log.owned entry.2
    replayedUsage := (log.positionedUsage.filter log.isReplayed).map fun entry => log.owned entry.2 }

end Lines

/-! ### What stands in the lines -/

/-- What a `token_count` reports. -/
structure Report where
  total : Option (Nat × Nat)
  last : Option LastUsage
deriving DecidableEq

/-- The item of an `event_msg` of a type. -/
def eventItem (type : String) (line : TranscriptLine) : Option Value :=
  line.object.bind fun value =>
    if stringField "type" value == some "event_msg" then
      (objectField "payload" value).filter fun item => stringField "type" item == some type
    else none

def reportOf (line : TranscriptLine) : Option Report :=
  ((eventItem "token_count" line).bind (objectField "info")).map fun info =>
    ⟨(objectField "total_token_usage" info).map readTotal,
      (objectField "last_token_usage" info).map .read⟩

/-- The model that a `turn_context` names. -/
def modelOf (line : TranscriptLine) : Option String :=
  line.object.bind fun value =>
    if stringField "type" value == some "turn_context" then
      (objectField "payload" value).bind (stringField "model")
    else none

def lastModel (earlier : List TranscriptLine) : Option String := earlier.findSome? modelOf

def inForce (earlier : List TranscriptLine) : Option String :=
  (lastModel earlier).filter fun model => model != ""

/-- The total that was seen last in some lines, the latest one first. -/
def lastTotal : List TranscriptLine → Option (Nat × Nat)
  | [] => none
  | line :: earlier =>
    (if (inForce earlier).isSome then (reportOf line).bind Report.total else none).or
      (lastTotal earlier)

/-- The usage of a `token_count` that is billed: a model is in force, and its total is not the one
that was seen last. -/
def billed (earlier : List TranscriptLine) (line : TranscriptLine) : Option LastUsage :=
  (inForce earlier).bind fun _ => (reportOf line).bind fun report =>
    if report.total.isSome && lastTotal earlier == report.total then none else report.last

def allBilled : List TranscriptLine → List LastUsage
  | [] => []
  | line :: earlier => allBilled earlier ++ (billed earlier line).toList

section Reading

variable {projectOf : String → Option LocalProject} {fallback : Int}

theorem readLines_concat (lines : List TranscriptLine) (line : TranscriptLine) :
    readLines projectOf fallback (lines ++ [line])
      = readLine projectOf fallback (readLines projectOf fallback lines) lines.length line := by
  simp [readLines, List.zipIdx_append, List.foldl_append]

/-- What a line bills, from what the parser has of the lines before. -/
def Rollout.bills (log : Rollout) (report : Option Report) : Option LastUsage :=
  (log.model.filter fun model => model != "").bind fun _ => report.bind fun report =>
    if report.total.isSome && log.lastSeenTotal == report.total then none else report.last

def tally (usage : RawUsage) : Nat × Nat :=
  (usage.inputTokens + usage.cacheReadTokens, usage.outputTokens)

def LastUsage.tally (last : LastUsage) : Nat × Nat :=
  (last.fresh + last.cachedInputTokens, last.outputTokens)

structure Steps (log after : Rollout) (model : Option String) (report : Option Report) : Prop where
  model : after.model = model.or log.model
  total : after.lastSeenTotal = (if (log.model.filter fun model => model != "").isSome then
      report.bind Report.total else none).or log.lastSeenTotal
  additions : after.additions
    = log.additions ++ (log.bills report).toList.flatMap LastUsage.additions
  usage : after.positionedUsage.map (fun entry => tally entry.2)
    = log.positionedUsage.map (fun entry => tally entry.2) ++
      ((log.bills report).toList.filter fun last => 0 < last.sum).map LastUsage.tally

theorem Steps.aside {log after : Rollout} {named : Option String}
    (model : after.model = named.or log.model)
    (total : after.lastSeenTotal = log.lastSeenTotal) (additions : after.additions = log.additions)
    (usage : after.positionedUsage = log.positionedUsage) : Steps log after named none where
  model := model
  total := by
    rw [total]
    cases (log.model.filter fun model => model != "").isSome <;> rfl
  additions := by
    rw [additions]
    cases isForce : log.model.filter fun model => model != "" <;> simp [Rollout.bills, isForce]
  usage := by
    rw [usage]
    cases isForce : log.model.filter fun model => model != "" <;> simp [Rollout.bills, isForce]

theorem steps_bill (seen : Rollout) (index : Nat) (tsMs : Int) (model : String)
    (last : LastUsage) : (bill seen index tsMs model last).model = seen.model ∧
      (bill seen index tsMs model last).lastSeenTotal = seen.lastSeenTotal ∧
      (bill seen index tsMs model last).additions = seen.additions ++ last.additions ∧
      (bill seen index tsMs model last).positionedUsage.map (fun entry => tally entry.2)
        = seen.positionedUsage.map (fun entry => tally entry.2) ++
          (if 0 < last.sum then [last.tally] else []) := by
  refine ⟨rfl, rfl, rfl, ?_⟩
  simp only [bill]
  split
  · rw [List.map_append]
    rfl
  · rw [List.append_nil]

theorem steps_tokenCount (log : Rollout) (index : Nat) (tsMs : Int) (item : Value) :
    Steps log (tokenCount log index tsMs item) none ((objectField "info" item).map fun info =>
      ⟨(objectField "total_token_usage" info).map readTotal,
        (objectField "last_token_usage" info).map .read⟩) := by
  cases isInfo : objectField "info" item with
  | none =>
    have same : tokenCount log index tsMs item = log := by rw [tokenCount, isInfo]; rfl
    rw [same]
    exact .aside rfl rfl rfl rfl
  | some info =>
    obtain ⟨current, isCurrent⟩ :
        ∃ current, current = (objectField "total_token_usage" info).map readTotal := ⟨_, rfl⟩
    rw [Option.map_some, ← isCurrent]
    cases isForce : log.model.filter fun model => model != "" with
    | none =>
      have same : tokenCount log index tsMs item = log := by
        rw [tokenCount, isInfo, Option.elim_some, isForce]
        rfl
      rw [same]
      exact ⟨by simp, by simp [isForce], by simp [Rollout.bills, isForce],
        by simp [Rollout.bills, isForce]⟩
    | some model =>
      have counted : tokenCount log index tsMs item
          = if current.isSome && log.lastSeenTotal == current then log
            else (objectField "last_token_usage" info).elim
              { log with lastSeenTotal := current.or log.lastSeenTotal } fun last =>
                bill { log with lastSeenTotal := current.or log.lastSeenTotal } index tsMs model
                  (.read last) := by
        rw [tokenCount, isInfo, Option.elim_some, isForce, Option.elim_some, ← isCurrent]
      rw [counted]
      by_cases again : (current.isSome && log.lastSeenTotal == current) = true
      · have same : log.lastSeenTotal = current := by
          simpa using (Bool.and_eq_true_iff.mp again).2
        have nothing (last : Option LastUsage) : log.bills (some ⟨current, last⟩) = none := by
          rw [Rollout.bills, isForce, Option.bind_some, Option.bind_some, if_pos again]
        rw [if_pos again]
        refine ⟨by simp, ?_, by simp [nothing], by simp [nothing]⟩
        rw [isForce, same]
        cases current <;> rfl
      · rw [if_neg again]
        cases isLast : objectField "last_token_usage" info with
        | none =>
          exact ⟨by simp, by simp [isForce], by simp [Rollout.bills, isForce],
            by simp [Rollout.bills, isForce]⟩
        | some last =>
          obtain ⟨sameModel, total, additions, usage⟩ :=
            steps_bill { log with lastSeenTotal := current.or log.lastSeenTotal } index tsMs model
              (.read last)
          have bills : log.bills (some ⟨current, some (.read last)⟩) = some (.read last) := by
            rw [Rollout.bills, isForce, Option.bind_some, Option.bind_some, if_neg again]
          rw [Option.elim_some, Option.map_some]
          refine ⟨sameModel, ?_, ?_, ?_⟩
          · rw [total, isForce]
            rfl
          · rw [additions, bills]
            simp
          · rw [usage, bills]
            by_cases counts : 0 < (LastUsage.read last).sum <;> simp [counts]

theorem steps_taskStarted (log : Rollout) (index : Nat) (item : Value) :
    Steps log (taskStarted log index item) none none := by
  unfold taskStarted
  split
  · exact .aside rfl rfl rfl rfl
  · exact .aside rfl rfl rfl rfl

/-- **One line**: only a `turn_context` names a model, and only a `token_count` is billed. -/
theorem steps_readLine (projectOf : String → Option LocalProject) (fallback : Int) (log : Rollout)
    (index : Nat) (line : TranscriptLine) :
    Steps log (readLine projectOf fallback log index line) (modelOf line) (reportOf line) := by
  cases isObject : line.object with
  | none =>
    rw [readLine, modelOf, reportOf, eventItem, isObject]
    exact .aside rfl rfl rfl rfl
  | some value =>
    obtain ⟨ty, isType⟩ : ∃ ty, stringField "type" value = ty := ⟨_, rfl⟩
    simp only [readLine, modelOf, reportOf, eventItem, isObject, Option.elim_some, Option.bind_some,
      isType, beq_iff_eq]
    by_cases isMeta : ty = some "session_meta"
    · subst isMeta
      exact .aside rfl rfl rfl rfl
    rw [if_neg isMeta]
    by_cases isMarker : ty = some "inter_agent_communication_metadata"
    · subst isMarker
      exact .aside rfl rfl rfl rfl
    rw [if_neg isMarker]
    by_cases isContext : ty = some "turn_context"
    · subst isContext
      have other : some "turn_context" ≠ some "event_msg" := by decide
      rw [if_pos rfl, if_pos rfl, if_neg other]
      exact .aside rfl rfl rfl rfl
    rw [if_neg isContext, if_neg isContext]
    by_cases isEvent : ty = some "event_msg"
    · rw [if_pos isEvent, if_pos isEvent]
      cases isItem : objectField "payload" value with
      | none => exact .aside rfl rfl rfl rfl
      | some item =>
        obtain ⟨kind, isKind⟩ : ∃ kind, stringField "type" item = kind := ⟨_, rfl⟩
        simp only [Option.elim_some, Option.filter_some, isKind, beq_iff_eq]
        by_cases started : kind = some "task_started"
        · subst started
          exact steps_taskStarted log index item
        rw [if_neg started]
        by_cases counted : kind = some "token_count"
        · rw [if_pos counted, if_pos counted]
          exact steps_tokenCount log index _ item
        · rw [if_neg counted, if_neg counted]
          exact .aside rfl rfl rfl rfl
    · rw [if_neg isEvent, if_neg isEvent]
      exact .aside rfl rfl rfl rfl

/-- **What the parser has of some lines**: the model in force, the total seen last, and what is
billed. -/
theorem state_readLines (projectOf : String → Option LocalProject) (fallback : Int)
    (lines : List TranscriptLine) :
    (readLines projectOf fallback lines).model = lastModel lines.reverse ∧
    (readLines projectOf fallback lines).lastSeenTotal = lastTotal lines.reverse ∧
    (readLines projectOf fallback lines).additions
      = (allBilled lines.reverse).flatMap LastUsage.additions ∧
    (readLines projectOf fallback lines).positionedUsage.map (fun entry => tally entry.2)
      = ((allBilled lines.reverse).filter fun last => 0 < last.sum).map LastUsage.tally := by
  induction lines using List.reverseRecOn with
  | nil => exact ⟨rfl, rfl, rfl, rfl⟩
  | append_singleton lines line ih =>
    obtain ⟨model, total, additions, usage⟩ := ih
    obtain ⟨model', total', additions', usage'⟩ :=
      steps_readLine projectOf fallback (readLines projectOf fallback lines) lines.length line
    have bills : (readLines projectOf fallback lines).bills (reportOf line)
        = billed lines.reverse line := by
      rw [Rollout.bills, model, total]
      rfl
    rw [readLines_concat, List.reverse_concat]
    refine ⟨?_, ?_, ?_, ?_⟩
    · rw [model', model, lastModel, lastModel, List.findSome?_cons]
      cases modelOf line <;> rfl
    · rw [total', total, model]
      rfl
    · rw [additions', additions, bills, allBilled, List.flatMap_append]
    · rw [usage', usage, bills, allBilled, List.filter_append, List.map_append]

end Reading

end Toard.Shim.Codex
