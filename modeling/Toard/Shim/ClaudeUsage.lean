/-
**The usage in a transcript of Claude (`collect/claude.rs`).**

Each line of an answer that has a usage becomes a record, and the key of the record has the counts.
So the lines of one message are one record for the queue only if they say the same.

* **`responses_billed_once`**: this holds exactly for the messages whose lines agree.
-/

import Toard.Shim.GrowingLog
import Toard.Shim.Transcript

namespace Toard.Shim.Claude

open Toard.Json (Value)

/-! ### The lines -/

section Lines

variable (projectOf : String → Option LocalProject) (fallback : Int)

def usageOf (line : TranscriptLine) : Option RawUsage :=
  line.object.bind fun value =>
    (objectField "message" value).bind fun message =>
      if stringField "type" value == some "assistant" then
        (objectField "usage" message).map fun usage =>
          { project := (stringField "cwd" value).bind projectOf
            tsMs := ((stringField "timestamp" value).bind isoToEpochMs).getD fallback
            sessionId := stringField "sessionId" value
            model := stringField "model" message
            messageId := stringField "id" message
            inputTokens := count "input_tokens" usage
            outputTokens := count "output_tokens" usage
            cacheReadTokens := count "cache_read_input_tokens" usage
            cacheCreationTokens := count "cache_creation_input_tokens" usage
            cacheCreation1hTokens := ((objectField "cache_creation" usage).map
              (count "ephemeral_1h_input_tokens")).getD 0 }
      else none

def hasTokens (usage : RawUsage) : Bool :=
  0 < usage.inputTokens || 0 < usage.outputTokens || 0 < usage.cacheReadTokens ||
    0 < usage.cacheCreationTokens

/-- The usage of `parse_transcript_all`. -/
def parseUsage (lines : List TranscriptLine) : List RawUsage :=
  (lines.filterMap (usageOf projectOf fallback)).filter hasTokens

end Lines

def usageReader (projectOf : String → Option LocalProject) (sha256Hex : String → String) :
    LogReader TranscriptLine where
  keys _ mtimeMs lines := (parseUsage projectOf mtimeMs lines).map
    (dedupKey sha256Hex "claude_code")
  isError line := hasError [line]
  torn := [.invalid]

/-! ### The lines of a message -/

section Messages

variable (projectOf : String → Option LocalProject) (sha256Hex : String → String)
  (logs : String → List TranscriptLine) (visited : String → Prop) (id : String)

def usageLines (log : List TranscriptLine) : List RawUsage :=
  (log.filterMap (usageOf projectOf 0)).filter fun usage => usage.messageId == some id

def IsRecord (usage : RawUsage) : Prop :=
  ∃ path, visited path ∧ usage ∈ usageLines projectOf id (logs path) ∧ hasTokens usage

def IsLast (usage : RawUsage) : Prop :=
  ∃ path, visited path ∧ usage ∈ (usageLines projectOf id (logs path)).getLast?

/-- A message has one key in the queue, and this is the key of its last line. -/
def BilledOnce (queue : List String) : Prop :=
  ∃ key, (∀ other, other ∈ queue ∧ (∃ usage, IsRecord projectOf logs visited id usage ∧
      other = dedupKey sha256Hex "claude_code" usage) ↔ other = key) ∧
    ∀ last, IsLast projectOf logs visited id last → dedupKey sha256Hex "claude_code" last = key

/-- The lines of a message that have tokens say the same as its last line. -/
structure Agree : Prop where
  billed : ∃ usage, IsRecord projectOf logs visited id usage
  same : ∀ usage last, IsRecord projectOf logs visited id usage →
    IsLast projectOf logs visited id last → SameBill usage last

end Messages

section Runs

variable {projectOf : String → Option LocalProject} {sha256Hex : String → String}
  {logs : String → List TranscriptLine} {visited : String → Prop} {id : String}

def lineTime (fallback : Int) (line : TranscriptLine) : Int :=
  ((line.object.bind (stringField "timestamp")).bind isoToEpochMs).getD fallback

theorem usageOf_timed (fallback : Int) (line : TranscriptLine) :
    usageOf projectOf fallback line
      = (usageOf projectOf 0 line).map (timed (lineTime fallback line)) := by
  unfold usageOf lineTime
  cases line.object with
  | none => rfl
  | some value =>
    rw [Option.bind_some, Option.bind_some, Option.bind_some]
    cases objectField "message" value with
    | none => rfl
    | some message =>
      rw [Option.bind_some, Option.bind_some, apply_ite (Option.map _), Option.map_map]
      rfl

theorem mem_usageLines {log : List TranscriptLine} {usage : RawUsage} :
    usage ∈ usageLines projectOf id log ↔
      (∃ line ∈ log, usageOf projectOf 0 line = some usage) ∧ usage.messageId = some id := by
  simp [usageLines]

theorem mem_keys {visit : Visit} {key : String} :
    key ∈ visit.keys (usageReader projectOf sha256Hex) logs ↔
      ∃ line ∈ (logs visit.path).take visit.seen, ∃ usage, usageOf projectOf 0 line = some usage ∧
        hasTokens usage ∧ dedupKey sha256Hex "claude_code"
          (timed (lineTime visit.stamp.mtimeMs line) usage) = key := by
  have torn : ∀ line ∈ (if visit.torn then [TranscriptLine.invalid] else []),
      ∀ fallback, usageOf projectOf fallback line = none := by
    intro line among fallback
    split at among
    · rw [List.mem_singleton.mp among]
      rfl
    · cases among
  simp only [Visit.keys, usageReader, parseUsage, Visit.lines, List.mem_map, List.mem_filter,
    List.mem_filterMap, List.mem_append]
  constructor
  · rintro ⟨usage, ⟨⟨line, among, isUsage⟩, tokens⟩, rfl⟩
    rcases among with seen | part
    · rw [usageOf_timed] at isUsage
      obtain ⟨untimed, isUntimed, rfl⟩ := Option.map_eq_some_iff.mp isUsage
      exact ⟨line, seen, untimed, isUntimed, tokens, rfl⟩
    · rw [torn line part] at isUsage
      cases isUsage
  · rintro ⟨line, seen, usage, isUsage, tokens, rfl⟩
    refine ⟨timed (lineTime visit.stamp.mtimeMs line) usage, ⟨⟨line, .inl seen, ?_⟩, tokens⟩, rfl⟩
    rw [usageOf_timed, isUsage, Option.map_some]

theorem oneLine_keys (digest : CollisionFree sha256Hex) (path : String) (mtimeMs : Int)
    (lines : List TranscriptLine) :
    OneLine ((usageReader projectOf sha256Hex).keys path mtimeMs lines) := by
  intro key among
  obtain ⟨usage, -, rfl⟩ := List.mem_map.mp among
  obtain ⟨text, isDigest⟩ := exists_dedupKey sha256Hex "claude_code" usage
  rw [isDigest]
  exact digest.oneLine text

theorem IsRecord.messageId_eq {usage : RawUsage}
    (isRecord : IsRecord projectOf logs visited id usage) : usage.messageId = some id := by
  obtain ⟨path, -, among, -⟩ := isRecord
  exact (mem_usageLines.mp among).2

theorem IsLast.messageId_eq {usage : RawUsage} (isLast : IsLast projectOf logs visited id usage) :
    usage.messageId = some id := by
  obtain ⟨path, -, among⟩ := isLast
  exact (mem_usageLines.mp (List.mem_of_getLast? among)).2

theorem IsRecord.exists_isLast {usage : RawUsage}
    (isRecord : IsRecord projectOf logs visited id usage) :
    ∃ last, IsLast projectOf logs visited id last := by
  obtain ⟨path, isVisited, among, -⟩ := isRecord
  obtain ⟨last, isLast⟩ := Option.isSome_iff_exists.mp
    (List.getLast?_isSome.mpr (List.ne_nil_of_mem among))
  exact ⟨last, path, isVisited, isLast⟩

def Visited (rounds : List Round) (path : String) : Prop :=
  ∃ visit, .read visit ∈ rounds ∧ visit.path = path

theorem record_delivered (digest : CollisionFree sha256Hex) {cursor : Cursor}
    (legacy : ∀ path state, cursor.files path = some state → state.sent = 0) {rounds : List Round}
    (whole : ∀ path, Visited rounds path → ∃ final, .read final ∈ rounds ∧ final.path = path ∧
      final.IsWhole logs) {usage : RawUsage}
    (isRecord : IsRecord projectOf logs (Visited rounds) id usage) :
    dedupKey sha256Hex "claude_code" usage
      ∈ delivered (usageReader projectOf sha256Hex) logs sha256Hex cursor rounds := by
  obtain ⟨path, isVisited, among, tokens⟩ := isRecord
  obtain ⟨⟨line, inLog, isUsage⟩, isId⟩ := mem_usageLines.mp among
  obtain ⟨final, isFinal, rfl, isWhole⟩ := whole path isVisited
  apply (delivered_rounds digest legacy (oneLine_keys digest) rounds).2 final isFinal isWhole.stored
  rw [mem_keys, List.take_of_length_le isWhole.seen]
  refine ⟨line, inLog, usage, isUsage, tokens, ?_⟩
  exact dedupKey_timed sha256Hex "claude_code" _ usage.tsMs isId isId ⟨rfl, rfl, rfl, rfl, rfl⟩

/-- **A response is billed once** exactly if its lines agree. -/
theorem responses_billed_once (digest : CollisionFree sha256Hex)
    (projectOf : String → Option LocalProject) (logs : String → List TranscriptLine)
    (cursor : Cursor) (legacy : ∀ path state, cursor.files path = some state → state.sent = 0)
    (rounds : List Round)
    (whole : ∀ path, Visited rounds path → ∃ final, .read final ∈ rounds ∧ final.path = path ∧
      final.IsWhole logs) (id : String) :
    BilledOnce projectOf sha256Hex logs (Visited rounds) id
        (delivered (usageReader projectOf sha256Hex) logs sha256Hex cursor rounds) ↔
      Agree projectOf logs (Visited rounds) id := by
  constructor
  · rintro ⟨key, only, ofLast⟩
    obtain ⟨-, usage, isRecord, -⟩ := (only key).mpr rfl
    refine ⟨⟨usage, isRecord⟩, fun other last isOther isLast => ?_⟩
    have sent := record_delivered digest legacy whole isOther
    have sameKey := ((only _).mp ⟨sent, other, isOther, rfl⟩).trans (ofLast last isLast).symm
    obtain ⟨input, output, cacheRead, cacheCreation, model⟩ :=
      sameBill_of_dedupKey digest.injective isOther.messageId_eq isLast.messageId_eq sameKey
    exact ⟨model rfl, input, output, cacheRead, cacheCreation⟩
  · rintro ⟨⟨usage, isRecord⟩, same⟩
    have ofLast (other last : RawUsage) (isOther : IsRecord projectOf logs (Visited rounds) id other)
        (isLast : IsLast projectOf logs (Visited rounds) id last) :
        dedupKey sha256Hex "claude_code" other = dedupKey sha256Hex "claude_code" last :=
      dedupKey_congr sha256Hex "claude_code" isOther.messageId_eq isLast.messageId_eq
        (same other last isOther isLast)
    refine ⟨dedupKey sha256Hex "claude_code" usage, fun key => ⟨?_, ?_⟩, fun last isLast =>
      (ofLast usage last isRecord isLast).symm⟩
    · rintro ⟨-, other, isOther, rfl⟩
      obtain ⟨last, isLast⟩ := isRecord.exists_isLast
      exact (ofLast other last isOther isLast).trans (ofLast usage last isRecord isLast).symm
    · rintro rfl
      exact ⟨record_delivered digest legacy whole isRecord, usage, isRecord, rfl⟩

end Runs

def answerLine (id output : String) : TranscriptLine :=
  .json (.object [("type", .string "assistant"), ("timestamp", .string "2026-05-17T11:07:32.000Z"),
    ("message", .object [("id", .string id), ("model", .string "claude-opus-4"),
      ("usage", .object [("input_tokens", .number "100"), ("output_tokens", .number output)])])])

def answerUsage (id : String) (output : Nat) : RawUsage where
  project := none
  tsMs := 1779016052000
  sessionId := none
  model := some "claude-opus-4"
  messageId := some id
  inputTokens := 100
  outputTokens := output
  cacheReadTokens := 0
  cacheCreationTokens := 0
  cacheCreation1hTokens := 0

/-- Two runs over a transcript that grows, and one over a copy of it. -/
def copiedRounds : List Round :=
  [.read ⟨"a.jsonl", 1, false, ⟨1, 20⟩, none⟩, .read ⟨"a.jsonl", 2, false, ⟨2, 40⟩, none⟩,
    .read ⟨"b.jsonl", 2, false, ⟨3, 40⟩, none⟩]

theorem whole_copiedRounds (first second : TranscriptLine) (path : String)
    (isVisited : Visited copiedRounds path) : ∃ final, .read final ∈ copiedRounds ∧
      final.path = path ∧ final.IsWhole fun _ => [first, second] := by
  obtain ⟨visit, isRound, rfl⟩ := isVisited
  simp only [copiedRounds, List.mem_cons, Round.read.injEq, List.not_mem_nil, or_false] at isRound
  rcases isRound with rfl | rfl | rfl
  · exact ⟨⟨"a.jsonl", 2, false, ⟨2, 40⟩, none⟩, by simp [copiedRounds], rfl, by simp, rfl, rfl⟩
  · exact ⟨⟨"a.jsonl", 2, false, ⟨2, 40⟩, none⟩, by simp [copiedRounds], rfl, by simp, rfl, rfl⟩
  · exact ⟨⟨"b.jsonl", 2, false, ⟨3, 40⟩, none⟩, by simp [copiedRounds], rfl, by simp, rfl, rfl⟩

/-- A repeated line, in a transcript and in its copy. -/
theorem responses_billed_once_copied :
    BilledOnce (fun _ => none) unary (fun _ => [answerLine "m1" "20", answerLine "m1" "20"])
      (Visited copiedRounds) "m1" (delivered (usageReader (fun _ => none) unary)
        (fun _ => [answerLine "m1" "20", answerLine "m1" "20"]) unary ⟨fun _ => none⟩
        copiedRounds) := by
  apply (responses_billed_once collisionFree_unary (fun _ => none) _ _ (by simp) copiedRounds
    (whole_copiedRounds _ _) "m1").mpr
  have isLines : usageLines (fun _ => none) "m1" [answerLine "m1" "20", answerLine "m1" "20"]
      = [answerUsage "m1" 20, answerUsage "m1" 20] := by
    decide
  refine ⟨⟨answerUsage "m1" 20, "a.jsonl", ?_, ?_, rfl⟩, ?_⟩
  · exact ⟨⟨"a.jsonl", 1, false, ⟨1, 20⟩, none⟩, by simp [copiedRounds], rfl⟩
  · rw [isLines]
    exact List.mem_cons_self
  · rintro usage last ⟨path, -, among, -⟩ ⟨path', -, isLast⟩
    rw [isLines] at among isLast
    obtain rfl : usage = answerUsage "m1" 20 := by simpa using among
    obtain rfl := Option.some.inj isLast
    exact ⟨rfl, rfl, rfl, rfl, rfl⟩

/-- A line that is written while the answer grows. -/
theorem growing_response_billed_twice :
    ¬ BilledOnce (fun _ => none) unary (fun _ => [answerLine "m1" "1", answerLine "m1" "20"])
      (Visited copiedRounds) "m1" (delivered (usageReader (fun _ => none) unary)
        (fun _ => [answerLine "m1" "1", answerLine "m1" "20"]) unary ⟨fun _ => none⟩
        copiedRounds) := by
  have isLines : usageLines (fun _ => none) "m1" [answerLine "m1" "1", answerLine "m1" "20"]
      = [answerUsage "m1" 1, answerUsage "m1" 20] := by
    decide
  have isRecord (usage : RawUsage) (among : usage ∈ [answerUsage "m1" 1, answerUsage "m1" 20]) :
      IsRecord (fun _ => none) (fun _ => [answerLine "m1" "1", answerLine "m1" "20"])
        (Visited copiedRounds) "m1" usage := by
    refine ⟨"a.jsonl", ⟨⟨"a.jsonl", 1, false, ⟨1, 20⟩, none⟩, by simp [copiedRounds], rfl⟩, ?_, ?_⟩
    · rwa [isLines]
    · have tokens : ∀ usage ∈ [answerUsage "m1" 1, answerUsage "m1" 20], hasTokens usage := by decide
      exact tokens usage among
  rintro ⟨key, only, -⟩
  have isKey (usage : RawUsage) (among : usage ∈ [answerUsage "m1" 1, answerUsage "m1" 20]) :
      dedupKey unary "claude_code" usage = key :=
    (only _).mp ⟨record_delivered collisionFree_unary (by simp) (whole_copiedRounds _ _)
      (isRecord usage among), usage, isRecord usage among, rfl⟩
  have same := (isKey (answerUsage "m1" 1) (by simp)).trans
    (isKey (answerUsage "m1" 20) (by simp)).symm
  obtain ⟨-, output, -⟩ := sameBill_of_dedupKey unary_injective rfl rfl same
  exact absurd output (by decide)

end Toard.Shim.Claude
