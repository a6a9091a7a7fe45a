/-
**Collecting a Gemini session that grows.**

A line may replace an earlier message of a session, but what was sent of the message stays in the
queue: its key has the model and the counts.

* **`sessions_billed_once`**: if all runs were settled, what is in the queue is what the whole
  session has.
-/

import Toard.Shim.Gemini
import Toard.Shim.GrowingLog

namespace Toard.Shim.Gemini

open Toard.Json (Value)
open Toard.Library (Indexed)
open Toard.Shim.Claude (TranscriptLine asArray asObject asU64 field stringField)

/-! ### Times -/

def messageTime (message : Value) : Option Int :=
  ((stringField "timestamp" message).bind isoToEpochMs).or
    ((stringField "created_at" message).bind isoToEpochMs)

def sessionTime (record : GeminiRecord) : Option Int :=
  (record.startTime.bind isoToEpochMs).or (record.lastUpdated.bind isoToEpochMs)

def ownTime (record : GeminiRecord) : Option Int :=
  if record.type = some "gemini" then
    (record.timestamp.bind isoToEpochMs).or (record.createdAt.bind isoToEpochMs)
  else record.timestamp.bind isoToEpochMs

theorem buildEvent_timed (model : Option String) (sessionId : String) (tsMs before : Int)
    (tokens : GeminiTokens) (normalizeInput : GeminiTokens → Nat × Nat)
    (messageId : Option String) :
    buildEvent model sessionId tsMs tokens normalizeInput messageId
      = (buildEvent model sessionId before tokens normalizeInput messageId).map (timed tsMs) := by
  simp only [buildEvent]
  cases model.filter fun m => !(trim m.toList).isEmpty with
  | none => rfl
  | some name =>
    rw [Option.bind_some, Option.bind_some, apply_ite (Option.map _)]
    rfl

section Timed

variable (asF64 : Value → Option ℚ)

theorem parseDirectEvent_timed (message : Value) (sessionId : String) (fallback before : Int) :
    parseDirectEvent asF64 message sessionId fallback
      = (parseDirectEvent asF64 message sessionId before).map
          (timed ((messageTime message).getD fallback)) := by
  rw [parseDirectEvent, parseDirectEvent]
  cases parseTokens asF64 (field "tokens" message) with
  | none => rfl
  | some tokens => exact buildEvent_timed _ _ _ _ _ _ _

theorem parseDirectEventRecord_timed (record : GeminiRecord) (modelHint : Option String)
    (sessionId : String) (mtimeMs before : Int) :
    parseDirectEventRecord asF64 record modelHint sessionId mtimeMs
      = (parseDirectEventRecord asF64 record modelHint sessionId before).map (timed
          (((record.timestamp.bind isoToEpochMs).or (record.createdAt.bind isoToEpochMs)).getD
            mtimeMs)) := by
  rw [parseDirectEventRecord, parseDirectEventRecord]
  cases parseTokens asF64 record.tokens with
  | none => rfl
  | some tokens => exact buildEvent_timed _ _ _ _ _ _ _

theorem statistics_timed (model : Option String) (sessionId : String) (tsMs before : Int)
    (value : Option Value) :
    ((parseTokens asF64 value).bind fun tokens =>
      buildEvent model sessionId tsMs tokens subtractCachedOverlapTokens none)
      = ((parseTokens asF64 value).bind fun tokens =>
          buildEvent model sessionId before tokens subtractCachedOverlapTokens none).map
            (timed tsMs) := by
  cases parseTokens asF64 value with
  | none => rfl
  | some tokens => exact buildEvent_timed _ _ _ _ _ _ _

theorem modelEvents_timed (models : Value) (sessionId : String) (tsMs before : Int) :
    modelEvents asF64 models sessionId tsMs
      = (modelEvents asF64 models sessionId before).map (timed tsMs) := by
  rw [modelEvents, modelEvents, List.map_filterMap]
  refine List.filterMap_congr fun entry _ => ?_
  cases asObject entry.2 with
  | none => rfl
  | some data => exact statistics_timed asF64 _ _ _ _ _

theorem parseStatsEvents_timed (stats : Option Value) (modelHint : Option String)
    (sessionId : String) (tsMs before : Int) :
    parseStatsEvents asF64 stats modelHint sessionId tsMs
      = (parseStatsEvents asF64 stats modelHint sessionId before).map (timed tsMs) := by
  rw [parseStatsEvents, parseStatsEvents]
  cases stats.bind asObject with
  | none => rfl
  | some stats =>
    rw [Option.elim_some, Option.elim_some, statistics_timed asF64 _ sessionId tsMs before,
      Option.toList_map]
    cases (field "models" stats).bind asObject with
    | none => rfl
    | some models =>
      rw [Option.elim_some, Option.elim_some, modelEvents_timed asF64 models sessionId tsMs before]
      cases modelEvents asF64 models sessionId before <;> rfl

theorem recordEvents_timed (jsonl : Bool) (mtimeMs before : Int) (context : Context)
    (record : GeminiRecord) :
    recordEvents asF64 jsonl mtimeMs context record
      = (recordEvents asF64 jsonl before context record).map
          (timed ((ownTime record).getD mtimeMs)) := by
  rw [recordEvents, recordEvents, ownTime]
  by_cases isMessage : record.type = some "gemini"
  · rw [if_pos isMessage, if_pos isMessage, if_pos isMessage,
      parseDirectEventRecord_timed asF64 record _ _ mtimeMs before, Option.toList_map]
  · rw [if_neg isMessage, if_neg isMessage, if_neg isMessage]
    exact parseStatsEvents_timed asF64 _ _ _ _ _

end Timed

/-! ### The usage of the lines -/

structure Entry where
  own : Option Int
  usage : RawUsage
deriving DecidableEq

namespace Entry

def read (mtimeMs : Int) (entry : Entry) : RawUsage :=
  timed (entry.own.getD mtimeMs) entry.usage

def name (jsonl : Bool) (entry : Entry) : Option String := replacedBy jsonl entry.usage

end Entry

section Entries

variable (asF64 : Value → Option ℚ) (groupOf : String → Option LocalProject) (jsonl : Bool)

def messageEntries (messages : List Value) (sessionId : String) (ofSession : Option Int) :
    List Entry :=
  ((messages.filterMap asObject).filter fun message =>
    stringField "type" message == some "gemini").filterMap fun message =>
      (parseDirectEvent asF64 message sessionId 0).map fun usage =>
        ⟨(messageTime message).or ofSession, usage⟩

def entriesOf (context : Context) (record : GeminiRecord) : List Entry :=
  ((if jsonl then none else record.messages.bind asArray).elim
    ((recordEvents asF64 jsonl 0 context record).map fun usage => ⟨ownTime record, usage⟩)
    fun messages => messageEntries asF64 messages context.sessionId (sessionTime record)).map
      fun entry => { entry with usage := { entry.usage with project := context.project } }

def entries : Context → List TranscriptLine → List Entry
  | _, [] => []
  | context, line :: rest =>
    (recordOf line).elim [] (fun entry =>
      entriesOf asF64 jsonl (context.after groupOf line) entry.2) ++
      entries (context.after groupOf line) rest

variable {asF64 groupOf jsonl}

theorem messageEvents_eq (messages : List Value) (sessionId : String) (ofSession : Option Int)
    (mtimeMs : Int) :
    messageEvents asF64 messages sessionId (ofSession.getD mtimeMs)
      = (messageEntries asF64 messages sessionId ofSession).map (Entry.read mtimeMs) := by
  rw [messageEvents, messageEntries, List.map_filterMap]
  refine List.filterMap_congr fun message _ => ?_
  rw [parseDirectEvent_timed asF64 message sessionId _ 0, Option.map_map]
  congr 1
  funext usage
  rw [Function.comp_apply, Entry.read, Option.getD_or]

theorem eventsOf_eq (mtimeMs : Int) (context : Context) (record : GeminiRecord) :
    eventsOf asF64 jsonl mtimeMs context record
      = (entriesOf asF64 jsonl context record).map (Entry.read mtimeMs) := by
  have project (events : List Entry) :
      (events.map (Entry.read mtimeMs)).map (fun event => { event with project := context.project })
        = (events.map fun entry => { entry with
            usage := { entry.usage with project := context.project } }).map
              (Entry.read mtimeMs) := by
    rw [List.map_map, List.map_map]
    rfl
  rw [eventsOf, entriesOf, ← project]
  congr 1
  cases (if jsonl then none else record.messages.bind asArray) with
  | none =>
    rw [Option.elim_none, Option.elim_none, recordEvents_timed asF64 jsonl mtimeMs 0, List.map_map]
    rfl
  | some messages => exact messageEvents_eq messages _ _ mtimeMs

theorem made_eq_entries (mtimeMs : Int) (context : Context) (lines : List TranscriptLine) :
    made asF64 groupOf jsonl mtimeMs context lines
      = (entries asF64 groupOf jsonl context lines).map (Entry.read mtimeMs) := by
  induction lines generalizing context with
  | nil => rfl
  | cons line rest ih =>
    rw [made, entries, List.map_append, ih]
    cases recordOf line with
    | none => rfl
    | some entry => rw [Option.elim_some, Option.elim_some, eventsOf_eq]

theorem entries_append (context : Context) (before after : List TranscriptLine) :
    entries asF64 groupOf jsonl context (before ++ after) = entries asF64 groupOf jsonl context before ++
      entries asF64 groupOf jsonl (before.foldl (Context.after groupOf) context) after := by
  induction before generalizing context with
  | nil => rfl
  | cons line rest ih =>
    rw [List.cons_append, entries, ih, entries, List.append_assoc, List.foldl_cons]

theorem entries_torn (context : Context) (lines : List TranscriptLine) (torn : Bool) :
    entries asF64 groupOf jsonl context (lines ++ if torn then [.invalid] else [])
      = entries asF64 groupOf jsonl context lines := by
  rw [entries_append]
  cases torn <;> exact List.append_nil _

theorem mem_parseLog_entries {fileStem : String} {mtimeMs : Int} {lines : List TranscriptLine}
    {usage : RawUsage} :
    usage ∈ parseLog asF64 groupOf jsonl fileStem mtimeMs lines ↔
      ∃ entry, Indexed.Latest (Entry.name jsonl)
        (entries asF64 groupOf jsonl (Session.start fileStem).context lines) entry ∧
          entry.read mtimeMs = usage := by
  rw [mem_parseLog, made_eq_entries, Indexed.latest_map]
  rfl

end Entries

/-! ### The runs -/

section Runs

variable (asF64 : Value → Option ℚ) (groupOf : String → Option LocalProject) (jsonl : Bool)
  (fileStem : String → String) (sha256Hex : String → String)

def reader : LogReader TranscriptLine where
  keys path mtimeMs lines := (parseLog asF64 groupOf jsonl (fileStem path) mtimeMs lines).map
    (dedupKey sha256Hex "gemini")
  isError := isError
  torn := [.invalid]

def found (path : String) (log : List TranscriptLine) (seen : Nat) : List Entry :=
  entries asF64 groupOf jsonl (Session.start (fileStem path)).context (log.take seen)

/-- What a run found of a session stays as it is: the last version of a message has the model and
the counts of the one that was found, and no usage without an id has the time of the file, unless
that is still the same. -/
structure Settled (early whole : List Entry) (mtimeMs finalMs : Int) : Prop where
  replaced : ∀ entry last, Indexed.Latest (Entry.name jsonl) early entry →
    Indexed.Latest (Entry.name jsonl) whole last → (entry.name jsonl).isSome →
      last.name jsonl = entry.name jsonl → SameBill entry.usage last.usage
  dated : ∀ entry ∈ early, entry.usage.messageId = none → entry.own.isSome ∨ mtimeMs = finalMs

variable {asF64 groupOf jsonl fileStem sha256Hex}

theorem oneLine_keys (digest : CollisionFree sha256Hex) (path : String) (mtimeMs : Int)
    (lines : List TranscriptLine) :
    OneLine ((reader asF64 groupOf jsonl fileStem sha256Hex).keys path mtimeMs lines) := by
  intro key among
  obtain ⟨usage, -, rfl⟩ := List.mem_map.mp among
  obtain ⟨text, isDigest⟩ := exists_dedupKey sha256Hex "gemini" usage
  rw [isDigest]
  exact digest.oneLine text

theorem found_subset {path : String} {log : List TranscriptLine} {seen : Nat} {entry : Entry}
    (among : entry ∈ found asF64 groupOf jsonl fileStem path log seen) :
    entry ∈ found asF64 groupOf jsonl fileStem path log log.length := by
  rw [found, List.take_length, ← log.take_append_drop seen, entries_append]
  exact List.mem_append_left _ among

theorem Settled.key_mem {path : String} {log : List TranscriptLine} {seen : Nat}
    {mtimeMs finalMs : Int}
    (settled : Settled jsonl (found asF64 groupOf jsonl fileStem path log seen)
      (found asF64 groupOf jsonl fileStem path log log.length) mtimeMs finalMs) {entry : Entry}
    (latest : Indexed.Latest (Entry.name jsonl)
      (found asF64 groupOf jsonl fileStem path log seen) entry) :
    ∃ last, Indexed.Latest (Entry.name jsonl)
        (found asF64 groupOf jsonl fileStem path log log.length) last ∧
      dedupKey sha256Hex "gemini" (last.read finalMs)
        = dedupKey sha256Hex "gemini" (entry.read mtimeMs) := by
  have among := found_subset latest.mem
  cases isName : entry.name jsonl with
  | none =>
    refine ⟨entry, Indexed.latest_of_nameless among isName, ?_⟩
    cases isId : entry.usage.messageId with
    | some id => exact dedupKey_timed sha256Hex "gemini" _ _ isId isId ⟨rfl, rfl, rfl, rfl, rfl⟩
    | none =>
      rcases settled.dated entry latest.mem isId with own | same
      · obtain ⟨tsMs, isOwn⟩ := Option.isSome_iff_exists.mp own
        rw [Entry.read, Entry.read, isOwn]
        rfl
      · rw [same]
  | some id =>
    obtain ⟨last, isLast, isSame⟩ := Indexed.exists_latest among isName
    have bill := settled.replaced entry last latest isLast (by rw [isName]; rfl)
      (isSame.trans isName.symm)
    have hasId {other : Entry} (named : other.name jsonl = some id) :
        other.usage.messageId = some id := (Option.ite_none_right_eq_some.mp named).2
    exact ⟨last, isLast,
      (dedupKey_timed sha256Hex "gemini" _ _ (hasId isName) (hasId isSame) bill).symm⟩

/-- **A session is billed once**: if every run found it settled, the queue has the keys of the whole
session and no others. -/
theorem sessions_billed_once (digest : CollisionFree sha256Hex) (path : String)
    (log : List TranscriptLine) (cursor : Cursor)
    (legacy : ∀ other state, cursor.files other = some state → state.sent = 0)
    (rounds : List Round) (ofLog : ∀ visit, .read visit ∈ rounds → visit.path = path)
    (final : Visit) (isFinal : .read final ∈ rounds) (whole : final.IsWhole fun _ => log)
    (settled : ∀ visit, .read visit ∈ rounds →
      Settled jsonl (found asF64 groupOf jsonl fileStem path log visit.seen)
        (found asF64 groupOf jsonl fileStem path log log.length)
        visit.stamp.mtimeMs final.stamp.mtimeMs) (key : String) :
    key ∈ delivered (reader asF64 groupOf jsonl fileStem sha256Hex) (fun _ => log) sha256Hex cursor
        rounds ↔
      key ∈ (parseLog asF64 groupOf jsonl (fileStem path) final.stamp.mtimeMs log).map
        (dedupKey sha256Hex "gemini") := by
  have samePath : final.path = path := ofLog final isFinal
  have readWhole : ReadWhole (fun _ => log) rounds fun _ => final := fun visit isRound =>
    ⟨isFinal, samePath.trans (ofLog visit isRound).symm, whole⟩
  have isKey : (∃ visit, .read visit ∈ rounds ∧
      key ∈ (reader asF64 groupOf jsonl fileStem sha256Hex).keys visit.path final.stamp.mtimeMs log) ↔
      key ∈ (reader asF64 groupOf jsonl fileStem sha256Hex).keys path final.stamp.mtimeMs log := by
    constructor
    · rintro ⟨visit, isRound, inside⟩
      rwa [ofLog visit isRound] at inside
    · intro inside
      exact ⟨final, isFinal, by rwa [samePath]⟩
  refine (delivered_whole digest legacy (oneLine_keys digest) readWhole ?_ key).trans isKey
  intro visit isRound other among
  rw [Visit.keys, Visit.lines, ofLog visit isRound] at among
  obtain ⟨usage, isUsage, rfl⟩ := List.mem_map.mp among
  obtain ⟨entry, latest, rfl⟩ := mem_parseLog_entries.mp isUsage
  have isTorn : (if visit.torn then (reader asF64 groupOf jsonl fileStem sha256Hex).torn else [])
      = if visit.torn then [TranscriptLine.invalid] else [] := rfl
  rw [isTorn, entries_torn] at latest
  obtain ⟨last, isLast, same⟩ := (settled visit isRound).key_mem latest
  rw [found, List.take_length] at isLast
  rw [← same, ofLog visit isRound]
  exact List.mem_map_of_mem (mem_parseLog_entries.mpr ⟨last, isLast, rfl⟩)

end Runs

def wholeNumber (value : Value) : Option ℚ := (asU64 value).map fun n => (n : ℚ)

def messageLine (id output : String) : TranscriptLine :=
  .json (.object [("type", .string "gemini"), ("id", .string id),
    ("model", .string "gemini-2.5-pro"),
    ("tokens", .object [("input", .number "100"), ("output", .number output)])])

def messageEntry (id : String) (output : Nat) : Entry where
  own := none
  usage := {
    project := none
    tsMs := 0
    sessionId := some "s.jsonl"
    model := some "gemini-2.5-pro"
    messageId := some id
    inputTokens := 100
    outputTokens := output
    cacheReadTokens := 0
    cacheCreationTokens := 0
    cacheCreation1hTokens := 0 }

/-- What is in the queue after a run that found one of two lines, and one that found both. -/
def deliveredTwice (log : List TranscriptLine) : List String :=
  delivered (reader wholeNumber (fun _ => none) true (fun path => path) unary) (fun _ => log) unary
    ⟨fun _ => none⟩ [.read ⟨"s.jsonl", 1, false, ⟨1, 20⟩, none⟩,
      .read ⟨"s.jsonl", 2, false, ⟨2, 40⟩, none⟩]

/-- A session of two messages. -/
theorem sessions_billed_once_appended :
    deliveredTwice [messageLine "m1" "10", messageLine "m2" "20"]
        ⊆ (parseLog wholeNumber (fun _ => none) true "s.jsonl" 2
          [messageLine "m1" "10", messageLine "m2" "20"]).map (dedupKey unary "gemini") ∧
      (parseLog wholeNumber (fun _ => none) true "s.jsonl" 2
          [messageLine "m1" "10", messageLine "m2" "20"]).map (dedupKey unary "gemini")
        ⊆ deliveredTwice [messageLine "m1" "10", messageLine "m2" "20"] := by
  have all : entries wholeNumber (fun _ => none) true (Session.start "s.jsonl").context
      [messageLine "m1" "10", messageLine "m2" "20"]
        = [messageEntry "m1" 10, messageEntry "m2" 20] := by
    decide
  have first : entries wholeNumber (fun _ => none) true (Session.start "s.jsonl").context
      [messageLine "m1" "10"] = [messageEntry "m1" 10] := by
    decide
  have settled (early : List Entry) (mtimeMs : Int)
      (isFound : ∀ entry ∈ early, entry ∈ [messageEntry "m1" 10, messageEntry "m2" 20]) :
      Settled true early [messageEntry "m1" 10, messageEntry "m2" 20] mtimeMs 2 := by
    refine ⟨fun entry last latest isLast _ same => ?_, fun entry among nameless => ?_⟩
    · have bySide : ∀ entry ∈ [messageEntry "m1" 10, messageEntry "m2" 20],
          ∀ last ∈ [messageEntry "m1" 10, messageEntry "m2" 20],
            last.name true = entry.name true → entry = last := by decide
      obtain rfl := bySide entry (isFound entry latest.mem) last isLast.mem same
      exact ⟨rfl, rfl, rfl, rfl, rfl⟩
    · have named : ∀ entry ∈ [messageEntry "m1" 10, messageEntry "m2" 20],
          entry.usage.messageId ≠ none := by decide
      exact absurd nameless (named entry (isFound entry among))
  have ofLog (visit : Visit) (isRound : .read visit ∈ [Round.read ⟨"s.jsonl", 1, false, ⟨1, 20⟩, none⟩,
      .read ⟨"s.jsonl", 2, false, ⟨2, 40⟩, none⟩]) : visit.path = "s.jsonl" := by
    simp only [List.mem_cons, Round.read.injEq, List.not_mem_nil, or_false] at isRound
    rcases isRound with rfl | rfl <;> rfl
  have once (key : String) := sessions_billed_once collisionFree_unary "s.jsonl"
    [messageLine "m1" "10", messageLine "m2" "20"] ⟨fun _ => none⟩ (by simp) _ ofLog
    ⟨"s.jsonl", 2, false, ⟨2, 40⟩, none⟩ (by simp) ⟨by simp, rfl, rfl⟩ (by
      intro visit isRound
      simp only [List.mem_cons, Round.read.injEq, List.not_mem_nil, or_false] at isRound
      have isAll : found wholeNumber (fun _ => none) true (fun path => path) "s.jsonl"
          [messageLine "m1" "10", messageLine "m2" "20"] 2
            = [messageEntry "m1" 10, messageEntry "m2" 20] := all
      have isFirst : found wholeNumber (fun _ => none) true (fun path => path) "s.jsonl"
          [messageLine "m1" "10", messageLine "m2" "20"] 1 = [messageEntry "m1" 10] := first
      show Settled true _ (found wholeNumber (fun _ => none) true (fun path => path) "s.jsonl" _ 2)
        _ _
      rw [isAll]
      apply settled
      rcases isRound with rfl | rfl
      · rw [isFirst]
        simp
      · rw [isAll]
        simp) key
  exact ⟨fun key => (once key).mp, fun key => (once key).mpr⟩

/-- A message whose answer grew is in the queue twice. -/
theorem replaced_version_stays :
    ¬ ∀ key, key ∈ deliveredTwice [messageLine "m1" "10", messageLine "m1" "20"] ↔
      key ∈ (parseLog wholeNumber (fun _ => none) true "s.jsonl" 2
        [messageLine "m1" "10", messageLine "m1" "20"]).map (dedupKey unary "gemini") := by
  intro same
  have isFirst : parseLog wholeNumber (fun _ => none) true "s.jsonl" 1 [messageLine "m1" "10"]
      = [(messageEntry "m1" 10).read 1] := by
    decide
  have isLast : parseLog wholeNumber (fun _ => none) true "s.jsonl" 2
      [messageLine "m1" "10", messageLine "m1" "20"] = [(messageEntry "m1" 20).read 2] := by
    decide
  have sent : dedupKey unary "gemini" ((messageEntry "m1" 10).read 1) ∈
      deliveredTwice [messageLine "m1" "10", messageLine "m1" "20"] := by
    refine (delivered_rounds collisionFree_unary (by simp) (oneLine_keys collisionFree_unary) _).2
      ⟨"s.jsonl", 1, false, ⟨1, 20⟩, none⟩ (by simp) rfl _ ?_
    show _ ∈ (parseLog wholeNumber (fun _ => none) true "s.jsonl" 1
      [messageLine "m1" "10"]).map (dedupKey unary "gemini")
    rw [isFirst]
    exact List.mem_singleton_self _
  have kept := (same _).mp sent
  rw [isLast, List.map_singleton, List.mem_singleton] at kept
  exact absurd (unary_injective kept) (by decide)

end Toard.Shim.Gemini
