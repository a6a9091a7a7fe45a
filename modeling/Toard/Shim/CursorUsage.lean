/-
**The usage that Cursor's hook writes (`cursor_hook.rs`, `collect/cursor_usage.rs`).**

Each hook process appends a line to one log, under a lock that ends with the process. A process may
be killed after any part of its line; the next line is written behind that part.

* **`completed_read`**: every completed call is read, if whole lines begin where a line begins.
-/

import Toard.Library.Lines
import Toard.Shim.CursorTranscript
import Toard.Shim.IsoReading

namespace Toard.Shim.CursorUsage

open Toard.Json (Value)
open Toard.Library
open Toard.Shim.Claude (asU64 field)
open Toard.Shim.CursorAgent (asI64 inI64)
open Toard.Shim.UsageEvent (optValue countValue)

/-! ### Writing -/

structure CapturedUsage where
  schemaVersion : Option Nat
  projectId : Option String
  generationId : String
  sessionId : Option String
  model : Option String
  tsMs : Int
  inputTokens : Nat
  outputTokens : Nat
  cacheReadTokens : Nat
  cacheCreationTokens : Nat
deriving DecidableEq

def CapturedUsage.hasTokens (usage : CapturedUsage) : Bool :=
  usage.inputTokens > 0 || usage.outputTokens > 0 || usage.cacheReadTokens > 0 ||
    usage.cacheCreationTokens > 0

/-- What `parse_payload` captures. -/
structure CapturedUsage.IsCaptured (usage : CapturedUsage) : Prop where
  schema : usage.schemaVersion = some 1
  time : inI64 usage.tsMs = true
  input : usage.inputTokens < 2 ^ 64
  output : usage.outputTokens < 2 ^ 64
  cacheRead : usage.cacheReadTokens < 2 ^ 64
  cacheCreation : usage.cacheCreationTokens < 2 ^ 64
  hasTokens : usage.hasTokens = true

def toValue (usage : CapturedUsage) : Value :=
  .object ((usage.schemaVersion.toList.map fun version => ("schemaVersion", countValue version)) ++
    (usage.projectId.toList.map fun id => ("projectId", .string id)) ++
    [("generationId", .string usage.generationId),
      ("sessionId", optValue usage.sessionId),
      ("model", optValue usage.model),
      ("tsMs", .number (toString usage.tsMs)),
      ("inputTokens", countValue usage.inputTokens),
      ("outputTokens", countValue usage.outputTokens),
      ("cacheReadTokens", countValue usage.cacheReadTokens),
      ("cacheCreationTokens", countValue usage.cacheCreationTokens)])

def newline : UInt8 := 10

/-- `u8::is_ascii_whitespace` -/
def isAsciiWhitespace (byte : UInt8) : Bool :=
  byte == 32 || byte == 9 || byte == 10 || byte == 12 || byte == 13

/-- A call of `append_usage`, and how many bytes it wrote if it was killed. -/
structure Append where
  usage : CapturedUsage
  killed : Option Nat

/-! ### Reading -/

/-- A field that may be missing or `null`. -/
def optional {α : Type} (read : Value → Option α) (key : String) (value : Value) :
    Option (Option α) :=
  match field key value with
  | none | some .null => some none
  | some item => (read item).map some

def fromValue (value : Value) : Option CapturedUsage := do
  let schemaVersion ← optional (fun item => (asU64 item).filter (· < 2 ^ 32)) "schemaVersion" value
  let projectId ← optional Value.asStr "projectId" value
  let generationId ← (field "generationId" value).bind Value.asStr
  let sessionId ← optional Value.asStr "sessionId" value
  let model ← optional Value.asStr "model" value
  let tsMs ← (field "tsMs" value).bind asI64
  let inputTokens ← (field "inputTokens" value).bind asU64
  let outputTokens ← (field "outputTokens" value).bind asU64
  let cacheReadTokens ← (field "cacheReadTokens" value).bind asU64
  let cacheCreationTokens ← (field "cacheCreationTokens" value).bind asU64
  some { schemaVersion, projectId, generationId, sessionId, model, tsMs, inputTokens, outputTokens,
         cacheReadTokens, cacheCreationTokens }

def rawUsage (project : String → Option LocalProject) (usage : CapturedUsage) : RawUsage where
  project := usage.projectId.bind project
  tsMs := usage.tsMs
  sessionId := usage.sessionId
  model := usage.model
  messageId := some usage.generationId
  inputTokens := usage.inputTokens
  outputTokens := usage.outputTokens
  cacheReadTokens := usage.cacheReadTokens
  cacheCreationTokens := usage.cacheCreationTokens
  cacheCreation1hTokens := 0

section Reading

variable (fromSlice : List UInt8 → Option Value)

def readLine (line : List UInt8) : Option CapturedUsage :=
  if line.all isAsciiWhitespace then none
  else (fromSlice line).bind fun value =>
    if (field "schemaVersion" value).any fun version => asU64 version ≠ some 1 then none
    else fromValue value

def readLines (seen : List String) : List (List UInt8) → List CapturedUsage
  | [] => []
  | line :: rest =>
    match readLine fromSlice line with
    | none => readLines seen rest
    | some usage =>
      if usage.generationId ∈ seen then readLines seen rest
      else if usage.hasTokens then usage :: readLines (usage.generationId :: seen) rest
      else readLines (usage.generationId :: seen) rest

/-- The usage of a log; `project` is the project that an id stands for. -/
def parseUsageLog (project : String → Option LocalProject) (bytes : List UInt8) : List RawUsage :=
  (readLines fromSlice [] (bytes.splitOn newline)).map (rawUsage project)

/-- What `serde_json` does with a record: it writes one line and reads it back. -/
structure Writes (toWriter : CapturedUsage → List UInt8) (usage : CapturedUsage) : Prop where
  oneLine : newline ∉ toWriter usage
  visible : (toWriter usage).all isAsciiWhitespace = false
  reads : fromSlice (toWriter usage) = some (toValue usage)

end Reading

section Runs

variable (toWriter : CapturedUsage → List UInt8)

namespace Append

def line (call : Append) : List UInt8 := toWriter call.usage ++ [newline]

def isWhole (call : Append) : Bool :=
  call.killed.elim true fun written => (toWriter call.usage).length < written

def write (log : List UInt8) (call : Append) : List UInt8 :=
  log ++ (call.killed.elim (call.line toWriter) fun written => (call.line toWriter).take written)

end Append

def logOf (calls : List Append) : List UInt8 := calls.foldl (Append.write toWriter) []

def AtLineStart (log : List UInt8) : Prop := log = [] ∨ log.getLast? = some newline

/-- Each call that writes its whole line finds the log where a line begins. -/
def Orderly (calls : List Append) : Prop :=
  ∀ before call after, calls = before ++ call :: after → call.isWhole toWriter = true →
    AtLineStart (logOf toWriter before)

def wholes (calls : List Append) : List CapturedUsage :=
  (calls.filter (Append.isWhole toWriter)).map Append.usage

end Runs

/-! ### One record -/

theorem isDigits_toString (n : Nat) : (toString n).toList ≠ [] ∧
    (∀ c ∈ (toString n).toList, c.isDigit) ∧ Nat.ofDigitChars 10 (toString n).toList 0 = n := by
  rw [Nat.toString_eq_repr, Nat.toList_repr]
  exact ⟨Nat.toDigits_ne_nil, fun c among => Nat.isDigit_of_mem_toDigits (by decide) (by decide) among,
    Nat.ofDigitChars_ten_toDigits⟩

theorem asU64_countValue {n : Nat} (fits : n < 2 ^ 64) : asU64 (countValue n) = some n := by
  obtain ⟨nonempty, digits, isValue⟩ := isDigits_toString n
  rw [countValue, asU64, if_pos ⟨nonempty, List.all_eq_true.mpr digits, isValue.symm ▸ fits⟩, isValue]

theorem asI64_number {n : Int} (fits : inI64 n = true) : asI64 (.number (toString n)) = some n := by
  have parsed : parseI64 (toString n).toList = some n := by
    cases n with
    | ofNat n =>
      obtain ⟨nonempty, digits, isValue⟩ := isDigits_toString n
      rw [show toString (Int.ofNat n) = toString n from rfl, parseI64_digits nonempty digits, isValue]
      rfl
    | negSucc n =>
      obtain ⟨nonempty, digits, isValue⟩ := isDigits_toString (n + 1)
      rw [toList_toString_negSucc]
      simp only [parseI64, Json.signPart]
      rw [if_pos ⟨nonempty, List.all_eq_true.mpr digits⟩, isValue]
      rfl
  rw [asI64, parsed, Option.filter_some, if_pos fits]

theorem optional_optValue {key : String} {value : Value} {text : Option String}
    (found : field key value = some (optValue text) ∨ field key value = text.map .string) :
    optional Value.asStr key value = some text := by
  unfold optional
  cases text <;> rcases found with found | found <;> rw [found] <;> rfl

theorem field_toValue {usage : CapturedUsage} (schema : usage.schemaVersion = some 1) :
    field "schemaVersion" (toValue usage) = some (countValue 1) ∧ field "projectId" (toValue usage) = usage.projectId.map .string ∧
      field "generationId" (toValue usage) = some (.string usage.generationId) ∧
      field "sessionId" (toValue usage) = some (optValue usage.sessionId) ∧
      field "model" (toValue usage) = some (optValue usage.model) ∧
      field "tsMs" (toValue usage) = some (.number (toString usage.tsMs)) ∧
      field "inputTokens" (toValue usage) = some (countValue usage.inputTokens) ∧
      field "outputTokens" (toValue usage) = some (countValue usage.outputTokens) ∧
      field "cacheReadTokens" (toValue usage) = some (countValue usage.cacheReadTokens) ∧
      field "cacheCreationTokens" (toValue usage) = some (countValue usage.cacheCreationTokens) := by
  obtain ⟨_, projectId, _, _, _, _, _, _, _, _⟩ := usage
  obtain rfl := schema
  cases projectId <;> exact ⟨rfl, rfl, rfl, rfl, rfl, rfl, rfl, rfl, rfl, rfl⟩

/-- **A captured record is read back from its fields.** -/
theorem fromValue_toValue {usage : CapturedUsage} (captured : usage.IsCaptured) :
    fromValue (toValue usage) = some usage := by
  obtain ⟨version, project, generation, session, model, time, input, output, cacheRead,
    cacheCreation⟩ := field_toValue captured.schema
  have one : optional (fun item => (asU64 item).filter (· < 2 ^ 32)) "schemaVersion" (toValue usage)
      = some usage.schemaVersion := by
    rw [optional, version, captured.schema]
    rfl
  rw [fromValue, one, optional_optValue (.inr project), generation, optional_optValue (.inl session),
    optional_optValue (.inl model), time, input, output, cacheRead, cacheCreation]
  simp only [Option.bind_some, asI64_number captured.time, asU64_countValue captured.input,
    asU64_countValue captured.output, asU64_countValue captured.cacheRead,
    asU64_countValue captured.cacheCreation]
  rfl

section Reading

variable {fromSlice : List UInt8 → Option Value} {toWriter : CapturedUsage → List UInt8}

theorem readLine_toWriter {usage : CapturedUsage} (captured : usage.IsCaptured)
    (writes : Writes fromSlice toWriter usage) :
    readLine fromSlice (toWriter usage) = some usage := by
  have version := (field_toValue captured.schema).1
  have one : asU64 (countValue 1) = some 1 := asU64_countValue (by decide)
  rw [readLine, writes.visible, if_neg Bool.false_ne_true, writes.reads, Option.bind_some, version,
    if_neg (by simp [one]), fromValue_toValue captured]

/-- **A generation is read once**, from the first line that has it. -/
theorem readLines_filter (seen : List String) (lines : List (List UInt8)) (id : String) :
    (readLines fromSlice seen lines).filter (·.generationId == id)
      = if id ∈ seen then [] else
        ((lines.filterMap (readLine fromSlice)).find? (·.generationId == id)).toList.filter
          (·.hasTokens) := by
  induction lines generalizing seen with
  | nil => simp [readLines]
  | cons line rest ih =>
    rw [readLines]
    cases isRecord : readLine fromSlice line with
    | none =>
      rw [List.filterMap_cons_none isRecord]
      exact ih seen
    | some usage =>
      rw [List.filterMap_cons_some isRecord, List.find?_cons]
      dsimp only
      by_cases same : usage.generationId = id
      · subst same
        by_cases known : usage.generationId ∈ seen
        · rw [if_pos known, ih, if_pos known, if_pos known]
        · rw [if_neg known, if_neg known]
          split
          case isTrue tokens => simp [ih, tokens]
          case isFalse none => simp [ih, none]
      · have others : ∀ known : List String, id ∈ usage.generationId :: known ↔ id ∈ known := by
          simp [Ne.symm same]
        have other : (usage.generationId == id) = false := beq_false_of_ne same
        rw [other]
        split
        case isTrue => exact ih seen
        case isFalse =>
          split
          case isTrue => simp only [List.filter_cons, other, Bool.false_eq_true, if_false, ih, others]
          case isFalse => simp only [ih, others]

end Reading

/-! ### Runs -/

section Runs

variable {toWriter : CapturedUsage → List UInt8} {fromSlice : List UInt8 → Option Value}

theorem logOf_concat (calls : List Append) (call : Append) :
    logOf toWriter (calls ++ [call]) = call.write toWriter (logOf toWriter calls) :=
  List.foldl_concat ..

theorem write_of_isWhole {call : Append} (whole : call.isWhole toWriter = true) (log : List UInt8) :
    call.write toWriter log = log ++ closed newline [toWriter call.usage] := by
  have isLine : closed newline [toWriter call.usage] = call.line toWriter := List.append_nil _
  rw [Append.write, isLine]
  cases killed : call.killed with
  | none => rfl
  | some written =>
    rw [Append.isWhole, killed] at whole
    have enough : (call.line toWriter).length ≤ written := by
      rw [Append.line, List.length_append]
      exact of_decide_eq_true whole
    rw [Option.elim_some, List.take_of_length_le enough]

theorem write_of_not_isWhole {call : Append} (oneLine : newline ∉ toWriter call.usage)
    (torn : call.isWhole toWriter = false) (log : List UInt8) :
    ∃ part, call.write toWriter log = log ++ part ∧ newline ∉ part := by
  cases killed : call.killed with
  | none => rw [Append.isWhole, killed] at torn; cases torn
  | some written =>
    rw [Append.isWhole, killed] at torn
    have short : written ≤ (toWriter call.usage).length := Nat.not_lt.mp (of_decide_eq_false torn)
    refine ⟨(toWriter call.usage).take written, ?_, fun among => oneLine (List.mem_of_mem_take among)⟩
    rw [Append.write, killed, Option.elim_some, Append.line, List.take_append_of_le_length short]

/-- **What an orderly run leaves**: the whole lines in order, and a part of a line behind them. -/
theorem logOf_orderly {calls : List Append} (oneLine : ∀ call ∈ calls, newline ∉ toWriter call.usage)
    (orderly : Orderly toWriter calls) :
    ∃ part, logOf toWriter calls = closed newline ((wholes toWriter calls).map toWriter) ++ part ∧
      newline ∉ part := by
  induction calls using List.reverseRecOn with
  | nil => exact ⟨[], rfl, List.not_mem_nil⟩
  | append_singleton calls call ih =>
    obtain ⟨part, isLog, plain⟩ := ih (fun other among => oneLine other (List.mem_append_left _ among))
      fun before other after split => orderly before other (after ++ [call])
        (by rw [split, List.append_assoc, List.cons_append])
    rw [logOf_concat]
    cases whole : call.isWhole toWriter with
    | true =>
      have none : part = [] := by
        by_contra nonempty
        have last := isLog ▸ orderly calls call [] rfl whole
        rcases last with empty | ends
        · exact nonempty (List.append_eq_nil_iff.mp empty).2
        · rw [List.getLast?_append_of_ne_nil _ nonempty] at ends
          exact plain (List.mem_of_getLast? ends)
      refine ⟨[], ?_, List.not_mem_nil⟩
      rw [write_of_isWhole whole, isLog, none, List.append_nil, List.append_nil]
      simp [wholes, closed, whole]
    | false =>
      obtain ⟨more, isWritten, plainMore⟩ := write_of_not_isWhole
        (oneLine call (List.mem_append_right _ List.mem_cons_self)) whole (logOf toWriter calls)
      refine ⟨part ++ more, ?_, fun among => (List.mem_append.mp among).elim plain plainMore⟩
      rw [isWritten, isLog, List.append_assoc]
      simp [wholes, whole]

/-- **Every completed call is read once**, in every run whose whole lines begin where a line begins:
its generation has one record in the log, which is the one that was first written whole. -/
theorem completed_read (project : String → Option LocalProject) {calls : List Append}
    (captured : ∀ call ∈ calls, call.usage.IsCaptured ∧ Writes fromSlice toWriter call.usage)
    (orderly : Orderly toWriter calls) {call : Append} (among : call ∈ calls)
    (completed : call.killed = none) :
    ∃ first, (wholes toWriter calls).find? (·.generationId == call.usage.generationId) = some first ∧
      (parseUsageLog fromSlice project (logOf toWriter calls)).filter
        (·.messageId == some call.usage.generationId) = [rawUsage project first] := by
  have oneLine : ∀ other ∈ calls, newline ∉ toWriter other.usage := fun other isCall =>
    (captured other isCall).2.oneLine
  have isWritten : ∀ usage ∈ wholes toWriter calls,
      usage.IsCaptured ∧ Writes fromSlice toWriter usage := by
    intro usage isWhole
    obtain ⟨other, isCall, rfl⟩ := List.mem_map.mp isWhole
    exact captured other (List.mem_filter.mp isCall).1
  obtain ⟨part, isLog, plain⟩ := logOf_orderly oneLine orderly
  have lines : (logOf toWriter calls).splitOn newline
      = (wholes toWriter calls).map toWriter ++ [part] := by
    rw [isLog, splitOn_closed_append, List.splitOn_eq_singleton plain, flatMap_splitOn]
    intro line isLine
    obtain ⟨usage, isWhole, rfl⟩ := List.mem_map.mp isLine
    exact (isWritten usage isWhole).2.oneLine
  have records : ((wholes toWriter calls).map toWriter).filterMap (readLine fromSlice)
      = wholes toWriter calls := by
    rw [List.filterMap_map]
    refine (List.filterMap_congr fun usage isWhole => ?_).trans List.filterMap_some
    exact readLine_toWriter (isWritten usage isWhole).1 (isWritten usage isWhole).2
  have isWhole : call.usage ∈ wholes toWriter calls :=
    List.mem_map_of_mem (List.mem_filter.mpr ⟨among, by rw [Append.isWhole, completed]; rfl⟩)
  obtain ⟨first, found⟩ := Option.isSome_iff_exists.mp (List.find?_isSome (p := fun usage =>
    usage.generationId == call.usage.generationId).mpr ⟨call.usage, isWhole, beq_self_eq_true _⟩)
  refine ⟨first, found, ?_⟩
  have tokens := (isWritten first (List.mem_of_find?_eq_some found)).1.hasTokens
  have read := @readLines_filter fromSlice [] ((logOf toWriter calls).splitOn newline)
    call.usage.generationId
  rw [if_neg List.not_mem_nil, lines, List.filterMap_append, records, List.find?_append, found] at read
  rw [parseUsageLog, lines, List.filter_map]
  refine (congrArg (List.map (rawUsage project)) ?_).trans (List.map_singleton ..)
  simpa [tokens, Function.comp_def, rawUsage] using read

/-! ### Two calls -/

def stop (generationId : String) : CapturedUsage :=
  ⟨some 1, none, generationId, none, none, 0, 1, 0, 0, 0⟩

def textWriter (usage : CapturedUsage) : List UInt8 :=
  PromptRecord.utf8Bytes (Json.toCompact (toValue usage))

def textReader (bytes : List UInt8) : Option Value :=
  (String.fromUTF8? ⟨bytes.toArray⟩).bind Json.parse

theorem captured_stop (generationId : String) : (stop generationId).IsCaptured where
  schema := rfl
  time := rfl
  input := show 1 < 2 ^ 64 by decide
  output := show 0 < 2 ^ 64 by decide
  cacheRead := show 0 < 2 ^ 64 by decide
  cacheCreation := show 0 < 2 ^ 64 by decide
  hasTokens := rfl

theorem utf8Bytes_brace (text : String) :
    PromptRecord.utf8Bytes ("\x7b" ++ text) = 123 :: PromptRecord.utf8Bytes text := by
  have brace : PromptRecord.utf8Bytes "\x7b" = [123] := rfl
  rw [PromptRecord.utf8Bytes] at brace ⊢
  rw [String.toByteArray_append, ByteArray.data_append, Array.toList_append, brace,
    List.singleton_append, PromptRecord.utf8Bytes]

theorem toCompact_stop (generationId : String) :
    ∃ rest, Json.toCompact (toValue (stop generationId)) = "\x7b" ++ String.ofList rest := by
  obtain ⟨rest, written⟩ : ∃ rest,
      Json.writeCompact (toValue (stop generationId)) = '{' :: rest := ⟨_, rfl⟩
  exact ⟨rest, by rw [Json.toCompact, written]; exact @String.ofList_append ['{'] rest⟩

theorem textWriter_stop (generationId : String) :
    ∃ rest, textWriter (stop generationId) = 123 :: rest := by
  obtain ⟨rest, written⟩ := toCompact_stop generationId
  exact ⟨_, by rw [textWriter, written, utf8Bytes_brace]⟩

set_option maxRecDepth 8000 in
theorem writes_stop {id : String} (isId : id = "f" ∨ id = "g") :
    Writes textReader textWriter (stop id) where
  oneLine := by rcases isId with rfl | rfl <;> decide
  visible := by
    obtain ⟨rest, written⟩ := textWriter_stop id
    rw [written]
    rfl
  reads := by
    rw [textReader, textWriter, PromptRecord.fromUTF8?_utf8Bytes, Option.bind_some]
    refine Json.parse_toCompact ?_
    have count (n : Nat) : Json.Printable (countValue n) := Json.numberToken_toString n
    exact ⟨count 1, trivial, trivial, trivial, count 0, count 1, count 0, count 0, count 0, trivial⟩

/-- One call completes, and the next one is killed after its first byte. -/
theorem completed_read_stop : ∃ first, (wholes textWriter [⟨stop "g", none⟩, ⟨stop "f", some 1⟩]).find?
      (·.generationId == "g") = some first ∧
    (parseUsageLog textReader (fun _ => none) (logOf textWriter
      [⟨stop "g", none⟩, ⟨stop "f", some 1⟩])).filter (·.messageId == some "g")
        = [rawUsage (fun _ => none) first] := by
  have captured : ∀ call ∈ [(⟨stop "g", none⟩ : Append), ⟨stop "f", some 1⟩],
      call.usage.IsCaptured ∧ Writes textReader textWriter call.usage := by
    simp only [List.forall_mem_cons]
    exact ⟨⟨captured_stop "g", writes_stop (.inr rfl)⟩, ⟨captured_stop "f", writes_stop (.inl rfl)⟩,
      List.forall_mem_nil _⟩
  have orderly : Orderly textWriter [⟨stop "g", none⟩, ⟨stop "f", some 1⟩] := by
    rintro (_ | ⟨first, _ | ⟨second, before⟩⟩) call after split whole
    · exact .inl rfl
    · obtain ⟨-, rfl, -⟩ := by simpa using split
      obtain ⟨rest, written⟩ := textWriter_stop "f"
      simp [Append.isWhole, written] at whole
    · simp at split
  exact @completed_read textWriter textReader (fun _ => none) _ captured orderly ⟨stop "g", none⟩
    List.mem_cons_self rfl

/-- The line of a call that completed is glued to the byte that another one left. -/
theorem torn_call_hides_next : ¬ ∀ calls : List Append,
    (∀ call ∈ calls, call.usage.IsCaptured ∧ Writes textReader textWriter call.usage) →
      ∀ call ∈ calls, call.killed = none →
        ∃ record ∈ parseUsageLog textReader (fun _ => none) (logOf textWriter calls),
          record.messageId = some call.usage.generationId := by
  intro claim
  obtain ⟨rest, opened⟩ := toCompact_stop "g"
  have glued : logOf textWriter [⟨stop "f", some 1⟩, ⟨stop "g", none⟩]
      = closed newline [123 :: textWriter (stop "g")] := by
    obtain ⟨rest, first⟩ := textWriter_stop "f"
    have torn : logOf textWriter [⟨stop "f", some 1⟩] = [123] := by
      rw [logOf, List.foldl_cons, List.foldl_nil, Append.write, Option.elim_some, Append.line, first]
      rfl
    have both := @logOf_concat textWriter [⟨stop "f", some 1⟩] ⟨stop "g", none⟩
    have push (bytes : List UInt8) : [123] ++ closed newline [bytes] = closed newline [123 :: bytes] := by
      simp [closed]
    rw [write_of_isWhole rfl, torn, push] at both
    exact both
  have oneLine : newline ∉ 123 :: textWriter (stop "g") :=
    List.not_mem_cons_of_ne_of_not_mem (by decide) (writes_stop (.inr rfl)).oneLine
  have lines : (logOf textWriter [⟨stop "f", some 1⟩, ⟨stop "g", none⟩]).splitOn newline
      = [123 :: textWriter (stop "g"), []] := by
    rw [glued, splitOn_closed, flatMap_splitOn (List.forall_mem_singleton.mpr oneLine)]
    rfl
  have noRecord : readLine textReader (123 :: textWriter (stop "g")) = none := by
    have bytes := (utf8Bytes_brace (Json.toCompact (toValue (stop "g")))).symm
    have text : ("\x7b" ++ ("\x7b" ++ String.ofList rest)).toList = '{' :: '{' :: rest := by simp
    have unread : Json.parse ("\x7b" ++ ("\x7b" ++ String.ofList rest)) = none := by
      rw [Json.parse, text]
      rfl
    rw [readLine, textWriter, bytes, textReader, PromptRecord.fromUTF8?_utf8Bytes, Option.bind_some, opened,
      unread, Option.bind_none, ite_self]
  obtain ⟨record, among, -⟩ := claim [⟨stop "f", some 1⟩, ⟨stop "g", none⟩] (by
    simp only [List.forall_mem_cons]
    exact ⟨⟨captured_stop "f", writes_stop (.inl rfl)⟩, ⟨captured_stop "g", writes_stop (.inr rfl)⟩,
      List.forall_mem_nil _⟩) ⟨stop "g", none⟩ (by simp) rfl
  rw [parseUsageLog, lines, readLines, noRecord] at among
  cases among

end Runs

end Toard.Shim.CursorUsage
