/-
**The outcomes that the server keeps.**

A transcript grows, and runs of the collector cut it anywhere. A run sends the calls behind those of
which the cursor knows that they were sent; the row of a call is the first that has its key, and the
outcome is not in the key.

* **`outcomes_stored`**: without late results, and with one outcome for each key, the rows have the
  outcomes of the transcript.
-/

import Toard.Library.Transition
import Toard.Server.ToolAcceptance
import Toard.Shim.Cursor

namespace Toard.Server.ToolWire

open Toard.Library
open Toard.Shim (RawToolActivity ToolAdapter HostLabel LocalProject FileStamp FileState keysHash
  resumeIndex keysHash_inj unary unary_injective)
open Toard.Shim.ToolEvent (dedupKey)
open Toard.Shim.Claude (TranscriptLine ToolLog Mention parseTools readLines hasError firstMention
  timeless untimed timeless_readLines sound_readLines sound_empty readLines_keeps readLines_append)

/-! ### A run of the collector -/

def shouldParseToolFile (collectTools probeDue usageSame toolsSame reconciliationScan : Bool) : Bool :=
  reconciliationScan || !usageSame || (collectTools && probeDue && !toolsSame)

structure Collection where
  sha256Hex : String → String
  projectOf : String → Option LocalProject
  allows : Option LocalProject → Bool
  toolsSince : Int
  host : Option HostLabel
  lineBytes : TranscriptLine → Nat
  providers : List String
  owner : ToolIngestOwner

namespace Collection

variable (collection : Collection)

def size (lines : List TranscriptLine) : Nat :=
  (lines.map fun line => collection.lineBytes line + 1).sum

def key (call : RawToolActivity) : String :=
  dedupKey collection.sha256Hex ToolAdapter.claudeCode.key call

def row (call : RawToolActivity) : ToolRow :=
  finalize collection.owner (received collection.sha256Hex ToolAdapter.claudeCode.key
    collection.host call)

def keeps (call : RawToolActivity) : Bool :=
  collection.toolsSince ≤ call.tsMs && collection.allows call.project

def fileTools (mtimeMs : Int) (lines : List TranscriptLine) : List RawToolActivity :=
  (parseTools collection.projectOf mtimeMs lines).filter collection.keeps

def toolKeys (mtimeMs : Int) (lines : List TranscriptLine) : List String :=
  (collection.fileTools mtimeMs lines).map collection.key

end Collection

/-- A transcript, the cursor of the collector and the rows of the server. -/
structure Growing where
  lines : List TranscriptLine
  mtimeMs : Int
  cursor : Option FileState
  table : ToolTable

namespace Growing

def start : Growing := ⟨[], 0, none, .empty⟩

/-- What one run does with the transcript, and whether no request of it failed. Of its rows the
first ones reach the table; `usageSame` is what the cursor of the usage says, and `acknowledged`
whether the answers of all requests came. -/
def collect (collection : Collection) (state : Growing) (usageSame forceRescan : Bool)
    (reached : Nat) (acknowledged : Bool) : Growing × Bool :=
  let stamp : FileStamp := ⟨state.mtimeMs, collection.size state.lines⟩
  let cursor := if forceRescan then none else state.cursor
  let toolsSame := cursor.map FileState.toFileStamp = some stamp
  if !shouldParseToolFile true true usageSame toolsSame false then (state, acknowledged)
  else
    let fileTools := collection.fileTools state.mtimeMs state.lines
    let keys := fileTools.map collection.key
    let first := resumeIndex collection.sha256Hex ((cursor.map FileState.sent).getD 0)
      ((cursor.map FileState.sentHash).getD "") keys
    let rows := (fileTools.drop first).map collection.row
    let (table, result) := insertToolActivity collection.providers state.table (rows.take reached)
    let toolsOk := acknowledged && rows.length ≤ reached && result.isOk
    let updated := if hasError state.lines then cursor
      else some ⟨stamp, keys.length, keysHash collection.sha256Hex keys⟩
    ({ state with table, cursor := if toolsOk then updated else state.cursor }, toolsOk)

end Growing

inductive GrowingAction where
  | grow (more : List TranscriptLine) (mtimeMs : Int)
  | collect (usageSame forceRescan : Bool) (reached : Nat) (acknowledged : Bool)

namespace Growing

def next (collection : Collection) (state : Growing) : GrowingAction → Option Growing
  | .grow more mtimeMs => some { state with lines := state.lines ++ more, mtimeMs }
  | .collect usageSame forceRescan reached acknowledged =>
    some (state.collect collection usageSame forceRescan reached acknowledged).1

def log (collection : Collection) (state : Growing) : ToolLog :=
  readLines collection.projectOf state.mtimeMs .empty state.lines

/-- The lines answer a call that waits, other than the server has it. -/
def Late (collection : Collection) (state : Growing) (more : List TranscriptLine) : Prop :=
  ∃ index call row outcome, (state.log collection).tools[index]? = some call ∧
    (state.log collection).pending.get call.callId = some index ∧
    state.table.get (collection.key call) = some row ∧
    firstMention call.callId more = some (.result outcome) ∧
    outcome ≠ .unknown ∧ outcome ≠ row.outcome

def Timely (collection : Collection) (state : Growing) : GrowingAction → Prop
  | .grow more _ => ¬ Late collection state more
  | .collect .. => True

def OneOutcome (collection : Collection) (state : Growing) : Prop :=
  ∀ call ∈ (state.log collection).tools, ∀ call' ∈ (state.log collection).tools,
    collection.key call = collection.key call' → call.outcome = call'.outcome

end Growing

/-! ### The rows -/

section Rows

variable {providers : List String}

structure Inserted (table : ToolTable) (rows : List ToolRow) (after : ToolTable) : Prop where
  stays : ∀ key row, table.get key = some row → after.get key = some row
  isNew : ∀ key row, after.get key = some row →
    table.get key = some row ∨ (row ∈ rows ∧ row.dedupKey = key)

/-- **A row is never replaced.** -/
theorem inserted_insertToolActivity (table : ToolTable) (rows : List ToolRow) :
    Inserted table rows (insertToolActivity providers table rows).1 := by
  induction rows generalizing table with
  | nil => exact ⟨fun _ _ => id, fun _ _ => .inl⟩
  | cons row rows ih =>
    rw [insertToolActivity]
    split
    case h_1 => exact ⟨fun _ _ => id, fun _ _ => .inl⟩
    case h_2 =>
      split
      case isTrue =>
        obtain ⟨stays, isNew⟩ := ih table
        exact ⟨stays, fun key other held => (isNew key other held).imp_right
          fun added => ⟨List.mem_cons_of_mem _ added.1, added.2⟩⟩
      case isFalse absent =>
        obtain ⟨stays, isNew⟩ := ih (table.set row.dedupKey row)
        constructor
        · intro key other held
          refine stays key other ?_
          rw [OrderedMap.get_set, if_neg, held]
          rintro rfl
          exact absent (by rw [held]; rfl)
        · intro key other held
          obtain before | added := isNew key other held
          · rw [OrderedMap.get_set] at before
            split at before
            case isTrue here =>
              obtain rfl := Option.some_inj.mp before
              exact .inr ⟨List.mem_cons_self, here.symm⟩
            case isFalse => exact .inl before
          · exact .inr ⟨List.mem_cons_of_mem _ added.1, added.2⟩

theorem isSome_get_insertToolActivity {table : ToolTable} {rows : List ToolRow}
    (isOk : (insertToolActivity providers table rows).2.isOk = true) {row : ToolRow}
    (among : row ∈ rows) :
    ((insertToolActivity providers table rows).1.get row.dedupKey).isSome = true := by
  induction rows generalizing table with
  | nil => cases among
  | cons first rows ih =>
    rw [insertToolActivity] at isOk ⊢
    split at isOk
    case h_1 => cases isOk
    case h_2 =>
      split at isOk
      case isTrue present =>
        rw [if_pos present]
        obtain rfl | later := List.mem_cons.mp among
        · obtain ⟨held, isHeld⟩ := Option.isSome_iff_exists.mp present
          rw [(inserted_insertToolActivity table rows).stays _ _ isHeld]
          rfl
        · exact ih isOk later
      case isFalse absent =>
        rw [if_neg absent]
        obtain rfl | later := List.mem_cons.mp among
        · rw [(inserted_insertToolActivity (table.set row.dedupKey row) rows).stays _ row
            (by rw [OrderedMap.get_set, if_pos rfl])]
          rfl
        · refine ih ?_ later
          generalize insertToolActivity providers (table.set first.dedupKey first) rows = answer
            at isOk ⊢
          obtain ⟨after, result⟩ := answer
          cases result with
          | error => cases isOk
          | ok => rfl

end Rows

/-! ### The keys that were sent -/

theorem take_resumeIndex {sha256Hex : String → String} (free : Function.Injective sha256Hex)
    {sent keys : List String} (plain : ∀ key ∈ sent, '\n' ∉ key.toList)
    (plain' : ∀ key ∈ keys, '\n' ∉ key.toList) {key : String}
    (among : key ∈ keys.take (resumeIndex sha256Hex sent.length (keysHash sha256Hex sent) keys)) :
    key ∈ sent := by
  rw [resumeIndex] at among
  split at among
  case isTrue => cases among
  case isFalse =>
    split at among
    case isTrue same =>
      rwa [keysHash_inj free (fun key among => plain' key (List.mem_of_mem_take among)) plain same]
        at among
    case isFalse => cases among

/-! ### What holds in every run -/

section Runs

variable {collection : Collection}

theorem size_append (lines more : List TranscriptLine) :
    collection.size (lines ++ more) = collection.size lines + collection.size more := by
  rw [Collection.size, List.map_append, List.sum_append]
  rfl

theorem eq_nil_of_size {lines : List TranscriptLine} (empty : collection.size lines = 0) :
    lines = [] := by
  cases lines with
  | nil => rfl
  | cons line rest =>
    rw [Collection.size, List.map_cons, List.sum_cons] at empty
    omega

structure Kept (collection : Collection) (state : Growing) : Prop where
  rows : ∀ key row, state.table.get key = some row → ∃ call ∈ (state.log collection).tools,
    collection.key call = key ∧ call.outcome = row.outcome
  /-- The cursor is of a part of the transcript whose calls have rows. -/
  cursor : ∀ file, state.cursor = some file → ∃ lines more, state.lines = lines ++ more ∧
    file.size = collection.size lines ∧
    file.sent = (collection.toolKeys file.mtimeMs lines).length ∧
    file.sentHash = keysHash collection.sha256Hex (collection.toolKeys file.mtimeMs lines) ∧
    ∀ key ∈ collection.toolKeys file.mtimeMs lines, (state.table.get key).isSome = true

theorem kept_start : Kept collection .start where
  rows := by
    intro key row held
    change OrderedMap.empty.get key = some row at held
    rw [OrderedMap.get_empty] at held
    cases held
  cursor := nofun

theorem mem_log_grow {state : Growing} {more : List TranscriptLine} (mtimeMs : Int)
    (timely : ¬ state.Late collection more) {call : RawToolActivity}
    (among : call ∈ (state.log collection).tools) {row : ToolRow}
    (held : state.table.get (collection.key call) = some row) (same : call.outcome = row.outcome) :
    ∃ call' ∈ (readLines collection.projectOf mtimeMs .empty (state.lines ++ more)).tools,
      untimed call' = untimed call := by
  obtain ⟨index, place⟩ := List.mem_iff_getElem?.mp among
  have retimed : timeless (readLines collection.projectOf mtimeMs .empty state.lines)
      = timeless (state.log collection) :=
    timeless_readLines _ mtimeMs state.mtimeMs rfl state.lines
  obtain ⟨call', place', isCall⟩ : ∃ call',
      (readLines collection.projectOf mtimeMs .empty state.lines).tools[index]? = some call' ∧
        untimed call' = untimed call := by
    have tools := congrArg (fun log : ToolLog => log.tools[index]?) retimed
    simp only [timeless, List.getElem?_map, place, Option.map_some, Option.map_eq_some_iff] at tools
    exact tools
  have pending : (readLines collection.projectOf mtimeMs .empty state.lines).pending
      = (state.log collection).pending := by
    change (timeless _).pending = (timeless _).pending
    rw [retimed]
  have isId : call'.callId = call.callId := by
    change (untimed call').callId = (untimed call).callId
    rw [isCall]
  refine ⟨call', List.mem_iff_getElem?.mpr ⟨index, ?_⟩, isCall⟩
  rw [readLines_append]
  refine readLines_keeps _ _ (sound_readLines _ _ sound_empty _) place' fun waits outcome told => ?_
  rw [pending, isId] at waits
  rw [isId] at told
  by_contra known
  obtain ⟨waiting, there, -, unknown⟩ :=
    sound_readLines _ _ sound_empty state.lines call.callId index waits
  obtain rfl : waiting = call := Option.some_inj.mp (there.symm.trans place)
  exact timely ⟨index, waiting, row, outcome, place, waits, held, told, known,
    by rw [← same, unknown]; exact known⟩

theorem kept_grow {state : Growing} (kept : Kept collection state) {more : List TranscriptLine}
    (mtimeMs : Int) (timely : ¬ state.Late collection more) :
    Kept collection { state with lines := state.lines ++ more, mtimeMs } where
  rows := by
    intro key row held
    obtain ⟨call, among, rfl, same⟩ := kept.rows key row held
    obtain ⟨call', among', isCall⟩ := mem_log_grow mtimeMs timely among held same
    refine ⟨call', among', ?_, ?_⟩
    · change collection.key (untimed call') = collection.key (untimed call)
      rw [isCall]
    · change (untimed call').outcome = row.outcome
      rw [isCall]
      exact same
  cursor := by
    intro file isCursor
    obtain ⟨lines, rest, split, sized⟩ := kept.cursor file isCursor
    exact ⟨lines, rest ++ more, by rw [← List.append_assoc, ← split], sized⟩

theorem mem_log_of_fileTools {state : Growing} {call : RawToolActivity}
    (among : call ∈ collection.fileTools state.mtimeMs state.lines) :
    call ∈ (state.log collection).tools :=
  (List.mem_filter.mp among).1

structure Collected (collection : Collection) (before : Growing) (after : Growing × Bool) : Prop where
  lines : after.1.lines = before.lines
  mtimeMs : after.1.mtimeMs = before.mtimeMs
  stays : ∀ key row, before.table.get key = some row → after.1.table.get key = some row
  isNew : ∀ key row, after.1.table.get key = some row → before.table.get key = some row ∨
    ∃ call ∈ collection.fileTools before.mtimeMs before.lines,
      collection.key call = key ∧ call.outcome = row.outcome
  sent : after.2 = true → ∀ key ∈ collection.toolKeys before.mtimeMs before.lines,
    (after.1.table.get key).isSome = true
  cursor : ∀ file, after.1.cursor = some file → before.cursor = some file ∨
    (after.2 = true ∧ file.mtimeMs = before.mtimeMs ∧ file.size = collection.size before.lines ∧
      file.sent = (collection.toolKeys before.mtimeMs before.lines).length ∧
      file.sentHash = keysHash collection.sha256Hex
        (collection.toolKeys before.mtimeMs before.lines))

section Collect

variable (free : Function.Injective collection.sha256Hex)
  (plain : ∀ text, '\n' ∉ (collection.sha256Hex text).toList) {state : Growing}
  (kept : Kept collection state)

include plain in
theorem plain_toolKeys (mtimeMs : Int) (lines : List TranscriptLine) :
    ∀ key ∈ collection.toolKeys mtimeMs lines, '\n' ∉ key.toList := by
  intro key among
  obtain ⟨call, -, rfl⟩ := List.mem_map.mp among
  exact plain _

include kept in
theorem isSome_of_same {file : FileState} (isCursor : state.cursor = some file)
    (same : file.toFileStamp = ⟨state.mtimeMs, collection.size state.lines⟩) :
    ∀ key ∈ collection.toolKeys state.mtimeMs state.lines,
      (state.table.get key).isSome = true := by
  obtain ⟨lines, more, split, sized, -, -, rows⟩ := kept.cursor file isCursor
  have mtime : file.mtimeMs = state.mtimeMs := congrArg FileStamp.mtimeMs same
  have whole : file.size = collection.size state.lines := congrArg FileStamp.size same
  rw [sized, split, size_append] at whole
  have rest : collection.size more = 0 := by omega
  obtain rfl := eq_nil_of_size rest
  rw [List.append_nil] at split
  rw [mtime, ← split] at rows
  exact rows

include free plain kept in
theorem isSome_of_take {cursor : Option FileState} (known : ∀ file, cursor = some file →
      state.cursor = some file) {key : String}
    (among : key ∈ (collection.toolKeys state.mtimeMs state.lines).take
      (resumeIndex collection.sha256Hex ((cursor.map FileState.sent).getD 0)
        ((cursor.map FileState.sentHash).getD "")
        (collection.toolKeys state.mtimeMs state.lines))) :
    (state.table.get key).isSome = true := by
  cases isCursor : cursor with
  | none =>
    rw [isCursor, Option.map_none, Option.getD_none, resumeIndex, if_pos (.inl rfl)] at among
    cases among
  | some file =>
    obtain ⟨lines, more, -, -, sent, sentHash, rows⟩ := kept.cursor file (known file isCursor)
    rw [isCursor, Option.map_some, Option.map_some, Option.getD_some, Option.getD_some, sent,
      sentHash] at among
    exact rows key (take_resumeIndex free (plain_toolKeys plain _ _) (plain_toolKeys plain _ _) among)

include free plain kept in
/-- **What a run does.** -/
theorem collected (usageSame forceRescan : Bool) (reached : Nat) (acknowledged : Bool) :
    Collected collection state
      (state.collect collection usageSame forceRescan reached acknowledged) := by
  unfold Growing.collect
  extract_lets stamp cursor toolsSame fileTools keys first rows
  have known : ∀ file, cursor = some file → state.cursor = some file := by
    intro file isCursor
    change (if forceRescan then none else state.cursor) = some file at isCursor
    split at isCursor
    case isTrue => cases isCursor
    case isFalse => exact isCursor
  split
  case isTrue skipped =>
    have same : toolsSame := by
      simp only [shouldParseToolFile, Bool.not_eq_true', Bool.or_eq_false_iff, Bool.false_or,
        Bool.true_and, Bool.not_eq_false', decide_eq_true_eq] at skipped
      exact skipped.2
    obtain ⟨file, isCursor, isStamp⟩ := Option.map_eq_some_iff.mp same
    exact ⟨rfl, rfl, fun _ _ => id, fun _ _ => .inl,
      fun _ => isSome_of_same kept (known file isCursor) isStamp, fun _ => .inl⟩
  case isFalse =>
    have inserted : Inserted state.table (rows.take reached)
        (insertToolActivity collection.providers state.table (rows.take reached)).1 :=
      inserted_insertToolActivity state.table (rows.take reached)
    have all : (insertToolActivity collection.providers state.table (rows.take reached)).2.isOk
          = true → ∀ row ∈ rows.take reached, ((insertToolActivity collection.providers state.table
            (rows.take reached)).1.get row.dedupKey).isSome = true :=
      fun isOk row among => isSome_get_insertToolActivity isOk among
    generalize insertToolActivity collection.providers state.table (rows.take reached) = answer
      at inserted all ⊢
    obtain ⟨table, result⟩ := answer
    refine ⟨rfl, rfl, inserted.stays, fun key row held => ?_, fun ok key among => ?_,
      fun file isCursor => ?_⟩
    · obtain before | ⟨among, isKey⟩ := inserted.isNew key row held
      · exact .inl before
      · obtain ⟨call, isCall, rfl⟩ := List.mem_map.mp (List.mem_of_mem_take among)
        exact .inr ⟨call, List.mem_of_mem_drop isCall, isKey, rfl⟩
    · simp only [Bool.and_eq_true, decide_eq_true_eq] at ok
      obtain ⟨⟨-, whole⟩, isOk⟩ := ok
      rw [List.take_of_length_le whole] at all
      rw [← List.take_append_drop first (collection.toolKeys _ _), List.mem_append] at among
      obtain sent | pending := among
      · have before := isSome_of_take free plain kept known sent
        obtain ⟨row, held⟩ := Option.isSome_iff_exists.mp before
        exact Option.isSome_iff_exists.mpr ⟨row, inserted.stays _ _ held⟩
      · rw [Collection.toolKeys, ← List.map_drop] at pending
        obtain ⟨call, isCall, rfl⟩ := List.mem_map.mp pending
        exact all isOk _ (List.mem_map_of_mem isCall)
    · dsimp only at isCursor
      split at isCursor
      case isFalse => exact .inl isCursor
      case isTrue ok =>
        change (if hasError state.lines then cursor
          else some ⟨stamp, keys.length, keysHash collection.sha256Hex keys⟩) = some file
          at isCursor
        split at isCursor
        case isTrue => exact .inl (known file isCursor)
        case isFalse =>
          cases isCursor
          exact .inr ⟨ok, rfl, rfl, rfl, rfl⟩

include kept in
theorem kept_collect {after : Growing × Bool} (done : Collected collection state after) :
    Kept collection after.1 := by
  have log : after.1.log collection = state.log collection := by
    rw [Growing.log, Growing.log, done.lines, done.mtimeMs]
  have stays (key : String) (held : (state.table.get key).isSome = true) :
      (after.1.table.get key).isSome = true := by
    obtain ⟨row, held⟩ := Option.isSome_iff_exists.mp held
    exact Option.isSome_iff_exists.mpr ⟨row, done.stays key row held⟩
  constructor
  · intro key row held
    rw [log]
    obtain before | ⟨call, among, made⟩ := done.isNew key row held
    · exact kept.rows key row before
    · exact ⟨call, mem_log_of_fileTools among, made⟩
  · intro file isCursor
    rw [done.lines]
    obtain before | ⟨ok, mtime, size, sent, sentHash⟩ := done.cursor file isCursor
    · obtain ⟨lines, more, split, sized, sent, sentHash, rows⟩ := kept.cursor file before
      exact ⟨lines, more, split, sized, sent, sentHash, fun key among => stays key (rows key among)⟩
    · rw [mtime]
      exact ⟨state.lines, [], (List.append_nil _).symm, size, sent, sentHash, done.sent ok⟩

end Collect

theorem kept_of_reachable (free : Function.Injective collection.sha256Hex)
    (plain : ∀ text, '\n' ∉ (collection.sha256Hex text).toList) {state : Growing}
    (reached : ReachableBy (Growing.next collection) (Growing.Timely collection) .start state) :
    Kept collection state := by
  refine reached.invariant (Kept collection) kept_start fun before action after kept timely moved => ?_
  cases action with
  | grow more mtimeMs =>
    cases moved
    exact kept_grow kept mtimeMs timely
  | collect usageSame forceRescan reached acknowledged =>
    cases moved
    exact kept_collect kept (collected free plain kept usageSame forceRescan reached acknowledged)

/-- **The rows have the outcomes of the transcript** after a run that succeeds, if no result came
late and calls with one key have one outcome. -/
theorem outcomes_stored (free : Function.Injective collection.sha256Hex)
    (plain : ∀ text, '\n' ∉ (collection.sha256Hex text).toList) {state : Growing}
    (reached : ReachableBy (Growing.next collection) (Growing.Timely collection) .start state)
    (one : state.OneOutcome collection) {usageSame forceRescan : Bool} {sent : Nat}
    {acknowledged : Bool}
    (succeeded : (state.collect collection usageSame forceRescan sent acknowledged).2 = true) :
    ∀ call ∈ collection.fileTools state.mtimeMs state.lines, ∃ row,
      (state.collect collection usageSame forceRescan sent acknowledged).1.table.get
        (collection.key call) = some row ∧ row.outcome = call.outcome := by
  intro call among
  have kept := kept_of_reachable free plain reached
  have done := collected free plain kept usageSame forceRescan sent acknowledged
  obtain ⟨row, held⟩ := Option.isSome_iff_exists.mp
    (done.sent succeeded _ (List.mem_map_of_mem among))
  refine ⟨row, held, ?_⟩
  obtain ⟨call', among', isKey, outcome⟩ := (kept_collect kept done).rows _ row held
  rw [Growing.log, done.lines, done.mtimeMs] at among'
  rw [← outcome]
  exact one call' among' call (mem_log_of_fileTools among) isKey

end Runs

/-! ### A run between a call and its result -/

/-- The digests that SHA-256 has of the call below, and of its key as the keys of a file. -/
def knownHashes : List (String × String) :=
  [("tool:claude_code:toolu_1:Mcp:github.search_issues",
      "ebb921d14c2a9b8bdee59f5f1a089f488757689ad1e082584e5d719a28fc5125"),
    ("ebb921d14c2a9b8bdee59f5f1a089f488757689ad1e082584e5d719a28fc5125\n",
      "1d24652631af38d26175c47afddbfd49ec7b5b870dab4fb50074da377a709da5")]

def knownHash (text : String) : String := (knownHashes.lookup text).getD (unary text)

theorem knownHash_injective : Function.Injective knownHash := by
  have heads : ∀ known ∈ knownHashes, known.2.toList.head? ≠ some 'x' := by decide
  have distinct : ∀ known ∈ knownHashes, ∀ known' ∈ knownHashes, known.2 = known'.2 →
      known = known' := by decide
  refine injective_patched unary_injective distinct fun known among text same => ?_
  refine heads known among ?_
  rw [same, unary, String.toList_ofList, List.replicate_succ, List.head?_cons]

theorem plain_knownHash (text : String) : '\n' ∉ (knownHash text).toList := by
  have known : ∀ entry ∈ knownHashes, '\n' ∉ entry.2.toList := by decide
  rw [knownHash]
  cases looked : knownHashes.lookup text with
  | some hex =>
    obtain ⟨before, after, same, -⟩ := List.lookup_eq_some_iff.mp looked
    exact known (text, hex) (by rw [same]; exact List.mem_append_right _ List.mem_cons_self)
  | none =>
    rw [Option.getD_none, unary, String.toList_ofList]
    intro among
    exact absurd (List.eq_of_mem_replicate among) (by decide)

def plainCollection : Collection where
  sha256Hex := knownHash
  projectOf _ := none
  allows _ := true
  toolsSince := 0
  host := none
  lineBytes _ := 100
  providers := ["claude_code"]
  owner := ⟨"user-1", "token-1"⟩

def resultLine (callId : String) (isError : Bool) : TranscriptLine :=
  .json (.object [("type", .string "user"), ("message", .object [("content", .array [.object
    [("type", .string "tool_result"), ("tool_use_id", .string callId),
     ("is_error", .bool isError)]])])])

def callLine : TranscriptLine := assistantLine [callBlock "toolu_1" "mcp__github__search_issues"]

def wholeRun : List GrowingAction :=
  [.grow [callLine, resultLine "toolu_1" true] 1719800000123, .collect false false 1 true,
   .grow [.blank] 1719800001000]

theorem admitted_wholeRun : AdmittedRun (Growing.next plainCollection)
    (Growing.Timely plainCollection) .start wholeRun := by
  refine ⟨?_, fun _ _ => ⟨trivial, fun _ _ => ⟨?_, fun _ _ => trivial⟩⟩⟩
  · rintro ⟨_, _, _, _, -, -, held, -⟩
    cases held
  · rintro ⟨_, _, _, _, -, -, -, told, -⟩
    cases told

theorem outcomes_stored_wholeRun : ∃ state,
    Library.run (Growing.next plainCollection) .start wholeRun = some state ∧
    (plainCollection.fileTools state.mtimeMs state.lines).map RawToolActivity.outcome
      = [.failure] ∧
    ∀ call ∈ plainCollection.fileTools state.mtimeMs state.lines, ∃ row,
      (state.collect plainCollection false false 0 true).1.table.get (plainCollection.key call)
        = some row ∧ row.outcome = call.outcome := by
  obtain ⟨state, ends⟩ : ∃ state,
    Library.run (Growing.next plainCollection) .start wholeRun = some state := ⟨_, rfl⟩
  cases ends
  refine ⟨_, rfl, by decide, outcomes_stored knownHash_injective plain_knownHash
    (ReachableBy.of_run wholeRun admitted_wholeRun rfl) ?_ (by decide +kernel)⟩
  unfold Growing.OneOutcome
  decide +kernel

/-- **A run between a call and its result**: the call is stored without an outcome, and the run
after the result has nothing to send. -/
theorem late_unknown : ∃ state,
    Library.run (Growing.next plainCollection) .start
      [.grow [callLine] 1719800000123, .collect false false 1 true,
       .grow [resultLine "toolu_1" true] 1719800001000] = some state ∧
    (state.collect plainCollection false false 1 true).2 = true ∧
    (plainCollection.fileTools state.mtimeMs state.lines).map RawToolActivity.outcome
      = [.failure] ∧
    (plainCollection.fileTools state.mtimeMs state.lines).map (fun call =>
      ((state.collect plainCollection false false 1 true).1.table.get
        (plainCollection.key call)).map fun row => row.outcome) = [some .unknown] :=
  ⟨_, rfl, by decide +kernel, by decide +kernel, by decide +kernel⟩

end Toard.Server.ToolWire
