/-
**Accounting and progress of the queue.**

* **`queue_accounting`**: in every such file the counter is right, a failed call changes nothing, a
  call that stores a row stays within the limit, and a reader finds a batch that fits one request.
-/

import Toard.Library.Transition
import Toard.Shim.QueueSteps

namespace Toard.Shim

open Toard.Library (Numbered Reachable)

/-! ### Well-formed files -/

structure Database.WellFormed (db : Database) : Prop where
  version : db.userVersion = 1 ∨ db = .new
  bound : db.queueMeta = none → db.rows = []
  numbered : Numbered (·.sequence) db.rows db.lastSequence
  accounted : db.Accounted
  written : ∀ row ∈ db.rows, ∃ record, row.Holds record

namespace Database

theorem wellFormed_new : Database.new.WellFormed :=
  ⟨.inr rfl, fun _ => rfl, .nil, nofun, nofun⟩

theorem numbered_append {before : List PendingRow} {last : Nat} {added : List PendingRow}
    (numbered : Numbered (·.sequence) before last)
    (numbers : added.map (·.sequence) = List.range' (last + 1) added.length) :
    Numbered (·.sequence) (before ++ added) (last + added.length) := by
  induction added generalizing before last with
  | nil => simpa using numbered
  | cons row added ih =>
    simp only [List.map_cons, List.length_cons, List.range'_succ, List.cons.injEq] at numbers
    have rest := ih (numbered.push numbers.1) numbers.2
    rw [List.append_assoc, List.singleton_append] at rest
    rwa [List.length_cons, Nat.add_comm added.length, ← Nat.add_assoc]

theorem Stores.wellFormed {before after : Database} {added : List PendingRow}
    (stored : before.Stores after added) (valid : before.WellFormed)
    (bound : before.queueMeta ≠ none) (holds : ∀ row ∈ added, ∃ record, row.Holds record) :
    after.WellFormed := by
  refine ⟨?_, fun missing => ?_, ?_, stored.accounted valid.accounted, ?_⟩
  · rcases valid.version with version | rfl
    · exact .inl (stored.userVersion.trans version)
    · exact absurd rfl bound
  · rw [stored.queueMeta, account, Option.map_eq_none_iff] at missing
    exact absurd missing bound
  · rw [stored.rows, stored.lastSequence]
    exact numbered_append valid.numbered stored.numbers
  · intro row member
    rw [stored.rows] at member
    exact (List.mem_append.mp member).elim (valid.written row) (holds row)

theorem Removes.wellFormed {before after : Database} {sequences : List Nat}
    (removed : before.Removes after sequences) (valid : before.WellFormed)
    (bound : before.queueMeta ≠ none) : after.WellFormed := by
  refine ⟨?_, fun missing => ?_, ?_, removed.accounted valid.accounted, ?_⟩
  · rcases valid.version with version | rfl
    · exact .inl (removed.userVersion.trans version)
    · exact absurd rfl bound
  · rw [removed.queueMeta, account, Option.map_eq_none_iff] at missing
    exact absurd missing bound
  · rw [removed.rows, removed.lastSequence]
    exact valid.numbered.filter _
  · intro row member
    rw [removed.rows] at member
    exact valid.written row (List.mem_filter.mp member).1

theorem WellFormed.prepare {db : Database} (valid : db.WellFormed) :
    UsageQueue.prepare db = .ok { db with userVersion := 1, tables := 3 } := by
  rcases valid.version with version | rfl
  · simp [UsageQueue.prepare, version]
  · rfl

theorem WellFormed.prepared {db : Database} (valid : db.WellFormed) :
    ({ db with userVersion := 1, tables := 3 } : Database).WellFormed :=
  ⟨.inl rfl, valid.bound, valid.numbered, valid.accounted, valid.written⟩

theorem WellFormed.opened {db : Database} (valid : db.WellFormed) (requested : QueueIdentity)
    (random : String) :
    ({ db with
        userVersion := 1
        tables := 3
        queueMeta := some (UsageQueue.boundMeta db.queueMeta requested random) } :
      Database).WellFormed := by
  refine ⟨.inl rfl, nofun, valid.numbered, ?_, valid.written⟩
  intro queueMeta member
  cases member
  cases previous : db.queueMeta with
  | none =>
    show 0 = actualBytes _
    simp [actualBytes, valid.bound previous]
  | some queueMeta => exact valid.accounted queueMeta previous

end Database

/-! ### The operations keep a file well formed -/

namespace UsageQueue

theorem enqueue_wellFormed {db : Database} (valid : db.WellFormed) (queue : UsageQueue)
    (records : List QueueInput) : (queue.enqueue records db).2.WellFormed := by
  rcases enqueue_cases (Prod.mk.eta (p := queue.enqueue records db)).symm with
    ⟨error, -, kept⟩ | ⟨queueMeta, added, bound, -, -, stores, holds, -, -⟩
  · rwa [kept]
  · refine stores.wellFormed valid (by rw [bound]; exact Option.some_ne_none _) fun row member => ?_
    obtain ⟨record, -, held⟩ := holds row member
    exact ⟨record, held⟩

theorem acknowledge_wellFormed {db : Database} (valid : db.WellFormed) (queue : UsageQueue)
    (sequences : List Nat) : (queue.acknowledge sequences db).2.WellFormed := by
  rcases acknowledge_cases (Prod.mk.eta (p := queue.acknowledge sequences db)).symm with
    ⟨error, -, kept⟩ | ⟨queueMeta, bound, -, -, removed⟩
  · rwa [kept]
  · exact removed.wellFormed valid (by rw [bound]; exact Option.some_ne_none _)

theorem open_wellFormed {db : Database} (valid : db.WellFormed) (path : String)
    (requested : QueueIdentity) (maxBytes : Nat) (random : String) :
    (UsageQueue.open path requested maxBytes random db).2.WellFormed := by
  rcases open_cases (Prod.mk.eta (p := UsageQueue.open path requested maxBytes random db)).symm with
    ⟨error, -, kept | schema⟩ | ⟨-, -, -, -, bound⟩
  · rwa [kept]
  · rw [valid.prepare, Except.ok.injEq] at schema
    exact schema ▸ valid.prepared
  · exact bound ▸ valid.opened requested random

/-! ### One record -/

theorem enqueue_eq_of_connect {queue : UsageQueue} {db : Database} {queueMeta : QueueMeta}
    (connected : queue.connect db = .ok ()) (bound : db.queueMeta = some queueMeta)
    (records : List QueueInput) :
    queue.enqueue records db = db.transaction
      (enqueueLoop queue.maxBytes 0 queueMeta.pendingBytes records) := by
  simp only [enqueue, Database.transaction, connected, bound]
  rfl

theorem enqueue_fits {queue : UsageQueue} {db : Database} {queueMeta : QueueMeta}
    {record : QueueInput} (connected : queue.connect db = .ok ())
    (bound : db.queueMeta = some queueMeta) (deliverable : record.Deliverable)
    (fresh : ∀ row ∈ db.rows, row.eventKey ≠ record.event.dedupKey)
    (number : db.lastSequence < Database.maxSequence)
    (room : queueMeta.pendingBytes + (Json.toPretty record.event.toJson).utf8ByteSize
      ≤ queue.maxBytes) :
    ∃ after row, queue.enqueue [record] db = (.ok 1, after) ∧ db.Stores after [row] ∧
      row.Holds record := by
  have accepted := checkRecord_eq_ok.mpr ⟨deliverable, rfl⟩
  have absent : ¬ (db.rows.any fun row => row.eventKey == record.event.dedupKey) = true := by
    simpa using fresh
  have some : (Json.toPretty record.event.toJson).utf8ByteSize ≠ 0 := by
    rw [Json.utf8ByteSize_toPretty]
    exact Nat.succ_ne_zero _
  obtain ⟨after, inserts⟩ : ∃ after, db.insertRow record.event.dedupKey record.event.providerKey
      record.projectId (Json.toPretty record.event.toJson) = .ok after := by
    simp only [Database.insertRow]
    rw [if_neg (by
      rintro (empty | present | large)
      · exact some empty
      · exact absent present
      · omega)]
    exact ⟨_, rfl⟩
  obtain ⟨row, stores, held⟩ := Database.insertRow_eq_ok accepted inserts
  refine ⟨after, row, ?_, stores, held⟩
  have loop : enqueueLoop queue.maxBytes 0 queueMeta.pendingBytes [record] db = .ok (1, after) := by
    unfold enqueueLoop
    refine bind_eq_ok.mpr ⟨_, accepted, ?_⟩
    rw [if_neg absent, if_neg (by omega)]
    exact bind_eq_ok.mpr ⟨_, inserts, rfl⟩
  rw [enqueue_eq_of_connect connected bound, Database.transaction, loop]

theorem enqueue_waiting {queue : UsageQueue} {db : Database} {records : List QueueInput}
    (connected : queue.connect db = .ok ()) (deliverable : ∀ record ∈ records, record.Deliverable)
    (waiting : ∀ record ∈ records, ∃ row ∈ db.rows, row.eventKey = record.event.dedupKey) :
    queue.enqueue records db = (.ok 0, db) := by
  obtain ⟨queueMeta, bound, -⟩ := connect_eq_ok.mp connected
  have loop : enqueueLoop queue.maxBytes 0 queueMeta.pendingBytes records db = .ok (0, db) := by
    clear connected
    induction records with
    | nil => rfl
    | cons record records ih =>
      obtain ⟨accepted, others⟩ := List.forall_mem_cons.mp deliverable
      obtain ⟨⟨row, among, same⟩, rest⟩ := List.forall_mem_cons.mp waiting
      have present : (db.rows.any fun row => row.eventKey == record.event.dedupKey) = true :=
        List.any_eq_true.mpr ⟨row, among, beq_iff_eq.mpr same⟩
      unfold enqueueLoop
      refine bind_eq_ok.mpr ⟨_, checkRecord_eq_ok.mpr ⟨accepted, rfl⟩, ?_⟩
      rw [if_pos present]
      exact ih others rest
  rw [enqueue_eq_of_connect connected bound, Database.transaction, loop]

theorem enqueue_known {queue : UsageQueue} {db : Database} {record : QueueInput}
    (connected : queue.connect db = .ok ()) (deliverable : record.Deliverable)
    {row : PendingRow} (waiting : row ∈ db.rows) (same : row.eventKey = record.event.dedupKey) :
    queue.enqueue [record] db = (.ok 0, db) :=
  enqueue_waiting connected (List.forall_mem_singleton.mpr deliverable)
    (List.forall_mem_singleton.mpr ⟨row, waiting, same⟩)

/-! ### Readers of a well-formed file -/

theorem not_corruptRow {row : PendingRow} {record : QueueInput} (held : row.Holds record) :
    Json.parse row.payload = some record.event.toJson ∧
      corruptRow row record.event.toJson = false := by
  have deliverable := held.deliverable
  have project : (row.projectId.any fun id => !validProjectId id) = false := by
    rw [held.projectId]
    cases found : record.projectId with
    | none => rfl
    | some id => simp [deliverable.project id found]
  have provider : (record.event.toJson.get "providerKey").bind Json.Value.asStr
      = some row.providerKey := by
    rw [(UsageEvent.get_toJson record.event).2.1, held.providerKey]
    rfl
  constructor
  · rw [held.payload]
    exact UsageEvent.parse_toPretty deliverable.unpriced
  · have size := deliverable.size
    rw [← held.payload] at size
    simp [corruptRow, project, provider, size]

theorem readRows_ok (rows : List PendingRow) (written : ∀ row ∈ rows, ∃ record, row.Holds record)
    (bytes : Nat) (isEmpty : Bool) :
    ∃ batch, readRows bytes isEmpty rows = .ok batch ∧
      (bytes = 2 → isEmpty = true → rows ≠ [] → batch ≠ []) := by
  induction rows generalizing bytes isEmpty with
  | nil => exact ⟨[], rfl, fun _ _ some => absurd rfl some⟩
  | cons row rows ih =>
    obtain ⟨record, held⟩ := written row List.mem_cons_self
    obtain ⟨parsed, sound⟩ := not_corruptRow held
    obtain ⟨batch, rest, -⟩ := ih (fun row member => written row (List.mem_cons_of_mem _ member))
      (bytes + (row.payload.utf8ByteSize + (!isEmpty).toNat)) false
    simp only [readRows, parsed, sound, rest, Except.map, Bool.false_eq_true, if_false]
    by_cases fits : bytes + (row.payload.utf8ByteSize + (!isEmpty).toNat) > MAX_REQUEST_BYTES
    · rw [if_pos fits]
      refine ⟨[], rfl, fun start first _ => ?_⟩
      have size := held.deliverable.size
      rw [← held.payload] at size
      subst start first
      simp only [Bool.not_true, Bool.toNat_false] at fits
      omega
    · rw [if_neg fits]
      exact ⟨_, rfl, fun _ _ _ => List.cons_ne_nil _ _⟩

theorem selectRows_eq {db : Database} (numbered : Numbered (·.sequence) db.rows db.lastSequence)
    (provider : Option String) (scope : ProviderScope) (limit : Nat) :
    selectRows provider scope limit db =
      (db.rows.filter (wanted provider scope)).take (min limit 500) := by
  rw [selectRows, (numbered.filter _).insertionSort_eq]

/-- **A connected handle reads a batch**, and one with a row in it if a row is wanted. -/
theorem peekProvider_ok {queue : UsageQueue} {db : Database} (valid : db.WellFormed)
    (connected : queue.connect db = .ok ()) (provider : Option String) (scope : ProviderScope)
    (limit : Nat) :
    ∃ batch, queue.peekProvider provider scope limit db = .ok batch ∧
      (0 < limit → (∃ row ∈ db.rows, wanted provider scope row = true) → batch ≠ []) := by
  have select := selectRows_eq valid.numbered provider scope limit
  obtain ⟨batch, read, some⟩ := readRows_ok (selectRows provider scope limit db)
    (fun row member => by
      rw [select] at member
      exact valid.written row (List.mem_filter.mp (List.mem_of_mem_take member)).1) 2 true
  refine ⟨batch, bind_eq_ok.mpr ⟨(), connected, read⟩, ?_⟩
  rintro positive ⟨row, member, wanting⟩
  refine some rfl rfl ?_
  rw [select, Ne, List.take_eq_nil_iff, not_or]
  exact ⟨by omega, List.ne_nil_of_mem (List.mem_filter.mpr ⟨member, wanting⟩)⟩

theorem connect_ne_corrupt (queue : UsageQueue) (db : Database) :
    queue.connect db ≠ .error .corrupt := by
  unfold connect ensureIdentity
  split
  · exact fun same => by cases same
  · split
    · exact fun same => by cases same
    · split <;> exact fun same => by cases same

theorem peekProvider_ne_corrupt {db : Database} (valid : db.WellFormed) (queue : UsageQueue)
    (provider : Option String) (scope : ProviderScope) (limit : Nat) :
    queue.peekProvider provider scope limit db ≠ .error .corrupt := by
  cases connected : queue.connect db with
  | ok =>
    obtain ⟨batch, read, -⟩ := peekProvider_ok valid connected provider scope limit
    rw [read]
    exact fun same => by cases same
  | error error =>
    have failed : queue.peekProvider provider scope limit db = .error error := by
      simp only [peekProvider, connected]
      rfl
    rw [failed]
    intro same
    cases same
    exact connect_ne_corrupt queue db connected

theorem batchBody_le {queue : UsageQueue} {provider : Option String} {scope : ProviderScope}
    {limit : Nat} {db : Database} {batch : List QueuedUsage}
    (read : queue.peekProvider provider scope limit db = .ok batch) :
    (batchBody batch).utf8ByteSize ≤ MAX_REQUEST_BYTES := by
  rw [utf8ByteSize_batchBody]
  exact (peekProvider_eq_ok read).2.2

/-! ### Moving an older queue -/

section Import

variable {holds : Files → Prop}

theorem importBatch_invariant (queue source : UsageQueue)
    (enqueued : ∀ files (queue : UsageQueue) records, holds files →
      holds (files.on queue.path (queue.enqueue records)).2)
    (acknowledged : ∀ files (queue : UsageQueue) sequences, holds files →
      holds (files.on queue.path (queue.acknowledge sequences)).2)
    (batch : List QueuedUsage) (size : Nat) (files : Files) (initial : holds files) :
    holds (importBatch queue source batch size files).2 := by
  induction size using Nat.strong_induction_on generalizing files with
  | _ size ih =>
    unfold importBatch
    split
    · exact initial
    · rename_i inputs _
      have first := enqueued files queue inputs initial
      split
      · rename_i stored stores
        rw [stores] at first
        have second := acknowledged stored source ((batch.take size).map (·.sequence)) first
        split
        · rename_i moved moves
          rwa [moves] at second
        · rename_i kept keeps
          rwa [keeps] at second
      · rename_i kept keeps
        rw [keeps] at first
        split
        · exact ih (size / 2) (by omega) kept first
        · exact first
      · rename_i kept _ keeps
        rwa [keeps] at first

theorem importPending_invariant (queue source : UsageQueue)
    (enqueued : ∀ files (queue : UsageQueue) records, holds files →
      holds (files.on queue.path (queue.enqueue records)).2)
    (acknowledged : ∀ files (queue : UsageQueue) sequences, holds files →
      holds (files.on queue.path (queue.acknowledge sequences)).2)
    (files : Files) (initial : holds files) : holds (queue.importPending source files).2 := by
  have rounds : ∀ left imported files, holds files →
      holds (importRounds queue source left imported files).2 := by
    intro left
    induction left with
    | zero => exact fun _ _ initial => initial
    | succ left ih =>
      intro imported files initial
      unfold importRounds
      split
      · exact initial
      · exact initial
      · rename_i batch _ _
        have kept := importBatch_invariant queue source enqueued acknowledged batch batch.length
          files initial
        split
        · rename_i after moves
          rwa [moves] at kept
        · rename_i after moves
          rwa [moves] at kept
        · rename_i size after moves
          rw [moves] at kept
          exact ih (imported + size) after kept
  unfold importPending
  split
  · exact initial
  · exact rounds 32 0 files initial

end Import

end UsageQueue

/-! ### Any run of the operations -/

inductive QueueAction where
  | «open» (path : String) (requested : QueueIdentity) (maxBytes : Nat) (random : String)
  | enqueue (queue : UsageQueue) (records : List QueueInput)
  | acknowledge (queue : UsageQueue) (sequences : List Nat)
  | importPending (queue source : UsageQueue)

def QueueAction.next (files : Files) : QueueAction → Option Files
  | .open path requested maxBytes random =>
    some (files.on path (UsageQueue.open path requested maxBytes random)).2
  | .enqueue queue records => some (files.on queue.path (queue.enqueue records)).2
  | .acknowledge queue sequences => some (files.on queue.path (queue.acknowledge sequences)).2
  | .importPending queue source => some (queue.importPending source files).2

def Files.new : Files := fun _ => .new

theorem Files.on_invariant {α : Type} {holds : Database → Prop} {files : Files}
    (initial : ∀ path, holds (files path)) {path : String}
    {operation : Database → Except QueueError α × Database}
    (kept : holds (operation (files path)).2) :
    ∀ other, holds ((files.on path operation).2 other) := by
  intro other
  by_cases same : other = path
  · subst same
    simpa [Files.on] using kept
  · simpa [Files.on, same] using initial other

/-- What every operation on a file keeps holds of every file after any run of calls. -/
theorem Files.invariant {holds : Database → Prop} (new : holds .new)
    (opened : ∀ {db}, holds db → ∀ path requested maxBytes random,
      holds (UsageQueue.open path requested maxBytes random db).2)
    (enqueued : ∀ {db}, holds db → ∀ (queue : UsageQueue) records, holds (queue.enqueue records db).2)
    (acknowledged : ∀ {db}, holds db → ∀ (queue : UsageQueue) sequences,
      holds (queue.acknowledge sequences db).2) {files : Files}
    (reached : Reachable QueueAction.next .new files) (path : String) : holds (files path) := by
  refine Reachable.invariant (fun files : Files => ∀ path, holds (files path)) (fun _ => new) ?_
    reached path
  intro before action after valid moved
  cases action with
  | «open» path requested maxBytes random =>
    cases moved
    exact before.on_invariant valid (opened (valid path) path requested maxBytes random)
  | enqueue queue records =>
    cases moved
    exact before.on_invariant valid (enqueued (valid queue.path) queue records)
  | acknowledge queue sequences =>
    cases moved
    exact before.on_invariant valid (acknowledged (valid queue.path) queue sequences)
  | importPending queue source =>
    cases moved
    exact queue.importPending_invariant source
      (fun files queue records valid => files.on_invariant valid (enqueued (valid queue.path) queue records))
      (fun files queue sequences valid =>
        files.on_invariant valid (acknowledged (valid queue.path) queue sequences)) before valid

/-- **Every file is well formed** after any run of calls. -/
theorem queue_wellFormed {files : Files} (reached : Reachable QueueAction.next .new files)
    (path : String) : (files path).WellFormed :=
  Files.invariant Database.wellFormed_new UsageQueue.open_wellFormed
    (fun valid queue => queue.enqueue_wellFormed valid)
    (fun valid queue => queue.acknowledge_wellFormed valid) reached path

structure Database.KeepsAccounts (db : Database) : Prop where
  counter : ∀ queueMeta, db.queueMeta = some queueMeta →
    queueMeta.pendingBytes = (db.rows.map (·.payloadBytes)).sum
  limit : ∀ queue records count after, UsageQueue.enqueue queue records db = (.ok count, after) →
    0 < count → ∃ queueMeta, after.queueMeta = some queueMeta ∧
      queueMeta.pendingBytes = (after.rows.map (·.payloadBytes)).sum ∧
      queueMeta.pendingBytes ≤ queue.maxBytes
  /-- A call that succeeds has stored each record, or found it waiting. -/
  stored : ∀ queue records count after, UsageQueue.enqueue queue records db = (.ok count, after) →
    ∀ record ∈ records, ∃ row ∈ after.rows, row.eventKey = record.event.dedupKey
  rollback : ∀ queue records error after,
    UsageQueue.enqueue queue records db = (.error error, after) → after = db
  sound : ∀ queue provider scope limit,
    UsageQueue.peekProvider queue provider scope limit db ≠ .error .corrupt
  progress : ∀ queue provider scope limit, UsageQueue.connect queue db = .ok () → 0 < limit →
    (∃ row ∈ db.rows, (∀ key ∈ provider, row.providerKey = key) ∧
      scope.allows row.projectId = true) →
    ∃ batch, UsageQueue.peekProvider queue provider scope limit db = .ok batch ∧ batch ≠ []
  request : ∀ queue provider scope limit batch,
    UsageQueue.peekProvider queue provider scope limit db = .ok batch →
    (batchBody batch).utf8ByteSize ≤ 4 * 1024 * 1024

/-- **Every queue file keeps its accounts and lets its readers make progress**, after any run of
calls. -/
theorem queue_accounting {files : Files} (reached : Reachable QueueAction.next .new files)
    (path : String) : (files path).KeepsAccounts where
  counter := (queue_wellFormed reached path).accounted
  limit := by
    intro queue records count after done positive
    rcases UsageQueue.enqueue_cases done with
      ⟨error, failed, -⟩ | ⟨queueMeta, added, bound, -, succeeded, stores, -, -, bounded⟩
    · cases failed
    · cases succeeded
      have counted := stores.queueMeta
      rw [Database.account, bound, Option.map_some] at counted
      have accounted := stores.accounted (queue_wellFormed reached path).accounted _ counted
      exact ⟨_, counted, accounted, bounded (List.ne_nil_of_length_pos positive)⟩
  stored := by
    intro queue records count after done
    rcases UsageQueue.enqueue_cases done with
      ⟨error, failed, -⟩ | ⟨queueMeta, added, -, -, -, -, -, covered, -⟩
    · cases failed
    · exact covered
  rollback := by
    intro queue records error after done
    rcases UsageQueue.enqueue_cases done with
      ⟨error, -, kept⟩ | ⟨queueMeta, added, -, -, succeeded, -, -, -, -⟩
    · exact kept
    · cases succeeded
  sound := UsageQueue.peekProvider_ne_corrupt (queue_wellFormed reached path)
  progress := by
    rintro queue provider scope limit connected positive ⟨row, member, wanted⟩
    obtain ⟨batch, read, some⟩ := UsageQueue.peekProvider_ok (queue_wellFormed reached path)
      connected provider scope limit
    exact ⟨batch, read, some positive ⟨row, member, UsageQueue.wanted_iff.mpr wanted⟩⟩
  request := fun _ _ _ _ _ read => UsageQueue.batchBody_le read

/-! ### A queue that was opened again -/

def fixture (key : String) : QueueInput where
  event := {
    dedupKey := key
    providerKey := "codex"
    userId := none
    sessionId := some "fixture-session"
    model := some "fixture-model"
    ts := "2026-09-05T00:00:00Z"
    inputTokens := 10
    outputTokens := 2
    cacheReadTokens := 0
    cacheCreationTokens := 0
    cacheCreation1hTokens := 0
    costUsd := .zero
    logAdapter := some "codex"
    host := none }
  projectId := some "opaque-project-id"

def fixtureDigest : String → String
  | "token" => "3c469e9d6c5875d37a43f353d4f88e61fcf812c66eee3457465a40b0da4153e0"
  | "old" => "cba06b5736faf67e54b07b561eae94395e774c517a7d910a54369e1263ccfbd4"
  | "rotated" => "f42546d5ecdd452509808b2d6d0413b5a738c70a793b99ccf8ed6f423aac83d3"
  | "stranger" => "8aca4f36774f82a67c507cb9c96679482e2cc767f2d38502269557a566b092fb"
  | _ => ""

def fixtureIdentity : QueueIdentity :=
  .new fixtureDigest "destination" none "token"

def filledRun : List QueueAction :=
  [.open "queue" fixtureIdentity DEFAULT_MAX_BYTES "instance",
   .enqueue ⟨"queue", "instance", fixtureIdentity, DEFAULT_MAX_BYTES⟩ [fixture "one"]]

/-- The accounts of a file after a run. -/
theorem queue_accounting_filledRun :
    ∃ files, Library.run QueueAction.next .new filledRun = some files ∧
      (files "queue").KeepsAccounts :=
  ⟨_, rfl, queue_accounting (Reachable.of_run filledRun rfl) "queue"⟩

set_option maxRecDepth 8000 in
theorem size_fixture :
    300 < (Json.toPretty (fixture "one").event.toJson).utf8ByteSize ∧
      (Json.toPretty (fixture "one").event.toJson).utf8ByteSize < 1000 := by
  rw [Json.utf8ByteSize_toPretty]
  decide

theorem deliverable_fixture : (fixture "one").Deliverable where
  anonymous := rfl
  unpriced := rfl
  contract := by constructor <;> decide
  project := by
    rintro id ⟨⟩
    decide
  size := by
    have size := size_fixture.2
    unfold MAX_REQUEST_BYTES
    omega

/-- **The limit binds the calls that store something, a batch needs room for a row.** A handle with
a smaller limit may call `enqueue` for a record that waits already, and the counter stays above its
limit; a reader that asks for no rows gets none. -/
theorem limit_of_another_handle :
    ∃ files queue after queueMeta, Reachable QueueAction.next .new files ∧
      UsageQueue.enqueue queue [fixture "one"] (files "queue") = (.ok 0, after) ∧
      after.queueMeta = some queueMeta ∧ queue.maxBytes < queueMeta.pendingBytes ∧
      after.rows ≠ [] ∧ queue.peekProvider none .all 0 after = .ok [] := by
  let small : UsageQueue := ⟨"queue", "instance", fixtureIdentity, 300⟩
  have size := size_fixture
  have room (queueMeta : QueueMeta) (empty : queueMeta.pendingBytes = 0) {bytes : Nat}
      (few : bytes < 1000) : queueMeta.pendingBytes + bytes ≤ DEFAULT_MAX_BYTES := by
    rw [empty, Nat.zero_add]
    exact few.le.trans (by decide)
  obtain ⟨filled, row, stored, stores, held⟩ := @UsageQueue.enqueue_fits
    ⟨"queue", "instance", fixtureIdentity, DEFAULT_MAX_BYTES⟩
    (UsageQueue.open "queue" fixtureIdentity DEFAULT_MAX_BYTES "instance" .new).2
    ⟨"destination", none, fixtureDigest "token", "instance", 0⟩ (fixture "one")
    (by decide) (by decide) deliverable_fixture nofun (by decide)
    (room _ rfl size.2)
  have bound := stores.queueMeta
  have waiting : row ∈ filled.rows := stores.rows ▸ List.mem_cons_self
  have connected : small.connect filled = .ok () :=
    UsageQueue.connect_eq_ok.mpr ⟨_, bound, rfl, rfl⟩
  have known := UsageQueue.enqueue_known connected deliverable_fixture waiting held.eventKey
  refine ⟨fun path => if path = "queue" then filled else .new, small, filled, _, ?_, known, bound,
    ?_, List.ne_nil_of_mem waiting, ?_⟩
  · refine Reachable.of_run filledRun ?_
    simp only [filledRun, Library.run_cons, Library.run_nil, QueueAction.next, Option.bind_some,
      Files.on, Function.update_idem, Function.update_self, Option.some.injEq]
    funext path
    by_cases same : path = "queue"
    · subst same
      rw [Function.update_self, if_pos rfl]
      exact congrArg Prod.snd stored
    · rw [Function.update_of_ne same, if_neg same]
      rfl
  · rw [← held.payload, ← held.payloadBytes] at size
    show 300 < 0 + [row.payloadBytes].sum
    simpa using size.1
  · simp only [UsageQueue.peekProvider, UsageQueue.selectRows, Nat.zero_min, List.take_zero,
      connected]
    rfl

/-- **A record is stored once.** As long as the rows wait, a further `enqueue` of some of the records
succeeds through any handle that may connect, whatever its limit, and changes nothing. -/
theorem UsageQueue.enqueue_again {queue handle : UsageQueue} {records again : List QueueInput}
    {db after later : Database} {count : Nat}
    (done : queue.enqueue records db = (.ok count, after)) (wait : after.rows ⊆ later.rows)
    (connected : handle.connect later = .ok ()) (some : again ⊆ records) :
    handle.enqueue again later = (.ok 0, later) := by
  refine enqueue_waiting connected
    (fun record among => deliverable_of_enqueue done record (some among)) fun record among => ?_
  rcases enqueue_cases done with ⟨error, failed, -⟩ | ⟨_, _, _, -, -, -, -, covered, -⟩
  · cases failed
  · obtain ⟨row, stored, same⟩ := covered record (some among)
    exact ⟨row, wait stored, same⟩

/-- The record of a full queue comes again through a handle with less room. -/
theorem enqueue_again_fixture : ∃ after,
    UsageQueue.enqueue ⟨"queue", "instance", fixtureIdentity, 300⟩ [fixture "one", fixture "one"] after
      = (.ok 0, after) ∧ after.rows.length = 1 := by
  obtain ⟨after, row, stored, stores, -⟩ := @UsageQueue.enqueue_fits
    ⟨"queue", "instance", fixtureIdentity, DEFAULT_MAX_BYTES⟩
    (UsageQueue.open "queue" fixtureIdentity DEFAULT_MAX_BYTES "instance" .new).2
    ⟨"destination", none, fixtureDigest "token", "instance", 0⟩ (fixture "one")
    (by decide) (by decide) deliverable_fixture (by decide) (by decide) (by
      rw [Nat.zero_add]
      exact size_fixture.2.le.trans (by decide))
  refine ⟨after, UsageQueue.enqueue_again stored (List.Subset.refl _) ?_ (by simp), ?_⟩
  · exact UsageQueue.connect_eq_ok.mpr ⟨_, stores.queueMeta, rfl, rfl⟩
  · rw [stores.rows]
    rfl

end Toard.Shim
