/-
**What each queue operation can do.**

One inversion theorem for each operation; the invariants of the queue are derived from these and
never look into the operations again.

* **`checkRecord_eq_ok`**: a record is accepted exactly if it is `Deliverable`.
* **`enqueue_cases`**: nothing changes, or the file `Stores` new rows, each of which holds one of
  the records, under new numbers.
* **`acknowledge_cases`**: nothing changes, or the file `Removes` the rows with these numbers.
* **`open_cases`**: the rows stay; the file is bound to an identity or keeps the one it had.
* **`peekProvider_eq_ok`**: the rows read are the first of the query.
-/

import Mathlib.Tactic.Ring
import Toard.Library.Numbered
import Toard.Shim.UsageQueue

namespace Toard.Shim

open Toard.Library (Numbered)

/-! ### Records -/

structure QueueInput.Deliverable (record : QueueInput) : Prop where
  anonymous : record.event.userId = none
  unpriced : record.event.costUsd = .zero
  contract : record.event.WithinContract
  project : ∀ id ∈ record.projectId, validProjectId id = true
  size : (Json.toPretty record.event.toJson).utf8ByteSize + 2 ≤ MAX_REQUEST_BYTES

theorem isOk_fromJson {event : UsageEvent} (free : event.costUsd = .zero) :
    (UsageEvent.fromJson event.toJson).isOk = true ↔ event.WithinContract := by
  constructor
  · intro accepted
    cases read : UsageEvent.fromJson event.toJson with
    | error error =>
      rw [read] at accepted
      cases accepted
    | ok other => exact ((UsageEvent.fromJson_toJson free).mp read).1
  · intro contract
    rw [(UsageEvent.fromJson_toJson free).mpr ⟨contract, rfl⟩]
    rfl

/-- **A record is accepted exactly if it is deliverable**, and refused as invalid otherwise. -/
theorem checkRecord_eq_ok {record : QueueInput} {payload : String} :
    UsageQueue.checkRecord record = .ok payload ↔
      record.Deliverable ∧ payload = Json.toPretty record.event.toJson := by
  simp only [UsageQueue.checkRecord]
  constructor
  · intro accepted
    split at accepted
    case isTrue => cases accepted
    case isFalse valid =>
      simp only [not_or, ne_eq, not_not, Bool.not_eq_false, Bool.not_eq_true] at valid
      obtain ⟨anonymous, unpriced, contract, project⟩ := valid
      split at accepted
      case isTrue => cases accepted
      case isFalse size =>
        cases accepted
        refine ⟨⟨anonymous, unpriced, (isOk_fromJson unpriced).mp contract, ?_, Nat.not_lt.mp size⟩,
          rfl⟩
        intro id member
        rw [Option.mem_def.mp member] at project
        simpa using project
  · rintro ⟨deliverable, rfl⟩
    have project : (record.projectId.any fun id => !validProjectId id) = false := by
      cases found : record.projectId with
      | none => rfl
      | some id => simp [deliverable.project id found]
    rw [if_neg, if_neg (Nat.not_lt.mpr deliverable.size)]
    simp [deliverable.anonymous, deliverable.unpriced, project,
      (isOk_fromJson deliverable.unpriced).mpr deliverable.contract]

/-- A row that holds a record, as `enqueue` writes it. -/
structure PendingRow.Holds (row : PendingRow) (record : QueueInput) : Prop where
  eventKey : row.eventKey = record.event.dedupKey
  providerKey : row.providerKey = record.event.providerKey
  projectId : row.projectId = record.projectId
  payload : row.payload = Json.toPretty record.event.toJson
  payloadBytes : row.payloadBytes = row.payload.utf8ByteSize
  deliverable : record.Deliverable

/-! ### Statements -/

namespace Database

structure Stores (before after : Database) (added : List PendingRow) : Prop where
  rows : after.rows = before.rows ++ added
  numbers : added.map (·.sequence) = List.range' (before.lastSequence + 1) added.length
  lastSequence : after.lastSequence = before.lastSequence + added.length
  queueMeta : after.queueMeta = before.account (· + (added.map (·.payloadBytes)).sum)
  userVersion : after.userVersion = before.userVersion

structure Removes (before after : Database) (sequences : List Nat) : Prop where
  rows : after.rows = before.rows.filter fun row => !sequences.contains row.sequence
  lastSequence : after.lastSequence = before.lastSequence
  queueMeta : after.queueMeta = before.account (· - (before.actualBytes - after.actualBytes))
  userVersion : after.userVersion = before.userVersion

theorem account_id {db : Database} {update : Nat → Nat} (same : ∀ n, update n = n) :
    db.account update = db.queueMeta := by
  have keep : (fun queueMeta : QueueMeta =>
      { queueMeta with pendingBytes := update queueMeta.pendingBytes }) = id := by
    funext queueMeta
    simp [same]
  rw [account, keep, Option.map_id, id]

theorem account_account {before middle : Database} {first second : Nat → Nat}
    (counted : middle.queueMeta = before.account first) :
    middle.account second = before.account fun n => second (first n) := by
  simp only [account, counted, Option.map_map]
  rfl

theorem Stores.refl (db : Database) : db.Stores db [] :=
  ⟨(List.append_nil _).symm, rfl, rfl, (account_id fun _ => rfl).symm, rfl⟩

theorem Stores.cons {before middle after : Database} {row : PendingRow} {added : List PendingRow}
    (first : before.Stores middle [row]) (rest : middle.Stores after added) :
    before.Stores after (row :: added) := by
  have number : row.sequence = before.lastSequence + 1 := by
    simpa using first.numbers
  refine ⟨?_, ?_, ?_, ?_, rest.userVersion.trans first.userVersion⟩
  · rw [rest.rows, first.rows, List.append_assoc, List.singleton_append]
  · rw [List.map_cons, rest.numbers, first.lastSequence, number]
    rfl
  · rw [rest.lastSequence, first.lastSequence, List.length_singleton, List.length_cons]
    omega
  · rw [rest.queueMeta, account_account first.queueMeta]
    congr 1
    funext n
    simp [Nat.add_assoc]

theorem insertRow_eq_ok {db after : Database} {record : QueueInput} {payload : String}
    (accepted : UsageQueue.checkRecord record = .ok payload)
    (inserted : db.insertRow record.event.dedupKey record.event.providerKey record.projectId
      payload = .ok after) :
    ∃ row : PendingRow, db.Stores after [row] ∧ row.Holds record := by
  obtain ⟨deliverable, rfl⟩ := checkRecord_eq_ok.mp accepted
  simp only [insertRow] at inserted
  split at inserted
  case isTrue => cases inserted
  case isFalse =>
    cases inserted
    exact ⟨_, ⟨rfl, rfl, rfl, by simp, rfl⟩, ⟨rfl, rfl, rfl, rfl, rfl, deliverable⟩⟩

theorem actualBytes_filter (rows : List PendingRow) (keep : PendingRow → Bool) :
    ((rows.filter keep).map (·.payloadBytes)).sum +
      ((rows.filter fun row => !keep row).map (·.payloadBytes)).sum
      = (rows.map (·.payloadBytes)).sum := by
  induction rows with
  | nil => rfl
  | cons row rows ih =>
    cases kept : keep row <;> simp [kept, ← ih] <;> omega

theorem Removes.refl (db : Database) : db.Removes db [] := by
  refine ⟨?_, rfl, (account_id fun n => ?_).symm, rfl⟩
  · simp
  · simp

theorem Removes.actualBytes_le {before after : Database} {sequences : List Nat}
    (removed : before.Removes after sequences) : after.actualBytes ≤ before.actualBytes := by
  unfold actualBytes
  rw [removed.rows, ← actualBytes_filter before.rows fun row => !sequences.contains row.sequence]
  exact Nat.le_add_right _ _

theorem Removes.cons {before middle after : Database} {sequence : Nat} {sequences : List Nat}
    (first : before.Removes middle [sequence]) (rest : middle.Removes after sequences) :
    before.Removes after (sequence :: sequences) := by
  refine ⟨?_, rest.lastSequence.trans first.lastSequence, ?_,
    rest.userVersion.trans first.userVersion⟩
  · rw [rest.rows, first.rows, List.filter_filter]
    congr 1
    funext row
    simp [Bool.and_comm]
  · rw [rest.queueMeta, account_account first.queueMeta]
    have lower := rest.actualBytes_le
    have upper := first.actualBytes_le
    congr 1
    funext n
    omega

theorem deleteRow_eq_ok {db after : Database} {sequence : Nat}
    (deleted : db.deleteRow sequence = .ok after) : db.Removes after [sequence] := by
  simp only [deleteRow] at deleted
  split at deleted
  case isTrue => cases deleted
  case isFalse =>
    cases deleted
    have total := actualBytes_filter db.rows (·.sequence == sequence)
    refine ⟨?_, rfl, ?_, rfl⟩
    · refine List.filter_congr fun row _ => ?_
      simp [bne, beq_eq_decide]
    · simp only [actualBytes, bne] at total ⊢
      rw [← total, Nat.add_sub_cancel]

def Accounted (db : Database) : Prop :=
  ∀ queueMeta ∈ db.queueMeta, queueMeta.pendingBytes = db.actualBytes

theorem Stores.accounted {before after : Database} {added : List PendingRow}
    (stored : before.Stores after added) (accounted : before.Accounted) : after.Accounted := by
  intro queueMeta member
  rw [stored.queueMeta, account, Option.mem_def, Option.map_eq_some_iff] at member
  obtain ⟨previous, present, rfl⟩ := member
  simp [actualBytes, stored.rows, accounted previous present]

theorem Removes.accounted {before after : Database} {sequences : List Nat}
    (removed : before.Removes after sequences) (accounted : before.Accounted) :
    after.Accounted := by
  intro queueMeta member
  rw [removed.queueMeta, account, Option.mem_def, Option.map_eq_some_iff] at member
  obtain ⟨previous, present, rfl⟩ := member
  have less := removed.actualBytes_le
  have counted := accounted previous present
  simp only [counted]
  omega

theorem transaction_cases {α : Type} {body : Database → Except QueueError (α × Database)}
    {db after : Database} {result : Except QueueError α}
    (done : db.transaction body = (result, after)) :
    (∃ error, body db = .error error ∧ result = .error error ∧ after = db) ∨
      ∃ value, body db = .ok (value, after) ∧ result = .ok value := by
  unfold transaction at done
  cases ran : body db with
  | error error =>
    rw [ran] at done
    cases done
    exact .inl ⟨error, rfl, rfl, rfl⟩
  | ok pair =>
    rw [ran] at done
    cases done
    exact .inr ⟨_, rfl, rfl⟩

end Database

/-! ### Operations -/

namespace UsageQueue

structure Connected (queue : UsageQueue) (queueMeta : QueueMeta) : Prop where
  instanceId : queueMeta.instanceId = queue.instanceId
  compatible : queue.identity.compatible queueMeta.identity = true

theorem connect_eq_ok {queue : UsageQueue} {db : Database} :
    queue.connect db = .ok () ↔ ∃ queueMeta, db.queueMeta = some queueMeta ∧
      queue.Connected queueMeta := by
  unfold connect ensureIdentity
  cases found : db.queueMeta with
  | none => simp
  | some queueMeta =>
    by_cases same : queueMeta.instanceId = queue.instanceId
    · by_cases fits : queue.identity.compatible queueMeta.identity = true
      · simpa [same, fits] using ⟨same, fits⟩
      · simpa [same, fits] using fun connected : queue.Connected queueMeta =>
          fits connected.compatible
    · simpa [same] using fun connected : queue.Connected queueMeta => same connected.instanceId

theorem connect_eq_error {queue : UsageQueue} {db : Database} {queueMeta : QueueMeta}
    (bound : db.queueMeta = some queueMeta) (stranger : ¬ queue.Connected queueMeta) :
    queue.connect db = .error .identityChanged := by
  unfold connect ensureIdentity
  rw [bound]
  by_cases same : queueMeta.instanceId = queue.instanceId
  · have unfit : ¬ queue.identity.compatible queueMeta.identity = true :=
      fun fits => stranger ⟨same, fits⟩
    simp [same, unfit]
  · simp [same]

/-- **What the loop of `enqueue` can do**: it stores new rows, each of which holds one of the
records; then every record has a row, and the counter it carries is within the limit if a row is
new. -/
theorem enqueueLoop_eq_ok {maxBytes : Nat} {records : List QueueInput} {inserted count : Nat}
    {bytes : Nat} {db after : Database}
    (stored : enqueueLoop maxBytes inserted bytes records db = .ok (count, after)) :
    ∃ added, db.Stores after added ∧ count = inserted + added.length ∧
      (∀ row ∈ added, ∃ record ∈ records, row.Holds record) ∧
      (∀ record ∈ records, ∃ row ∈ after.rows, row.eventKey = record.event.dedupKey) ∧
      (added ≠ [] → bytes + (added.map (·.payloadBytes)).sum ≤ maxBytes) := by
  induction records generalizing inserted bytes db with
  | nil =>
    cases stored
    exact ⟨[], .refl _, rfl, fun _ member => absurd member List.not_mem_nil,
      fun _ member => absurd member List.not_mem_nil, fun some => absurd rfl some⟩
  | cons record records ih =>
    unfold enqueueLoop at stored
    obtain ⟨payload, accepted, stored⟩ := bind_eq_ok.mp stored
    have later : ∀ {row}, (∃ other ∈ records, PendingRow.Holds row other) →
        ∃ other ∈ record :: records, PendingRow.Holds row other :=
      fun ⟨other, member, holds⟩ => ⟨other, List.mem_cons_of_mem _ member, holds⟩
    split at stored
    case isTrue present =>
      obtain ⟨added, stores, counted, holds, covered, bounded⟩ := ih stored
      refine ⟨added, stores, counted, fun row member => later (holds row member), ?_, bounded⟩
      intro other member
      rcases List.mem_cons.mp member with rfl | member
      · obtain ⟨row, old, same⟩ := List.any_eq_true.mp present
        exact ⟨row, stores.rows ▸ List.mem_append_left _ old, eq_of_beq same⟩
      · exact covered other member
    case isFalse =>
      split at stored
      case isTrue => cases stored
      case isFalse fits =>
        obtain ⟨middle, inserts, stored⟩ := bind_eq_ok.mp stored
        obtain ⟨row, first, held⟩ := Database.insertRow_eq_ok accepted inserts
        obtain ⟨added, rest, counted, holds, covered, bounded⟩ := ih stored
        obtain ⟨-, rfl⟩ := checkRecord_eq_ok.mp accepted
        have size : row.payloadBytes = (Json.toPretty record.event.toJson).utf8ByteSize := by
          rw [held.payloadBytes, held.payload]
        refine ⟨row :: added, first.cons rest, ?_, ?_, ?_, fun _ => ?_⟩
        · rw [counted, List.length_cons]
          omega
        · intro other member
          rcases List.mem_cons.mp member with rfl | member
          · exact ⟨record, List.mem_cons_self, held⟩
          · exact later (holds other member)
        · intro other member
          rcases List.mem_cons.mp member with rfl | member
          · refine ⟨row, ?_, held.eventKey⟩
            rw [rest.rows, first.rows]
            exact List.mem_append_left _ (List.mem_append_right _ List.mem_cons_self)
          · exact covered other member
        · rw [List.map_cons, List.sum_cons, size]
          by_cases alone : added = []
          · simp only [alone, List.map_nil, List.sum_nil]
            omega
          · have := bounded alone
            omega

theorem enqueueLoop_deliverable {maxBytes : Nat} {records : List QueueInput} {inserted count : Nat}
    {bytes : Nat} {db after : Database}
    (stored : enqueueLoop maxBytes inserted bytes records db = .ok (count, after)) :
    ∀ record ∈ records, record.Deliverable := by
  induction records generalizing inserted bytes db with
  | nil => exact fun _ none => (nomatch none)
  | cons record records ih =>
    unfold enqueueLoop at stored
    obtain ⟨payload, accepted, stored⟩ := bind_eq_ok.mp stored
    have rest : ∀ other ∈ records, other.Deliverable := by
      split at stored
      · exact ih stored
      · split at stored
        · cases stored
        · obtain ⟨middle, -, stored⟩ := bind_eq_ok.mp stored
          exact ih stored
    intro other among
    rcases List.mem_cons.mp among with rfl | later
    · exact (checkRecord_eq_ok.mp accepted).1
    · exact rest other later

theorem deliverable_of_enqueue {queue : UsageQueue} {records : List QueueInput} {db after : Database}
    {count : Nat} (done : queue.enqueue records db = (.ok count, after)) :
    ∀ record ∈ records, record.Deliverable := by
  rcases Database.transaction_cases done with ⟨error, -, failed, -⟩ | ⟨_, ran, -⟩
  · cases failed
  · obtain ⟨_, -, stored⟩ := bind_eq_ok.mp ran
    exact enqueueLoop_deliverable stored

/-- **What `enqueue` can do**: fail and change nothing, or store the records that are new. -/
theorem enqueue_cases {queue : UsageQueue} {records : List QueueInput} {db after : Database}
    {result : Except QueueError Nat} (done : queue.enqueue records db = (result, after)) :
    (∃ error, result = .error error ∧ after = db) ∨
      ∃ queueMeta added, db.queueMeta = some queueMeta ∧ queue.Connected queueMeta ∧
        result = .ok added.length ∧ db.Stores after added ∧
        (∀ row ∈ added, ∃ record ∈ records, row.Holds record) ∧
        (∀ record ∈ records, ∃ row ∈ after.rows, row.eventKey = record.event.dedupKey) ∧
        (added ≠ [] →
          queueMeta.pendingBytes + (added.map (·.payloadBytes)).sum ≤ queue.maxBytes) := by
  rcases Database.transaction_cases done with ⟨error, -, failed, kept⟩ | ⟨count, ran, succeeded⟩
  · exact .inl ⟨error, failed, kept⟩
  · obtain ⟨⟨⟩, connected, stored⟩ := bind_eq_ok.mp ran
    obtain ⟨queueMeta, bound, connected⟩ := connect_eq_ok.mp connected
    obtain ⟨added, stores, counted, holds, covered, bounded⟩ := enqueueLoop_eq_ok stored
    rw [bound] at bounded
    rw [Nat.zero_add] at counted
    exact .inr ⟨queueMeta, added, bound, connected, counted ▸ succeeded, stores, holds, covered,
      bounded⟩

theorem wanted_iff {provider : Option String} {scope : ProviderScope} {row : PendingRow} :
    wanted provider scope row = true ↔
      (∀ key ∈ provider, row.providerKey = key) ∧ scope.allows row.projectId = true := by
  unfold wanted
  rw [projectPredicate_queryParameters, Bool.and_eq_true]
  cases provider <;> simp

/-- The bytes a batch takes in a request that already holds some rows, or none yet. -/
def batchBytes (isEmpty : Bool) (batch : List QueuedUsage) : Nat :=
  (batch.map (·.payload.utf8ByteSize)).sum + (batch.length - if isEmpty then 1 else 0)

theorem readRows_eq_ok {rows : List PendingRow} {bytes : Nat} {isEmpty : Bool}
    {batch : List QueuedUsage} (room : bytes ≤ MAX_REQUEST_BYTES)
    (read : readRows bytes isEmpty rows = .ok batch) :
    (∃ count, batch = (rows.take count).map PendingRow.queued) ∧
      bytes + batchBytes isEmpty batch ≤ MAX_REQUEST_BYTES := by
  induction rows generalizing bytes isEmpty batch with
  | nil =>
    cases read
    exact ⟨⟨0, rfl⟩, by simpa [batchBytes] using room⟩
  | cons row rows ih =>
    simp only [readRows] at read
    cases parsed : Json.parse row.payload with
    | none =>
      rw [parsed] at read
      cases read
    | some value =>
      rw [parsed] at read
      dsimp only at read
      split at read
      case isTrue => cases read
      case isFalse =>
        split at read
        case isTrue =>
          cases read
          exact ⟨⟨0, rfl⟩, by simpa [batchBytes] using room⟩
        case isFalse fits =>
          cases rest : readRows (bytes + (row.payload.utf8ByteSize + (!isEmpty).toNat)) false
              rows with
          | error error =>
            rw [rest] at read
            cases read
          | ok others =>
            rw [rest] at read
            cases read
            obtain ⟨⟨count, rfl⟩, room⟩ := ih (Nat.not_lt.mp fits) rest
            refine ⟨⟨count + 1, by rw [List.take_succ_cons, List.map_cons]⟩, ?_⟩
            simp only [batchBytes, List.map_cons, List.sum_cons, List.length_cons] at room ⊢
            cases isEmpty <;> simp [PendingRow.queued] at room ⊢ <;> omega

/-- **What `peek_provider` returns**: the first rows of the query, for a connected handle. -/
theorem peekProvider_eq_ok {queue : UsageQueue} {provider : Option String} {scope : ProviderScope}
    {limit : Nat} {db : Database} {batch : List QueuedUsage}
    (read : queue.peekProvider provider scope limit db = .ok batch) :
    (∃ queueMeta, db.queueMeta = some queueMeta ∧ queue.Connected queueMeta) ∧
      (∃ count, batch = ((selectRows provider scope limit db).take count).map
        PendingRow.queued) ∧
      2 + batchBytes true batch ≤ MAX_REQUEST_BYTES := by
  obtain ⟨⟨⟩, connected, read⟩ := bind_eq_ok.mp read
  obtain ⟨taken, room⟩ := readRows_eq_ok (by decide) read
  exact ⟨connect_eq_ok.mp connected, taken, room⟩

theorem foldlM_deleteRow_eq_ok {sequences : List Nat} {db after : Database}
    (deleted : sequences.foldlM Database.deleteRow db = .ok after) :
    db.Removes after sequences := by
  induction sequences generalizing db with
  | nil =>
    cases deleted
    exact .refl _
  | cons sequence sequences ih =>
    rw [List.foldlM_cons] at deleted
    obtain ⟨middle, first, rest⟩ := bind_eq_ok.mp deleted
    exact (Database.deleteRow_eq_ok first).cons (ih rest)

/-- **What `acknowledge` can do**: fail and change nothing, or remove exactly these rows. -/
theorem acknowledge_cases {queue : UsageQueue} {sequences : List Nat} {db after : Database}
    {result : Except QueueError Unit} (done : queue.acknowledge sequences db = (result, after)) :
    (∃ error, result = .error error ∧ after = db) ∨
      ∃ queueMeta, db.queueMeta = some queueMeta ∧ queue.Connected queueMeta ∧
        result = .ok () ∧ db.Removes after sequences := by
  rcases Database.transaction_cases done with ⟨error, -, failed, kept⟩ | ⟨⟨⟩, ran, succeeded⟩
  · exact .inl ⟨error, failed, kept⟩
  · obtain ⟨⟨⟩, connected, removed⟩ := bind_eq_ok.mp ran
    obtain ⟨queueMeta, bound, connected⟩ := connect_eq_ok.mp connected
    obtain ⟨other, removed, returned⟩ := bind_eq_ok.mp removed
    cases returned
    exact .inr ⟨queueMeta, bound, connected, succeeded, foldlM_deleteRow_eq_ok removed⟩

/-- The row that `open` writes to `queue_meta`. -/
def boundMeta (previous : Option QueueMeta) (requested : QueueIdentity) (random : String) :
    QueueMeta :=
  let identity := boundIdentity previous requested
  ⟨identity.destination, identity.ownerId, identity.tokenFingerprint,
    (previous.map (·.instanceId)).getD random, (previous.map (·.pendingBytes)).getD 0⟩

/-- **What `open` can do**: fail, with at most the schema created, or bind the file to an identity
that the waiting rows' identity is compatible with. -/
theorem open_cases {path : String} {requested : QueueIdentity} {maxBytes : Nat} {random : String}
    {db after : Database} {result : Except QueueError UsageQueue}
    (done : UsageQueue.open path requested maxBytes random db = (result, after)) :
    (∃ error, result = .error error ∧ (after = db ∨ prepare db = .ok after)) ∨
      (prepare db = .ok { db with userVersion := 1, tables := 3 } ∧
        (db.rows ≠ [] → ∃ previous, db.queueMeta = some previous ∧
          previous.identity.compatible requested = true) ∧
        (∀ previous ∈ db.queueMeta, previous.pendingBytes = db.actualBytes) ∧
        result = .ok ⟨path, (boundMeta db.queueMeta requested random).instanceId,
          boundIdentity db.queueMeta requested, maxBytes⟩ ∧
        after = { db with
          userVersion := 1
          tables := 3
          queueMeta := some (boundMeta db.queueMeta requested random) }) := by
  unfold UsageQueue.open at done
  cases prepared : prepare db with
  | error error =>
    rw [prepared] at done
    cases done
    exact .inl ⟨error, rfl, .inl rfl⟩
  | ok middle =>
    rw [prepared] at done
    rcases Database.transaction_cases done with ⟨error, -, failed, kept⟩ | ⟨queue, ran, succeeded⟩
    · exact .inl ⟨error, failed, .inr (by rw [kept])⟩
    · have schema : middle = { db with userVersion := 1, tables := 3 } := by
        unfold prepare at prepared
        split at prepared
        · cases prepared
        · split at prepared <;> cases prepared
          rfl
      subst schema
      simp only [bindIdentity] at ran
      split at ran
      · cases ran
      · rename_i fits
        split at ran
        · cases ran
        · rename_i counted
          split at ran
          · cases ran
          · cases ran
            refine .inr ⟨rfl, fun waiting => ?_, fun previous present => ?_, succeeded, rfl⟩
            · have compatible := not_not.mp fun other => fits ⟨waiting, other⟩
              rw [Option.any_eq_true] at compatible
              exact compatible
            · have right : previous.pendingBytes = ({ db with userVersion := 1, tables := 3 } :
                  Database).actualBytes := by
                simpa [Option.mem_def.mp present] using counted
              exact right

end UsageQueue

/-! ### The body of a request -/

theorem utf8ByteSize_intercalate (separator : String) (texts : List String) :
    (separator.intercalate texts).utf8ByteSize =
      (texts.map String.utf8ByteSize).sum + (texts.length - 1) * separator.utf8ByteSize := by
  induction texts with
  | nil => simp
  | cons text texts ih =>
    cases texts with
    | nil => simp
    | cons next others =>
      rw [String.intercalate_cons_cons, String.utf8ByteSize_append, String.utf8ByteSize_append, ih]
      simp only [List.map_cons, List.sum_cons, List.length_cons, Nat.add_sub_cancel]
      ring

theorem utf8ByteSize_batchBody (batch : List QueuedUsage) :
    (batchBody batch).utf8ByteSize = 2 + UsageQueue.batchBytes true batch := by
  have bracket : "[".utf8ByteSize = 1 ∧ "]".utf8ByteSize = 1 ∧ ",".utf8ByteSize = 1 := by decide
  simp only [batchBody, String.utf8ByteSize_append, utf8ByteSize_intercalate, bracket,
    UsageQueue.batchBytes, List.map_map, List.length_map, if_true, Nat.mul_one]
  rw [show String.utf8ByteSize ∘ (fun record : QueuedUsage => record.payload)
    = fun record => record.payload.utf8ByteSize from rfl]
  omega

end Toard.Shim
