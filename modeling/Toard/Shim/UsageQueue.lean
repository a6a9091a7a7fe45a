/-
**The durable usage queue (`usage_queue.rs`).**

One queue is one SQLite file: a row of `queue_meta` with the identity the file is bound to and the
byte counter, and the table `pending_usage` with the records that wait for delivery. Every operation
is one transaction on the file, and any number of handles, in any number of processes, may run them
in any order.

A handle looks at the file's identity when it connects and again in its transaction. The first look
only decides between two outcomes that change nothing, so `connect` is read as a part of the
transaction. The counters are 64-bit columns that the byte limit keeps far from overflow.
-/

import Mathlib.Algebra.GroupWithZero.Nat
import Mathlib.Data.List.Sort
import Toard.Shim.CollectionScope
import Toard.Shim.UsageEvent

namespace Toard.Shim

open Toard.Json (Value)

def DEFAULT_MAX_BYTES : Nat := 64 * 1024 * 1024

def MAX_REQUEST_BYTES : Nat := 4 * 1024 * 1024

/-- A local project id: up to 256 bytes of letters, digits, dashes and underscores. -/
def validProjectId (id : String) : Bool :=
  id ≠ "" && id.utf8ByteSize ≤ 256 && id.toList.all fun c => c.isAlphanum || c == '-' || c == '_'

inductive QueueError where
  | storage
  | unsupportedVersion
  | corrupt
  | identityChanged
  | full
  | invalidEvent
deriving DecidableEq

def QueueError.display : QueueError → String
  | .storage => "local usage queue could not be read or written"
  | .unsupportedVersion => "local usage queue requires a newer collector"
  | .corrupt => "local usage queue is inconsistent; it has been preserved"
  | .identityChanged => "pending usage belongs to a different connection identity"
  | .full => "local usage queue is full; source cursors have not advanced"
  | .invalidEvent => "usage record does not satisfy the delivery contract"

/-! ### The identity of a queue -/

structure QueueIdentity where
  destination : String
  ownerId : Option String
  tokenFingerprint : String
deriving DecidableEq

namespace QueueIdentity

def new (sha256 : String → String) (destination : String) (ownerId : Option String)
    (token : String) : QueueIdentity :=
  ⟨destination, ownerId, sha256 token⟩

/-- Two confirmed owners are compared; without a confirmation on both sides, the tokens are. -/
def compatible (self other : QueueIdentity) : Bool :=
  self.destination == other.destination &&
    match self.ownerId, other.ownerId with
    | some left, some right => left == right
    | _, _ => self.tokenFingerprint == other.tokenFingerprint

end QueueIdentity

/-! ### The file -/

/-- The row of `queue_meta`. -/
structure QueueMeta where
  destination : String
  ownerId : Option String
  tokenFingerprint : String
  instanceId : String
  pendingBytes : Nat
deriving DecidableEq

def QueueMeta.identity (queueMeta : QueueMeta) : QueueIdentity :=
  ⟨queueMeta.destination, queueMeta.ownerId, queueMeta.tokenFingerprint⟩

/-- A row of `pending_usage`. -/
structure PendingRow where
  sequence : Nat
  eventKey : String
  providerKey : String
  projectId : Option String
  payloadBytes : Nat
  payload : String
deriving DecidableEq

structure QueuedUsage where
  sequence : Nat
  providerKey : String
  projectId : Option String
  payload : String
deriving DecidableEq

def PendingRow.queued (row : PendingRow) : QueuedUsage :=
  ⟨row.sequence, row.providerKey, row.projectId, row.payload⟩

structure Database where
  /-- `PRAGMA user_version`. -/
  userVersion : Nat
  /-- The number of tables in `sqlite_master`. -/
  tables : Nat
  queueMeta : Option QueueMeta
  /-- `pending_usage` in the order of its key. -/
  rows : List PendingRow
  /-- The last key that `AUTOINCREMENT` gave out. -/
  lastSequence : Nat
deriving DecidableEq

namespace Database

def new : Database :=
  ⟨0, 0, none, [], 0⟩

/-- `SELECT sum(payload_bytes)`. -/
def actualBytes (db : Database) : Nat :=
  (db.rows.map (·.payloadBytes)).sum

def maxSequence : Nat := 2 ^ 63 - 1

/-- The update of `pending_bytes` that a trigger makes. -/
def account (db : Database) (update : Nat → Nat) : Option QueueMeta :=
  db.queueMeta.map fun queueMeta => { queueMeta with pendingBytes := update queueMeta.pendingBytes }

/-- `INSERT INTO pending_usage`: the key is unique, the payload is not empty, the sequence is new. -/
def insertRow (db : Database) (eventKey providerKey : String) (projectId : Option String)
    (payload : String) : Except QueueError Database :=
  let payloadBytes := payload.utf8ByteSize
  let sequence := db.lastSequence + 1
  if payloadBytes = 0 ∨ (db.rows.any fun row => row.eventKey == eventKey) = true
      ∨ maxSequence < sequence then .error .storage
  else .ok { db with
    queueMeta := db.account (· + payloadBytes)
    rows := db.rows ++ [⟨sequence, eventKey, providerKey, projectId, payloadBytes, payload⟩]
    lastSequence := sequence }

/-- `DELETE FROM pending_usage WHERE sequence=?`: the counter may not fall below zero. -/
def deleteRow (db : Database) (sequence : Nat) : Except QueueError Database :=
  let freed := ((db.rows.filter (·.sequence == sequence)).map (·.payloadBytes)).sum
  if (db.queueMeta.any fun queueMeta => queueMeta.pendingBytes < freed) = true then .error .storage
  else .ok { db with
    queueMeta := db.account (· - freed)
    rows := db.rows.filter (·.sequence != sequence) }

def transaction {α : Type} (body : Database → Except QueueError (α × Database)) (db : Database) :
    Except QueueError α × Database :=
  match body db with
  | .ok (result, after) => (.ok result, after)
  | .error error => (.error error, db)

end Database

/-! ### The operations -/

structure QueueInput where
  event : UsageEvent
  projectId : Option String
deriving DecidableEq

structure UsageQueue where
  path : String
  instanceId : String
  identity : QueueIdentity
  maxBytes : Nat
deriving DecidableEq

/-- `ensure_identity`. -/
def ensureIdentity (db : Database) (expected : QueueIdentity) : Except QueueError Unit :=
  if (db.queueMeta.any fun current => expected.compatible current.identity) = true then .ok ()
  else .error .identityChanged

namespace UsageQueue

def prepare (db : Database) : Except QueueError Database :=
  if db.userVersion ≠ 0 ∧ db.userVersion ≠ 1 then .error .unsupportedVersion
  else if db.userVersion = 0 ∧ db.tables ≠ 0 then .error .unsupportedVersion
  -- `queue_meta`, `pending_usage` and the table of `AUTOINCREMENT`
  else .ok { db with userVersion := 1, tables := 3 }

/-- The identity a queue is bound to: an owner confirmed once stays. -/
def boundIdentity (previous : Option QueueMeta) (requested : QueueIdentity) : QueueIdentity :=
  { requested with
    ownerId := requested.ownerId.or
      ((previous.filter fun queueMeta => queueMeta.identity.compatible requested).bind
        (·.ownerId)) }

/-- The transaction of `open`: no pending record may change hands, and the counter must be right. -/
def bindIdentity (path : String) (requested : QueueIdentity) (maxBytes : Nat) (random : String)
    (db : Database) : Except QueueError (UsageQueue × Database) :=
  let previous := db.queueMeta
  if db.rows ≠ [] ∧ ¬ (previous.any fun queueMeta => queueMeta.identity.compatible requested) then
    .error .identityChanged
  else if (previous.any fun queueMeta => queueMeta.pendingBytes != db.actualBytes) = true then
    .error .corrupt
  else if previous = none ∧ db.rows ≠ [] then .error .corrupt
  else
    let identity := boundIdentity previous requested
    let instanceId := (previous.map (·.instanceId)).getD random
    let pendingBytes := (previous.map (·.pendingBytes)).getD 0
    .ok (⟨path, instanceId, identity, maxBytes⟩,
      { db with queueMeta := some ⟨identity.destination, identity.ownerId,
          identity.tokenFingerprint, instanceId, pendingBytes⟩ })

/-- `UsageQueue::open`; `random` is the instance id of a new file. -/
def «open» (path : String) (requested : QueueIdentity) (maxBytes : Nat) (random : String)
    (db : Database) : Except QueueError UsageQueue × Database :=
  match prepare db with
  | .error error => (.error error, db)
  | .ok prepared => prepared.transaction (bindIdentity path requested maxBytes random)

/-- The file is still the one that was opened, and still belongs to the handle's identity. -/
def connect (queue : UsageQueue) (db : Database) : Except QueueError Unit :=
  match db.queueMeta with
  | none => .error .storage
  | some queueMeta =>
    if queueMeta.instanceId ≠ queue.instanceId then .error .identityChanged
    else ensureIdentity db queue.identity

def checkRecord (record : QueueInput) : Except QueueError String :=
  let value := record.event.toJson
  if record.event.userId ≠ none ∨ record.event.costUsd ≠ .zero
      ∨ (UsageEvent.fromJson value).isOk = false
      ∨ (record.projectId.any fun id => !validProjectId id) = true then
    .error .invalidEvent
  else
    let payload := Json.toPretty value
    if payload.utf8ByteSize + 2 > MAX_REQUEST_BYTES then .error .invalidEvent else .ok payload

/-- The loop of `enqueue` over the records, with the bytes counted so far. -/
def enqueueLoop (maxBytes : Nat) :
    Nat → Nat → List QueueInput → Database → Except QueueError (Nat × Database)
  | inserted, _, [], db => .ok (inserted, db)
  | inserted, bytes, record :: records, db => do
    let payload ← checkRecord record
    if (db.rows.any fun row => row.eventKey == record.event.dedupKey) = true then
      enqueueLoop maxBytes inserted bytes records db
    else if bytes + payload.utf8ByteSize > maxBytes then .error .full
    else
      let after ← db.insertRow record.event.dedupKey record.event.providerKey record.projectId
        payload
      enqueueLoop maxBytes (inserted + 1) (bytes + payload.utf8ByteSize) records after

/-- `UsageQueue::enqueue`: all of the records, or none. -/
def enqueue (queue : UsageQueue) (records : List QueueInput) (db : Database) :
    Except QueueError Nat × Database :=
  db.transaction fun db => do
    queue.connect db
    let bytes := (db.queueMeta.map (·.pendingBytes)).getD 0
    enqueueLoop queue.maxBytes 0 bytes records db

/-- The rows a reader asks for: of one provider, or of all of them, and allowed by the policy. -/
def wanted (provider : Option String) (scope : ProviderScope) (row : PendingRow) : Bool :=
  (provider.all fun key => row.providerKey == key) &&
    projectPredicate scope.queryParameters.1 scope.queryParameters.2 row.projectId

/-- A row that no `enqueue` wrote. -/
def corruptRow (row : PendingRow) (parsed : Value) : Bool :=
  MAX_REQUEST_BYTES < row.payload.utf8ByteSize + 2 ||
    (row.projectId.any fun id => !validProjectId id) ||
    (parsed.get "providerKey").bind Value.asStr != some row.providerKey

/-- The loop of `peek_provider`: rows are taken while the request has room for them. -/
def readRows : Nat → Bool → List PendingRow → Except QueueError (List QueuedUsage)
  | _, _, [] => .ok []
  | bytes, isEmpty, row :: rows =>
    match Json.parse row.payload with
    | none => .error .corrupt
    | some parsed =>
      if corruptRow row parsed = true then .error .corrupt
      else
        let size := row.payload.utf8ByteSize + (!isEmpty).toNat
        if bytes + size > MAX_REQUEST_BYTES then .ok []
        else (readRows (bytes + size) false rows).map (row.queued :: ·)

def selectRows (provider : Option String) (scope : ProviderScope) (limit : Nat) (db : Database) :
    List PendingRow :=
  ((db.rows.filter (wanted provider scope)).insertionSort
    fun left right => left.sequence ≤ right.sequence).take (min limit 500)

/-- `UsageQueue::peek_provider`. -/
def peekProvider (queue : UsageQueue) (provider : Option String) (scope : ProviderScope)
    (limit : Nat) (db : Database) : Except QueueError (List QueuedUsage) := do
  queue.connect db
  readRows 2 true (selectRows provider scope limit db)

def peekFor (queue : UsageQueue) (provider : String) (scope : ProviderScope) (limit : Nat)
    (db : Database) : Except QueueError (List QueuedUsage) :=
  queue.peekProvider (some provider) scope limit db

/-- `UsageQueue::acknowledge`: deletes exactly the rows with these sequences. -/
def acknowledge (queue : UsageQueue) (sequences : List Nat) (db : Database) :
    Except QueueError Unit × Database :=
  db.transaction fun db => do
    queue.connect db
    let after ← sequences.foldlM Database.deleteRow db
    return ((), after)

def requiresConfirmedReceipt (queue : UsageQueue) : Bool :=
  queue.identity.ownerId.isSome

end UsageQueue

def batchBody (records : List QueuedUsage) : String :=
  "[" ++ String.intercalate "," (records.map (·.payload)) ++ "]"

/-! ### Moving an older queue -/

abbrev Files := String → Database

namespace Files

def on {α : Type} (files : Files) (path : String)
    (operation : Database → Except QueueError α × Database) : Except QueueError α × Files :=
  ((operation (files path)).1, Function.update files path (operation (files path)).2)

end Files

namespace UsageQueue

def importRow (row : QueuedUsage) : Except QueueError QueueInput :=
  match Json.parse row.payload with
  | none => .error .corrupt
  | some value =>
    match UsageEvent.fromJson value with
    | .error _ => .error .corrupt
    | .ok event => .ok ⟨event, row.projectId⟩

/-- The inner loop: a batch that does not fit is halved until it does, or not even one row does. -/
def importBatch (queue source : UsageQueue) (batch : List QueuedUsage) (size : Nat)
    (files : Files) : Except QueueError (Option Nat) × Files :=
  match (batch.take size).mapM importRow with
  | .error error => (.error error, files)
  | .ok inputs =>
    match files.on queue.path (queue.enqueue inputs) with
    | (.ok _, stored) =>
      match stored.on source.path (source.acknowledge ((batch.take size).map (·.sequence))) with
      | (.ok (), moved) => (.ok (some size), moved)
      | (.error error, kept) => (.error error, kept)
    | (.error .full, kept) =>
      if 1 < size then importBatch queue source batch (size / 2) kept else (.ok none, kept)
    | (.error error, kept) => (.error error, kept)
termination_by size

def importRounds (queue source : UsageQueue) : Nat → Nat → Files → Except QueueError Nat × Files
  | 0, imported, files => (.ok imported, files)
  | rounds + 1, imported, files =>
    match source.peekProvider none .all 250 (files source.path) with
    | .error error => (.error error, files)
    | .ok [] => (.ok imported, files)
    | .ok batch =>
      match importBatch queue source batch batch.length files with
      | (.error error, after) => (.error error, after)
      | (.ok none, after) => (.ok imported, after)
      | (.ok (some size), after) => importRounds queue source rounds (imported + size) after

/-- `UsageQueue::import_pending`. -/
def importPending (queue source : UsageQueue) (files : Files) : Except QueueError Nat × Files :=
  if queue.path = source.path ∨ queue.identity.compatible source.identity = false then
    (.error .identityChanged, files)
  else importRounds queue source 32 0 files

end UsageQueue

end Toard.Shim
