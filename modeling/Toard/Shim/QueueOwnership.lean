/-
**Records never change hands.**

Every token has one owner, and the handshake of a collector confirms it. A queue file may be opened
with a confirmed owner or without one, under new tokens and for other destinations, and handles that
were opened earlier go on writing. The state keeps, beside the file, the token behind every handle
and the connection under which each row was stored: the code sees neither.

* **`queue_ownership`**: every waiting row was stored for the owner and the destination the file is
  bound to, and a call that would break this fails and leaves the rows alone.
-/

import Toard.Shim.QueueAccounting

namespace Toard.Shim

open Toard.Library (Reachable)

/-! ### Owners -/

section Identity

variable (sha256 : String → String) (trueOwner : String → String)

/-- The identity of a connection made with a token: the owner is confirmed or missing. -/
structure QueueIdentity.Genuine (identity : QueueIdentity) (token : String) : Prop where
  fingerprint : identity.tokenFingerprint = sha256 token
  owner : ∀ owner ∈ identity.ownerId, owner = trueOwner token

/-- The owner of an identity: the confirmed one, or that of a token with its fingerprint. -/
def QueueIdentity.BelongsTo (identity : QueueIdentity) (owner : String) : Prop :=
  match identity.ownerId with
  | some confirmed => owner = confirmed
  | none => ∃ token, identity.tokenFingerprint = sha256 token ∧ owner = trueOwner token

end Identity

namespace QueueIdentity.Genuine

variable {sha256 : String → String} {trueOwner : String → String}
variable {identity other : QueueIdentity} {token second : String}

theorem belongsTo_iff (sameOwner : ∀ a b, sha256 a = sha256 b → trueOwner a = trueOwner b)
    (genuine : identity.Genuine sha256 trueOwner token) (owner : String) :
    identity.BelongsTo sha256 trueOwner owner ↔ owner = trueOwner token := by
  unfold QueueIdentity.BelongsTo
  cases found : identity.ownerId with
  | some confirmed => rw [genuine.owner confirmed found]
  | none =>
    constructor
    · rintro ⟨another, fingerprint, rfl⟩
      exact sameOwner another token (fingerprint.symm.trans genuine.fingerprint)
    · rintro rfl
      exact ⟨token, genuine.fingerprint, rfl⟩

/-- **Compatible identities have one owner and one destination.** -/
theorem sameOwner_of_compatible
    (sameOwner : ∀ a b, sha256 a = sha256 b → trueOwner a = trueOwner b)
    (left : identity.Genuine sha256 trueOwner token)
    (right : other.Genuine sha256 trueOwner second)
    (compatible : identity.compatible other = true) :
    identity.destination = other.destination ∧ trueOwner token = trueOwner second := by
  unfold QueueIdentity.compatible at compatible
  rw [Bool.and_eq_true, beq_iff_eq] at compatible
  refine ⟨compatible.1, ?_⟩
  have agree := compatible.2
  split at agree
  · rename_i first last one two
    rw [← left.owner first one, ← right.owner last two]
    exact eq_of_beq agree
  · have fingerprint := eq_of_beq agree
    rw [left.fingerprint, right.fingerprint] at fingerprint
    exact sameOwner token second fingerprint

theorem bound {previous : Option QueueMeta}
    (sameOwner : ∀ a b, sha256 a = sha256 b → trueOwner a = trueOwner b)
    (requested : identity.Genuine sha256 trueOwner token)
    (recorded : ∀ queueMeta ∈ previous, ∃ last,
      queueMeta.identity.Genuine sha256 trueOwner last) :
    (UsageQueue.boundIdentity previous identity).Genuine sha256 trueOwner token := by
  refine ⟨requested.fingerprint, fun owner member => ?_⟩
  simp only [UsageQueue.boundIdentity, Option.mem_def, Option.or_eq_some_iff,
    Option.bind_eq_some_iff] at member
  rcases member with confirmed | ⟨-, queueMeta, kept, confirmed⟩
  · exact requested.owner owner confirmed
  · obtain ⟨present, compatible⟩ := Option.filter_eq_some_iff.mp kept
    obtain ⟨last, genuine⟩ := recorded queueMeta present
    rw [genuine.owner owner confirmed]
    exact (genuine.sameOwner_of_compatible sameOwner requested compatible).2

end QueueIdentity.Genuine

/-! ### The file, its handles and their tokens -/

structure Connection where
  token : String
  destination : String
deriving DecidableEq

structure HeldQueue where
  queue : UsageQueue
  token : String
deriving DecidableEq

def HeldQueue.connection (held : HeldQueue) : Connection :=
  ⟨held.token, held.queue.identity.destination⟩

structure OwnedQueue where
  db : Database
  handles : List HeldQueue
  storedUnder : Nat → Connection

inductive OwnedAction where
  /-- Opens the file with a token; the handshake confirms the owner or is not answered. -/
  | «open» (token destination : String) (confirmed : Bool) (maxBytes : Nat) (random : String)
  | enqueue (handle : Nat) (records : List QueueInput)
  | acknowledge (handle : Nat) (sequences : List Nat)

namespace OwnedQueue

section Runs

variable (sha256 : String → String) (trueOwner : String → String) (path : String)

def requestedIdentity (token destination : String) (confirmed : Bool) : QueueIdentity :=
  .new sha256 destination (if confirmed then some (trueOwner token) else none) token

def next (state : OwnedQueue) : OwnedAction → Option OwnedQueue
  | .open token destination confirmed maxBytes random =>
    let opened := UsageQueue.open path (requestedIdentity sha256 trueOwner token destination
      confirmed) maxBytes random state.db
    some { state with
      db := opened.2
      handles := match opened.1 with
        | .ok queue => state.handles ++ [⟨queue, token⟩]
        | .error _ => state.handles }
  | .enqueue handle records =>
    state.handles[handle]?.map fun held =>
      { state with
        db := (held.queue.enqueue records state.db).2
        storedUnder := fun sequence =>
          if state.db.lastSequence < sequence then held.connection
          else state.storedUnder sequence }
  | .acknowledge handle sequences =>
    state.handles[handle]?.map fun held =>
      { state with db := (held.queue.acknowledge sequences state.db).2 }

def start (storedUnder : Nat → Connection) : OwnedQueue :=
  ⟨.new, [], storedUnder⟩

end Runs

section Invariant

variable {sha256 : String → String} {trueOwner : String → String} {path : String}

/-- The identities are genuine, and the rows belong to the one on file. -/
structure Sound (sha256 trueOwner : String → String) (state : OwnedQueue) : Prop where
  valid : state.db.WellFormed
  held : ∀ held ∈ state.handles, held.queue.identity.Genuine sha256 trueOwner held.token
  recorded : ∀ queueMeta ∈ state.db.queueMeta, ∃ token,
    queueMeta.identity.Genuine sha256 trueOwner token ∧
    ∀ row ∈ state.db.rows,
      trueOwner (state.storedUnder row.sequence).token = trueOwner token ∧
      (state.storedUnder row.sequence).destination = queueMeta.destination

theorem genuine_requested (sha256 trueOwner : String → String) (token destination : String) (confirmed : Bool) :
    (requestedIdentity sha256 trueOwner token destination confirmed).Genuine sha256 trueOwner
      token := by
  refine ⟨rfl, fun owner member => ?_⟩
  cases confirmed
  · cases member
  · cases member
    rfl

theorem identity_of_account {db : Database} {update : Nat → Nat} {queueMeta : QueueMeta}
    (counted : queueMeta ∈ db.account update) :
    ∃ previous ∈ db.queueMeta, previous.identity = queueMeta.identity ∧
      previous.destination = queueMeta.destination := by
  obtain ⟨previous, present, rfl⟩ := Option.map_eq_some_iff.mp counted
  exact ⟨previous, present, rfl, rfl⟩

theorem sound_open (sameOwner : ∀ a b, sha256 a = sha256 b → trueOwner a = trueOwner b)
    {state after : OwnedQueue} (sound : state.Sound sha256 trueOwner)
    {token destination : String} {confirmed : Bool} {maxBytes : Nat} {random : String}
    (moved : next sha256 trueOwner path state (.open token destination confirmed maxBytes random)
      = some after) : after.Sound sha256 trueOwner := by
  set requested := requestedIdentity sha256 trueOwner token destination confirmed with asked
  have genuine : requested.Genuine sha256 trueOwner token := genuine_requested _ _ _ _ _
  cases moved
  have valid := UsageQueue.open_wellFormed sound.valid path requested maxBytes random
  rcases UsageQueue.open_cases (Prod.mk.eta (p := UsageQueue.open path requested maxBytes random
    state.db)).symm with ⟨error, failed, kept⟩ | ⟨-, compatible, -, succeeded, bound⟩
  · have same : (UsageQueue.open path requested maxBytes random state.db).2.queueMeta
          = state.db.queueMeta ∧
        (UsageQueue.open path requested maxBytes random state.db).2.rows = state.db.rows := by
      rcases kept with kept | schema
      · rw [kept]
        exact ⟨rfl, rfl⟩
      · rw [sound.valid.prepare, Except.ok.injEq] at schema
        rw [← schema]
        exact ⟨rfl, rfl⟩
    refine ⟨valid, ?_, ?_⟩
    · simp only [← asked, failed]
      exact sound.held
    · simp only [← asked, same]
      exact sound.recorded
  · have recorded : ∀ queueMeta ∈ state.db.queueMeta, ∃ last,
        queueMeta.identity.Genuine sha256 trueOwner last := fun queueMeta present =>
      (sound.recorded queueMeta present).imp fun _ found => found.1
    have identity := genuine.bound sameOwner recorded
    refine ⟨valid, ?_, ?_⟩
    · simp only [← asked, succeeded]
      intro held member
      rcases List.mem_append.mp member with old | new
      · exact sound.held held old
      · rw [List.mem_singleton.mp new]
        exact identity
    · simp only [← asked, bound]
      rintro queueMeta ⟨⟩
      refine ⟨token, identity, fun row member => ?_⟩
      obtain ⟨previous, present, fits⟩ := compatible (List.ne_nil_of_mem member)
      obtain ⟨last, last_genuine, owned⟩ := sound.recorded previous present
      have agree := last_genuine.sameOwner_of_compatible sameOwner genuine fits
      exact ⟨(owned row member).1.trans agree.2, (owned row member).2.trans agree.1⟩

theorem sound_enqueue (sameOwner : ∀ a b, sha256 a = sha256 b → trueOwner a = trueOwner b)
    {state after : OwnedQueue} (sound : state.Sound sha256 trueOwner) {handle : Nat}
    {records : List QueueInput}
    (moved : next sha256 trueOwner path state (.enqueue handle records) = some after) :
    after.Sound sha256 trueOwner := by
  obtain ⟨held, member, rfl⟩ := Option.map_eq_some_iff.mp moved
  have genuine := sound.held held (List.mem_of_getElem? member)
  -- the rows that wait already keep their connection: their numbers were given out before
  have old : ∀ row ∈ state.db.rows, (if state.db.lastSequence < row.sequence then held.connection
      else state.storedUnder row.sequence) = state.storedUnder row.sequence := fun row waiting =>
    if_neg (Nat.not_lt.mpr (sound.valid.numbered.bounded row waiting))
  refine ⟨UsageQueue.enqueue_wellFormed sound.valid held.queue records, sound.held, ?_⟩
  rcases UsageQueue.enqueue_cases (Prod.mk.eta (p := held.queue.enqueue records state.db)).symm with
    ⟨error, -, kept⟩ | ⟨queueMeta, added, bound, connected, -, stores, -, -, -⟩
  · simp only [kept]
    intro queueMeta present
    obtain ⟨token, recorded, owned⟩ := sound.recorded queueMeta present
    exact ⟨token, recorded, fun row waiting => by rw [old row waiting]; exact owned row waiting⟩
  · intro current counted
    rw [stores.queueMeta] at counted
    obtain ⟨previous, present, identity, destination⟩ := identity_of_account counted
    obtain rfl : queueMeta = previous := Option.some.inj (bound.symm.trans present)
    obtain ⟨token, recorded, owned⟩ := sound.recorded queueMeta bound
    have agree := genuine.sameOwner_of_compatible sameOwner recorded connected.compatible
    refine ⟨token, identity ▸ recorded, fun row waiting => ?_⟩
    rw [stores.rows] at waiting
    rw [← destination]
    dsimp only
    rcases List.mem_append.mp waiting with waited | new
    · rw [old row waited]
      exact owned row waited
    · have number : row.sequence ∈ added.map (·.sequence) := List.mem_map_of_mem new
      rw [stores.numbers, List.mem_range'_1] at number
      rw [if_pos (by omega)]
      exact ⟨agree.2, agree.1⟩

theorem sound_acknowledge {state after : OwnedQueue} (sound : state.Sound sha256 trueOwner)
    {handle : Nat} {sequences : List Nat}
    (moved : next sha256 trueOwner path state (.acknowledge handle sequences) = some after) :
    after.Sound sha256 trueOwner := by
  obtain ⟨held, member, rfl⟩ := Option.map_eq_some_iff.mp moved
  refine ⟨UsageQueue.acknowledge_wellFormed sound.valid held.queue sequences, sound.held, ?_⟩
  rcases UsageQueue.acknowledge_cases
    (Prod.mk.eta (p := held.queue.acknowledge sequences state.db)).symm with
    ⟨error, -, kept⟩ | ⟨queueMeta, bound, -, -, removed⟩
  · simp only [kept]
    exact sound.recorded
  · intro current counted
    rw [removed.queueMeta] at counted
    obtain ⟨previous, present, identity, destination⟩ := identity_of_account counted
    obtain ⟨token, recorded, owned⟩ := sound.recorded previous present
    refine ⟨token, identity ▸ recorded, fun row waiting => ?_⟩
    rw [removed.rows] at waiting
    rw [← destination]
    exact owned row (List.mem_filter.mp waiting).1

theorem sound_of_reachable (sameOwner : ∀ a b, sha256 a = sha256 b → trueOwner a = trueOwner b)
    {storedUnder : Nat → Connection} {state : OwnedQueue}
    (reached : Reachable (next sha256 trueOwner path) (start storedUnder) state) :
    state.Sound sha256 trueOwner := by
  refine Reachable.invariant _ ⟨Database.wellFormed_new, nofun, nofun⟩ ?_ reached
  intro before action after sound moved
  cases action with
  | «open» => exact sound_open sameOwner sound moved
  | enqueue => exact sound_enqueue sameOwner sound moved
  | acknowledge => exact sound_acknowledge sound moved

theorem open_refused (sameOwner : ∀ a b, sha256 a = sha256 b → trueOwner a = trueOwner b)
    {state : OwnedQueue} (sound : state.Sound sha256 trueOwner) {row : PendingRow}
    (waiting : row ∈ state.db.rows) {token destination : String}
    (stranger : trueOwner (state.storedUnder row.sequence).token ≠ trueOwner token ∨
      (state.storedUnder row.sequence).destination ≠ destination)
    (confirmed : Bool) (maxBytes : Nat) (random : String) :
    ∃ after, UsageQueue.open path (requestedIdentity sha256 trueOwner token destination confirmed)
        maxBytes random state.db = (.error .identityChanged, after) ∧
      after.rows = state.db.rows ∧ after.queueMeta = state.db.queueMeta := by
  refine ⟨{ state.db with userVersion := 1, tables := 3 }, ?_, rfl, rfl⟩
  simp only [UsageQueue.open, sound.valid.prepare, Database.transaction, UsageQueue.bindIdentity]
  rw [if_pos]
  refine ⟨List.ne_nil_of_mem waiting, fun compatible => ?_⟩
  rw [Option.any_eq_true] at compatible
  obtain ⟨queueMeta, present, fits⟩ := compatible
  obtain ⟨last, recorded, owned⟩ := sound.recorded queueMeta present
  have agree := recorded.sameOwner_of_compatible sameOwner
    (genuine_requested sha256 trueOwner token destination confirmed) fits
  rcases stranger with owner | place
  · exact owner ((owned row waiting).1.trans agree.2)
  · exact place ((owned row waiting).2.trans agree.1)

theorem connect_refused (sameOwner : ∀ a b, sha256 a = sha256 b → trueOwner a = trueOwner b)
    {state : OwnedQueue} (sound : state.Sound sha256 trueOwner) {held : HeldQueue}
    (member : held ∈ state.handles) {queueMeta : QueueMeta}
    (bound : state.db.queueMeta = some queueMeta)
    (stranger : ¬ queueMeta.identity.BelongsTo sha256 trueOwner (trueOwner held.token) ∨
      queueMeta.destination ≠ held.queue.identity.destination) :
    held.queue.connect state.db = .error .identityChanged := by
  refine UsageQueue.connect_eq_error bound fun connected => ?_
  obtain ⟨token, recorded, -⟩ := sound.recorded queueMeta bound
  have agree := (sound.held held member).sameOwner_of_compatible sameOwner recorded
    connected.compatible
  rcases stranger with owner | place
  · exact owner ((recorded.belongsTo_iff sameOwner _).mpr agree.2)
  · exact place agree.1.symm

theorem enqueue_of_connect_error {queue : UsageQueue} {db : Database} {error : QueueError}
    (refused : queue.connect db = .error error) (records : List QueueInput) :
    queue.enqueue records db = (.error error, db) := by
  simp only [UsageQueue.enqueue, Database.transaction, refused]
  rfl

end Invariant

/-- **Ownership isolation.** After any run of opens, token rotations, changes of destination and
calls through handles old and new: every waiting row was stored under a token whose owner, and for
a destination which, are those of the identity on file. A call that would change this fails with
`identityChanged` and leaves every waiting row as it is. -/
theorem queue_ownership {sha256 trueOwner : String → String}
    (sameOwner : ∀ a b, sha256 a = sha256 b → trueOwner a = trueOwner b)
    {path : String} {storedUnder : Nat → Connection} {state : OwnedQueue}
    (reached : Reachable (next sha256 trueOwner path) (start storedUnder) state) :
    (∀ row ∈ state.db.rows, ∃ queueMeta, state.db.queueMeta = some queueMeta ∧
      (∀ owner, queueMeta.identity.BelongsTo sha256 trueOwner owner ↔
        owner = trueOwner (state.storedUnder row.sequence).token) ∧
      queueMeta.destination = (state.storedUnder row.sequence).destination) ∧
    (∀ token destination confirmed maxBytes random,
      (∃ row ∈ state.db.rows,
        trueOwner (state.storedUnder row.sequence).token ≠ trueOwner token ∨
        (state.storedUnder row.sequence).destination ≠ destination) →
      ∃ after, UsageQueue.open path
          (requestedIdentity sha256 trueOwner token destination confirmed) maxBytes random state.db
            = (.error .identityChanged, after) ∧
        after.rows = state.db.rows ∧ after.queueMeta = state.db.queueMeta) ∧
    (∀ held ∈ state.handles, ∀ queueMeta records, state.db.queueMeta = some queueMeta →
      ¬ queueMeta.identity.BelongsTo sha256 trueOwner (trueOwner held.token) ∨
        queueMeta.destination ≠ held.queue.identity.destination →
      held.queue.enqueue records state.db = (.error .identityChanged, state.db)) := by
  have sound := sound_of_reachable sameOwner reached
  refine ⟨fun row waiting => ?_, ?_, ?_⟩
  · cases present : state.db.queueMeta with
    | none =>
      rw [sound.valid.bound present] at waiting
      cases waiting
    | some queueMeta =>
      obtain ⟨token, recorded, owned⟩ := sound.recorded queueMeta present
      obtain ⟨owner, destination⟩ := owned row waiting
      exact ⟨queueMeta, rfl, owner ▸ recorded.belongsTo_iff sameOwner, destination.symm⟩
  · rintro token destination confirmed maxBytes random ⟨row, waiting, stranger⟩
    exact open_refused sameOwner sound waiting stranger confirmed maxBytes random
  · intro held member queueMeta records bound stranger
    exact enqueue_of_connect_error (connect_refused sameOwner sound member bound stranger) records

def fixtureOwner : String → String
  | "token" | "old" | "rotated" => "owner-a"
  | _ => "owner-b"

def rotationRun : List OwnedAction :=
  [.open "old" "destination" true DEFAULT_MAX_BYTES "instance",
   .enqueue 0 [fixture "one"],
   .open "rotated" "destination" true DEFAULT_MAX_BYTES "other"]

theorem fixtureOwner_of_digest (a b : String) (same : fixtureDigest a = fixtureDigest b) :
    fixtureOwner a = fixtureOwner b := by
  unfold fixtureDigest at same
  unfold fixtureOwner
  split at same <;> split at same <;> simp_all

/-- The record of a rotated token waits for its owner, and nobody else opens the queue. -/
theorem queue_ownership_rotationRun :
    ∃ state, Library.run (next fixtureDigest fixtureOwner "queue")
        (start fun _ => ⟨"", ""⟩) rotationRun = some state ∧
      (∀ row ∈ state.db.rows, ∃ queueMeta, state.db.queueMeta = some queueMeta ∧
        queueMeta.destination = (state.storedUnder row.sequence).destination) ∧
      ∀ row ∈ state.db.rows,
        fixtureOwner (state.storedUnder row.sequence).token ≠ fixtureOwner "stranger" →
        ∃ after, UsageQueue.open "queue" (requestedIdentity fixtureDigest fixtureOwner "stranger"
            "destination" true) DEFAULT_MAX_BYTES "third" state.db
              = (.error .identityChanged, after) := by
  have isolated := @queue_ownership _ _ fixtureOwner_of_digest "queue" (fun _ => ⟨"", ""⟩) _
    (Reachable.of_run rotationRun rfl)
  refine ⟨_, rfl, fun row waiting => ?_, fun row waiting stranger => ?_⟩
  · obtain ⟨queueMeta, present, -, destination⟩ := isolated.1 row waiting
    exact ⟨queueMeta, present, destination⟩
  · obtain ⟨after, refused, -, -⟩ := isolated.2.1 "stranger" "destination" true DEFAULT_MAX_BYTES
      "third" ⟨row, waiting, .inl stranger⟩
    exact ⟨after, refused⟩

end OwnedQueue

end Toard.Shim
