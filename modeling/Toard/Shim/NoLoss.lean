/-
**No record is lost on its way out.**

The invariant of `Delivery` under every step of every party.

* **`no_loss`**: a row leaves the queue only after an accepted receipt for a batch that held it; a
  late acknowledgement leaves newer rows alone; a bad answer changes nothing; and a drain posts the
  rows its policy lets out, each at most once and in order.
-/

import Toard.Shim.Durable

namespace Toard.Shim

open Toard.Library (Numbered Reachable)

/-! ### What others can do to the file -/

structure Database.Follows (before after : Database) : Prop where
  lastSequence : before.lastSequence ≤ after.lastSequence
  rows : ∀ row ∈ after.rows, row ∈ before.rows ∨ before.lastSequence < row.sequence

namespace Database

theorem Follows.refl (db : Database) : db.Follows db :=
  ⟨Nat.le_refl _, fun _ member => .inl member⟩

theorem Stores.follows {before after : Database} {added : List PendingRow}
    (stored : before.Stores after added) : before.Follows after := by
  refine ⟨by rw [stored.lastSequence]; exact Nat.le_add_right _ _, fun row member => ?_⟩
  rw [stored.rows] at member
  refine (List.mem_append.mp member).imp_right fun new => ?_
  have number : row.sequence ∈ added.map (·.sequence) := List.mem_map_of_mem new
  rw [stored.numbers, List.mem_range'_1] at number
  omega

theorem Removes.follows {before after : Database} {sequences : List Nat}
    (removed : before.Removes after sequences) : before.Follows after := by
  refine ⟨removed.lastSequence.ge, fun row member => .inl ?_⟩
  rw [removed.rows] at member
  exact (List.mem_filter.mp member).1

end Database

namespace UsageQueue

theorem enqueue_follows (queue : UsageQueue) (records : List QueueInput) (db : Database) :
    db.Follows (queue.enqueue records db).2 ∧
      ∀ row ∈ db.rows, row ∈ (queue.enqueue records db).2.rows := by
  rcases enqueue_cases (Prod.mk.eta (p := queue.enqueue records db)).symm with
    ⟨error, -, kept⟩ | ⟨queueMeta, added, -, -, -, stores, -, -, -⟩
  · rw [kept]
    exact ⟨.refl db, fun _ member => member⟩
  · exact ⟨stores.follows, fun row member => stores.rows ▸ List.mem_append_left _ member⟩

theorem acknowledge_follows (queue : UsageQueue) (sequences : List Nat) (db : Database) :
    db.Follows (queue.acknowledge sequences db).2 ∧
      ∀ row ∈ db.rows, row.sequence ∉ sequences → row ∈ (queue.acknowledge sequences db).2.rows := by
  rcases acknowledge_cases (Prod.mk.eta (p := queue.acknowledge sequences db)).symm with
    ⟨error, -, kept⟩ | ⟨queueMeta, -, -, -, removed⟩
  · rw [kept]
    exact ⟨.refl db, fun _ member _ => member⟩
  · refine ⟨removed.follows, fun row member other => ?_⟩
    rw [removed.rows]
    exact List.mem_filter.mpr ⟨member, by simpa using other⟩

theorem open_follows {db : Database} (valid : db.WellFormed) (path : String)
    (requested : QueueIdentity) (maxBytes : Nat) (random : String) :
    db.Follows (UsageQueue.open path requested maxBytes random db).2 ∧
      (UsageQueue.open path requested maxBytes random db).2.rows = db.rows := by
  rcases open_cases (Prod.mk.eta (p := UsageQueue.open path requested maxBytes random db)).symm with
    ⟨error, -, kept | schema⟩ | ⟨-, -, -, -, bound⟩
  · rw [kept]
    exact ⟨.refl db, rfl⟩
  · rw [valid.prepare, Except.ok.injEq] at schema
    rw [← schema]
    exact ⟨⟨Nat.le_refl _, fun _ member => .inl member⟩, rfl⟩
  · rw [bound]
    exact ⟨⟨Nat.le_refl _, fun _ member => .inl member⟩, rfl⟩

end UsageQueue

/-! ### What a drain knows -/

/-- What a drain that has sent `posted` knows about the file. -/
structure DrainSound (db : Database) (posted : List QueuedUsage) (drain : Drain) : Prop where
  bounded : ∀ record ∈ posted ++ drain.unsent, record.sequence ≤ db.lastSequence
  allowed : ∀ record ∈ posted ++ drain.unsent,
    record.providerKey = drain.provider ∧ drain.scope.allows record.projectId = true
  ordered : (posted ++ drain.unsent).Pairwise fun left right => left.sequence < right.sequence
  known : ∀ record ∈ drain.leased, record ∈ posted ++ drain.unsent
  named : ∀ record ∈ drain.leased, ∀ row ∈ db.rows, row.sequence = record.sequence →
    row.queued = record
  /-- Every other row the drain may send comes later than all it has sent. -/
  later : (∀ outcome, drain.phase ≠ .done outcome) → ∀ row ∈ db.rows,
    UsageQueue.wanted (some drain.provider) drain.scope row = true →
    row.queued ∈ drain.leased ∨ ∀ record ∈ posted ++ drain.unsent, record.sequence < row.sequence

namespace DrainSound

variable {db : Database} {posted : List QueuedUsage} {drain : Drain}

/-- **The steps of the others do no harm.** -/
theorem follows {after : Database} (sound : DrainSound db posted drain)
    (follows : db.Follows after) : DrainSound after posted drain := by
  refine ⟨fun record member => (sound.bounded record member).trans follows.lastSequence,
    sound.allowed, sound.ordered, sound.known, ?_, ?_⟩
  · intro record leased row waiting same
    rcases follows.rows row waiting with old | new
    · exact sound.named record leased row old same
    · have old := sound.bounded record (sound.known record leased)
      omega
  · intro live row waiting wanted
    rcases follows.rows row waiting with old | new
    · exact sound.later live row old wanted
    · exact .inr fun record member => (sound.bounded record member).trans_lt new

theorem stop (sound : DrainSound db posted drain) (outcome : DrainOutcome) :
    DrainSound db posted (drain.stop outcome) := by
  have sub : ∀ record ∈ posted ++ (drain.stop outcome).unsent, record ∈ posted ++ drain.unsent := by
    intro record member
    rw [show (drain.stop outcome).unsent = [] from rfl, List.append_nil] at member
    exact List.mem_append_left _ member
  refine ⟨fun record member => sound.bounded record (sub record member),
    fun record member => sound.allowed record (sub record member), ?_, nofun, nofun,
    fun live => absurd rfl (live outcome)⟩
  rw [show (drain.stop outcome).unsent = [] from rfl, List.append_nil]
  exact (List.pairwise_append.mp sound.ordered).1

theorem peeked (valid : db.WellFormed) (sound : DrainSound db posted drain)
    (peeking : drain.phase = .peeking) {batch : List QueuedUsage}
    (read : drain.queue.peekFor drain.provider drain.scope 250 db = .ok batch) :
    DrainSound db posted { drain with phase := .posting batch } := by
  have unsent : drain.unsent = [] := by simp only [Drain.unsent, peeking]
  have leased : drain.leased = [] := by simp only [Drain.leased, peeking]
  obtain ⟨-, ⟨count, taken⟩, -⟩ := UsageQueue.peekProvider_eq_ok read
  rw [UsageQueue.selectRows_eq valid.numbered, List.take_take] at taken
  set query := db.rows.filter (UsageQueue.wanted (some drain.provider) drain.scope) with queried
  set limit := min count (min 250 500)
  have numbered : Numbered (·.sequence) query db.lastSequence := valid.numbered.filter _
  have source : ∀ record ∈ batch, ∃ row ∈ query, row.queued = record ∧ row ∈ query.take limit := by
    intro record member
    rw [taken] at member
    obtain ⟨row, early, same⟩ := List.mem_map.mp member
    exact ⟨row, List.mem_of_mem_take early, same, early⟩
  have after : ∀ row ∈ query, ∀ record ∈ posted, record.sequence < row.sequence := by
    intro row member record sent
    have wanted := List.mem_filter.mp member
    rcases sound.later (by simp [peeking]) row wanted.1 wanted.2 with held | later
    · rw [leased] at held
      cases held
    · exact later record (List.mem_append_left _ sent)
  have sent : ∀ record ∈ posted, record ∈ posted ++ drain.unsent := fun record member =>
    List.mem_append_left _ member
  refine ⟨?_, ?_, ?_, fun record member => List.mem_append_right _ member, ?_, ?_⟩
  · intro record member
    rcases List.mem_append.mp member with old | new
    · exact sound.bounded record (sent record old)
    · obtain ⟨row, present, rfl, -⟩ := source record new
      exact numbered.bounded row present
  · intro record member
    rcases List.mem_append.mp member with old | new
    · exact sound.allowed record (sent record old)
    · obtain ⟨row, present, rfl, -⟩ := source record new
      have wanted := UsageQueue.wanted_iff.mp (List.mem_filter.mp present).2
      exact ⟨wanted.1 _ rfl, wanted.2⟩
  · refine List.pairwise_append.mpr ⟨?_, ?_, ?_⟩
    · exact (List.pairwise_append.mp sound.ordered).1
    · show batch.Pairwise _
      rw [taken]
      exact List.pairwise_map.mpr (numbered.increasing.sublist (List.take_sublist _ _))
    · intro record old other new
      obtain ⟨row, present, rfl, -⟩ := source other new
      exact after row present record old
  · intro record member row waiting same
    obtain ⟨own, present, rfl, -⟩ := source record member
    rw [valid.numbered.eq_of_key waiting (List.mem_filter.mp present).1 same]
  · intro _ row waiting wanted
    have present : row ∈ query := List.mem_filter.mpr ⟨waiting, wanted⟩
    by_cases early : row ∈ query.take limit
    · exact .inl (by
        show row.queued ∈ batch
        rw [taken]
        exact List.mem_map_of_mem early)
    · refine .inr fun record member => ?_
      rcases List.mem_append.mp member with old | new
      · exact after row present record old
      · obtain ⟨own, -, rfl, first⟩ := source record new
        exact numbered.lt_of_not_mem_take first present early

theorem sent {batch : List QueuedUsage} (sound : DrainSound db posted drain)
    (posting : drain.phase = .posting batch) :
    DrainSound db (posted ++ batch) { drain with phase := .awaiting batch } := by
  have unsent : drain.unsent = batch := by simp only [Drain.unsent, posting]
  have leased : drain.leased = batch := by simp only [Drain.leased, posting]
  have total : posted ++ batch ++ ({ drain with phase := .awaiting batch } : Drain).unsent
      = posted ++ drain.unsent := by
    rw [unsent]
    exact List.append_nil _
  refine ⟨?_, ?_, ?_, ?_, ?_, ?_⟩
  · rw [total]
    exact sound.bounded
  · rw [total]
    exact sound.allowed
  · rw [total]
    exact sound.ordered
  · rw [total]
    exact fun record member => sound.known record (leased ▸ member)
  · exact fun record member => sound.named record (leased ▸ member)
  · intro _ row waiting wanted
    rw [total]
    exact leased ▸ sound.later (by simp [posting]) row waiting wanted

theorem accepted {batch : List QueuedUsage} (sound : DrainSound db posted drain)
    (awaiting : drain.phase = .awaiting batch) :
    DrainSound db posted { drain with phase := .acknowledging batch } := by
  have unsent : drain.unsent = [] := by simp only [Drain.unsent, awaiting]
  have leased : drain.leased = batch := by simp only [Drain.leased, awaiting]
  have total : posted ++ ({ drain with phase := .acknowledging batch } : Drain).unsent
      = posted ++ drain.unsent := by
    rw [unsent]
    rfl
  refine ⟨?_, ?_, ?_, ?_, ?_, ?_⟩
  · rw [total]
    exact sound.bounded
  · rw [total]
    exact sound.allowed
  · rw [total]
    exact sound.ordered
  · rw [total]
    exact fun record member => sound.known record (leased ▸ member)
  · exact fun record member => sound.named record (leased ▸ member)
  · intro _ row waiting wanted
    rw [total]
    exact leased ▸ sound.later (by simp [awaiting]) row waiting wanted

theorem acknowledged {batch : List QueuedUsage} {after : Database} {rounds sent : Nat}
    (sound : DrainSound db posted drain) (acknowledging : drain.phase = .acknowledging batch)
    (removed : db.Removes after (batch.map (·.sequence))) :
    DrainSound after posted { drain with rounds := rounds, sent := sent, phase := .peeking } := by
  have unsent : drain.unsent = [] := by simp only [Drain.unsent, acknowledging]
  have leased : drain.leased = batch := by simp only [Drain.leased, acknowledging]
  have kept := sound.follows removed.follows
  have total : posted ++ ({ drain with rounds := rounds, sent := sent, phase := .peeking } :
      Drain).unsent = posted ++ drain.unsent := by
    rw [unsent]
    rfl
  refine ⟨?_, ?_, ?_, nofun, nofun, ?_⟩
  · rw [total]
    exact kept.bounded
  · rw [total]
    exact kept.allowed
  · rw [total]
    exact kept.ordered
  · intro _ row waiting wanted
    rw [total]
    rcases kept.later (by simp [acknowledging]) row waiting wanted with held | later
    · rw [removed.rows] at waiting
      have gone := (List.mem_filter.mp waiting).2
      rw [leased] at held
      have number : row.sequence ∈ batch.map (·.sequence) :=
        List.mem_map.mpr ⟨row.queued, held, rfl⟩
      simp [number] at gone
    · exact .inr later

end DrainSound

/-! ### What each step of a drain can do -/

namespace Delivery

variable {state after : Delivery} {id : Nat} {current : Bool}

theorem next_start {queue : UsageQueue} {provider : String} {scope : ProviderScope}
    (moved : next state (.start id queue provider scope) = some after) :
    state.drains id = none ∧ after = state.update id ⟨queue, provider, scope, 32, 0, .peeking⟩ := by
  simp only [next] at moved
  split at moved
  · cases moved
  · rename_i unused
    exact ⟨unused, (Option.some.inj moved).symm⟩

theorem next_peek (moved : next state (.peek id current) = some after) :
    ∃ drain, state.drains id = some drain ∧ drain.phase = .peeking ∧
      after = state.update id (drain.peek current state.db) := by
  simp only [next] at moved
  split at moved
  · rename_i drain found
    split at moved
    · rename_i phase
      exact ⟨drain, found, phase, (Option.some.inj moved).symm⟩
    · cases moved
  · cases moved

theorem next_post (moved : next state (.post id current) = some after) :
    ∃ drain batch, state.drains id = some drain ∧ drain.phase = .posting batch ∧
      (after = state.update id (drain.stop (.finished true)) ∨
        after = { state.update id { drain with phase := .awaiting batch } with
          posts := state.posts ++ [⟨id, batch⟩] }) := by
  simp only [next] at moved
  split at moved
  · rename_i drain found
    split at moved
    · rename_i batch phase
      split at moved
      · exact ⟨drain, batch, found, phase, .inl (Option.some.inj moved).symm⟩
      · exact ⟨drain, batch, found, phase, .inr (Option.some.inj moved).symm⟩
    · cases moved
  · cases moved

theorem next_receive {answer : Except String PostResult}
    (moved : next state (.receive id answer) = some after) :
    ∃ drain batch, state.drains id = some drain ∧ drain.phase = .awaiting batch ∧
      after = { state.update id (drain.receive batch answer) with
        receipts := state.receipts ++ (answer.toOption.toList.map fun result =>
          ⟨⟨id, batch⟩, result, drain.queue.requiresConfirmedReceipt⟩) } := by
  simp only [next] at moved
  split at moved
  · rename_i drain found
    split at moved
    · rename_i batch phase
      exact ⟨drain, batch, found, phase, (Option.some.inj moved).symm⟩
    · cases moved
  · cases moved

theorem next_acknowledge (moved : next state (.acknowledge id current) = some after) :
    ∃ drain batch, state.drains id = some drain ∧ drain.phase = .acknowledging batch ∧
      (after = state.update id (drain.stop (.finished true)) ∨
        after = { state.update id (drain.acknowledge batch
            (drain.queue.acknowledge (batch.map (·.sequence)) state.db).1) with
          db := (drain.queue.acknowledge (batch.map (·.sequence)) state.db).2 }) := by
  simp only [next] at moved
  split at moved
  · rename_i drain found
    split at moved
    · rename_i batch phase
      split at moved
      · exact ⟨drain, batch, found, phase, .inl (Option.some.inj moved).symm⟩
      · exact ⟨drain, batch, found, phase, .inr (Option.some.inj moved).symm⟩
    · cases moved
  · cases moved

theorem next_crash (moved : next state (.crash id) = some after) :
    ∃ drain, state.drains id = some drain ∧ after = state.update id (drain.stop .crashed) := by
  simp only [next] at moved
  split at moved
  · rename_i drain found
    split at moved
    · cases moved
    · exact ⟨drain, found, (Option.some.inj moved).symm⟩
  · cases moved

theorem posted_append (state : Delivery) {post : Post} (sent : after.posts = state.posts ++ [post]) (id : Nat) :
    after.posted id = state.posted id ++ if post.drain = id then post.batch else [] := by
  simp only [posted, sent, List.filter_append, List.flatMap_append]
  by_cases own : post.drain = id <;> simp [own]

end Delivery

/-! ### The invariant -/

structure DeliverySound (state : Delivery) : Prop where
  valid : state.db.WellFormed
  drains : ∀ id drain, state.drains id = some drain → DrainSound state.db (state.posted id) drain
  started : ∀ post ∈ state.posts, state.drains post.drain ≠ none
  awaited : ∀ id drain batch, state.drains id = some drain → drain.phase = .awaiting batch →
    ⟨id, batch⟩ ∈ state.posts
  accepted : ∀ id drain batch, state.drains id = some drain → drain.phase = .acknowledging batch →
    ∃ receipt ∈ state.receipts, receipt.post = ⟨id, batch⟩ ∧ ⟨id, batch⟩ ∈ state.posts ∧
      acknowledged receipt.result batch.length receipt.requireConfirmed = true

namespace DeliverySound

variable {state after : Delivery}

theorem start : DeliverySound .start :=
  ⟨Database.wellFormed_new, nofun, nofun, nofun, nofun⟩

theorem changed (sound : DeliverySound state) {db : Database} (valid : db.WellFormed)
    (follows : state.db.Follows db) : DeliverySound { state with db := db } :=
  ⟨valid, fun id drain found => (sound.drains id drain found).follows follows, sound.started,
    sound.awaited, sound.accepted⟩

theorem moved (sound : DeliverySound state) (id : Nat) (drain : Drain)
    (valid : after.db.WellFormed) (follows : state.db.Follows after.db)
    (drains : after.drains = Function.update state.drains id (some drain))
    (posted : ∀ other ≠ id, after.posted other = state.posted other)
    (posts : ∀ post ∈ after.posts, post ∈ state.posts ∨ post.drain = id)
    (kept : ∀ post ∈ state.posts, post ∈ after.posts)
    (receipts : ∀ receipt ∈ state.receipts, receipt ∈ after.receipts)
    (own : DrainSound after.db (after.posted id) drain)
    (awaited : ∀ batch, drain.phase = .awaiting batch → ⟨id, batch⟩ ∈ after.posts)
    (accepted : ∀ batch, drain.phase = .acknowledging batch →
      ∃ receipt ∈ after.receipts, receipt.post = ⟨id, batch⟩ ∧ ⟨id, batch⟩ ∈ after.posts ∧
        acknowledged receipt.result batch.length receipt.requireConfirmed = true) :
    DeliverySound after := by
  have found : ∀ other moved, after.drains other = some moved →
      other = id ∧ moved = drain ∨ other ≠ id ∧ state.drains other = some moved := by
    intro other moved present
    rw [drains] at present
    by_cases same : other = id
    · rw [same, Function.update_self, Option.some.injEq] at present
      exact .inl ⟨same, present.symm⟩
    · rw [Function.update_of_ne same] at present
      exact .inr ⟨same, present⟩
  refine ⟨valid, ?_, ?_, ?_, ?_⟩
  · intro other moved present
    rcases found other moved present with ⟨rfl, rfl⟩ | ⟨different, present⟩
    · exact own
    · rw [posted other different]
      exact (sound.drains other moved present).follows follows
  · intro post member
    rw [drains]
    by_cases same : post.drain = id
    · rw [same, Function.update_self]
      exact Option.some_ne_none _
    · rw [Function.update_of_ne same]
      exact sound.started post ((posts post member).resolve_right same)
  · intro other moved batch present phase
    rcases found other moved present with ⟨rfl, rfl⟩ | ⟨different, present⟩
    · exact awaited batch phase
    · exact kept _ (sound.awaited other moved batch present phase)
  · intro other moved batch present phase
    rcases found other moved present with ⟨rfl, rfl⟩ | ⟨different, present⟩
    · exact accepted batch phase
    · obtain ⟨receipt, member, post, sent, good⟩ :=
        sound.accepted other moved batch present phase
      exact ⟨receipt, receipts receipt member, post, kept _ sent, good⟩

theorem settled (sound : DeliverySound state) {id : Nat} {drain : Drain} {db : Database}
    {receipts : List Receipt} (valid : db.WellFormed) (follows : state.db.Follows db)
    (own : DrainSound db (state.posted id) drain)
    (idle : ∀ batch, drain.phase ≠ .awaiting batch ∧ drain.phase ≠ .acknowledging batch)
    (kept : ∀ receipt ∈ state.receipts, receipt ∈ receipts) :
    DeliverySound { state.update id drain with db := db, receipts := receipts } :=
  sound.moved id drain valid follows rfl (fun _ _ => rfl) (fun _ member => .inl member)
    (fun _ member => member) kept own (fun batch phase => absurd phase (idle batch).1)
    (fun batch phase => absurd phase (idle batch).2)

theorem peek (sound : DeliverySound state) {id : Nat} {current : Bool}
    (moved : Delivery.next state (.peek id current) = some after) : DeliverySound after := by
  obtain ⟨drain, found, phase, rfl⟩ := Delivery.next_peek moved
  have own := sound.drains id drain found
  have stopped : ∀ outcome, DeliverySound (state.update id (drain.stop outcome)) := fun outcome =>
    sound.settled sound.valid (.refl _) (own.stop outcome) (fun _ => ⟨nofun, nofun⟩)
      fun _ member => member
  unfold Drain.peek
  split
  · exact stopped _
  · split
    · exact stopped _
    · split
      · exact stopped _
      · exact stopped _
      · rename_i batch _ read
        exact sound.settled sound.valid (.refl _) (own.peeked sound.valid phase read)
          (fun _ => ⟨nofun, nofun⟩) fun _ member => member

theorem post (sound : DeliverySound state) {id : Nat} {current : Bool}
    (moved : Delivery.next state (.post id current) = some after) : DeliverySound after := by
  obtain ⟨drain, batch, found, phase, rfl | rfl⟩ := Delivery.next_post moved
  · exact sound.settled sound.valid (.refl _) ((sound.drains id drain found).stop _)
      (fun _ => ⟨nofun, nofun⟩) fun _ member => member
  · refine sound.moved id { drain with phase := .awaiting batch } sound.valid
      (.refl _) rfl ?_ ?_ (fun _ member => List.mem_append_left _ member) (fun _ member => member)
      ?_ ?_ nofun
    · intro other different
      rw [Delivery.posted_append state rfl, if_neg (Ne.symm different),
        List.append_nil]
    · intro post member
      rcases List.mem_append.mp member with old | new
      · exact .inl old
      · exact .inr (congrArg Post.drain (List.mem_singleton.mp new))
    · rw [Delivery.posted_append state rfl, if_pos rfl]
      exact (sound.drains id drain found).sent phase
    · rintro other ⟨⟩
      exact List.mem_append_right _ List.mem_cons_self

theorem receive (sound : DeliverySound state) {id : Nat} {answer : Except String PostResult}
    (moved : Delivery.next state (.receive id answer) = some after) : DeliverySound after := by
  obtain ⟨drain, batch, found, phase, rfl⟩ := Delivery.next_receive moved
  have own := sound.drains id drain found
  have stopped : ∀ outcome receipts, (∀ receipt ∈ state.receipts, receipt ∈ receipts) →
      DeliverySound { state.update id (drain.stop outcome) with receipts := receipts } :=
    fun outcome receipts => sound.settled sound.valid (.refl _) (own.stop outcome)
      fun _ => ⟨nofun, nofun⟩
  cases answer with
  | error error => exact stopped _ _ fun _ member => List.mem_append_left _ member
  | ok result =>
    by_cases good : acknowledged result batch.length drain.queue.requiresConfirmedReceipt = true
    · simp only [Drain.receive, if_pos good]
      refine sound.moved id { drain with phase := .acknowledging batch }
        sound.valid (.refl _) rfl (fun _ _ => rfl) (fun _ member => .inl member)
        (fun _ member => member) (fun _ member => List.mem_append_left _ member)
        (own.accepted phase) nofun ?_
      rintro other ⟨⟩
      exact ⟨_, List.mem_append_right _ List.mem_cons_self, rfl,
        sound.awaited id drain batch found phase, good⟩
    · simp only [Drain.receive, if_neg good]
      exact stopped _ _ fun _ member => List.mem_append_left _ member

theorem acknowledge (sound : DeliverySound state) {id : Nat} {current : Bool}
    (moved : Delivery.next state (.acknowledge id current) = some after) :
    DeliverySound after := by
  obtain ⟨drain, batch, found, phase, rfl | rfl⟩ := Delivery.next_acknowledge moved
  · exact sound.settled sound.valid (.refl _) ((sound.drains id drain found).stop _)
      (fun _ => ⟨nofun, nofun⟩) fun _ member => member
  · have own := sound.drains id drain found
    have valid := drain.queue.acknowledge_wellFormed sound.valid (batch.map (·.sequence))
    have follows := (drain.queue.acknowledge_follows (batch.map (·.sequence)) state.db).1
    rcases UsageQueue.acknowledge_cases
      (Prod.mk.eta (p := drain.queue.acknowledge (batch.map (·.sequence)) state.db)).symm with
      ⟨error, failed, kept⟩ | ⟨queueMeta, -, -, succeeded, removed⟩
    · rw [failed]
      exact sound.settled valid follows ((own.stop _).follows follows) (fun _ => ⟨nofun, nofun⟩)
        fun _ member => member
    · rw [succeeded]
      exact sound.settled valid follows (own.acknowledged phase removed)
        (fun _ => ⟨nofun, nofun⟩) fun _ member => member

/-- **The invariant is kept by every step of every party.** -/
theorem next (sound : DeliverySound state) {action : DeliveryAction}
    (moved : Delivery.next state action = some after) : DeliverySound after := by
  cases action with
  | «open» path requested maxBytes random =>
    cases moved
    exact sound.changed (UsageQueue.open_wellFormed sound.valid path requested maxBytes random)
      (UsageQueue.open_follows sound.valid path requested maxBytes random).1
  | enqueue queue records =>
    cases moved
    exact sound.changed (queue.enqueue_wellFormed sound.valid records)
      (queue.enqueue_follows records state.db).1
  | start id queue provider scope =>
    obtain ⟨unused, rfl⟩ := Delivery.next_start moved
    have silent : state.posted id = [] := by
      simp only [Delivery.posted, List.flatMap_eq_nil_iff, List.mem_filter, beq_iff_eq]
      rintro post ⟨member, rfl⟩
      exact absurd unused (sound.started post member)
    refine sound.settled sound.valid (.refl _) ?_ (fun _ => ⟨nofun, nofun⟩) fun _ member => member
    rw [silent]
    exact ⟨nofun, nofun, .nil, nofun, nofun, fun _ _ _ _ => .inr nofun⟩
  | peek => exact sound.peek moved
  | post => exact sound.post moved
  | receive => exact sound.receive moved
  | acknowledge => exact sound.acknowledge moved
  | crash id =>
    obtain ⟨drain, found, rfl⟩ := Delivery.next_crash moved
    exact sound.settled sound.valid (.refl _) ((sound.drains id drain found).stop _)
      (fun _ => ⟨nofun, nofun⟩) fun _ member => member

end DeliverySound

theorem sound_of_reachable {state : Delivery} (reached : Reachable Delivery.next .start state) :
    DeliverySound state :=
  Reachable.invariant _ .start (fun _ _ _ sound moved => sound.next moved) reached

/-! ### No loss -/

namespace DeliverySound

variable {state after : Delivery}

/-- **A row leaves the queue only after an accepted receipt for a batch that held it.** -/
theorem leaves (sound : DeliverySound state) {action : DeliveryAction}
    (moved : Delivery.next state action = some after) {row : PendingRow}
    (waiting : row ∈ state.db.rows) (gone : row ∉ after.db.rows) :
    ∃ receipt ∈ state.receipts, receipt.post ∈ state.posts ∧ row.queued ∈ receipt.post.batch ∧
      acknowledged receipt.result receipt.post.batch.length receipt.requireConfirmed = true := by
  cases action with
  | «open» path requested maxBytes random =>
    cases moved
    rw [(UsageQueue.open_follows sound.valid path requested maxBytes random).2] at gone
    exact absurd waiting gone
  | enqueue queue records =>
    cases moved
    exact absurd ((queue.enqueue_follows records state.db).2 row waiting) gone
  | start =>
    obtain ⟨-, rfl⟩ := Delivery.next_start moved
    exact absurd waiting gone
  | peek =>
    obtain ⟨drain, -, -, rfl⟩ := Delivery.next_peek moved
    exact absurd waiting gone
  | post =>
    obtain ⟨drain, batch, -, -, rfl | rfl⟩ := Delivery.next_post moved <;>
      exact absurd waiting gone
  | receive =>
    obtain ⟨drain, batch, -, -, rfl⟩ := Delivery.next_receive moved
    exact absurd waiting gone
  | crash =>
    obtain ⟨drain, -, rfl⟩ := Delivery.next_crash moved
    exact absurd waiting gone
  | acknowledge id current =>
    obtain ⟨drain, batch, found, phase, rfl | rfl⟩ := Delivery.next_acknowledge moved
    · exact absurd waiting gone
    · have named : row.sequence ∈ batch.map (·.sequence) := by
        by_contra other
        exact gone ((drain.queue.acknowledge_follows _ state.db).2 row waiting other)
      obtain ⟨record, member, same⟩ := List.mem_map.mp named
      have leased : drain.leased = batch := by simp only [Drain.leased, phase]
      have held := (sound.drains id drain found).named record (leased ▸ member) row waiting
        same.symm
      obtain ⟨receipt, kept, sent, posted, good⟩ := sound.accepted id drain batch found phase
      refine ⟨receipt, kept, sent ▸ posted, ?_, ?_⟩
      · rw [sent, held]
        exact member
      · rwa [sent]

end DeliverySound

theorem follows_of_reachable {state later : Delivery} (sound : DeliverySound state)
    (reached : Reachable Delivery.next state later) : state.db.Follows later.db := by
  refine (Reachable.invariant (fun later => DeliverySound later ∧
    state.db.Follows later.db) ⟨sound, .refl _⟩ ?_ reached).2
  rintro before action after ⟨sound, follows⟩ moved
  have trans : ∀ {db : Database}, before.db.Follows db → state.db.Follows db := fun more =>
    ⟨follows.lastSequence.trans more.lastSequence, fun row member =>
      (more.rows row member).elim (follows.rows row) fun new =>
        .inr (follows.lastSequence.trans_lt new)⟩
  refine ⟨sound.next moved, trans ?_⟩
  cases action with
  | «open» path requested maxBytes random =>
    cases moved
    exact (UsageQueue.open_follows sound.valid path requested maxBytes random).1
  | enqueue queue records =>
    cases moved
    exact (queue.enqueue_follows records before.db).1
  | start =>
    obtain ⟨-, rfl⟩ := Delivery.next_start moved
    exact .refl _
  | peek =>
    obtain ⟨drain, -, -, rfl⟩ := Delivery.next_peek moved
    exact .refl _
  | post =>
    obtain ⟨drain, batch, -, -, rfl | rfl⟩ := Delivery.next_post moved <;> exact .refl _
  | receive =>
    obtain ⟨drain, batch, -, -, rfl⟩ := Delivery.next_receive moved
    exact .refl _
  | crash =>
    obtain ⟨drain, -, rfl⟩ := Delivery.next_crash moved
    exact .refl _
  | acknowledge =>
    obtain ⟨drain, batch, -, -, rfl | rfl⟩ := Delivery.next_acknowledge moved
    · exact .refl _
    · exact (drain.queue.acknowledge_follows _ before.db).1

structure NoLoss (state : Delivery) : Prop where
  /-- A row leaves only after an accepted receipt for a request that held it. -/
  confirmed : ∀ action after, Delivery.next state action = some after →
    ∀ row ∈ state.db.rows, row ∉ after.db.rows →
    ∃ receipt ∈ state.receipts, receipt.post ∈ state.posts ∧ row.queued ∈ receipt.post.batch ∧
      acknowledged receipt.result receipt.post.batch.length receipt.requireConfirmed = true
  /-- An acknowledgement of a batch leased before a row was stored does not delete that row. -/
  restored : ∀ id drain, state.drains id = some drain →
    ∀ later held, Reachable Delivery.next state later → later.drains id = some held →
    held.leased = drain.leased → ∀ row ∈ later.db.rows, row ∉ state.db.rows →
    ∀ current after, Delivery.next later (.acknowledge id current) = some after →
    row ∈ after.db.rows
  /-- No answer changes the queue, and the drain of a bad one never acknowledges. -/
  refused : ∀ id answer after, Delivery.next state (.receive id answer) = some after →
    after.db = state.db ∧ ∃ drain batch, state.drains id = some drain ∧
      drain.phase = .awaiting batch ∧
      ((∀ result, answer = .ok result → acknowledged result batch.length
          drain.queue.requiresConfirmedReceipt = false) →
        ∃ error, after.drains id = some (drain.stop (.failed error)))
  /-- A drain sends the rows of its provider that its policy lets out, each later than the last. -/
  posts : ∀ id drain, state.drains id = some drain →
    (∀ record ∈ state.posted id, record.providerKey = drain.provider ∧
      drain.scope.allows record.projectId = true) ∧
    (state.posted id).Pairwise fun left right => left.sequence < right.sequence

/-- **No record is lost**, whatever the order of the steps and wherever a drain stops. -/
theorem no_loss {state : Delivery} (reached : Reachable Delivery.next .start state) :
    NoLoss state where
  confirmed := fun _ _ moved _ waiting gone =>
    (sound_of_reachable reached).leaves moved waiting gone
  restored := by
    intro id drain found later held onward present same row waiting fresh current after moved
    have own := (sound_of_reachable reached).drains id drain found
    have number := ((follows_of_reachable (sound_of_reachable reached) onward).rows row
      waiting).resolve_left fresh
    obtain ⟨other, batch, again, phase, rfl | rfl⟩ := Delivery.next_acknowledge moved
    · exact waiting
    · obtain rfl : held = other := Option.some.inj (present.symm.trans again)
      refine (held.queue.acknowledge_follows _ later.db).2 row waiting fun named => ?_
      obtain ⟨record, member, equal⟩ := List.mem_map.mp named
      have leased : held.leased = batch := by simp only [Drain.leased, phase]
      rw [← leased, same] at member
      have old := own.bounded record (own.known record member)
      omega
  refused := by
    intro id answer after moved
    obtain ⟨drain, batch, found, phase, rfl⟩ := Delivery.next_receive moved
    refine ⟨rfl, drain, batch, found, phase, fun bad => ?_⟩
    cases answer with
    | error error => exact ⟨error, Function.update_self ..⟩
    | ok result =>
      have refused : drain.receive batch (.ok result) = drain.stop (.failed
          "서버 저장 확인이 배치와 일치하지 않습니다; 전송 대기 기록을 보존합니다") := by
        simp only [Drain.receive, bad result rfl, Bool.false_eq_true, if_false]
      exact ⟨_, (Function.update_self ..).trans (congrArg some refused)⟩
  posts := by
    intro id drain found
    have own := (sound_of_reachable reached).drains id drain found
    exact ⟨fun record member => own.allowed record (List.mem_append_left _ member),
      (List.pairwise_append.mp own.ordered).1⟩

def crashedRun : List DeliveryAction :=
  let queue : UsageQueue := ⟨"queue", "instance", fixtureIdentity, DEFAULT_MAX_BYTES⟩
  [.open "queue" fixtureIdentity DEFAULT_MAX_BYTES "instance", .start 0 queue "codex" .all,
   .enqueue queue [fixture "one"], .crash 0]

theorem no_loss_crashedRun :
    ∃ state, Library.run Delivery.next .start crashedRun = some state ∧ NoLoss state :=
  ⟨_, rfl, no_loss (Reachable.of_run crashedRun rfl)⟩

end Toard.Shim
