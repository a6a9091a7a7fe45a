/-
**Receipts for posted events (`api/v1/events`).**

The route answers a batch with five counts: what it ignored because another collector is in charge
of the provider, what is past its retention, what it stored and what was there already, and what is
confirmed, which the database counts after the insert (`record_ingest_usage_receipt`). The collector
deletes its records when the counts account for all of them (`acknowledged`).

* **`receipts_are_honest`**: an acknowledged batch is all stored under the user, expired or ignored;
  and a batch none of whose keys has a row of anyone else is acknowledged.
* **`unowned_row_blocks_batch`**: a row without a user is nobody else's, and blocks its batch.

What the saving of events does besides (the daily totals, the request for a pricing repair, the
flush of the outbox, the records of token hosts and versions) is left out: it is not in the answer.
-/

import Mathlib.Algebra.BigOperators.Group.List.Lemmas
import Toard.Server.Wire
import Toard.Shim.Durable
import Toard.Storage.Rollup

namespace Toard.Server

open Toard.Json (Value)
open Toard.Shim (PostResult acknowledged)
open Toard.Storage (OutboxRow CostStatus)

/-! ### The store -/

inductive StorageKind where
  | postgres
  | clickhouse
deriving DecidableEq

/-- A row of `ingest_tokens`. -/
structure IngestToken where
  id : String
  userId : String
  firstUsageStoredAt : Option Int
  lastUsageStoredAt : Option Int
  lastUsageCount : Nat
deriving DecidableEq

/-- A row of `collection_provider_health`, as far as receipts write it. -/
structure ProviderHealth where
  tokenId : String
  providerKey : String
  firstUsageStoredAt : Option Int
  lastUsageStoredAt : Option Int
  lastEventAt : Option Int
  lastUsageCount : Nat
deriving DecidableEq

structure UsageStore where
  /-- The table `usage_events` of Postgres. -/
  usageEvents : List OutboxRow
  /-- The table `clickhouse_usage_outbox`. -/
  outbox : List OutboxRow
  tokens : List IngestToken
  health : List ProviderHealth
deriving DecidableEq

def UsageStore.rows (store : UsageStore) : StorageKind → List OutboxRow
  | .postgres => store.usageEvents
  | .clickhouse => store.outbox

def UsageStore.setRows (store : UsageStore) (kind : StorageKind) (rows : List OutboxRow) :
    UsageStore :=
  match kind with
  | .postgres => { store with usageEvents := rows }
  | .clickhouse => { store with outbox := rows }

/-- Insert rows with `ON CONFLICT (dedup_key) DO NOTHING`, and count those that went in. -/
def insertEvents (rows : List OutboxRow) : List OutboxRow → List OutboxRow × Nat
  | [] => (rows, 0)
  | row :: rest =>
    if row.dedupKey ∈ rows.map OutboxRow.dedupKey then insertEvents rows rest
    else ((insertEvents (rows ++ [row]) rest).1, (insertEvents (rows ++ [row]) rest).2 + 1)

/-! ### The receipt -/

/-- The rows that a receipt confirms: the user's, of the keys of the batch. -/
def ownEvents (rows : List OutboxRow) (userId : String) (keys : List String) : List OutboxRow :=
  rows.filter fun row => row.userId = some userId ∧ row.dedupKey ∈ keys

def ProviderHealth.upsert (health : List ProviderHealth) (row : ProviderHealth) :
    List ProviderHealth :=
  if health.any fun old => old.tokenId = row.tokenId ∧ old.providerKey = row.providerKey then
    health.map fun old =>
      if old.tokenId = row.tokenId ∧ old.providerKey = row.providerKey then
        { old with
          firstUsageStoredAt := old.firstUsageStoredAt.or row.firstUsageStoredAt
          lastUsageStoredAt := row.lastUsageStoredAt
          lastEventAt := max old.lastEventAt row.lastEventAt
          lastUsageCount := row.lastUsageCount }
      else old
  else health ++ [row]

/-- The loop of `record_ingest_usage_receipt` over the providers of the rows. -/
def receiptLoop (storedAt : Int) (tokenId : String) (own : List OutboxRow) :
    List String → Nat × List ProviderHealth → Nat × List ProviderHealth
  | [], result => result
  | providerKey :: rest, (accepted, health) =>
    let events := own.filter fun row => row.providerKey = providerKey
    receiptLoop storedAt tokenId own rest
      (accepted + events.length, ProviderHealth.upsert health
        { tokenId := tokenId
          providerKey := providerKey
          firstUsageStoredAt := some storedAt
          lastUsageStoredAt := some storedAt
          lastEventAt := (events.map OutboxRow.ts).max?
          lastUsageCount := events.length })

/-- `record_ingest_usage_receipt`; none where it raises an exception. -/
def recordIngestUsageReceipt (storedAt : Int) (kind : StorageKind) (store : UsageStore)
    (tokenId userId : String) (keys : List String) : Option (Nat × UsageStore) :=
  if store.tokens.any fun token => token.id = tokenId ∧ token.userId = userId then
    let own := ownEvents (store.rows kind) userId keys
    let providers := (own.map OutboxRow.providerKey).dedup.insertionSort (· ≤ ·)
    let (accepted, health) := receiptLoop storedAt tokenId own providers (0, store.health)
    some (accepted, { store with
      health := health
      tokens := if accepted = 0 then store.tokens else store.tokens.map fun token =>
        if token.id = tokenId ∧ token.userId = userId then
          { token with
            firstUsageStoredAt := token.firstUsageStoredAt.or (some storedAt)
            lastUsageStoredAt := some storedAt
            lastUsageCount := accepted }
        else token })
  else none

structure SaveResult where
  inserted : Nat
  deduped : Nat
  confirmed : Option Nat
deriving DecidableEq

structure UsageIngestContext where
  tokenId : String
  userId : String
deriving DecidableEq

/-- `saveUsageEvents` of either backend; none where the transaction fails. -/
def saveUsageEvents (storedAt : Int) (kind : StorageKind) (store : UsageStore)
    (events : List OutboxRow) (context : UsageIngestContext) : Option (SaveResult × UsageStore) :=
  if events = [] then some (⟨0, 0, none⟩, store)
  else
    let (rows, inserted) := insertEvents (store.rows kind) events
    (recordIngestUsageReceipt storedAt kind (store.setRows kind rows) context.tokenId context.userId
      (events.map OutboxRow.dedupKey)).map fun (confirmed, after) =>
        (⟨inserted, events.length - inserted, some confirmed⟩, after)

/-! ### Finalisation -/

def maxUsageEventAgeMs : Int := 90 * 24 * 60 * 60 * 1000

/-- What `resolveCostAt` answers; costs count units of 1e-8 USD. -/
structure CostResolution where
  costUsd : Int
  pricingRevisionId : Option String
  status : CostStatus
deriving DecidableEq

def finalizeEvent (userId : String) (resolve : UsageEvent → CostResolution)
    (teamAt : UsageEvent → Option String) (event : UsageEvent) : OutboxRow where
  dedupKey := event.dedupKey
  providerKey := event.providerKey
  userId := some userId
  teamId := teamAt event
  sessionId := event.sessionId
  model := event.model
  ts := event.ts
  inputTokens := event.inputTokens
  outputTokens := event.outputTokens
  cacheReadTokens := event.cacheReadTokens
  cacheCreationTokens := event.cacheCreationTokens
  costUsd := (resolve event).costUsd
  logAdapter := event.logAdapter
  host := event.host
  pricingRevisionId := (resolve event).pricingRevisionId
  costStatus := (resolve event).status
  costCalculationVersion := some "cost-v2"
  cacheCreation1hTokens := some (min event.cacheCreation1hTokens event.cacheCreationTokens)
  isFast := none

/-- `finalizeUsageEvents`: the rows of the events that are not expired, and how many are. -/
def finalizeUsageEvents (events : List UsageEvent) (userId : String)
    (resolve : UsageEvent → CostResolution) (teamAt : UsageEvent → Option String) (now : Int) :
    List OutboxRow × Nat :=
  let accepted := events.filter fun event => now - maxUsageEventAgeMs ≤ event.ts
  (accepted.map (finalizeEvent userId resolve teamAt), events.length - accepted.length)

/-! ### The route -/

inductive CollectionMethod where
  | otel
  | logfile
deriving DecidableEq

structure Provider where
  key : String
  collectionMethod : CollectionMethod
deriving DecidableEq

inductive BodyError where
  | tooLarge
  | invalidJson
deriving DecidableEq

inductive Response where
  | refused (status : Nat) (text : String)
  | counts (result : PostResult)
deriving DecidableEq

structure EventsPostDeps where
  providers : List Provider
  resolve : UsageEvent → CostResolution
  teamAt : UsageEvent → Option String
  sanitizeHost : Option String → Option String
  toUtc : Int → Int
  kind : StorageKind
  now : Int
  storedAt : Int

def EventsPostDeps.logfile (deps : EventsPostDeps) (event : UsageEvent) : Bool :=
  deps.providers.any fun provider =>
    provider.key = event.providerKey ∧ provider.collectionMethod = .logfile

def EventsPostDeps.unknown (deps : EventsPostDeps) (events : List UsageEvent) : List String :=
  ((events.map UsageEvent.providerKey).dedup).filter fun key =>
    key ∉ deps.providers.map Provider.key

def EventsPostDeps.sanitize (deps : EventsPostDeps) (event : UsageEvent) : UsageEvent :=
  { event with host := deps.sanitizeHost event.host }

/-- The events whose provider is read from log files, finalized for a user. -/
def EventsPostDeps.finalized (deps : EventsPostDeps) (context : UsageIngestContext)
    (events : List UsageEvent) : List OutboxRow × Nat :=
  finalizeUsageEvents ((events.filter deps.logfile).map deps.sanitize) context.userId deps.resolve
    deps.teamAt deps.now

/-- `postEvents` after the parsing of the body. -/
def answerEvents (deps : EventsPostDeps) (context : UsageIngestContext) (store : UsageStore)
    (events : List UsageEvent) : Option (Response × UsageStore) :=
  if events = [] then some (.counts ⟨0, 0, some 0, 0, 0⟩, store)
  else if deps.unknown events ≠ [] then
    some (.refused 400 ("등록되지 않은 provider: " ++ String.intercalate ", " (deps.unknown events)),
      store)
  else if events.filter deps.logfile = [] then
    some (.counts ⟨0, 0, some 0, 0, events.length⟩, store)
  else
    (saveUsageEvents deps.storedAt deps.kind store (deps.finalized context events).1 context).map
      fun (saved, after) =>
        (.counts ⟨saved.inserted, saved.deduped, some (saved.confirmed.getD 0),
          (deps.finalized context events).2,
          events.length - (events.filter deps.logfile).length⟩, after)

/-- `postEvents`; none where the transaction fails and there is no answer of the route. -/
def postEvents (deps : EventsPostDeps) (auth : Option UsageIngestContext) (store : UsageStore)
    (body : Except BodyError Value) : Option (Response × UsageStore) :=
  match auth with
  | none => some (.refused 401 "unauthorized", store)
  | some context =>
    match body with
    | .error .tooLarge => some (.refused 413 "payload too large (max 4MB)", store)
    | .error .invalidJson => some (.refused 400 "본문이 유효한 JSON 이 아닙니다", store)
    | .ok value =>
      match parseUsageEventsBody deps.toUtc value with
      | .error error => some (.refused 400 error.text, store)
      | .ok events => answerEvents deps context store events

/-! ### What is inserted -/

theorem nodup_insertEvents {rows : List OutboxRow} (events : List OutboxRow)
    (distinct : (rows.map OutboxRow.dedupKey).Nodup) :
    ((insertEvents rows events).1.map OutboxRow.dedupKey).Nodup := by
  induction events generalizing rows with
  | nil => exact distinct
  | cons row rest ih =>
    rw [insertEvents]
    split
    · exact ih distinct
    · next fresh =>
      refine ih ?_
      rw [List.map_append, List.map_singleton, List.nodup_append]
      refine ⟨distinct, List.nodup_singleton _, fun key among other single => ?_⟩
      rw [List.mem_singleton.mp single]
      exact fun same => fresh (same ▸ among)

theorem insertEvents_kept {rows : List OutboxRow} (events : List OutboxRow) {row : OutboxRow}
    (among : row ∈ rows) : row ∈ (insertEvents rows events).1 := by
  induction events generalizing rows with
  | nil => exact among
  | cons first rest ih =>
    rw [insertEvents]
    split
    · exact ih among
    · exact ih (List.mem_append_left _ among)

theorem insertEvents_covers (rows : List OutboxRow) {events : List OutboxRow} {event : OutboxRow}
    (among : event ∈ events) :
    ∃ row ∈ (insertEvents rows events).1, row.dedupKey = event.dedupKey := by
  induction events generalizing rows with
  | nil => cases among
  | cons first rest ih =>
    rw [insertEvents]
    rcases List.mem_cons.mp among with rfl | later
    · split
      · next known =>
        obtain ⟨row, old, same⟩ := List.mem_map.mp known
        exact ⟨row, insertEvents_kept rest old, same⟩
      · exact ⟨event, insertEvents_kept rest (List.mem_append_right _ List.mem_cons_self), rfl⟩
    · split
      · exact ih rows later
      · exact ih (rows ++ [first]) later

theorem mem_insertEvents {rows events : List OutboxRow} {row : OutboxRow}
    (among : row ∈ (insertEvents rows events).1) : row ∈ rows ∨ row ∈ events := by
  induction events generalizing rows with
  | nil => exact Or.inl among
  | cons first rest ih =>
    rw [insertEvents] at among
    split at among
    · exact (ih among).imp_right (List.mem_cons_of_mem first)
    · rcases ih among with old | later
      · rcases List.mem_append.mp old with before | single
        · exact Or.inl before
        · rw [List.mem_singleton.mp single]
          exact Or.inr List.mem_cons_self
      · exact Or.inr (List.mem_cons_of_mem first later)

theorem insertEvents_le (rows events : List OutboxRow) :
    (insertEvents rows events).2 ≤ events.length := by
  induction events generalizing rows with
  | nil => exact Nat.le_refl 0
  | cons first rest ih =>
    rw [insertEvents]
    split
    · exact (ih rows).trans (Nat.le_succ _)
    · exact Nat.succ_le_succ (ih (rows ++ [first]))

/-! ### What is confirmed -/

theorem receiptLoop_count (storedAt : Int) (tokenId : String) (own : List OutboxRow)
    (providers : List String) (accepted : Nat) (health : List ProviderHealth) :
    (receiptLoop storedAt tokenId own providers (accepted, health)).1
      = accepted + (providers.map fun key => (own.map OutboxRow.providerKey).count key).sum := by
  induction providers generalizing accepted health with
  | nil => rfl
  | cons key rest ih =>
    have counted : (own.filter fun row => row.providerKey = key).length
        = (own.map OutboxRow.providerKey).count key := by
      rw [List.count, List.countP_map, List.countP_eq_length_filter]
      exact congrArg List.length (List.filter_congr fun row _ => (beq_eq_decide _ _).symm)
    rw [receiptLoop, ih, counted, List.map_cons, List.sum_cons, Nat.add_assoc]

/-- **The confirmed count is the number of the user's rows**, whatever their providers. -/
theorem recordIngestUsageReceipt_count {storedAt : Int} {kind : StorageKind}
    {store after : UsageStore} {tokenId userId : String} {keys : List String} {confirmed : Nat}
    (recorded : recordIngestUsageReceipt storedAt kind store tokenId userId keys
      = some (confirmed, after)) :
    confirmed = (ownEvents (store.rows kind) userId keys).length ∧
      after.rows kind = store.rows kind := by
  rw [recordIngestUsageReceipt] at recorded
  split at recorded
  · cases recorded
    refine ⟨?_, by cases kind <;> rfl⟩
    rw [receiptLoop_count, Nat.zero_add,
      ((List.perm_insertionSort (· ≤ ·) _).map _).sum_eq, List.sum_map_count_dedup_eq_length,
      List.length_map]
  · cases recorded

theorem length_ownEvents_eq_iff {rows : List OutboxRow} (userId : String) {keys : List String}
    (deduplicated : (rows.map OutboxRow.dedupKey).Nodup) (distinct : keys.Nodup) :
    (ownEvents rows userId keys).length = keys.length ↔
      ∀ key ∈ keys, ∃ row ∈ rows, row.userId = some userId ∧ row.dedupKey = key := by
  have own : ((ownEvents rows userId keys).map OutboxRow.dedupKey).Nodup :=
    deduplicated.sublist (List.filter_sublist.map _)
  have wanted : (ownEvents rows userId keys).map OutboxRow.dedupKey ⊆ keys := by
    intro key among
    obtain ⟨row, rowAmong, rfl⟩ := List.mem_map.mp among
    exact (of_decide_eq_true (List.mem_filter.mp rowAmong).2).2
  have covers : keys ⊆ (ownEvents rows userId keys).map OutboxRow.dedupKey ↔
      ∀ key ∈ keys, ∃ row ∈ rows, row.userId = some userId ∧ row.dedupKey = key := by
    constructor
    · intro covered key among
      obtain ⟨row, rowAmong, same⟩ := List.mem_map.mp (covered among)
      obtain ⟨stored, isOwn⟩ := List.mem_filter.mp rowAmong
      exact ⟨row, stored, (of_decide_eq_true isOwn).1, same⟩
    · intro covered key among
      obtain ⟨row, stored, isOwn, rfl⟩ := covered key among
      exact List.mem_map_of_mem (List.mem_filter.mpr ⟨stored, decide_eq_true ⟨isOwn, among⟩⟩)
  rw [← covers, ← List.length_map OutboxRow.dedupKey]
  constructor
  · intro same
    exact ((List.subperm_of_subset own wanted).perm_of_length_le same.ge).symm.subset
  · intro covered
    exact Nat.le_antisymm (List.subperm_of_subset own wanted).length_le
      (List.subperm_of_subset distinct covered).length_le

/-! ### What is answered -/

theorem saveUsageEvents_counts {storedAt : Int} {kind : StorageKind} {store after : UsageStore}
    {events : List OutboxRow} {context : UsageIngestContext} {saved : SaveResult}
    (done : saveUsageEvents storedAt kind store events context = some (saved, after)) :
    saved.inserted + saved.deduped = events.length ∧
      after.rows kind = (insertEvents (store.rows kind) events).1 ∧
      saved.confirmed.getD 0
        = (ownEvents (after.rows kind) context.userId (events.map OutboxRow.dedupKey)).length := by
  rw [saveUsageEvents] at done
  split at done
  case isTrue empty =>
    cases done
    subst empty
    refine ⟨rfl, rfl, ?_⟩
    simp [ownEvents]
  case isFalse =>
    obtain ⟨⟨confirmed, last⟩, recorded, answered⟩ := Option.map_eq_some_iff.mp done
    cases answered
    obtain ⟨counted, kept⟩ := recordIngestUsageReceipt_count recorded
    have stored : ∀ rows, (store.setRows kind rows).rows kind = rows := by
      intro rows
      cases kind <;> rfl
    rw [stored] at counted kept
    refine ⟨?_, kept, ?_⟩
    · exact Nat.add_sub_of_le (insertEvents_le _ _)
    · rw [kept]
      exact counted

theorem saveUsageEvents_defined (storedAt : Int) (kind : StorageKind) {store : UsageStore}
    {context : UsageIngestContext} (events : List OutboxRow)
    (issued : ∃ token ∈ store.tokens, token.id = context.tokenId ∧ token.userId = context.userId) :
    ∃ saved after, saveUsageEvents storedAt kind store events context = some (saved, after) := by
  rw [saveUsageEvents]
  split
  · exact ⟨_, _, rfl⟩
  · have recorded : ∀ rows, ∃ confirmed after, recordIngestUsageReceipt storedAt kind
        (store.setRows kind rows) context.tokenId context.userId
        (events.map OutboxRow.dedupKey) = some (confirmed, after) := by
      intro rows
      have unchanged : (store.setRows kind rows).tokens = store.tokens := by cases kind <;> rfl
      rw [recordIngestUsageReceipt, unchanged, if_pos]
      · exact ⟨_, _, rfl⟩
      · obtain ⟨token, among, found⟩ := issued
        exact List.any_eq_true.mpr ⟨token, among, decide_eq_true found⟩
    obtain ⟨confirmed, after, counted⟩ := recorded (insertEvents (store.rows kind) events).1
    exact ⟨_, after, congrArg (Option.map _) counted⟩

/-! ### What an answer means -/

def Stored (rows : List OutboxRow) (userId dedupKey : String) : Prop :=
  ∃ row ∈ rows, row.userId = some userId ∧ row.dedupKey = dedupKey

/-- The events that are to be stored: of a provider whose logs are read, and not expired. -/
def EventsPostDeps.wanted (deps : EventsPostDeps) (events : List UsageEvent) : List UsageEvent :=
  events.filter fun event => deps.logfile event ∧ deps.now - maxUsageEventAgeMs ≤ event.ts

structure Accounts (deps : EventsPostDeps) (context : UsageIngestContext) (events : List UsageEvent)
    (finalized before after : List OutboxRow) (result : PostResult) : Prop where
  keys : finalized.map OutboxRow.dedupKey = (deps.wanted events).map UsageEvent.dedupKey
  owned : ∀ row ∈ finalized, row.userId = some context.userId
  stored : after = (insertEvents before finalized).1
  accounted : result.inserted + result.deduped + result.expired + result.ignored = events.length
  unwanted : finalized.length + result.expired + result.ignored = events.length
  confirmed : result.confirmed
    = some (ownEvents after context.userId (finalized.map OutboxRow.dedupKey)).length

theorem finalized_keys (deps : EventsPostDeps) (context : UsageIngestContext)
    (events : List UsageEvent) :
    (deps.finalized context events).1.map OutboxRow.dedupKey
      = (deps.wanted events).map UsageEvent.dedupKey := by
  rw [EventsPostDeps.finalized, finalizeUsageEvents, List.filter_map, List.filter_filter,
    List.map_map, List.map_map]
  refine congrArg (List.map UsageEvent.dedupKey) (List.filter_congr fun event _ => ?_)
  rw [Bool.and_comm, Bool.decide_and]
  exact congrArg (· && _) Bool.decide_eq_true.symm

theorem finalized_owned {deps : EventsPostDeps} {context : UsageIngestContext}
    {events : List UsageEvent} {row : OutboxRow}
    (among : row ∈ (deps.finalized context events).1) : row.userId = some context.userId := by
  obtain ⟨event, -, rfl⟩ := List.mem_map.mp among
  rfl

theorem finalized_length (deps : EventsPostDeps) (context : UsageIngestContext)
    (events : List UsageEvent) :
    (deps.finalized context events).1.length + (deps.finalized context events).2
      = (events.filter deps.logfile).length := by
  simp only [EventsPostDeps.finalized, finalizeUsageEvents, List.length_map]
  have sanitized : ((events.filter deps.logfile).map deps.sanitize).length
      = (events.filter deps.logfile).length := List.length_map _
  rw [← sanitized]
  exact Nat.add_sub_of_le (List.length_filter_le _ _)

/-- **What the counts of an answer say.** -/
theorem answerEvents_accounts {deps : EventsPostDeps} {context : UsageIngestContext}
    {store after : UsageStore} {events : List UsageEvent} {result : PostResult}
    (answered : answerEvents deps context store events = some (.counts result, after)) :
    ∃ finalized, Accounts deps context events finalized (store.rows deps.kind)
      (after.rows deps.kind) result := by
  rw [answerEvents] at answered
  split_ifs at answered with empty unknown ignored
  · cases answered
    subst empty
    exact ⟨[], rfl, List.forall_mem_nil _, rfl, rfl, rfl, by simp [ownEvents]⟩
  · cases answered
  · cases answered
    have unwanted : deps.wanted events = [] := by
      refine List.filter_eq_nil_iff.mpr fun event among wanted => ?_
      exact List.filter_eq_nil_iff.mp ignored event among (of_decide_eq_true wanted).1
    refine ⟨[], by rw [unwanted]; rfl, List.forall_mem_nil _, rfl, ?_, ?_, by simp [ownEvents]⟩
    · exact Nat.zero_add _
    · exact Nat.zero_add _
  · obtain ⟨⟨saved, last⟩, done, answer⟩ := Option.map_eq_some_iff.mp answered
    cases answer
    obtain ⟨counted, stored, confirmed⟩ := saveUsageEvents_counts done
    have read := finalized_length deps context events
    have fewer : (events.filter deps.logfile).length ≤ events.length := List.length_filter_le _ _
    refine ⟨_, finalized_keys deps context events, fun row => finalized_owned, stored, ?_, ?_,
      congrArg some confirmed⟩
    · dsimp only
      omega
    · dsimp only
      omega

/-- **An answer is accepted exactly if every wanted event is stored.** -/
theorem Accounts.acknowledged_iff {deps : EventsPostDeps} {context : UsageIngestContext}
    {events : List UsageEvent} {finalized before after : List OutboxRow} {result : PostResult}
    (accounts : Accounts deps context events finalized before after result)
    (distinct : (events.map UsageEvent.dedupKey).Nodup)
    (deduplicated : (before.map OutboxRow.dedupKey).Nodup) (small : events.length < 2 ^ 64) :
    acknowledged result events.length true = true ↔
      ∀ event ∈ deps.wanted events, Stored after context.userId event.dedupKey := by
  have keys : (finalized.map OutboxRow.dedupKey).Nodup := by
    rw [accounts.keys]
    exact distinct.sublist (List.filter_sublist.map _)
  have rows : (after.map OutboxRow.dedupKey).Nodup := by
    rw [accounts.stored]
    exact nodup_insertEvents finalized deduplicated
  have covered := length_ownEvents_eq_iff context.userId rows keys
  have accounted := accounts.accounted
  have unwanted := accounts.unwanted
  rw [Shim.acknowledged_iff, accounts.confirmed]
  simp only [Option.mem_def, Option.some.injEq, forall_eq', reduceCtorEq, false_implies, and_true,
    small, accounted, true_and]
  rw [← List.forall_mem_map (f := UsageEvent.dedupKey), ← accounts.keys]
  refine Iff.trans ?_ covered
  rw [List.length_map]
  omega

theorem Accounts.stored_iff {deps : EventsPostDeps} {context : UsageIngestContext}
    {events : List UsageEvent} {finalized before after : List OutboxRow} {result : PostResult}
    (accounts : Accounts deps context events finalized before after result)
    {event : UsageEvent} (wanted : event ∈ deps.wanted events)
    (owned : ∀ row ∈ before, row.dedupKey = event.dedupKey → row.userId = some context.userId) :
    Stored after context.userId event.dedupKey := by
  have key : event.dedupKey ∈ finalized.map OutboxRow.dedupKey := by
    rw [accounts.keys]
    exact List.mem_map_of_mem wanted
  obtain ⟨new, newAmong, newKey⟩ := List.mem_map.mp key
  obtain ⟨row, among, rowKey⟩ := insertEvents_covers before newAmong
  rw [newKey] at rowKey
  refine ⟨row, accounts.stored ▸ among, ?_, rowKey⟩
  rcases mem_insertEvents among with old | added
  · exact owned row old rowKey
  · exact accounts.owned row added

/-- **Receipts are honest.** A batch whose answer is accepted is all stored under the token's user,
expired or ignored; a batch none of whose keys has a row that is not the user's is accepted; and a
batch of known providers is answered with counts as long as the token exists. -/
theorem receipts_are_honest {deps : EventsPostDeps} {context : UsageIngestContext}
    {store : UsageStore} {value : Value} {events : List UsageEvent}
    (parsed : parseUsageEventsBody deps.toUtc value = .ok events)
    (distinct : (events.map UsageEvent.dedupKey).Nodup)
    (deduplicated : ((store.rows deps.kind).map OutboxRow.dedupKey).Nodup)
    (small : events.length < 2 ^ 64) :
    (∀ result after, postEvents deps (some context) store (.ok value)
        = some (.counts result, after) →
      (acknowledged result events.length true = true →
        ∀ event ∈ events, Stored (after.rows deps.kind) context.userId event.dedupKey ∨
          event.ts < deps.now - maxUsageEventAgeMs ∨ deps.logfile event = false) ∧
      ((∀ event ∈ events, ∀ row ∈ store.rows deps.kind, row.dedupKey = event.dedupKey →
          row.userId = some context.userId) →
        acknowledged result events.length true = true)) ∧
    ((∃ token ∈ store.tokens, token.id = context.tokenId ∧ token.userId = context.userId) →
      deps.unknown events = [] →
      ∃ result after, postEvents deps (some context) store (.ok value)
        = some (.counts result, after)) := by
  rw [postEvents, parsed]
  refine ⟨fun result after answered => ?_, fun issued known => ?_⟩
  · obtain ⟨finalized, accounts⟩ := answerEvents_accounts answered
    rw [accounts.acknowledged_iff distinct deduplicated small]
    constructor
    · intro stored event among
      by_cases wanted : event ∈ deps.wanted events
      · exact Or.inl (stored event wanted)
      · refine Or.inr ?_
        by_contra both
        obtain ⟨fresh, read⟩ := not_or.mp both
        exact wanted (List.mem_filter.mpr ⟨among, decide_eq_true
          ⟨by simpa using read, Int.not_lt.mp fresh⟩⟩)
    · intro owned event wanted
      exact accounts.stored_iff wanted (owned event (List.mem_of_mem_filter wanted))
  · change ∃ result after, answerEvents deps context store events = _
    rw [answerEvents]
    split_ifs with empty unknown ignored
    · exact ⟨_, _, rfl⟩
    · exact absurd known unknown
    · exact ⟨_, _, rfl⟩
    · obtain ⟨saved, after, done⟩ := saveUsageEvents_defined deps.storedAt deps.kind
        (deps.finalized context events).1 issued
      exact ⟨_, after, congrArg (Option.map _) done⟩

/-! ### A row without a user -/

/-- A server that reads the logs of one provider, at the beginning of time. -/
def codexOnly : EventsPostDeps where
  providers := [⟨"codex", .logfile⟩]
  resolve := fun _ => ⟨0, none, .unpriced⟩
  teamAt := fun _ => none
  sanitizeHost := id
  toUtc := id
  kind := .clickhouse
  now := 0
  storedAt := 0

def storeWith (outbox : List OutboxRow) : UsageStore where
  usageEvents := []
  outbox := outbox
  tokens := [⟨"token", "user", none, none, 0⟩]
  health := []

def postedEvent : UsageEvent where
  dedupKey := "key"
  providerKey := "codex"
  userId := none
  sessionId := none
  model := none
  ts := 0
  inputTokens := 7
  outputTokens := 0
  cacheReadTokens := 0
  cacheCreationTokens := 0
  cacheCreation1hTokens := 0
  costUsd := 0
  logAdapter := none
  host := none

def postedBody : Value :=
  .array [.object [("dedupKey", .string "key"), ("providerKey", .string "codex"),
    ("ts", .string "1970-01-01T00:00:00.000Z"), ("inputTokens", .number "7"),
    ("outputTokens", .number "0"), ("cacheReadTokens", .number "0"),
    ("cacheCreationTokens", .number "0")]]

theorem parse_postedBody : parseUsageEventsBody codexOnly.toUtc postedBody = .ok [postedEvent] := by
  have single : (parseUsageEventsBody codexOnly.toUtc postedBody).toOption = some [postedEvent] := by
    decide +kernel
  cases parsed : parseUsageEventsBody codexOnly.toUtc postedBody with
  | error error =>
    rw [parsed] at single
    cases single
  | ok events =>
    rw [parsed] at single
    exact congrArg Except.ok (Option.some.inj single)

def postedRow (userId : Option String) : OutboxRow :=
  { finalizeEvent "user" codexOnly.resolve codexOnly.teamAt postedEvent with userId := userId }

/-- A batch that was stored before is confirmed again. -/
theorem receipts_are_honest_again :
    ∃ result after, postEvents codexOnly (some ⟨"token", "user"⟩)
        (storeWith [postedRow (some "user")]) (.ok postedBody) = some (.counts result, after) ∧
      acknowledged result 1 true = true := by
  obtain ⟨honest, answers⟩ := @receipts_are_honest codexOnly ⟨"token", "user"⟩
    (storeWith [postedRow (some "user")]) _ _ parse_postedBody (List.nodup_singleton _) (List.nodup_singleton _) (by decide)
  obtain ⟨result, after, answered⟩ := answers ⟨_, List.mem_cons_self, rfl, rfl⟩ (by decide)
  refine ⟨result, after, answered, (honest result after answered).2 fun event _ row among _ => ?_⟩
  rw [List.mem_singleton.mp among]
  rfl

/-- **A row without a user blocks its batch.** It is not another user's, and it is not confirmed. -/
theorem unowned_row_blocks_batch : ¬ ∀ (deps : EventsPostDeps) (context : UsageIngestContext)
    (store after : UsageStore) (value : Value) (events : List UsageEvent) (result : PostResult),
    parseUsageEventsBody deps.toUtc value = .ok events →
    (events.map UsageEvent.dedupKey).Nodup →
    postEvents deps (some context) store (.ok value) = some (.counts result, after) →
    (∀ event ∈ events, ∀ row ∈ store.rows deps.kind, row.dedupKey = event.dedupKey →
      ¬ ∃ other, other ≠ context.userId ∧ row.userId = some other) →
    acknowledged result events.length true = true := by
  intro claimed
  have answered : answerEvents codexOnly ⟨"token", "user"⟩ (storeWith [postedRow none]) [postedEvent]
      = some (.counts ⟨0, 1, some 0, 0, 0⟩, storeWith [postedRow none]) := by decide
  refine absurd (claimed codexOnly ⟨"token", "user"⟩ (storeWith [postedRow none])
    (storeWith [postedRow none]) postedBody [postedEvent] ⟨0, 1, some 0, 0, 0⟩ parse_postedBody (List.nodup_singleton _) ?_ ?_) (by decide)
  · rw [postEvents, parse_postedBody]
    exact answered
  · intro event _ row among _
    rw [List.mem_singleton.mp among]
    rintro ⟨other, -, owned⟩
    cases owned

end Toard.Server
