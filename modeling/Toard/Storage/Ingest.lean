/-
**Ingestion into ClickHouse: the outbox and its flushes.**

The part of the store that every other party works beside. An ingest puts events into the outbox as
a batch; a flush locks a batch, reads its rows, inserts them into ClickHouse, and delivers the batch
in a transaction that marks the rollup buckets (`flushUsageOutbox`). Between its read and its insert
a flush holds the rows in memory, and no lock on them.

Retractions, pricing repairs and team attributions are added to this system in their own modules.
-/

import Toard.Storage.Origins

namespace Toard.Storage

open Toard.Library

/-- A flush of a batch: `rows` once it has read them, `inserted` once ClickHouse has them. -/
structure FlushRun where
  batch : Nat
  rows : Option (List UsageRow)
  inserted : Bool
deriving DecidableEq

/-- The outbox, the raw events, the marks of the rollup, and the flushes in progress. -/
structure Ingest where
  now : Int
  batches : List Batch
  /-- `usage_events FINAL`: one row for each key, the last inserted. -/
  raw : List UsageRow
  tokens : List InsertToken
  dirty : List Int
  flushes : List FlushRun
deriving DecidableEq

def Ingest.initial (now : Int) : Ingest where
  now := now
  batches := []
  raw := []
  tokens := []
  dirty := []
  flushes := []

/-- The rows of `clickhouse_usage_outbox`. -/
def Ingest.outboxRows (s : Ingest) : List OutboxRow := s.batches.flatMap Batch.rows

inductive FlushAction where
  | tick (ms : Nat)
  | claim (batch : Nat)
  | read (flush : Nat)
  | insert (flush : Nat) (recognised : Bool)
  | deliver (flush : Nat)
  | stop (flush : Nat) (caught : Bool)
deriving DecidableEq

def Ingest.fresh (s : Ingest) (events : List OutboxRow) : List OutboxRow :=
  freshRows (s.outboxRows.map OutboxRow.dedupKey) events

/-- `enqueueUsageEvents`: a batch of the new events, if there are any. -/
def Ingest.enqueue (s : Ingest) (events : List OutboxRow) : Ingest :=
  if s.fresh events = [] then s
  else { s with batches := s.batches ++ [⟨s.fresh events, .pending, none, false⟩] }

def Ingest.claim (s : Ingest) (batch : Nat) : Option Ingest :=
  match s.batches[batch]? with
  | none => none
  | some found =>
    if found.claimable s.now then
      some { s with
        batches := s.batches.modify batch (Batch.lock s.now)
        flushes := s.flushes ++ [⟨batch, none, false⟩] }
    else none

def Ingest.read (s : Ingest) (flush : Nat) : Option Ingest :=
  match s.flushes[flush]? with
  | some ⟨batch, none, false⟩ => some { s with
      flushes := s.flushes.set flush
        ⟨batch, some (((s.batches[batch]?.map Batch.rows).getD []).map clickHouseUsageRow), false⟩ }
  | _ => none

/-- `insertOutboxRows`. ClickHouse drops an insert whose token it still remembers. -/
def Ingest.insert (s : Ingest) (flush : Nat) (recognised : Bool) : Option Ingest :=
  match s.flushes[flush]? with
  | some ⟨batch, some rows, false⟩ =>
    if recognised && !s.tokens.contains (.raw batch) then none
    else some { s with
      raw := if recognised then s.raw else replaceRows UsageRow.dedupKey s.raw rows
      tokens := if rows = [] then s.tokens else .raw batch :: s.tokens
      flushes := s.flushes.set flush ⟨batch, some rows, true⟩ }
  | _ => none

def Ingest.deliver (s : Ingest) (flush : Nat) : Option Ingest :=
  match s.flushes[flush]? with
  | some ⟨batch, some rows, true⟩ => some { s with
      dirty := mark15mRollupDirty s.dirty rows
      batches := s.batches.modify batch Batch.deliver
      flushes := s.flushes.eraseIdx flush }
  | _ => none

/-- A flush ends early: its process dies, or it catches an error and releases its batch. -/
def Ingest.stop (s : Ingest) (flush : Nat) (caught : Bool) : Option Ingest :=
  match s.flushes[flush]? with
  | none => none
  | some run => some { s with
      batches := if caught then s.batches.modify run.batch Batch.release else s.batches
      flushes := s.flushes.eraseIdx flush }

def Ingest.next (s : Ingest) : FlushAction → Option Ingest
  | .tick ms => some { s with now := s.now + ms }
  | .claim batch => s.claim batch
  | .read flush => s.read flush
  | .insert flush recognised => s.insert flush recognised
  | .deliver flush => s.deliver flush
  | .stop flush caught => s.stop flush caught

/-! ### What a step can do -/

theorem mem_fresh {s : Ingest} {events : List OutboxRow} {row : OutboxRow}
    (among : row ∈ s.fresh events) : row.dedupKey ∉ s.outboxRows.map OutboxRow.dedupKey :=
  (freshRows_distinct _ events).2 row among

@[simp] theorem outboxRows_enqueue (s : Ingest) (events : List OutboxRow) :
    (s.enqueue events).outboxRows = s.outboxRows ++ s.fresh events := by
  unfold Ingest.enqueue
  split
  · next none => rw [none, List.append_nil]
  · simp [Ingest.outboxRows]

@[simp] theorem raw_enqueue (s : Ingest) (events : List OutboxRow) :
    (s.enqueue events).raw = s.raw := by
  unfold Ingest.enqueue
  split <;> rfl

theorem nodup_outboxRows_enqueue {s : Ingest} (events : List OutboxRow)
    (distinct : (s.outboxRows.map OutboxRow.dedupKey).Nodup) :
    ((s.enqueue events).outboxRows.map OutboxRow.dedupKey).Nodup := by
  obtain ⟨fresh, unknown⟩ := freshRows_distinct (s.outboxRows.map OutboxRow.dedupKey) events
  rw [outboxRows_enqueue, List.map_append, List.nodup_append]
  refine ⟨distinct, fresh, fun left leftAmong right rightAmong same => ?_⟩
  obtain ⟨row, among, rfl⟩ := List.mem_map.mp rightAmong
  exact unknown row among (same ▸ leftAmong)

/-- The action is an insert, not dropped by ClickHouse, of rows that its flush holds. -/
def Ingest.Inserts (s : Ingest) (action : FlushAction) (rows : List UsageRow) : Prop :=
  ∃ flush batch, action = .insert flush false ∧ s.flushes[flush]? = some ⟨batch, some rows, false⟩

/-- What a flush step does: the outbox keeps its rows, the raw events change only by an insert of
rows that the flush holds, and the rows that a flush holds are the ones it held or has just read. -/
structure FlushStep (s : Ingest) (action : FlushAction) (after : Ingest) : Prop where
  outbox : after.outboxRows = s.outboxRows
  raw : after.raw = s.raw ∨
    ∃ rows, s.Inserts action rows ∧ after.raw = replaceRows UsageRow.dedupKey s.raw rows
  flushes : ∀ run ∈ after.flushes, ∀ rows, run.rows = some rows →
    (∃ before ∈ s.flushes, before.rows = some rows) ∨
      ∀ row ∈ rows, ∃ origin ∈ s.outboxRows, clickHouseUsageRow origin = row

theorem FlushStep.of_kept {s after : Ingest} {action : FlushAction} (outbox : after.outboxRows = s.outboxRows)
    (raw : after.raw = s.raw) (flushes : ∀ run ∈ after.flushes, run ∈ s.flushes ∨ run.rows = none) :
    FlushStep s action after where
  outbox := outbox
  raw := Or.inl raw
  flushes run among rows held := by
    rcases flushes run among with old | none
    · exact Or.inl ⟨run, old, held⟩
    · rw [none] at held
      cases held

theorem Ingest.next_step {s after : Ingest} {action : FlushAction}
    (moved : s.next action = some after) : FlushStep s action after := by
  cases action with
  | tick ms =>
    cases moved
    exact .of_kept rfl rfl fun run among => Or.inl among
  | claim batch =>
    simp only [Ingest.next, Ingest.claim] at moved
    split at moved
    · cases moved
    · split at moved
      · cases moved
        refine .of_kept (flatMap_rows_modify s.batches batch fun _ => rfl) rfl fun run among => ?_
        rcases List.mem_append.mp among with old | new
        · exact Or.inl old
        · rw [List.mem_singleton] at new
          exact Or.inr (by rw [new])
      · cases moved
  | read flush =>
    simp only [Ingest.next, Ingest.read] at moved
    split at moved
    · next batch here =>
      cases moved
      refine ⟨rfl, Or.inl rfl, fun run among rows held => ?_⟩
      rcases List.mem_or_eq_of_mem_set among with old | rfl
      · exact Or.inl ⟨run, old, held⟩
      · refine Or.inr fun row rowAmong => ?_
        cases held
        obtain ⟨origin, originAmong, same⟩ := List.mem_map.mp rowAmong
        cases found : s.batches[batch]? with
        | none =>
          rw [found] at originAmong
          cases originAmong
        | some batchRow =>
          rw [found] at originAmong
          exact ⟨origin, List.mem_flatMap.mpr ⟨batchRow, List.mem_of_getElem? found, originAmong⟩,
            same⟩
    · cases moved
  | insert flush recognised =>
    simp only [Ingest.next, Ingest.insert] at moved
    split at moved
    · next batch rows here =>
      split at moved
      · cases moved
      · cases moved
        refine ⟨rfl, ?_, fun run among held isHeld => ?_⟩
        · cases recognised with
          | true => exact Or.inl rfl
          | false => exact Or.inr ⟨rows, ⟨flush, batch, rfl, here⟩, rfl⟩
        · rcases List.mem_or_eq_of_mem_set among with old | rfl
          · exact Or.inl ⟨run, old, isHeld⟩
          · exact Or.inl ⟨_, List.mem_of_getElem? here, isHeld⟩
    · cases moved
  | deliver flush =>
    simp only [Ingest.next, Ingest.deliver] at moved
    split at moved
    · next batch rows here =>
      cases moved
      exact .of_kept (flatMap_rows_modify s.batches batch fun _ => rfl) rfl
        fun run among => Or.inl (List.mem_of_mem_eraseIdx among)
    · cases moved
  | stop flush caught =>
    simp only [Ingest.next, Ingest.stop] at moved
    split at moved
    · cases moved
    · next run here =>
      cases moved
      refine .of_kept ?_ rfl fun run among => Or.inl (List.mem_of_mem_eraseIdx among)
      cases caught with
      | true => exact flatMap_rows_modify s.batches run.batch fun _ => rfl
      | false => rfl

end Toard.Storage
