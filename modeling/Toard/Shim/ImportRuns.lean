/-
**The import of an older queue, transaction by transaction.**

`importPending` has no transaction that spans both files, and it may be cut off after any of its
transactions. `ImportRun.next` does one of them at a time.

* **`importPending_runs`**: left to itself the run ends, with the result and the files of
  `importPending`.
* **`import_lossless`**: so it is wherever the run stops, and a row leaves the older file only
  after the newer one has its key.
-/

import Toard.Shim.QueueAccounting

namespace Toard.Shim

open Toard.Library (Reachable)

/-! ### One transaction at a time -/

inductive ImportPhase where
  | peek (rounds imported : Nat)
  | enqueue (rounds imported : Nat) (batch : List QueuedUsage) (size : Nat)
  | acknowledge (rounds imported : Nat) (batch : List QueuedUsage) (size : Nat)
  | stopped (result : Except QueueError Nat)

structure ImportRun where
  files : Files
  phase : ImportPhase

namespace ImportRun

def start (queue source : UsageQueue) (files : Files) : ImportRun where
  files := files
  phase :=
    if queue.path = source.path ∨ queue.identity.compatible source.identity = false then
      .stopped (.error .identityChanged)
    else .peek 32 0

def next (queue source : UsageQueue) (run : ImportRun) : ImportRun :=
  match run.phase with
  | .peek 0 imported => ⟨run.files, .stopped (.ok imported)⟩
  | .peek (rounds + 1) imported =>
    match source.peekProvider none .all 250 (run.files source.path) with
    | .error error => ⟨run.files, .stopped (.error error)⟩
    | .ok [] => ⟨run.files, .stopped (.ok imported)⟩
    | .ok batch => ⟨run.files, .enqueue rounds imported batch batch.length⟩
  | .enqueue rounds imported batch size =>
    match (batch.take size).mapM UsageQueue.importRow with
    | .error error => ⟨run.files, .stopped (.error error)⟩
    | .ok inputs =>
      match run.files.on queue.path (queue.enqueue inputs) with
      | (.ok _, stored) => ⟨stored, .acknowledge rounds imported batch size⟩
      | (.error .full, kept) =>
        if 1 < size then ⟨kept, .enqueue rounds imported batch (size / 2)⟩
        else ⟨kept, .stopped (.ok imported)⟩
      | (.error error, kept) => ⟨kept, .stopped (.error error)⟩
  | .acknowledge rounds imported batch size =>
    match run.files.on source.path (source.acknowledge ((batch.take size).map (·.sequence))) with
    | (.ok (), moved) => ⟨moved, .peek rounds (imported + size)⟩
    | (.error error, kept) => ⟨kept, .stopped (.error error)⟩
  | .stopped _ => run

/-- The import after some of its transactions: it may be cut off there. -/
def after (queue source : UsageQueue) (files : Files) (steps : Nat) : ImportRun :=
  (next queue source)^[steps] (start queue source files)

def Leads (queue source : UsageQueue) (before after : ImportRun) : Prop :=
  ∃ steps, (next queue source)^[steps] before = after

theorem Leads.refl {queue source : UsageQueue} (run : ImportRun) : Leads queue source run run :=
  ⟨0, rfl⟩

theorem Leads.step {queue source : UsageQueue} {before after : ImportRun}
    (rest : Leads queue source (next queue source before) after) :
    Leads queue source before after := by
  obtain ⟨steps, ends⟩ := rest
  exact ⟨steps + 1, ends⟩

theorem Leads.trans {queue source : UsageQueue} {before middle after : ImportRun}
    (first : Leads queue source before middle) (second : Leads queue source middle after) :
    Leads queue source before after := by
  obtain ⟨steps, rfl⟩ := first
  obtain ⟨more, rfl⟩ := second
  exact ⟨more + steps, Function.iterate_add_apply _ more steps before⟩

def afterBatch (rounds imported : Nat) : Except QueueError (Option Nat) × Files → ImportRun
  | (.error error, files) => ⟨files, .stopped (.error error)⟩
  | (.ok none, files) => ⟨files, .stopped (.ok imported)⟩
  | (.ok (some size), files) => ⟨files, .peek rounds (imported + size)⟩

theorem leads_importBatch (queue source : UsageQueue) (rounds imported : Nat)
    (batch : List QueuedUsage) (size : Nat) (files : Files) :
    Leads queue source ⟨files, .enqueue rounds imported batch size⟩
      (afterBatch rounds imported (queue.importBatch source batch size files)) := by
  induction size using Nat.strong_induction_on generalizing files with
  | _ size ih =>
    refine .step ?_
    unfold UsageQueue.importBatch next
    dsimp only
    cases (batch.take size).mapM UsageQueue.importRow with
    | error error => exact .refl _
    | ok inputs =>
      dsimp only
      obtain ⟨result, stored⟩ := files.on queue.path (queue.enqueue inputs)
      cases result with
      | ok count =>
        refine .step ?_
        unfold next
        dsimp only
        generalize stored.on source.path
          (source.acknowledge ((batch.take size).map (·.sequence))) = outcome
        obtain ⟨result, moved⟩ := outcome
        cases result <;> exact .refl _
      | error error =>
        cases error with
        | full =>
          dsimp only
          by_cases more : 1 < size
          · rw [if_pos more, if_pos more]
            exact ih (size / 2) (by omega) stored
          · rw [if_neg more, if_neg more]
            exact .refl _
        | storage => exact .refl _
        | unsupportedVersion => exact .refl _
        | corrupt => exact .refl _
        | identityChanged => exact .refl _
        | invalidEvent => exact .refl _

theorem leads_importRounds (queue source : UsageQueue) (rounds imported : Nat) (files : Files) :
    Leads queue source ⟨files, .peek rounds imported⟩
      ⟨(queue.importRounds source rounds imported files).2,
        .stopped (queue.importRounds source rounds imported files).1⟩ := by
  induction rounds generalizing imported files with
  | zero => exact .step (.refl _)
  | succ rounds ih =>
    refine .step ?_
    unfold UsageQueue.importRounds next
    dsimp only
    cases source.peekProvider none .all 250 (files source.path) with
    | error error => exact .refl _
    | ok batch =>
      cases batch with
      | nil => exact .refl _
      | cons head rest =>
        dsimp only
        refine (leads_importBatch queue source rounds imported _ _ files).trans ?_
        obtain ⟨result, moved⟩ := queue.importBatch source (head :: rest) _ files
        cases result with
        | error error => exact .refl _
        | ok size =>
          cases size with
          | none => exact .refl _
          | some size => exact ih (imported + size) moved

/-- **A run that is not cut off is the import.** -/
theorem importPending_runs (queue source : UsageQueue) (files : Files) :
    ∃ steps, after queue source files steps = ⟨(queue.importPending source files).2,
      .stopped (queue.importPending source files).1⟩ := by
  show Leads queue source (start queue source files) _
  unfold start UsageQueue.importPending
  split
  case isTrue => exact .refl _
  case isFalse => exact leads_importRounds queue source 32 0 files

end ImportRun

/-! ### The keys of the waiting rows -/

/-- `event_key` is unique. -/
def Database.KeysDistinct (db : Database) : Prop :=
  (db.rows.map (·.eventKey)).Nodup

namespace Database

theorem KeysDistinct.insertRow {db after : Database} (distinct : db.KeysDistinct)
    {eventKey providerKey payload : String} {projectId : Option String}
    (inserted : db.insertRow eventKey providerKey projectId payload = .ok after) :
    after.KeysDistinct := by
  simp only [Database.insertRow] at inserted
  split at inserted
  case isTrue => cases inserted
  case isFalse accepted =>
    cases inserted
    show ((db.rows ++ [_]).map _).Nodup
    rw [List.map_append]
    refine List.nodup_append.mpr ⟨distinct, List.nodup_singleton _, ?_⟩
    rintro key old other new rfl
    obtain ⟨row, among, rfl⟩ := List.mem_map.mp old
    refine accepted (.inr (.inl (List.any_eq_true.mpr ⟨row, among, ?_⟩)))
    exact beq_iff_eq.mpr (List.mem_singleton.mp new)

theorem KeysDistinct.removes {db after : Database} {sequences : List Nat}
    (distinct : db.KeysDistinct) (removed : db.Removes after sequences) : after.KeysDistinct := by
  unfold KeysDistinct
  rw [removed.rows]
  exact distinct.sublist (List.filter_sublist.map _)

theorem KeysDistinct.eq_of_key {db : Database} (distinct : db.KeysDistinct) {row other : PendingRow}
    (among : row ∈ db.rows) (present : other ∈ db.rows) (same : row.eventKey = other.eventKey) :
    row = other :=
  List.inj_on_of_nodup_map distinct among present same

end Database

namespace UsageQueue

theorem keysDistinct_enqueueLoop {maxBytes : Nat} {records : List QueueInput}
    {inserted count bytes : Nat} {db after : Database} (distinct : db.KeysDistinct)
    (stored : enqueueLoop maxBytes inserted bytes records db = .ok (count, after)) :
    after.KeysDistinct := by
  induction records generalizing inserted bytes db with
  | nil =>
    cases stored
    exact distinct
  | cons record records ih =>
    unfold enqueueLoop at stored
    obtain ⟨payload, -, stored⟩ := bind_eq_ok.mp stored
    split at stored
    case isTrue => exact ih distinct stored
    case isFalse =>
      split at stored
      case isTrue => cases stored
      case isFalse =>
        obtain ⟨middle, inserts, stored⟩ := bind_eq_ok.mp stored
        exact ih (distinct.insertRow inserts) stored

theorem keysDistinct_enqueue {db : Database} (distinct : db.KeysDistinct) (queue : UsageQueue)
    (records : List QueueInput) : (queue.enqueue records db).2.KeysDistinct := by
  rcases Database.transaction_cases (Prod.mk.eta (p := queue.enqueue records db)).symm with
    ⟨error, -, -, kept⟩ | ⟨count, ran, -⟩
  · rwa [kept]
  · obtain ⟨⟨⟩, -, stored⟩ := bind_eq_ok.mp ran
    exact keysDistinct_enqueueLoop distinct stored

theorem keysDistinct_acknowledge {db : Database} (distinct : db.KeysDistinct) (queue : UsageQueue)
    (sequences : List Nat) : (queue.acknowledge sequences db).2.KeysDistinct := by
  rcases acknowledge_cases (Prod.mk.eta (p := queue.acknowledge sequences db)).symm with
    ⟨error, -, kept⟩ | ⟨queueMeta, -, -, -, removed⟩
  · rwa [kept]
  · exact distinct.removes removed

theorem keysDistinct_open {db : Database} (distinct : db.KeysDistinct) (path : String)
    (requested : QueueIdentity) (maxBytes : Nat) (random : String) :
    (UsageQueue.open path requested maxBytes random db).2.KeysDistinct := by
  rcases open_cases (Prod.mk.eta (p := UsageQueue.open path requested maxBytes random db)).symm with
    ⟨error, -, kept | schema⟩ | ⟨-, -, -, -, bound⟩
  · rwa [kept]
  · unfold prepare at schema
    split at schema
    case isTrue => cases schema
    case isFalse =>
      split at schema
      case isTrue => cases schema
      case isFalse =>
        rw [← Except.ok.inj schema]
        exact distinct
  · rw [bound]
    exact distinct

end UsageQueue

/-- **The keys are distinct in every file**, after any run of calls. -/
theorem keysDistinct_of_reachable {files : Files} (reached : Reachable QueueAction.next .new files)
    (path : String) : (files path).KeysDistinct :=
  Files.invariant (show Database.new.KeysDistinct from List.nodup_nil) UsageQueue.keysDistinct_open
    (fun distinct queue => queue.keysDistinct_enqueue distinct)
    (fun distinct queue => queue.keysDistinct_acknowledge distinct) reached path

/-! ### What a transaction of the import does -/

theorem PendingRow.Holds.importRow {row : PendingRow} {record : QueueInput}
    (held : row.Holds record) : UsageQueue.importRow row.queued = .ok record := by
  have free := held.deliverable.unpriced
  have parsed : Json.parse row.queued.payload = some record.event.toJson := by
    show Json.parse row.payload = _
    rw [held.payload, UsageEvent.parse_toPretty free]
  have read := (UsageEvent.fromJson_toJson free).mpr ⟨held.deliverable.contract, rfl⟩
  unfold UsageQueue.importRow
  rw [parsed]
  dsimp only
  rw [read]
  show Except.ok (QueueInput.mk record.event row.projectId) = _
  rw [held.projectId]

structure PendingRow.Copies (copy row : PendingRow) : Prop where
  eventKey : copy.eventKey = row.eventKey
  providerKey : copy.providerKey = row.providerKey
  projectId : copy.projectId = row.projectId
  payload : copy.payload = row.payload

theorem copies_of_holds {copy row : PendingRow} {record : QueueInput} (held : copy.Holds record)
    (holds : row.Holds record) : copy.Copies row where
  eventKey := held.eventKey.trans holds.eventKey.symm
  providerKey := held.providerKey.trans holds.providerKey.symm
  projectId := held.projectId.trans holds.projectId.symm
  payload := held.payload.trans holds.payload.symm

theorem importRow_of_mapM {batch : List QueuedUsage} {inputs : List QueueInput}
    (read : batch.mapM UsageQueue.importRow = .ok inputs) :
    List.Forall₂ (fun usage input => UsageQueue.importRow usage = .ok input) batch inputs := by
  induction batch generalizing inputs with
  | nil =>
    cases read
    exact .nil
  | cons usage batch ih =>
    rw [List.mapM_cons] at read
    obtain ⟨input, first, rest⟩ := bind_eq_ok.mp read
    obtain ⟨others, later, made⟩ := bind_eq_ok.mp rest
    cases made
    exact .cons first (ih later)

namespace ImportRun

/-- **What a transaction of an import does.** It ends the import and changes nothing; it reads a
batch; it halves the batch that was too large; it stores records read from the batch; or it removes
the rows of the batch. -/
inductive Moves (queue source : UsageQueue) : ImportRun → ImportRun → Prop where
  | stops (files : Files) (phase : ImportPhase) (result : Except QueueError Nat) :
      Moves queue source ⟨files, phase⟩ ⟨files, .stopped result⟩
  | reads (files : Files) (rounds imported : Nat) (batch : List QueuedUsage)
      (rows : ∀ usage ∈ batch, ∃ row ∈ (files source.path).rows, row.queued = usage) :
      Moves queue source ⟨files, .peek (rounds + 1) imported⟩
        ⟨files, .enqueue rounds imported batch batch.length⟩
  | halves (files : Files) (rounds imported : Nat) (batch : List QueuedUsage) (size : Nat) :
      Moves queue source ⟨files, .enqueue rounds imported batch size⟩
        ⟨files, .enqueue rounds imported batch (size / 2)⟩
  | stores (files : Files) (rounds imported : Nat) (batch : List QueuedUsage) (size : Nat)
      {inputs : List QueueInput} {after : Database} {added : List PendingRow}
      (read : List.Forall₂ (fun usage input => UsageQueue.importRow usage = .ok input)
        (batch.take size) inputs)
      (stored : (files queue.path).Stores after added)
      (holds : ∀ row ∈ added, ∃ record ∈ inputs, row.Holds record)
      (covered : ∀ record ∈ inputs, ∃ row ∈ after.rows, row.eventKey = record.event.dedupKey) :
      Moves queue source ⟨files, .enqueue rounds imported batch size⟩
        ⟨Function.update files queue.path after, .acknowledge rounds imported batch size⟩
  | removes (files : Files) (rounds imported : Nat) (batch : List QueuedUsage) (size : Nat)
      {after : Database}
      (removed : (files source.path).Removes after ((batch.take size).map (·.sequence)))
      (valid : (files source.path).WellFormed → after.WellFormed) :
      Moves queue source ⟨files, .acknowledge rounds imported batch size⟩
        ⟨Function.update files source.path after, .peek rounds (imported + size)⟩

theorem on_eq {α : Type} {files : Files} {path : String}
    {operation : Database → Except QueueError α × Database} {result : Except QueueError α}
    {after : Database} (done : operation (files path) = (result, after)) :
    files.on path operation = (result, Function.update files path after) := by
  unfold Files.on
  rw [done]

theorem mem_of_peekProvider {source : UsageQueue} {provider : Option String}
    {scope : ProviderScope} {limit : Nat} {db : Database} {batch : List QueuedUsage}
    (read : source.peekProvider provider scope limit db = .ok batch) :
    ∀ usage ∈ batch, ∃ row ∈ db.rows, row.queued = usage := by
  obtain ⟨-, ⟨count, rfl⟩, -⟩ := UsageQueue.peekProvider_eq_ok read
  intro usage among
  obtain ⟨row, taken, rfl⟩ := List.mem_map.mp among
  have selected := List.mem_of_mem_take (List.mem_of_mem_take taken)
  exact ⟨row, (List.mem_filter.mp ((List.mem_insertionSort _).mp selected)).1, rfl⟩

theorem next_moves (queue source : UsageQueue) (run : ImportRun) :
    Moves queue source run (next queue source run) := by
  obtain ⟨files, phase⟩ := run
  unfold next
  dsimp only
  cases phase with
  | stopped result => exact .stops files _ result
  | peek rounds imported =>
    cases rounds with
    | zero => exact .stops files _ _
    | succ rounds =>
      dsimp only
      cases read : source.peekProvider none .all 250 (files source.path) with
      | error error => exact .stops files _ _
      | ok batch =>
        cases batch with
        | nil => exact .stops files _ _
        | cons head rest => exact .reads files rounds imported _ (mem_of_peekProvider read)
  | enqueue rounds imported batch size =>
    dsimp only
    cases read : (batch.take size).mapM UsageQueue.importRow with
    | error error => exact .stops files _ _
    | ok inputs =>
      dsimp only
      cases done : queue.enqueue inputs (files queue.path) with
      | mk result after =>
        rw [on_eq done]
        rcases UsageQueue.enqueue_cases done with
          ⟨error, rfl, kept⟩ | ⟨queueMeta, added, -, -, rfl, stored, holds, covered, -⟩
        · rw [kept, Function.update_eq_self]
          cases error with
          | full =>
            dsimp only
            by_cases more : 1 < size
            · rw [if_pos more]
              exact .halves files rounds imported batch size
            · rw [if_neg more]
              exact .stops files _ _
          | storage => exact .stops files _ _
          | unsupportedVersion => exact .stops files _ _
          | corrupt => exact .stops files _ _
          | identityChanged => exact .stops files _ _
          | invalidEvent => exact .stops files _ _
        · exact .stores files rounds imported batch size (importRow_of_mapM read) stored holds
            covered
  | acknowledge rounds imported batch size =>
    dsimp only
    cases done : source.acknowledge ((batch.take size).map (·.sequence)) (files source.path) with
    | mk result after =>
      rw [on_eq done]
      have valid := fun valid : (files source.path).WellFormed =>
        source.acknowledge_wellFormed valid ((batch.take size).map (·.sequence))
      rw [done] at valid
      rcases UsageQueue.acknowledge_cases done with
        ⟨error, rfl, kept⟩ | ⟨queueMeta, -, -, rfl, removed⟩
      · rw [kept, Function.update_eq_self]
        exact .stops files _ _
      · exact .removes files rounds imported batch size removed valid

/-! ### Nothing is lost -/

def Arrived (queue : UsageQueue) (files : Files) (row : PendingRow) : Prop :=
  ∃ copy ∈ (files queue.path).rows, copy.eventKey = row.eventKey

def Ready (queue source : UsageQueue) (run : ImportRun) : Prop :=
  match run.phase with
  | .enqueue _ _ batch _ => ∀ usage ∈ batch, ∃ row ∈ (run.files source.path).rows, row.queued = usage
  | .acknowledge _ _ batch size => ∀ row ∈ (run.files source.path).rows,
      row.sequence ∈ (batch.take size).map (·.sequence) → Arrived queue run.files row
  | _ => True

structure Safe (queue source : UsageQueue) (files : Files) (run : ImportRun) : Prop where
  wellFormed : (run.files source.path).WellFormed
  older : ∀ row ∈ (run.files source.path).rows, row ∈ (files source.path).rows
  newer : ∀ copy ∈ (files queue.path).rows, copy ∈ (run.files queue.path).rows
  origin : ∀ copy ∈ (run.files queue.path).rows, copy ∈ (files queue.path).rows ∨
    ∃ row ∈ (files source.path).rows, copy.Copies row
  kept : ∀ row ∈ (files source.path).rows,
    row ∈ (run.files source.path).rows ∨ Arrived queue run.files row
  ready : run.Ready queue source

section Safe

variable {queue source : UsageQueue} {files : Files}

theorem safe_start (wellFormed : (files source.path).WellFormed) :
    Safe queue source files (start queue source files) where
  wellFormed := wellFormed
  older := fun _ among => among
  newer := fun _ among => among
  origin := fun _ among => .inl among
  kept := fun _ among => .inl among
  ready := by
    unfold start Ready
    by_cases refused : queue.path = source.path ∨
      queue.identity.compatible source.identity = false
    · rw [if_pos refused]
      trivial
    · rw [if_neg refused]
      trivial

theorem holds_of_read {db : Database} (wellFormed : db.WellFormed) {batch : List QueuedUsage}
    (rows : ∀ usage ∈ batch, ∃ row ∈ db.rows, row.queued = usage) {inputs : List QueueInput}
    (read : List.Forall₂ (fun usage input => UsageQueue.importRow usage = .ok input) batch inputs) :
    (∀ input ∈ inputs, ∃ row ∈ db.rows, row.Holds input) ∧
      ∀ usage ∈ batch, ∃ input ∈ inputs, UsageQueue.importRow usage = .ok input := by
  induction read with
  | nil =>
    exact ⟨fun _ among => absurd among List.not_mem_nil,
      fun _ among => absurd among List.not_mem_nil⟩
  | @cons usage input batch inputs first _ ih =>
    obtain ⟨held, taken⟩ := ih fun other among => rows other (List.mem_cons_of_mem _ among)
    obtain ⟨row, among, same⟩ := rows usage List.mem_cons_self
    obtain ⟨record, holds⟩ := wellFormed.written row among
    have reads := holds.importRow
    rw [same, first] at reads
    cases reads
    constructor
    · intro other member
      rcases List.mem_cons.mp member with rfl | later
      · exact ⟨row, among, holds⟩
      · exact held other later
    · intro other member
      rcases List.mem_cons.mp member with rfl | later
      · exact ⟨_, List.mem_cons_self, first⟩
      · obtain ⟨found, listed, reads⟩ := taken other later
        exact ⟨found, List.mem_cons_of_mem _ listed, reads⟩

/-- **Every transaction keeps the import safe.** -/
theorem Safe.next {before after : ImportRun} (apart : queue.path ≠ source.path)
    (safe : Safe queue source files before) (moves : Moves queue source before after) :
    Safe queue source files after := by
  cases moves with
  | stops now phase result => exact { safe with ready := trivial }
  | reads now rounds imported batch rows => exact { safe with ready := rows }
  | halves now rounds imported batch size => exact { safe with ready := safe.ready }
  | @stores now rounds imported batch size inputs after added read stored holds covered =>
    have unchanged : Function.update now queue.path after source.path = now source.path :=
      Function.update_of_ne (Ne.symm apart) _ _
    have changed : Function.update now queue.path after queue.path = after :=
      Function.update_self _ _ _
    have rows : ∀ usage ∈ batch.take size, ∃ row ∈ (now source.path).rows, row.queued = usage :=
      fun usage among => safe.ready usage (List.mem_of_mem_take among)
    obtain ⟨held, taken⟩ := holds_of_read safe.wellFormed rows read
    have grown : ∀ copy ∈ (now queue.path).rows, copy ∈ after.rows := fun copy among =>
      stored.rows ▸ List.mem_append_left _ among
    constructor
    · show (Function.update now queue.path after source.path).WellFormed
      rw [unchanged]
      exact safe.wellFormed
    · show ∀ row ∈ (Function.update now queue.path after source.path).rows, _
      rw [unchanged]
      exact safe.older
    · show ∀ copy ∈ _, copy ∈ (Function.update now queue.path after queue.path).rows
      rw [changed]
      exact fun copy among => grown copy (safe.newer copy among)
    · show ∀ copy ∈ (Function.update now queue.path after queue.path).rows, _
      rw [changed, stored.rows]
      intro copy among
      rcases List.mem_append.mp among with old | new
      · exact safe.origin copy old
      · obtain ⟨record, listed, held'⟩ := holds copy new
        obtain ⟨row, waiting, holds'⟩ := held record listed
        exact .inr ⟨row, safe.older row waiting, copies_of_holds held' holds'⟩
    · intro row among
      rcases safe.kept row among with waiting | ⟨copy, present, same⟩
      · refine .inl ?_
        show row ∈ (Function.update now queue.path after source.path).rows
        rwa [unchanged]
      · refine .inr ⟨copy, ?_, same⟩
        show copy ∈ (Function.update now queue.path after queue.path).rows
        rw [changed]
        exact grown copy present
    · show ∀ row ∈ (Function.update now queue.path after source.path).rows, _ → ∃ copy ∈
        (Function.update now queue.path after queue.path).rows, _
      rw [unchanged, changed]
      intro row waiting numbered
      obtain ⟨usage, listed, number⟩ := List.mem_map.mp numbered
      obtain ⟨other, waiting', rfl⟩ := rows usage listed
      have same : other = row :=
        safe.wellFormed.numbered.eq_of_key waiting' waiting number
      subst same
      obtain ⟨record, holds'⟩ := safe.wellFormed.written other waiting
      obtain ⟨input, given, reads⟩ := taken other.queued listed
      rw [holds'.importRow] at reads
      cases reads
      obtain ⟨copy, present, key⟩ := covered record given
      exact ⟨copy, present, key.trans holds'.eventKey.symm⟩
  | @removes now rounds imported batch size after removed valid =>
    have unchanged : Function.update now source.path after queue.path = now queue.path :=
      Function.update_of_ne apart _ _
    have changed : Function.update now source.path after source.path = after :=
      Function.update_self _ _ _
    constructor
    · show (Function.update now source.path after source.path).WellFormed
      rw [changed]
      exact valid safe.wellFormed
    · show ∀ row ∈ (Function.update now source.path after source.path).rows, _
      rw [changed, removed.rows]
      exact fun row among => safe.older row (List.mem_filter.mp among).1
    · show ∀ copy ∈ _, copy ∈ (Function.update now source.path after queue.path).rows
      rw [unchanged]
      exact safe.newer
    · show ∀ copy ∈ (Function.update now source.path after queue.path).rows, _
      rw [unchanged]
      exact safe.origin
    · intro row among
      show row ∈ (Function.update now source.path after source.path).rows ∨ ∃ copy ∈
        (Function.update now source.path after queue.path).rows, _
      rw [changed, unchanged, removed.rows]
      rcases safe.kept row among with waiting | arrived
      · by_cases numbered : row.sequence ∈ (batch.take size).map (·.sequence)
        · exact .inr (safe.ready row waiting numbered)
        · refine .inl (List.mem_filter.mpr ⟨waiting, ?_⟩)
          rw [Bool.not_eq_true', List.contains_eq_mem]
          exact decide_eq_false numbered
      · exact .inr arrived
    · trivial

/-- **The whole run is safe.** -/
theorem safe_after (apart : queue.path ≠ source.path)
    (wellFormed : (files source.path).WellFormed) (steps : Nat) :
    Safe queue source files (after queue source files steps) := by
  induction steps with
  | zero => exact safe_start wellFormed
  | succ steps ih =>
    unfold after at ih ⊢
    rw [Function.iterate_succ_apply']
    exact ih.next apart (next_moves queue source _)

theorem Safe.arrived {before after : ImportRun} (apart : queue.path ≠ source.path)
    (safe : Safe queue source files before) (moves : Moves queue source before after)
    {row : PendingRow} (waiting : row ∈ (before.files source.path).rows)
    (gone : row ∉ (after.files source.path).rows) : Arrived queue before.files row := by
  cases moves with
  | stops now phase result => exact absurd waiting gone
  | reads now rounds imported batch rows => exact absurd waiting gone
  | halves now rounds imported batch size => exact absurd waiting gone
  | @stores now rounds imported batch size inputs after added read stored holds covered =>
    refine absurd ?_ gone
    show row ∈ (Function.update now queue.path after source.path).rows
    rwa [Function.update_of_ne (Ne.symm apart)]
  | @removes now rounds imported batch size after removed valid =>
    refine safe.ready row waiting ?_
    by_contra other
    refine gone ?_
    show row ∈ (Function.update now source.path after source.path).rows
    rw [Function.update_self, removed.rows]
    refine List.mem_filter.mpr ⟨waiting, ?_⟩
    rw [Bool.not_eq_true', List.contains_eq_mem]
    exact decide_eq_false other

theorem after_of_same (same : queue.path = source.path) (steps : Nat) :
    (after queue source files steps).files = files := by
  have refused : start queue source files = ⟨files, .stopped (.error .identityChanged)⟩ := by
    unfold start
    rw [if_pos (.inl same)]
  unfold after
  rw [refused, Function.iterate_fixed rfl]

end Safe

end ImportRun

/-- **The import loses nothing.** Take any files that the queues' calls can leave, any handle on the
newer file, with whatever limit, and any on the older one. Wherever the import is cut off, each row
that waited in the older file is there unchanged, or its key waits in the newer file: in a row with
its content, or in one that was there before. A row leaves the older file only when the newer one
has its key. And an import that is not cut off ends. -/
theorem import_lossless {files : Files} (reached : Reachable QueueAction.next .new files)
    (queue source : UsageQueue) :
    (∀ steps, ∀ row ∈ (files source.path).rows,
      row ∈ ((ImportRun.after queue source files steps).files source.path).rows ∨
        ∃ copy ∈ ((ImportRun.after queue source files steps).files queue.path).rows,
          copy.eventKey = row.eventKey ∧ (copy ∈ (files queue.path).rows ∨ copy.Copies row)) ∧
    (∀ steps, ∀ row ∈ ((ImportRun.after queue source files steps).files source.path).rows,
      row ∉ ((ImportRun.after queue source files (steps + 1)).files source.path).rows →
        ∃ copy ∈ ((ImportRun.after queue source files steps).files queue.path).rows,
          copy.eventKey = row.eventKey) ∧
    ∃ steps, ImportRun.after queue source files steps =
      ⟨(queue.importPending source files).2, .stopped (queue.importPending source files).1⟩ := by
  refine ⟨fun steps row among => ?_, fun steps row waiting gone => ?_,
    ImportRun.importPending_runs queue source files⟩
  · by_cases same : queue.path = source.path
    · rw [ImportRun.after_of_same same]
      exact .inl among
    · have safe := ImportRun.safe_after same (queue_wellFormed reached source.path) steps
      refine (safe.kept row among).imp id fun ⟨copy, present, key⟩ => ⟨copy, present, key, ?_⟩
      refine (safe.origin copy present).imp id fun ⟨other, waited, copies⟩ => ?_
      have distinct := keysDistinct_of_reachable reached source.path
      have one : other = row := distinct.eq_of_key waited among (copies.eventKey.symm.trans key)
      exact one ▸ copies
  · by_cases same : queue.path = source.path
    · rw [ImportRun.after_of_same same] at waiting gone
      exact absurd waiting gone
    · have safe := ImportRun.safe_after same (queue_wellFormed reached source.path) steps
      have moves := ImportRun.next_moves queue source (ImportRun.after queue source files steps)
      refine safe.arrived same moves waiting ?_
      unfold ImportRun.after at gone ⊢
      rwa [Function.iterate_succ_apply'] at gone

def importableRun : List QueueAction :=
  filledRun ++ [.open "newer" fixtureIdentity DEFAULT_MAX_BYTES "other"]

/-- The record on its way from the one to the other. -/
theorem import_lossless_importableRun : ∃ files : Files,
    Library.run QueueAction.next .new importableRun = some files ∧
      ∀ steps, ∀ row ∈ (files "queue").rows,
        row ∈ ((ImportRun.after ⟨"newer", "other", fixtureIdentity, DEFAULT_MAX_BYTES⟩
          ⟨"queue", "instance", fixtureIdentity, DEFAULT_MAX_BYTES⟩ files steps).files
            "queue").rows ∨
          ∃ copy ∈ ((ImportRun.after ⟨"newer", "other", fixtureIdentity, DEFAULT_MAX_BYTES⟩
            ⟨"queue", "instance", fixtureIdentity, DEFAULT_MAX_BYTES⟩ files steps).files
              "newer").rows,
            copy.eventKey = row.eventKey ∧ (copy ∈ (files "newer").rows ∨ copy.Copies row) :=
  ⟨_, rfl, (import_lossless (Reachable.of_run importableRun rfl)
    ⟨"newer", "other", fixtureIdentity, DEFAULT_MAX_BYTES⟩
    ⟨"queue", "instance", fixtureIdentity, DEFAULT_MAX_BYTES⟩).1⟩

end Toard.Shim
