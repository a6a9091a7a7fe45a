/-
**Rewrites of raw events: pricing repairs and team attributions.**

A repair and an attribution read whole rows, change their own columns and insert the rows again; the
last insert wins. An attribution batch also sets the team of outbox rows that are not delivered yet,
and a flush that has read such a row still inserts it without the team.

* **`rewrites_survive`**: in a run in which no insert overtakes a rewrite, every raw event has the
  last team and the last price written for it.
* **`repair_undoes_attribution`**: the run that shows that the condition is needed.
-/

import Toard.Storage.Ingest

namespace Toard.Storage

open Toard.Library

/-! ### Requests -/

structure EventPrice where
  costUsd : Int
  pricingRevisionId : String
  costStatus : CostStatus
  costCalculationVersion : String
deriving DecidableEq

def UsageRow.price (row : UsageRow) : EventPrice where
  costUsd := row.costUsd
  pricingRevisionId := row.pricingRevisionId
  costStatus := row.costStatus
  costCalculationVersion := row.costCalculationVersion

structure TeamAttributionBatchRequest where
  userId : String
  teamId : String
  fromTs : Option Int
  toTs : Option Int
  limit : Nat
  jobId : String
deriving DecidableEq

def TeamAttributionBatchRequest.spans (request : TeamAttributionBatchRequest) (ts : Int) : Bool :=
  (request.fromTs.all fun fromTs => fromTs ≤ ts) && request.toTs.all fun toTs => ts < toTs

/-- `Math.min(Math.max(Math.trunc(input.limit), 1), 1_000)` for a positive limit. -/
def TeamAttributionBatchRequest.batchLimit (request : TeamAttributionBatchRequest) : Nat :=
  min (max request.limit 1) 1000

def TeamAttributionBatchRequest.selectsOutbox (request : TeamAttributionBatchRequest)
    (row : OutboxRow) : Bool :=
  row.userId == some request.userId && row.teamId.isNone && request.spans row.ts

def TeamAttributionBatchRequest.selectsRaw (request : TeamAttributionBatchRequest)
    (rawFullFrom : Int) (row : UsageRow) : Bool :=
  row.userId == request.userId && row.teamId == "" && decide (rawFullFrom ≤ row.ts) &&
    request.spans row.ts

/-- The start of the first whole bucket of raw events; with no raw event the year 2100. -/
def clickHouseRawFullFrom (raw : List UsageRow) : Int :=
  match (raw.map UsageRow.ts).min? with
  | some first => -(-first / fifteenMinutesMs) * fifteenMinutesMs
  | none => 4102444800000

/-- The replacements of an attribution batch: the first candidates by time and key, with the team. -/
def attributionReplacements (request : TeamAttributionBatchRequest) (rawFullFrom : Int)
    (remaining : Nat) (raw : List UsageRow) : List UsageRow :=
  (((raw.filter (request.selectsRaw rawFullFrom)).insertionSort fun left right =>
    left.ts < right.ts ∨ (left.ts = right.ts ∧ left.dedupKey ≤ right.dedupKey)).take remaining).map
      fun row => { row with teamId := request.teamId }

/-- `UPDATE clickhouse_usage_outbox SET team_id` on the chosen rows of a batch. -/
def Batch.assign (request : TeamAttributionBatchRequest) (chosen : List String) (batch : Batch) :
    Batch :=
  if batch.delivered then batch
  else { batch with rows := batch.rows.map fun row =>
    if request.selectsOutbox row ∧ row.dedupKey ∈ chosen then
      { row with teamId := some request.teamId }
    else row }

/-! ### The system -/

/-- The `insert_deduplication_token` of a rewrite; a digest stands for what it hashes. -/
inductive RewriteToken where
  | pricingRepair (generation : String) (sortedKeys : List String)
  | teamAttribution (jobId : String) (sortedKeys : List String)
deriving DecidableEq

structure RepairBatch where
  generation : String
  rows : List UsageRow
  progress : Progress
deriving DecidableEq

inductive AttributionPhase where
  | started
  /-- The outbox transaction is over and leaves so much of the limit. -/
  | outboxDone (remaining : Nat)
  | floored (remaining : Nat) (rawFullFrom : Int)
  | selected (rows : List UsageRow)
  | marked (rows : List UsageRow)
  | inserted (rows : List UsageRow)
deriving DecidableEq

structure AttributionBatch where
  request : TeamAttributionBatchRequest
  phase : AttributionPhase
deriving DecidableEq

def sortedKeys (rows : List UsageRow) : List String :=
  (rows.map UsageRow.dedupKey).insertionSort (· ≤ ·)

/-- The store, the rewrites in progress, and what was last written for each event. -/
structure RewriteSystem where
  ingest : Ingest
  rewriteTokens : List RewriteToken
  repairs : List RepairBatch
  attributions : List AttributionBatch
  teams : String → Option String
  prices : String → Option EventPrice

def RewriteSystem.initial (now : Int) : RewriteSystem where
  ingest := .initial now
  rewriteTokens := []
  repairs := []
  attributions := []
  teams _ := none
  prices _ := none

inductive RewriteAction where
  | enqueue (events : List OutboxRow)
  | flush (action : FlushAction)
  | startRepair (request : PricingRepairRequest) (resolver : UsageRow → Option ResolvedCost)
  | markRepair (repair : Nat)
  | insertRepair (repair : Nat) (recognised : Bool)
  | finishRepair (repair : Nat)
  | stopRepair (repair : Nat)
  | startAttribution (request : TeamAttributionBatchRequest)
  | assignOutbox (attribution : Nat) (chosen : List String) (hasMore : Bool)
  | readFloor (attribution : Nat)
  | selectRaw (attribution : Nat)
  | markAttribution (attribution : Nat)
  | insertAttribution (attribution : Nat) (recognised : Bool)
  | finishAttribution (attribution : Nat)
  | stopAttribution (attribution : Nat)

def written {α : Type} (log : String → Option α) (rows : List UsageRow) (value : UsageRow → α)
    (key : String) : Option α :=
  ((rows.find? fun row => row.dedupKey = key).map value).or (log key)

/-- An insert of rewritten rows. ClickHouse drops it when it still remembers the token. -/
def insertRewrite (ingest : Ingest) (rows : List UsageRow) (recognised : Bool) : Ingest :=
  if recognised then ingest
  else { ingest with raw := replaceRows UsageRow.dedupKey ingest.raw rows }

def Ingest.mark (ingest : Ingest) (rows : List UsageRow) : Ingest :=
  { ingest with dirty := mark15mRollupDirty ingest.dirty rows }

/-- The keys are of undelivered outbox rows that the request selects. -/
def Ingest.Assignable (ingest : Ingest) (request : TeamAttributionBatchRequest)
    (chosen : List String) : Prop :=
  ∀ key ∈ chosen, ∃ batch ∈ ingest.batches, batch.delivered = false ∧
    ∃ row ∈ batch.rows, request.selectsOutbox row ∧ row.dedupKey = key

instance (ingest : Ingest) (request : TeamAttributionBatchRequest) (chosen : List String) :
    Decidable (ingest.Assignable request chosen) := by
  unfold Ingest.Assignable
  infer_instance

def nextRewrite (s : RewriteSystem) : RewriteAction → Option RewriteSystem
  | .enqueue events => some { s with ingest := s.ingest.enqueue events }
  | .flush action => (s.ingest.next action).map fun ingest => { s with ingest := ingest }
  | .startRepair request resolver =>
    let rows := repairReplacements request resolver s.ingest.raw
    if rows = [] then none
    else some { s with repairs := s.repairs ++ [⟨request.generation, rows, .selected⟩] }
  | .markRepair index =>
    match s.repairs[index]? with
    | some ⟨generation, rows, .selected⟩ => some { s with
        ingest := s.ingest.mark rows
        repairs := s.repairs.set index ⟨generation, rows, .marked⟩ }
    | _ => none
  | .insertRepair index recognised =>
    match s.repairs[index]? with
    | some ⟨generation, rows, .marked⟩ =>
      let token := RewriteToken.pricingRepair generation (sortedKeys rows)
      if recognised ∧ token ∉ s.rewriteTokens then none
      else some { s with
        ingest := insertRewrite s.ingest rows recognised
        rewriteTokens := token :: s.rewriteTokens
        repairs := s.repairs.set index ⟨generation, rows, .inserted⟩
        prices := written s.prices rows UsageRow.price }
    | _ => none
  | .finishRepair index =>
    match s.repairs[index]? with
    | some ⟨_, rows, .inserted⟩ => some { s with
        ingest := s.ingest.mark rows
        repairs := s.repairs.eraseIdx index }
    | _ => none
  | .stopRepair index =>
    if s.repairs[index]?.isSome then some { s with repairs := s.repairs.eraseIdx index } else none
  | .startAttribution request =>
    if request.limit = 0 then none
    else some { s with attributions := s.attributions ++ [⟨request, .started⟩] }
  -- Which of the selected rows the transaction gets depends on the rows that others have locked.
  | .assignOutbox index chosen hasMore =>
    match s.attributions[index]? with
    | some ⟨request, .started⟩ =>
      if chosen.length ≤ request.batchLimit ∧ s.ingest.Assignable request chosen then
        let remaining := request.batchLimit - chosen.length
        some { s with
          ingest := { s.ingest with
            batches := s.ingest.batches.map (Batch.assign request chosen) }
          attributions :=
            if hasMore ∨ remaining = 0 then s.attributions.eraseIdx index
            else s.attributions.set index ⟨request, .outboxDone remaining⟩
          teams := fun key => if key ∈ chosen then some request.teamId else s.teams key }
      else none
    | _ => none
  | .readFloor index =>
    match s.attributions[index]? with
    | some ⟨request, .outboxDone remaining⟩ => some { s with
        attributions := s.attributions.set index
          ⟨request, .floored remaining (clickHouseRawFullFrom s.ingest.raw)⟩ }
    | _ => none
  | .selectRaw index =>
    match s.attributions[index]? with
    | some ⟨request, .floored remaining rawFullFrom⟩ =>
      let rows := attributionReplacements request rawFullFrom remaining s.ingest.raw
      some { s with
        attributions := s.attributions.set index
          ⟨request, if rows = [] then .inserted [] else .selected rows⟩ }
    | _ => none
  | .markAttribution index =>
    match s.attributions[index]? with
    | some ⟨request, .selected rows⟩ => some { s with
        ingest := s.ingest.mark rows
        attributions := s.attributions.set index ⟨request, .marked rows⟩ }
    | _ => none
  | .insertAttribution index recognised =>
    match s.attributions[index]? with
    | some ⟨request, .marked rows⟩ =>
      let token := RewriteToken.teamAttribution request.jobId (sortedKeys rows)
      if recognised ∧ token ∉ s.rewriteTokens then none
      else some { s with
        ingest := insertRewrite s.ingest rows recognised
        rewriteTokens := token :: s.rewriteTokens
        attributions := s.attributions.set index ⟨request, .inserted rows⟩
        teams := written s.teams rows UsageRow.teamId }
    | _ => none
  -- The rollup pass that may follow leaves the raw events alone.
  | .finishAttribution index =>
    match s.attributions[index]? with
    | some ⟨_, .inserted _⟩ => some { s with attributions := s.attributions.eraseIdx index }
    | _ => none
  | .stopAttribution index =>
    if s.attributions[index]?.isSome then
      some { s with attributions := s.attributions.eraseIdx index }
    else none

/-! ### The condition -/

def Agrees {α : Type} (raw rows : List UsageRow) (value : UsageRow → α) : Prop :=
  ∀ row ∈ rows, ∀ old ∈ raw, old.dedupKey = row.dedupKey → value old = value row

/-- The steps that undo no rewrite.

A flush inserts a row as its outbox row is, and over no other row; a repair inserts rows whose teams
are those of the raw events, and an attribution rows whose prices are; an insert that ClickHouse
drops changed nothing. An outbox row gets a team when the raw events do not have it without. -/
def UndoesNothing (s : RewriteSystem) : RewriteAction → Prop
  | .flush action => ∀ rows, s.ingest.Inserts action rows → Agrees s.ingest.raw rows id ∧
      ∀ row ∈ rows, ∃ origin ∈ s.ingest.outboxRows, clickHouseUsageRow origin = row
  | .insertRepair index recognised => ∀ batch, s.repairs[index]? = some batch →
      if recognised then Agrees s.ingest.raw batch.rows UsageRow.price
      else Agrees s.ingest.raw batch.rows UsageRow.teamId
  | .insertAttribution index recognised => ∀ request rows,
      s.attributions[index]? = some ⟨request, .marked rows⟩ →
      if recognised then Agrees s.ingest.raw rows UsageRow.teamId
      else Agrees s.ingest.raw rows UsageRow.price
  | .assignOutbox index chosen _ => ∀ batch, s.attributions[index]? = some batch →
      ∀ old ∈ s.ingest.raw, old.dedupKey ∈ chosen → old.teamId = batch.request.teamId
  | _ => True

/-- The raw events have the values that the log says were written for them. -/
def Survives {α : Type} (raw : List UsageRow) (log : String → Option α) (value : UsageRow → α) :
    Prop :=
  ∀ row ∈ raw, ∀ last, log row.dedupKey = some last → value row = last

/-- Every raw event has the last team and the last price written for it. -/
def RewriteSystem.RewritesSurvive (s : RewriteSystem) : Prop :=
  Survives s.ingest.raw s.teams UsageRow.teamId ∧ Survives s.ingest.raw s.prices UsageRow.price

/-! ### Inserts of rewritten rows -/

def Rewritable (raw rows : List UsageRow) : Prop :=
  (rows.map UsageRow.dedupKey).Nodup ∧
    ∀ row ∈ rows, row.dedupKey ∈ raw.map UsageRow.dedupKey

theorem Rewritable.nil (raw : List UsageRow) : Rewritable raw [] :=
  ⟨List.nodup_nil, fun _ none => (nomatch none)⟩

theorem Rewritable.insert {raw rows : List UsageRow} (rewritable : Rewritable raw rows)
    (added : List UsageRow) : Rewritable (replaceRows UsageRow.dedupKey raw added) rows :=
  ⟨rewritable.1, fun row among => key_mem_replaceRows UsageRow.dedupKey added
    (rewritable.2 row among)⟩

section Written

variable {α : Type} {raw rows : List UsageRow} {log : String → Option α} {value : UsageRow → α}

theorem written_of_mem {row : UsageRow} (distinct : (rows.map UsageRow.dedupKey).Nodup)
    (among : row ∈ rows) : written log rows value row.dedupKey = some (value row) := by
  have found : (rows.find? fun other => other.dedupKey = row.dedupKey).isSome :=
    List.find?_isSome.mpr ⟨row, among, by simp⟩
  obtain ⟨first, isFirst⟩ := Option.isSome_iff_exists.mp found
  have same : first.dedupKey = row.dedupKey := by simpa using List.find?_some isFirst
  have own : first = row :=
    List.inj_on_of_nodup_map distinct (List.mem_of_find?_eq_some isFirst) among same
  rw [written, isFirst, own]
  rfl

theorem written_of_absent {key : String} (absent : ∀ row ∈ rows, row.dedupKey ≠ key) :
    written log rows value key = log key := by
  have none : rows.find? (fun row => row.dedupKey = key) = none := by
    rw [List.find?_eq_none]
    exact fun row among => by simpa using absent row among
  rw [written, none]
  rfl

theorem known_of_written {key : String} {last : α} (known : written log rows value key = some last) :
    key ∈ rows.map UsageRow.dedupKey ∨ log key = some last := by
  by_cases among : key ∈ rows.map UsageRow.dedupKey
  · exact Or.inl among
  · rw [written_of_absent fun row rowAmong same => among (List.mem_map.mpr ⟨row, rowAmong, same⟩)]
      at known
    exact Or.inr known

theorem Survives.rewritten (survives : Survives raw log value)
    (distinct : (rows.map UsageRow.dedupKey).Nodup) :
    Survives (replaceRows UsageRow.dedupKey raw rows) (written log rows value) value := by
  intro row among last known
  rcases new_or_kept_of_mem_replaceRows UsageRow.dedupKey among with new | ⟨old, absent⟩
  · rw [written_of_mem distinct new] at known
    exact Option.some_inj.mp known
  · rw [written_of_absent absent] at known
    exact survives row old last known

theorem Survives.kept (survives : Survives raw log value) (agrees : Agrees raw rows value)
    (known : ∀ row ∈ rows, ∀ last, log row.dedupKey = some last →
      row.dedupKey ∈ raw.map UsageRow.dedupKey ∨ value row = last) :
    Survives (replaceRows UsageRow.dedupKey raw rows) log value := by
  intro row among last isLast
  rcases mem_replaceRows UsageRow.dedupKey among with old | new
  · exact survives row old last isLast
  · rcases known row new last isLast with inRaw | own
    · obtain ⟨old, oldAmong, same⟩ := List.mem_map.mp inRaw
      rw [← agrees row new old oldAmong same]
      exact survives old oldAmong last (same ▸ isLast)
    · exact own

theorem Survives.recognised (survives : Survives raw log value) (agrees : Agrees raw rows value)
    (distinct : (rows.map UsageRow.dedupKey).Nodup) :
    Survives raw (written log rows value) value := by
  intro row among last known
  by_cases rewritten : row.dedupKey ∈ rows.map UsageRow.dedupKey
  · obtain ⟨new, newAmong, same⟩ := List.mem_map.mp rewritten
    rw [← same, written_of_mem distinct newAmong] at known
    rw [← Option.some_inj.mp known]
    exact agrees new newAmong row among same.symm
  · rw [written_of_absent fun new newAmong same =>
      rewritten (List.mem_map.mpr ⟨new, newAmong, same⟩)] at known
    exact survives row among last known

end Written

/-! ### Rows of a repair and of an attribution -/

theorem Rewritable.of_sublist {raw chosen rows : List UsageRow}
    (deduplicated : (raw.map UsageRow.dedupKey).Nodup)
    (among : ∀ row ∈ chosen, row ∈ raw) (distinct : chosen.Nodup)
    (sublist : (rows.map UsageRow.dedupKey).Sublist (chosen.map UsageRow.dedupKey)) :
    Rewritable raw rows := by
  have nodup : (chosen.map UsageRow.dedupKey).Nodup :=
    distinct.map_on fun left leftAmong right rightAmong same =>
      List.inj_on_of_nodup_map deduplicated (among left leftAmong) (among right rightAmong) same
  refine ⟨nodup.sublist sublist, fun row rowAmong => ?_⟩
  obtain ⟨old, oldAmong, same⟩ := List.mem_map.mp (sublist.subset (List.mem_map_of_mem rowAmong))
  exact List.mem_map.mpr ⟨old, among old oldAmong, same⟩

theorem nodup_take_insertionSort {raw : List UsageRow}
    (deduplicated : (raw.map UsageRow.dedupKey).Nodup) (selects : UsageRow → Bool)
    (before : UsageRow → UsageRow → Prop) [DecidableRel before] (count : Nat) :
    (((raw.filter selects).insertionSort before).take count).Nodup := by
  refine List.Nodup.sublist (List.take_sublist _ _) ?_
  rw [(List.perm_insertionSort before _).nodup_iff]
  exact (List.Nodup.of_map _ deduplicated).filter selects

theorem mem_of_mem_take_insertionSort {raw : List UsageRow} {selects : UsageRow → Bool}
    {before : UsageRow → UsageRow → Prop} [DecidableRel before] {count : Nat} {row : UsageRow}
    (among : row ∈ ((raw.filter selects).insertionSort before).take count) : row ∈ raw := by
  have sorted := List.mem_of_mem_take among
  rw [List.mem_insertionSort] at sorted
  exact (List.mem_filter.mp sorted).1

theorem keys_repriced_sublist (resolver : UsageRow → Option ResolvedCost) (rows : List UsageRow) :
    ((rows.filterMap fun row => (resolver row).map row.repriced).map UsageRow.dedupKey).Sublist
      (rows.map UsageRow.dedupKey) := by
  induction rows with
  | nil => exact List.Sublist.refl _
  | cons row rest ih =>
    cases resolved : resolver row with
    | none => simpa [resolved] using ih.cons row.dedupKey
    | some cost => simpa [resolved, UsageRow.repriced] using ih

theorem rewritable_repairReplacements {raw : List UsageRow}
    (deduplicated : (raw.map UsageRow.dedupKey).Nodup) (request : PricingRepairRequest)
    (resolver : UsageRow → Option ResolvedCost) :
    Rewritable raw (repairReplacements request resolver raw) := by
  rw [repairReplacements]
  split
  · exact .nil raw
  · exact .of_sublist deduplicated (fun row among => mem_of_mem_take_insertionSort among)
      (nodup_take_insertionSort deduplicated _ _ _) (keys_repriced_sublist resolver _)

theorem rewritable_attributionReplacements {raw : List UsageRow}
    (deduplicated : (raw.map UsageRow.dedupKey).Nodup) (request : TeamAttributionBatchRequest)
    (rawFullFrom : Int) (remaining : Nat) :
    Rewritable raw (attributionReplacements request rawFullFrom remaining raw) := by
  refine .of_sublist deduplicated (fun row among => mem_of_mem_take_insertionSort among)
    (nodup_take_insertionSort deduplicated (request.selectsRaw rawFullFrom)
      (fun left right => left.ts < right.ts ∨ (left.ts = right.ts ∧ left.dedupKey ≤ right.dedupKey))
      remaining) ?_
  rw [attributionReplacements, List.map_map]
  exact List.Sublist.refl _

/-! ### The outbox transaction of an attribution -/

theorem keys_assign (request : TeamAttributionBatchRequest) (chosen : List String)
    (batches : List Batch) :
    ((batches.map (Batch.assign request chosen)).flatMap Batch.rows).map OutboxRow.dedupKey
      = (batches.flatMap Batch.rows).map OutboxRow.dedupKey := by
  induction batches with
  | nil => rfl
  | cons head rest ih =>
    have own : ((Batch.assign request chosen head).rows).map OutboxRow.dedupKey
        = head.rows.map OutboxRow.dedupKey := by
      unfold Batch.assign
      split
      · rfl
      · rw [List.map_map]
        refine List.map_congr_left fun row _ => ?_
        simp only [Function.comp_apply]
        split <;> rfl
    simp only [List.map_cons, List.flatMap_cons, List.map_append, own, ih]

theorem mem_assign {request : TeamAttributionBatchRequest} {chosen : List String}
    {batches : List Batch} {row : OutboxRow}
    (among : row ∈ (batches.map (Batch.assign request chosen)).flatMap Batch.rows) :
    row ∈ batches.flatMap Batch.rows ∨
      (row.dedupKey ∈ chosen ∧ row.teamId = some request.teamId) := by
  obtain ⟨assigned, assignedAmong, rowAmong⟩ := List.mem_flatMap.mp among
  obtain ⟨batch, batchAmong, rfl⟩ := List.mem_map.mp assignedAmong
  unfold Batch.assign at rowAmong
  split at rowAmong
  · exact Or.inl (List.mem_flatMap.mpr ⟨batch, batchAmong, rowAmong⟩)
  · obtain ⟨old, oldAmong, rfl⟩ := List.mem_map.mp rowAmong
    split
    · next isChosen => exact Or.inr ⟨isChosen.2, rfl⟩
    · exact Or.inl (List.mem_flatMap.mpr ⟨batch, batchAmong, oldAmong⟩)

theorem Ingest.Assignable.assigned {ingest : Ingest} {request : TeamAttributionBatchRequest}
    {chosen : List String} (assignable : ingest.Assignable request chosen)
    (distinct : (ingest.outboxRows.map OutboxRow.dedupKey).Nodup) {row : OutboxRow}
    (among : row ∈ (ingest.batches.map (Batch.assign request chosen)).flatMap Batch.rows)
    (isChosen : row.dedupKey ∈ chosen) : row.teamId = some request.teamId := by
  obtain ⟨batch, batchAmong, undelivered, old, oldAmong, selected, same⟩ :=
    assignable row.dedupKey isChosen
  let assigned : OutboxRow := { old with teamId := some request.teamId }
  have assignedAmong :
      assigned ∈ (ingest.batches.map (Batch.assign request chosen)).flatMap Batch.rows := by
    refine List.mem_flatMap.mpr ⟨_, List.mem_map_of_mem batchAmong, ?_⟩
    rw [Batch.assign, undelivered]
    exact List.mem_map.mpr ⟨old, oldAmong, if_pos ⟨selected, same ▸ isChosen⟩⟩
  have own : assigned = row := List.inj_on_of_nodup_map
    ((keys_assign request chosen ingest.batches).symm ▸ distinct) assignedAmong among same
  rw [← own]

/-! ### The invariant -/

def AttributionPhase.rows : AttributionPhase → List UsageRow
  | .selected rows | .marked rows | .inserted rows => rows
  | _ => []

/-- The rewrites survive; so does an assignment of an outbox row until the row is among the raw
events. -/
structure Rewritten (s : RewriteSystem) : Prop where
  survive : s.RewritesSurvive
  outbox : ∀ row ∈ s.ingest.outboxRows, ∀ team, s.teams row.dedupKey = some team →
    row.dedupKey ∈ s.ingest.raw.map UsageRow.dedupKey ∨ row.teamId = some team
  assigned : ∀ key team, s.teams key = some team →
    key ∈ s.ingest.outboxRows.map OutboxRow.dedupKey
  priced : ∀ key price, s.prices key = some price → key ∈ s.ingest.raw.map UsageRow.dedupKey
  known : ∀ key ∈ s.ingest.raw.map UsageRow.dedupKey,
    key ∈ s.ingest.outboxRows.map OutboxRow.dedupKey
  distinct : (s.ingest.outboxRows.map OutboxRow.dedupKey).Nodup
  deduplicated : (s.ingest.raw.map UsageRow.dedupKey).Nodup
  repairs : ∀ batch ∈ s.repairs, Rewritable s.ingest.raw batch.rows
  attributions : ∀ batch ∈ s.attributions, Rewritable s.ingest.raw batch.phase.rows

theorem Rewritten.initial (now : Int) : Rewritten (.initial now) where
  survive := ⟨fun _ none => (nomatch none), fun _ none => (nomatch none)⟩
  outbox := fun _ none => (nomatch none)
  assigned := by simp [RewriteSystem.initial]
  priced := by simp [RewriteSystem.initial]
  known := fun _ none => (nomatch none)
  distinct := List.nodup_nil
  deduplicated := List.nodup_nil
  repairs := fun _ none => (nomatch none)
  attributions := fun _ none => (nomatch none)

theorem Rewritten.of_frame {s : RewriteSystem} (rewritten : Rewritten s) (dirty : List Int)
    (repairs : List RepairBatch) (attributions : List AttributionBatch)
    (ofRepairs : ∀ batch ∈ repairs, Rewritable s.ingest.raw batch.rows)
    (ofAttributions : ∀ batch ∈ attributions, Rewritable s.ingest.raw batch.phase.rows) :
    Rewritten { s with
      ingest := { s.ingest with dirty := dirty }
      repairs := repairs
      attributions := attributions } :=
  { rewritten with repairs := ofRepairs, attributions := ofAttributions }

theorem Rewritten.enqueue {s : RewriteSystem} (rewritten : Rewritten s) (events : List OutboxRow) :
    Rewritten { s with ingest := s.ingest.enqueue events } where
  survive := by simpa [RewriteSystem.RewritesSurvive] using rewritten.survive
  outbox row among team isTeam := by
    simp only [outboxRows_enqueue, List.mem_append, raw_enqueue] at among ⊢
    rcases among with old | fresh
    · exact rewritten.outbox row old team isTeam
    · exact absurd (rewritten.assigned row.dedupKey team isTeam) (mem_fresh fresh)
  assigned key team isTeam := by
    simp only [outboxRows_enqueue, List.map_append, List.mem_append]
    exact Or.inl (rewritten.assigned key team isTeam)
  priced := by simpa using rewritten.priced
  known key among := by
    simp only [outboxRows_enqueue, List.map_append, List.mem_append, raw_enqueue] at among ⊢
    exact Or.inl (rewritten.known key among)
  distinct := nodup_outboxRows_enqueue events rewritten.distinct
  deduplicated := by simpa using rewritten.deduplicated
  repairs := by simpa using rewritten.repairs
  attributions := by simpa using rewritten.attributions

theorem Rewritten.flush {s : RewriteSystem} {action : FlushAction} {ingest : Ingest}
    (rewritten : Rewritten s) (admitted : UndoesNothing s (.flush action))
    (moved : s.ingest.next action = some ingest) : Rewritten { s with ingest := ingest } := by
  have step := Ingest.next_step moved
  rcases step.raw with same | ⟨rows, inserts, replaced⟩
  · exact
      { survive := by simpa [RewriteSystem.RewritesSurvive, same] using rewritten.survive
        outbox := by simpa [step.outbox, same] using rewritten.outbox
        assigned := by simpa [step.outbox] using rewritten.assigned
        priced := by simpa [same] using rewritten.priced
        known := by simpa [step.outbox, same] using rewritten.known
        distinct := by simpa [step.outbox] using rewritten.distinct
        deduplicated := by simpa [same] using rewritten.deduplicated
        repairs := by simpa [same] using rewritten.repairs
        attributions := by simpa [same] using rewritten.attributions }
  · obtain ⟨agrees, fromOutbox⟩ := admitted rows inserts
    have agreesOn : ∀ {α : Type} (value : UsageRow → α), Agrees s.ingest.raw rows value :=
      fun value row among old oldAmong same => congrArg value (agrees row among old oldAmong same)
    have grows : ∀ {key}, key ∈ s.ingest.raw.map UsageRow.dedupKey →
        key ∈ ingest.raw.map UsageRow.dedupKey := by
      intro key among
      rw [replaced]
      exact key_mem_replaceRows UsageRow.dedupKey rows among
    refine
      { survive := ⟨?_, ?_⟩
        outbox := fun row among team isTeam =>
          (rewritten.outbox row (step.outbox ▸ among) team isTeam).imp_left grows
        assigned := fun key team isTeam => step.outbox ▸ rewritten.assigned key team isTeam
        priced := fun key price isPrice => grows (rewritten.priced key price isPrice)
        known := ?_
        distinct := step.outbox ▸ rewritten.distinct
        deduplicated := ?_
        repairs := fun batch among => replaced ▸ (rewritten.repairs batch among).insert rows
        attributions := fun batch among =>
          replaced ▸ (rewritten.attributions batch among).insert rows }
    · rw [replaced]
      refine rewritten.survive.1.kept (agreesOn _) fun row among team isTeam => ?_
      obtain ⟨origin, originAmong, rfl⟩ := fromOutbox row among
      refine (rewritten.outbox origin originAmong team isTeam).imp_right fun own => ?_
      simp [clickHouseUsageRow, own]
    · rw [replaced]
      exact rewritten.survive.2.kept (agreesOn _) fun row among price isPrice =>
        Or.inl (rewritten.priced row.dedupKey price isPrice)
    · intro key among
      rw [replaced] at among
      obtain ⟨row, rowAmong, rfl⟩ := List.mem_map.mp among
      rw [step.outbox]
      rcases mem_replaceRows UsageRow.dedupKey rowAmong with old | new
      · exact rewritten.known row.dedupKey (List.mem_map_of_mem old)
      · obtain ⟨origin, originAmong, rfl⟩ := fromOutbox row new
        exact List.mem_map_of_mem originAmong
    · rw [replaced]
      exact nodup_replaceRows UsageRow.dedupKey rows rewritten.deduplicated

theorem Rewritten.insert {s : RewriteSystem} {rows : List UsageRow} {recognised : Bool}
    (rewritten : Rewritten s) (rewritable : Rewritable s.ingest.raw rows) (tokens : List RewriteToken)
    (repairs : List RepairBatch) (attributions : List AttributionBatch)
    (teams : String → Option String) (prices : String → Option EventPrice)
    (ofTeams : ∀ key team, teams key = some team →
      key ∈ rows.map UsageRow.dedupKey ∨ s.teams key = some team)
    (ofPrices : ∀ key price, prices key = some price →
      key ∈ rows.map UsageRow.dedupKey ∨ s.prices key = some price)
    (survive : Survives (insertRewrite s.ingest rows recognised).raw teams UsageRow.teamId ∧
      Survives (insertRewrite s.ingest rows recognised).raw prices UsageRow.price)
    (ofRepairs : ∀ batch ∈ repairs, Rewritable s.ingest.raw batch.rows)
    (ofAttributions : ∀ batch ∈ attributions, Rewritable s.ingest.raw batch.phase.rows) :
    Rewritten
      { ingest := insertRewrite s.ingest rows recognised
        rewriteTokens := tokens
        repairs := repairs
        attributions := attributions
        teams := teams
        prices := prices } := by
  have outbox : (insertRewrite s.ingest rows recognised).outboxRows = s.ingest.outboxRows := by
    cases recognised <;> rfl
  have grows : ∀ {key}, key ∈ s.ingest.raw.map UsageRow.dedupKey →
      key ∈ (insertRewrite s.ingest rows recognised).raw.map UsageRow.dedupKey := by
    intro key among
    cases recognised with
    | true => exact among
    | false => exact key_mem_replaceRows UsageRow.dedupKey rows among
  have shrinks : ∀ {key}, key ∈ (insertRewrite s.ingest rows recognised).raw.map UsageRow.dedupKey →
      key ∈ s.ingest.raw.map UsageRow.dedupKey := by
    intro key among
    cases recognised with
    | true => exact among
    | false =>
      obtain ⟨row, rowAmong, rfl⟩ := List.mem_map.mp among
      rcases mem_replaceRows UsageRow.dedupKey rowAmong with old | new
      · exact List.mem_map_of_mem old
      · exact rewritable.2 row new
  have ofRows : ∀ {key}, key ∈ rows.map UsageRow.dedupKey →
      key ∈ s.ingest.raw.map UsageRow.dedupKey := by
    intro key among
    obtain ⟨row, rowAmong, rfl⟩ := List.mem_map.mp among
    exact rewritable.2 row rowAmong
  have still : ∀ {other}, Rewritable s.ingest.raw other →
      Rewritable (insertRewrite s.ingest rows recognised).raw other :=
    fun before => ⟨before.1, fun row among => grows (before.2 row among)⟩
  refine
    { survive := survive
      outbox := fun row among team isTeam => ?_
      assigned := fun key team isTeam => ?_
      priced := fun key price isPrice => ?_
      known := fun key among => outbox ▸ rewritten.known key (shrinks among)
      distinct := outbox ▸ rewritten.distinct
      deduplicated := ?_
      repairs := fun batch among => still (ofRepairs batch among)
      attributions := fun batch among => still (ofAttributions batch among) }
  · rcases ofTeams row.dedupKey team isTeam with own | old
    · exact Or.inl (grows (ofRows own))
    · exact (rewritten.outbox row (outbox ▸ among) team old).imp_left grows
  · rw [outbox]
    rcases ofTeams key team isTeam with own | old
    · exact rewritten.known key (ofRows own)
    · exact rewritten.assigned key team old
  · rcases ofPrices key price isPrice with own | old
    · exact grows (ofRows own)
    · exact grows (rewritten.priced key price old)
  · cases recognised with
    | true => exact rewritten.deduplicated
    | false => exact nodup_replaceRows UsageRow.dedupKey rows rewritten.deduplicated

section Batches

variable {raw : List UsageRow} {repairs : List RepairBatch} {attributions : List AttributionBatch}

theorem rewritable_set_repair {index : Nat} {batch later : RepairBatch}
    (ofRepairs : ∀ batch ∈ repairs, Rewritable raw batch.rows) (here : repairs[index]? = some batch)
    (same : later.rows = batch.rows) : ∀ other ∈ repairs.set index later, Rewritable raw other.rows := by
  intro other among
  rcases List.mem_or_eq_of_mem_set among with old | rfl
  · exact ofRepairs other old
  · exact same ▸ ofRepairs batch (List.mem_of_getElem? here)

theorem rewritable_set_attribution {index : Nat} {later : AttributionBatch}
    (ofAttributions : ∀ batch ∈ attributions, Rewritable raw batch.phase.rows)
    (own : Rewritable raw later.phase.rows) :
    ∀ other ∈ attributions.set index later, Rewritable raw other.phase.rows := by
  intro other among
  rcases List.mem_or_eq_of_mem_set among with old | rfl
  · exact ofAttributions other old
  · exact own

end Batches

theorem Rewritten.insertRepair {s after : RewriteSystem} {index : Nat} {recognised : Bool}
    (rewritten : Rewritten s) (admitted : UndoesNothing s (.insertRepair index recognised))
    (moved : nextRewrite s (.insertRepair index recognised) = some after) : Rewritten after := by
  simp only [nextRewrite] at moved
  split at moved
  · next generation rows here =>
    have agrees := admitted _ here
    have rewritable := rewritten.repairs _ (List.mem_of_getElem? here)
    split at moved
    · cases moved
    · cases moved
      refine rewritten.insert rewritable _ _ _ _ _ (fun key team isTeam => Or.inr isTeam)
        (fun key price isPrice => known_of_written isPrice) ?_
        (rewritable_set_repair rewritten.repairs here rfl) rewritten.attributions
      cases recognised with
      | true => exact ⟨rewritten.survive.1, rewritten.survive.2.recognised agrees rewritable.1⟩
      | false =>
        exact ⟨rewritten.survive.1.kept agrees fun row among _ _ => Or.inl (rewritable.2 row among),
          rewritten.survive.2.rewritten rewritable.1⟩
  · cases moved

theorem Rewritten.insertAttribution {s after : RewriteSystem} {index : Nat} {recognised : Bool}
    (rewritten : Rewritten s) (admitted : UndoesNothing s (.insertAttribution index recognised))
    (moved : nextRewrite s (.insertAttribution index recognised) = some after) :
    Rewritten after := by
  simp only [nextRewrite] at moved
  split at moved
  · next request rows here =>
    have agrees := admitted _ _ here
    have rewritable : Rewritable s.ingest.raw rows :=
      rewritten.attributions _ (List.mem_of_getElem? here)
    split at moved
    · cases moved
    · cases moved
      refine rewritten.insert rewritable _ _ _ _ _ (fun key team isTeam => known_of_written isTeam)
        (fun key price isPrice => Or.inr isPrice) ?_ rewritten.repairs
        (rewritable_set_attribution rewritten.attributions rewritable)
      cases recognised with
      | true => exact ⟨rewritten.survive.1.recognised agrees rewritable.1, rewritten.survive.2⟩
      | false =>
        exact ⟨rewritten.survive.1.rewritten rewritable.1,
          rewritten.survive.2.kept agrees fun row among _ _ => Or.inl (rewritable.2 row among)⟩
  · cases moved

theorem Rewritten.assignOutbox {s after : RewriteSystem} {index : Nat} {chosen : List String}
    {hasMore : Bool} (rewritten : Rewritten s)
    (admitted : UndoesNothing s (.assignOutbox index chosen hasMore))
    (moved : nextRewrite s (.assignOutbox index chosen hasMore) = some after) : Rewritten after := by
  simp only [nextRewrite] at moved
  split at moved
  · next request here =>
    split at moved
    · next allowed =>
      have sameKeys := keys_assign request chosen s.ingest.batches
      have isTeam : ∀ {key team}, (if key ∈ chosen then some request.teamId else s.teams key)
          = some team → (key ∈ chosen ∧ request.teamId = team) ∨
            (key ∉ chosen ∧ s.teams key = some team) := by
        intro key team known
        split at known
        · next isChosen => exact Or.inl ⟨isChosen, Option.some_inj.mp known⟩
        · next other => exact Or.inr ⟨other, known⟩
      cases moved
      refine
        { survive := ⟨fun row among team known => ?_, rewritten.survive.2⟩
          outbox := fun row among team known => ?_
          assigned := fun key team known => ?_
          priced := rewritten.priced
          known := fun key among => sameKeys ▸ rewritten.known key among
          distinct := sameKeys ▸ rewritten.distinct
          deduplicated := rewritten.deduplicated
          repairs := rewritten.repairs
          attributions := ?_ }
      · rcases isTeam known with ⟨isChosen, rfl⟩ | ⟨_, old⟩
        · exact admitted _ here row among isChosen
        · exact rewritten.survive.1 row among team old
      · rcases isTeam known with ⟨isChosen, rfl⟩ | ⟨other, old⟩
        · exact Or.inr (allowed.2.assigned rewritten.distinct among isChosen)
        · rcases mem_assign among with before | ⟨isChosen, _⟩
          · exact rewritten.outbox row before team old
          · exact absurd isChosen other
      · refine sameKeys ▸ ?_
        rcases isTeam known with ⟨isChosen, _⟩ | ⟨_, old⟩
        · obtain ⟨batch, batchAmong, _, row, rowAmong, _, rfl⟩ := allowed.2 key isChosen
          exact List.mem_map_of_mem (List.mem_flatMap.mpr ⟨batch, batchAmong, rowAmong⟩)
        · exact rewritten.assigned key team old
      · intro batch among
        dsimp only at among
        split at among
        · exact rewritten.attributions batch (List.mem_of_mem_eraseIdx among)
        · exact rewritable_set_attribution rewritten.attributions (.nil _) batch among
    · cases moved
  · cases moved

theorem Rewritten.step {s after : RewriteSystem} {action : RewriteAction} (rewritten : Rewritten s)
    (admitted : UndoesNothing s action) (moved : nextRewrite s action = some after) :
    Rewritten after := by
  cases action with
  | enqueue events =>
    cases moved
    exact rewritten.enqueue events
  | flush action =>
    obtain ⟨ingest, stepped, rfl⟩ := Option.map_eq_some_iff.mp moved
    exact rewritten.flush admitted stepped
  | startRepair request resolver =>
    simp only [nextRewrite] at moved
    split at moved
    · cases moved
    · cases moved
      refine rewritten.of_frame s.ingest.dirty _ _ (fun batch among => ?_) rewritten.attributions
      rcases List.mem_append.mp among with old | new
      · exact rewritten.repairs batch old
      · rw [List.mem_singleton.mp new]
        exact rewritable_repairReplacements rewritten.deduplicated request resolver
  | markRepair index =>
    simp only [nextRewrite] at moved
    split at moved
    · next generation rows here =>
      cases moved
      exact rewritten.of_frame _ _ _ (rewritable_set_repair rewritten.repairs here rfl)
        rewritten.attributions
    · cases moved
  | insertRepair index recognised => exact rewritten.insertRepair admitted moved
  | finishRepair index =>
    simp only [nextRewrite] at moved
    split at moved
    · cases moved
      exact rewritten.of_frame _ _ _
        (fun batch among => rewritten.repairs batch (List.mem_of_mem_eraseIdx among))
        rewritten.attributions
    · cases moved
  | stopRepair index =>
    simp only [nextRewrite] at moved
    split at moved
    · cases moved
      exact rewritten.of_frame s.ingest.dirty _ _
        (fun batch among => rewritten.repairs batch (List.mem_of_mem_eraseIdx among))
        rewritten.attributions
    · cases moved
  | startAttribution request =>
    simp only [nextRewrite] at moved
    split at moved
    · cases moved
    · cases moved
      refine rewritten.of_frame s.ingest.dirty _ _ rewritten.repairs fun batch among => ?_
      rcases List.mem_append.mp among with old | new
      · exact rewritten.attributions batch old
      · rw [List.mem_singleton.mp new]
        exact .nil _
  | assignOutbox index chosen hasMore => exact rewritten.assignOutbox admitted moved
  | readFloor index =>
    simp only [nextRewrite] at moved
    split at moved
    · cases moved
      exact rewritten.of_frame s.ingest.dirty _ _ rewritten.repairs
        (rewritable_set_attribution rewritten.attributions (.nil _))
    · cases moved
  | selectRaw index =>
    simp only [nextRewrite] at moved
    split at moved
    · next request remaining rawFullFrom here =>
      cases moved
      refine rewritten.of_frame s.ingest.dirty _ _ rewritten.repairs
        (rewritable_set_attribution rewritten.attributions ?_)
      dsimp only
      split
      · exact .nil _
      · exact rewritable_attributionReplacements rewritten.deduplicated request rawFullFrom remaining
    · cases moved
  | markAttribution index =>
    simp only [nextRewrite] at moved
    split at moved
    · next request rows here =>
      have rewritable : Rewritable s.ingest.raw rows :=
        rewritten.attributions _ (List.mem_of_getElem? here)
      cases moved
      exact rewritten.of_frame _ _ _ rewritten.repairs
        (rewritable_set_attribution rewritten.attributions rewritable)
    · cases moved
  | insertAttribution index recognised => exact rewritten.insertAttribution admitted moved
  | finishAttribution index =>
    simp only [nextRewrite] at moved
    split at moved
    · cases moved
      exact rewritten.of_frame s.ingest.dirty _ _ rewritten.repairs fun batch among =>
        rewritten.attributions batch (List.mem_of_mem_eraseIdx among)
    · cases moved
  | stopAttribution index =>
    simp only [nextRewrite] at moved
    split at moved
    · cases moved
      exact rewritten.of_frame s.ingest.dirty _ _ rewritten.repairs fun batch among =>
        rewritten.attributions batch (List.mem_of_mem_eraseIdx among)
    · cases moved

/-! ### Every run -/

/-- An event of user `u` that has no price and no team. -/
def unpricedEvent : OutboxRow where
  dedupKey := "a"
  providerKey := "codex"
  userId := some "u"
  teamId := none
  sessionId := none
  model := some "gpt-5"
  ts := 0
  inputTokens := 10
  outputTokens := 1
  cacheReadTokens := 0
  cacheCreationTokens := 0
  costUsd := 0
  logAdapter := some "codex"
  host := none
  pricingRevisionId := none
  costStatus := .unpriced
  costCalculationVersion := none
  cacheCreation1hTokens := none
  isFast := none

def ingested : List RewriteAction :=
  [.enqueue [unpricedEvent], .flush (.claim 0), .flush (.read 0), .flush (.insert 0 false),
    .flush (.deliver 0)]

def selectedRepair : RewriteAction :=
  .startRepair ⟨0, 1000, ["gpt-5"], false, [], 10, "g"⟩ fun _ => some ⟨500, "r1", none, none⟩

/-- An attribution that gives the event a team, before its insert and from there on. -/
def selectedAttribution : List RewriteAction :=
  [.startAttribution ⟨"u", "t", none, none, 10, "j"⟩, .assignOutbox 0 [] false, .readFloor 0,
    .selectRaw 0, .markAttribution 0]

def attributedEvent : UsageRow :=
  { clickHouseUsageRow unpricedEvent with teamId := "t" }

end Toard.Storage
