/-
**Putting the rollups into service (`rollup-cutover.ts`).**

Two rollups serve queries once they have proved themselves: the usage of fifteen minutes, and the
time zones' that are built from it. A tick looks at the usage first. If that is due for a validation,
the tick makes it and ends; otherwise the tick looks at the time zones, or sends them back while the
usage is not active.
-/

import Mathlib.Data.List.Basic
import Toard.Library.Transition

namespace Toard.Rollup

open Toard.Library (Reachable ReachableBy)

/-! ### Records -/

inductive RollupCutoverLayer
  | usage15mV2
  | timezone
deriving DecidableEq

inductive RollupCutoverState
  | backfilling
  | observing
  | active
  | fallback
deriving DecidableEq

inductive RollupFailureKind
  | mismatch
  | lag
  | unavailable
deriving DecidableEq

inductive UnhealthyKind
  | lag
  | unavailable
deriving DecidableEq

def UnhealthyKind.failure : UnhealthyKind → RollupFailureKind
  | .lag => .lag
  | .unavailable => .unavailable

/-- What is kept of a layer, which is its key. Times are in milliseconds. -/
structure RollupCutoverRecord where
  state : RollupCutoverState
  targetWatermark : Option Int
  healthySeconds : Nat
  lastCheckedAt : Option Int
  lastValidationAt : Option Int
  consecutiveFailures : Nat
  lastFailureKind : Option RollupFailureKind
  lastFailure : Option String
  activatedAt : Option Int
deriving DecidableEq

structure RollupValidationResult where
  ok : Bool
  kind : Option RollupFailureKind
  detail : Option String
deriving DecidableEq

structure RollupLayerReadiness where
  ready : Bool
  validationReady : Option Bool
  forceValidation : Option Bool
  kind : Option UnhealthyKind
  detail : Option String
  activeTimezones : List String
deriving DecidableEq

inductive ValidationScope
  | initial
  | recurring
deriving DecidableEq

structure RollupCutoverDependencies where
  eligibleTarget : Int → Int
  readiness : RollupCutoverLayer → Int → RollupCutoverState → Except String RollupLayerReadiness
  validate : RollupCutoverLayer → Int → List String → ValidationScope →
    Except String RollupValidationResult

def REQUIRED_HEALTHY_SECONDS : Nat := 60 * 60

def ACTIVE_VALIDATION_INTERVAL_MS : Int := 6 * 60 * 60 * 1000

def MAX_TRANSIENT_FAILURES : Nat := 3

def MAX_OBSERVATION_INCREMENT_SECONDS : Nat := 60

def VALIDATION_RETRY_DELAY_MS : Int := 60 * 1000

def elapsedHealthySeconds (record : RollupCutoverRecord) (now : Int) : Nat :=
  match record.lastCheckedAt with
  | none => 0
  | some last => min MAX_OBSERVATION_INCREMENT_SECONDS ((now - last) / 1000).toNat

def recurringValidationDue (record : RollupCutoverRecord) (now : Int) : Bool :=
  match record.lastValidationAt with
  | none => true
  | some last => decide (ACTIVE_VALIDATION_INTERVAL_MS ≤ now - last)

def validationRetryDue (record : RollupCutoverRecord) (now : Int) : Bool :=
  record.lastFailureKind.isNone ||
    match record.lastCheckedAt with
    | none => true
    | some last => decide (VALIDATION_RETRY_DELAY_MS ≤ now - last)

/-! ### Saving -/

structure Evidence where
  readiness : Option (Except String RollupLayerReadiness)
  validation : Option (ValidationScope × RollupValidationResult)

structure Save where
  layer : RollupCutoverLayer
  before : RollupCutoverRecord
  after : RollupCutoverRecord
  evidence : Evidence

/-- `baseUpdate` -/
def baseUpdate (record : RollupCutoverRecord) (now : Int) : RollupCutoverRecord :=
  { record with lastCheckedAt := some now }

def RollupCutoverRecord.cleared (record : RollupCutoverRecord) : RollupCutoverRecord :=
  { record with consecutiveFailures := 0, lastFailureKind := none, lastFailure := none }

/-- `recordUnhealthy` -/
def recordUnhealthy (record : RollupCutoverRecord) (now : Int) (kind : UnhealthyKind)
    (detail : Option String) : RollupCutoverRecord :=
  let failures := if record.state = .active then record.consecutiveFailures + 1
    else record.consecutiveFailures
  let fallback := record.state = .active ∧ MAX_TRANSIENT_FAILURES ≤ failures
  { baseUpdate record now with
    state := if fallback then .fallback else record.state
    consecutiveFailures := failures
    lastFailureKind := some kind.failure
    lastFailure := detail }

/-- `recordValidationFailure` -/
def recordValidationFailure (record : RollupCutoverRecord) (now : Int)
    (result : RollupValidationResult) : RollupCutoverRecord :=
  let kind := result.kind.getD .unavailable
  let failures := record.consecutiveFailures + 1
  let fallback := kind = .mismatch ∨ record.state = .active ∧ MAX_TRANSIENT_FAILURES ≤ failures
  { baseUpdate record now with
    state := if fallback then .fallback else record.state
    consecutiveFailures := failures
    lastFailureKind := some kind
    lastFailure := result.detail }

structure RollupValidationTask where
  layer : RollupCutoverLayer
  target : Int
  scope : ValidationScope
  activeTimezones : List String
deriving DecidableEq

/-- A layer after a look at it, what was saved, and the validation that it is due for. -/
structure ReconciledLayer where
  record : RollupCutoverRecord
  saves : List Save
  validation : Option RollupValidationTask

def saved (layer : RollupCutoverLayer) (record after : RollupCutoverRecord)
    (readiness : Except String RollupLayerReadiness) (validation : Option RollupValidationTask) :
    ReconciledLayer :=
  { record := after
    saves := [{
      layer, before := record, after, evidence := { readiness := some readiness, validation := none } }]
    validation }

def observedSeconds (record : RollupCutoverRecord) (now : Int) : Nat :=
  min REQUIRED_HEALTHY_SECONDS (record.healthySeconds + elapsedHealthySeconds record now)

/-- `reconcileLayer` -/
def reconcileLayer (dependencies : RollupCutoverDependencies) (layer : RollupCutoverLayer)
    (record : RollupCutoverRecord) (now eligibleTarget : Int) : ReconciledLayer :=
  let target := if record.state = .observing then record.targetWatermark.getD eligibleTarget
    else eligibleTarget
  match dependencies.readiness layer target record.state with
  | .error error =>
    saved layer record (recordUnhealthy record now .unavailable (some error)) (.error error) none
  | .ok readiness =>
    let task := fun scope =>
      some { layer, target, scope, activeTimezones := readiness.activeTimezones }
    if readiness.ready = false then
      saved layer record
        (recordUnhealthy record now (readiness.kind.getD .unavailable) readiness.detail)
        (.ok readiness) none
    else if validationRetryDue record now = false then { record, saves := [], validation := none }
    else match record.state with
      | .backfilling | .fallback =>
        saved layer record (baseUpdate record now) (.ok readiness) (task .initial)
      | .observing =>
        let healthySeconds := observedSeconds record now
        if healthySeconds < REQUIRED_HEALTHY_SECONDS then
          saved layer record { (baseUpdate record now).cleared with healthySeconds } (.ok readiness)
            none
        else
          saved layer record { baseUpdate record now with healthySeconds } (.ok readiness)
            (task .initial)
      | .active =>
        if readiness.forceValidation ≠ some true ∧ recurringValidationDue record now = false then
          saved layer record (baseUpdate record now).cleared (.ok readiness) none
        else if readiness.validationReady = some false then
          saved layer record (baseUpdate record now).cleared (.ok readiness) none
        else saved layer record (baseUpdate record now) (.ok readiness) (task .recurring)

/-! ### A tick -/

structure Store where
  usage : RollupCutoverRecord
  timezone : RollupCutoverRecord
deriving DecidableEq

def Store.get (store : Store) : RollupCutoverLayer → RollupCutoverRecord
  | .usage15mV2 => store.usage
  | .timezone => store.timezone

def Store.save (store : Store) (save : Save) : Store :=
  match save.layer with
  | .usage15mV2 => { store with usage := save.after }
  | .timezone => { store with timezone := save.after }

def Store.apply (store : Store) (saves : List Save) : Store := saves.foldl Store.save store

def demoted (timezone : RollupCutoverRecord) (now : Int) : RollupCutoverRecord :=
  { (baseUpdate timezone now).cleared with
    state := .backfilling
    targetWatermark := none
    healthySeconds := 0
    activatedAt := none }

/-- `reconcileRollupCutoverWith` -/
def reconcileRollupCutoverWith (dependencies : RollupCutoverDependencies) (store : Store)
    (now : Int) : List Save × Option RollupValidationTask :=
  let eligibleTarget := dependencies.eligibleTarget now
  let usage := reconcileLayer dependencies .usage15mV2 store.usage now eligibleTarget
  match usage.validation with
  | some task => (usage.saves, some task)
  | none =>
    let timezone := store.timezone
    if usage.record.state ≠ .active then
      if timezone.state ≠ .backfilling ∨ timezone.targetWatermark.isSome ∨
          timezone.healthySeconds ≠ 0 then
        (usage.saves ++ [{
          layer := .timezone, before := timezone, after := demoted timezone now
          evidence := { readiness := none, validation := none } }], none)
      else (usage.saves, none)
    else
      let timezoneTarget := if timezone.state = .active ∨ timezone.activatedAt.isSome
        then eligibleTarget else usage.record.targetWatermark.getD eligibleTarget
      let timezoneResult := reconcileLayer dependencies .timezone timezone now timezoneTarget
      (usage.saves ++ timezoneResult.saves, timezoneResult.validation)

/-- `runValidation` -/
def runValidation (dependencies : RollupCutoverDependencies) (task : RollupValidationTask)
    (activeTimezones : List String) : RollupValidationResult :=
  match dependencies.validate task.layer task.target activeTimezones task.scope with
  | .ok result => result
  | .error error => { ok := false, kind := some .unavailable, detail := some error }

inductive ValidationOutcome
  | success
  | failed
  | superseded
deriving DecidableEq

/-- The record that a successful validation leaves, if it leaves one. -/
def validated (record : RollupCutoverRecord) (now : Int) (task : RollupValidationTask) :
    Option RollupCutoverRecord :=
  let update := { (baseUpdate record now).cleared with lastValidationAt := some now }
  if task.scope = .recurring then some update
  else if record.state = .observing then
    if record.healthySeconds < REQUIRED_HEALTHY_SECONDS then none
    else some { update with state := .active, activatedAt := some now }
  else some { update with
    state := .observing
    targetWatermark := some task.target
    healthySeconds := 0
    activatedAt := none }

/-- `executeRollupValidationWith` -/
def executeRollupValidationWith (task : RollupValidationTask)
    (dependencies : RollupCutoverDependencies) (store : Store) (now : Int) :
    ValidationOutcome × List Save :=
  let record := store.get task.layer
  if task.scope = .recurring ∧ record.state ≠ .active ∨
      task.scope = .initial ∧ record.state = .active then (.superseded, [])
  else match dependencies.readiness task.layer task.target record.state with
    | .error error =>
      (.failed, (saved task.layer record (recordUnhealthy record now .unavailable (some error))
        (.error error) none).saves)
    | .ok readiness =>
      if readiness.ready = false then
        (.superseded, (saved task.layer record
          (recordUnhealthy record now (readiness.kind.getD .unavailable) readiness.detail)
          (.ok readiness) none).saves)
      else if task.scope = .recurring ∧ readiness.validationReady = some false then
        (.superseded,
          (saved task.layer record (baseUpdate record now).cleared (.ok readiness) none).saves)
      else
        let validation := runValidation dependencies task readiness.activeTimezones
        let evidence := { readiness := some (.ok readiness), validation := some (task.scope, validation) }
        if validation.ok = false then
          (.failed, [{
            layer := task.layer, before := record, after := recordValidationFailure record now validation
            evidence }])
        else match validated record now task with
          | none => (.superseded, [])
          | some after => (.success, [{ layer := task.layer, before := record, after, evidence }])

/-- A tick. Its second part comes later and asks again; it may be stopped when it has saved some of
what it would. -/
structure Tick where
  first : RollupCutoverDependencies
  now : Int
  second : RollupCutoverDependencies
  later : Int
  stopped : Option Nat

/-- `advanceRollupCutoverWith`: what a whole tick saves. -/
def advanceRollupCutoverWith (store : Store) (tick : Tick) : List Save :=
  let result := reconcileRollupCutoverWith tick.first store tick.now
  match result.2 with
  | none => result.1
  | some task => result.1 ++
      (executeRollupValidationWith task tick.second (store.apply result.1) tick.later).2

def tickSaves (store : Store) (tick : Tick) : List Save :=
  match tick.stopped with
  | none => advanceRollupCutoverWith store tick
  | some count => (advanceRollupCutoverWith store tick).take count

/-- The table, all that was saved, and whether the last tick was a whole one. -/
structure Running where
  store : Store
  log : List Save
  completed : Bool

def next (running : Running) (tick : Tick) : Option Running :=
  let saves := tickSaves running.store tick
  some {
    store := running.store.apply saves
    log := running.log ++ saves
    completed := tick.stopped.isNone }

def initialRecord : RollupCutoverRecord where
  state := .backfilling
  targetWatermark := none
  healthySeconds := 0
  lastCheckedAt := none
  lastValidationAt := none
  consecutiveFailures := 0
  lastFailureKind := none
  lastFailure := none
  activatedAt := none

def start : Running where
  store := { usage := initialRecord, timezone := initialRecord }
  log := []
  completed := false

/-! ### What a save can be -/

def Save.Ready (save : Save) : Prop :=
  ∃ readiness, save.evidence.readiness = some (.ok readiness) ∧ readiness.ready = true

def Save.Unready (save : Save) : Prop :=
  (∃ error, save.evidence.readiness = some (.error error)) ∨
    ∃ readiness, save.evidence.readiness = some (.ok readiness) ∧ readiness.ready = false

inductive Change : Save → Prop
  /-- The layer is not ready. -/
  | unready {save : Save} {now : Int} {kind : UnhealthyKind} {detail : Option String}
      (unready : save.Unready) (unasked : save.evidence.validation = none)
      (after : save.after = recordUnhealthy save.before now kind detail) : Change save
  /-- A validation is due. -/
  | due {save : Save} {now : Int} (ready : save.Ready) (unasked : save.evidence.validation = none)
      (state : save.before.state ≠ .observing) (after : save.after = baseUpdate save.before now) :
      Change save
  /-- An observation goes on. -/
  | observed {save : Save} {now : Int} (ready : save.Ready) (unasked : save.evidence.validation = none)
      (state : save.before.state = .observing)
      (after : save.after = { (baseUpdate save.before now).cleared with
        healthySeconds := observedSeconds save.before now }) : Change save
  /-- An observation is complete. -/
  | observedAll {save : Save} {now : Int} (ready : save.Ready)
      (unasked : save.evidence.validation = none) (state : save.before.state = .observing)
      (after : save.after = { baseUpdate save.before now with
        healthySeconds := observedSeconds save.before now }) : Change save
  /-- An active layer needs no validation. -/
  | healthy {save : Save} {now : Int} (ready : save.Ready) (unasked : save.evidence.validation = none)
      (state : save.before.state = .active) (after : save.after = (baseUpdate save.before now).cleared) :
      Change save
  /-- A validation has failed. -/
  | refuted {save : Save} {now : Int} {scope : ValidationScope} {result : RollupValidationResult}
      (ready : save.Ready) (asked : save.evidence.validation = some (scope, result))
      (failed : result.ok = false) (after : save.after = recordValidationFailure save.before now result) :
      Change save
  /-- A validation has succeeded. -/
  | passed {save : Save} {now : Int} {task : RollupValidationTask} {result : RollupValidationResult}
      (ready : save.Ready) (asked : save.evidence.validation = some (task.scope, result))
      (held : result.ok = true) (scope : task.scope = .recurring ↔ save.before.state = .active)
      (after : validated save.before now task = some save.after) : Change save
  /-- The time zones start again. -/
  | demoted {save : Save} {now : Int} (unlooked : save.evidence.readiness = none)
      (unasked : save.evidence.validation = none) (after : save.after = demoted save.before now) :
      Change save

inductive Saves : Store → List Save → Prop
  | nil {store : Store} : Saves store []
  | cons {store : Store} {save : Save} {rest : List Save}
      (current : save.before = store.get save.layer) (change : Change save)
      (later : Saves (store.save save) rest) : Saves store (save :: rest)

inductive Looked (layer : RollupCutoverLayer) (record : RollupCutoverRecord) : ReconciledLayer → Prop
  | kept : Looked layer record { record, saves := [], validation := none }
  | saved {save : Save} {validation : Option RollupValidationTask} (on : save.layer = layer)
      (current : save.before = record) (change : Change save)
      (unasked : save.evidence.validation = none)
      (scope : ∀ task ∈ validation, task.layer = layer) :
      Looked layer record { record := save.after, saves := [save], validation }

section Looks

variable {layer : RollupCutoverLayer} {record after : RollupCutoverRecord}
  {readiness : Except String RollupLayerReadiness}

theorem looked_saved (change : Change {
      layer, before := record, after, evidence := { readiness := some readiness, validation := none } }) :
    Looked layer record (saved layer record after readiness none) :=
  .saved rfl rfl change rfl fun _ none_ => absurd none_ (Option.not_mem_none _)

theorem looked_due {task : RollupValidationTask} (on : task.layer = layer) (change : Change {
      layer, before := record, after, evidence := { readiness := some readiness, validation := none } }) :
    Looked layer record (saved layer record after readiness (some task)) :=
  .saved rfl rfl change rfl fun _ is => Option.some.inj is ▸ on

end Looks

theorem looked_reconcileLayer (dependencies : RollupCutoverDependencies) (layer : RollupCutoverLayer)
    (record : RollupCutoverRecord) (now eligibleTarget : Int) :
    Looked layer record (reconcileLayer dependencies layer record now eligibleTarget) := by
  unfold reconcileLayer
  dsimp only
  split
  case h_1 error _ => exact looked_saved (.unready (.inl ⟨error, rfl⟩) rfl rfl)
  case h_2 readiness _ =>
    by_cases held : readiness.ready = false
    · rw [if_pos held]
      exact looked_saved (.unready (.inr ⟨readiness, rfl, held⟩) rfl rfl)
    rw [if_neg held]
    have ready : readiness.ready = true := Bool.not_eq_false _ ▸ held
    split
    case isTrue => exact .kept
    case isFalse =>
      split
      case h_1 state =>
        exact looked_due rfl (.due ⟨readiness, rfl, ready⟩ rfl (by rw [state]; decide) rfl)
      case h_2 state =>
        exact looked_due rfl (.due ⟨readiness, rfl, ready⟩ rfl (by rw [state]; decide) rfl)
      case h_3 state =>
        split
        case isTrue => exact looked_saved (.observed ⟨readiness, rfl, ready⟩ rfl state rfl)
        case isFalse => exact looked_due rfl (.observedAll ⟨readiness, rfl, ready⟩ rfl state rfl)
      case h_4 state =>
        split
        case isTrue => exact looked_saved (.healthy ⟨readiness, rfl, ready⟩ rfl state rfl)
        case isFalse =>
          split
          case isTrue => exact looked_saved (.healthy ⟨readiness, rfl, ready⟩ rfl state rfl)
          case isFalse =>
            exact looked_due rfl (.due ⟨readiness, rfl, ready⟩ rfl (by rw [state]; decide) rfl)

theorem validated_healthySeconds {record after : RollupCutoverRecord} {now : Int}
    {task : RollupValidationTask} (left : validated record now task = some after) :
    after.healthySeconds ≤ record.healthySeconds := by
  unfold validated at left
  dsimp only at left
  split at left
  case isTrue => exact Option.some.inj left ▸ Nat.le_refl _
  split at left
  case isFalse.isTrue =>
    split at left
    case isTrue => cases left
    case isFalse => exact Option.some.inj left ▸ Nat.le_refl _
  case isFalse.isFalse => exact Option.some.inj left ▸ Nat.zero_le _

theorem changes_execute (task : RollupValidationTask) (dependencies : RollupCutoverDependencies)
    (store : Store) (now : Int) :
    (executeRollupValidationWith task dependencies store now).2 = [] ∨
      ∃ save, (executeRollupValidationWith task dependencies store now).2 = [save] ∧
        save.layer = task.layer ∧ save.before = store.get task.layer ∧ Change save ∧
        save.after.healthySeconds ≤ save.before.healthySeconds := by
  unfold executeRollupValidationWith
  dsimp only
  split
  case isTrue => exact .inl rfl
  case isFalse fits =>
    split
    case h_1 error _ =>
      exact .inr ⟨_, rfl, rfl, rfl, .unready (.inl ⟨error, rfl⟩) rfl rfl, Nat.le_refl _⟩
    case h_2 readiness _ =>
      by_cases ready : readiness.ready = false
      · rw [if_pos ready]
        exact .inr ⟨_, rfl, rfl, rfl, .unready (.inr ⟨readiness, rfl, ready⟩) rfl rfl, Nat.le_refl _⟩
      rw [if_neg ready]
      have ready : readiness.ready = true := Bool.not_eq_false _ ▸ ready
      have scope : task.scope = .recurring ↔ (store.get task.layer).state = .active := by
        cases is : task.scope <;> simp_all
      split
      case isTrue postponed =>
        exact .inr ⟨_, rfl, rfl, rfl,
          .healthy ⟨readiness, rfl, ready⟩ rfl (scope.mp postponed.1) rfl, Nat.le_refl _⟩
      case isFalse =>
        split
        case isTrue failed =>
          exact .inr ⟨_, rfl, rfl, rfl, .refuted ⟨readiness, rfl, ready⟩ rfl failed rfl,
            Nat.le_refl _⟩
        case isFalse held =>
          split
          case h_1 => exact .inl rfl
          case h_2 after left =>
            exact .inr ⟨_, rfl, rfl, rfl, .passed ⟨readiness, rfl, ready⟩ rfl
              (Bool.not_eq_false _ ▸ held) scope left, validated_healthySeconds left⟩

/-! ### The saves of a tick -/

theorem Store.apply_append (store : Store) (first later : List Save) :
    store.apply (first ++ later) = (store.apply first).apply later :=
  List.foldl_append

theorem Store.get_save (store : Store) (save : Save) (layer : RollupCutoverLayer) :
    (store.save save).get layer = if save.layer = layer then save.after else store.get layer := by
  obtain ⟨on, before, after, evidence⟩ := save
  cases on <;> cases layer <;> rfl

theorem Saves.append {store : Store} {first later : List Save} (saves : Saves store first)
    (more : Saves (store.apply first) later) : Saves store (first ++ later) := by
  induction saves with
  | nil => exact more
  | cons current change _ ih => exact .cons current change (ih more)

theorem Saves.take {store : Store} {saves : List Save} (all : Saves store saves) (count : Nat) :
    Saves store (saves.take count) := by
  induction all generalizing count with
  | nil => rw [List.take_nil]; exact .nil
  | cons current change _ ih =>
    cases count with
    | zero => exact .nil
    | succ count => exact .cons current change (ih count)

theorem saves_looked (store : Store) (layer : RollupCutoverLayer) {result : ReconciledLayer}
    (looked : Looked layer (store.get layer) result) : Saves store result.saves := by
  cases looked with
  | kept => exact .nil
  | saved on current change => exact .cons (by rw [current, on]) change .nil

theorem get_apply_looked (store : Store) (layer other : RollupCutoverLayer) {result : ReconciledLayer}
    (looked : Looked layer (store.get layer) result) :
    (store.apply result.saves).get other = if layer = other then result.record else store.get other := by
  cases looked with
  | kept =>
    split
    case isTrue same => rw [same]; rfl
    case isFalse => rfl
  | saved on =>
    have one := store.get_save
    rw [← on]
    exact one _ other

theorem saves_reconcile (dependencies : RollupCutoverDependencies) (store : Store) (now : Int) :
    Saves store (reconcileRollupCutoverWith dependencies store now).1 := by
  have usage := looked_reconcileLayer dependencies .usage15mV2 store.usage now
    (dependencies.eligibleTarget now)
  have first : Saves store _ := saves_looked store .usage15mV2 usage
  have untouched : (store.apply (reconcileLayer dependencies .usage15mV2 store.usage now
      (dependencies.eligibleTarget now)).saves).get .timezone = store.timezone :=
    get_apply_looked store .usage15mV2 .timezone usage
  unfold reconcileRollupCutoverWith
  dsimp only
  split
  case h_1 => exact first
  split
  case h_2.isTrue =>
    split
    case isTrue => exact first.append (.cons untouched.symm (.demoted rfl rfl rfl) .nil)
    case isFalse => exact first
  case h_2.isFalse =>
    refine first.append (saves_looked _ .timezone ?_)
    rw [untouched]
    exact looked_reconcileLayer dependencies .timezone store.timezone now _

theorem saves_execute (task : RollupValidationTask) (dependencies : RollupCutoverDependencies)
    (store : Store) (now : Int) :
    Saves store (executeRollupValidationWith task dependencies store now).2 := by
  obtain none_ | ⟨save, one, on, current, change, -⟩ := changes_execute task dependencies store now
  · rw [none_]
    exact .nil
  · rw [one]
    exact .cons (by rw [current, on]) change .nil

/-- **A tick saves one change after another.** -/
theorem saves_tick (store : Store) (tick : Tick) : Saves store (tickSaves store tick) := by
  have whole : Saves store (advanceRollupCutoverWith store tick) := by
    unfold advanceRollupCutoverWith
    dsimp only
    split
    case h_1 => exact saves_reconcile tick.first store tick.now
    case h_2 => exact (saves_reconcile tick.first store tick.now).append (saves_execute _ _ _ _)
  rw [tickSaves]
  split
  case h_1 => exact whole
  case h_2 count _ => exact whole.take count

end Toard.Rollup
