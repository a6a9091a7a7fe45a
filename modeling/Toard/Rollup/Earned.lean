/-
**A rollup serves only when it has earned it.**

The log of a layer holds what was saved of it, with what was asked before. Whatever the ticks find,
and wherever they stop, a layer becomes active only after a validation, an hour of healthy seconds,
and another validation.

* **`cutover_earned`**: the whole log of any run.
-/

import Mathlib.Algebra.GroupWithZero.Nat
import Mathlib.Algebra.Order.BigOperators.Group.List
import Toard.Rollup.Cutover

namespace Toard.Rollup

open Toard.Library (Reachable ReachableBy run)

/-! ### What a log says -/

def Save.gained (save : Save) : Nat := save.after.healthySeconds - save.before.healthySeconds

def Save.Validated (save : Save) : Prop :=
  save.Ready ∧ ∃ scope result, save.evidence.validation = some (scope, result) ∧ result.ok = true

def Save.Mismatched (save : Save) : Prop :=
  ∃ scope result, save.evidence.validation = some (scope, result) ∧ result.ok = false ∧
    result.kind = some .mismatch

/-- A failure that is no mismatch: the layer is not ready, or a validation has failed otherwise. -/
def Save.fails (save : Save) : Bool :=
  match save.evidence.readiness, save.evidence.validation with
  | some (.error _), _ => true
  | some (.ok readiness), none => !readiness.ready
  | some (.ok _), some (_, result) => !result.ok && result.kind != some .mismatch
  | none, _ => false

def Save.recovers (save : Save) : Bool := save.after.lastFailureKind.isNone

def failuresInARow (log : List Save) : Nat :=
  log.foldl (fun count save =>
    if save.before.state = .active ∧ save.fails then count + 1
    else if save.recovers then 0
    else count) 0

/-- The layer is being observed since a validation, with so many healthy seconds. -/
def Observed (log : List Save) (seconds : Nat) : Prop :=
  ∃ earlier entry since, log = earlier ++ entry :: since ∧
    entry.before.state ≠ .observing ∧ entry.after.state = .observing ∧ entry.Validated ∧
    (∀ save ∈ since, save.before.state = .observing ∧ save.after.state = .observing) ∧
    seconds ≤ (since.map Save.gained).sum

structure Proper (earlier : List Save) (save : Save) : Prop where
  earned : save.before.state ≠ .active → save.after.state = .active →
    save.Validated ∧ Observed earlier REQUIRED_HEALTHY_SECONDS
  capped : save.gained ≤ MAX_OBSERVATION_INCREMENT_SECONDS
  held : 0 < save.gained → save.Ready
  refuted : save.Mismatched → save.after.state = .fallback
  third : save.before.state = .active → save.fails = true →
    MAX_TRANSIENT_FAILURES ≤ failuresInARow earlier + 1 → save.after.state = .fallback
  reset : save.before.state ≠ .observing → save.after.state = .observing →
    save.after.healthySeconds = 0

structure Standing (log : List Save) (record : RollupCutoverRecord) : Prop where
  observed : record.state = .observing → Observed log record.healthySeconds
  counted : record.state = .active → record.consecutiveFailures = failuresInARow log
  clean : record.state = .active → record.lastFailureKind = none → record.consecutiveFailures = 0

theorem failuresInARow_append (log : List Save) (save : Save) :
    failuresInARow (log ++ [save])
      = if save.before.state = .active ∧ save.fails then failuresInARow log + 1
        else if save.recovers then 0 else failuresInARow log := by
  rw [failuresInARow, List.foldl_append]
  rfl

theorem Observed.append {log : List Save} {seconds more : Nat} (observed : Observed log seconds)
    {save : Save} (before : save.before.state = .observing) (after : save.after.state = .observing)
    (gained : more ≤ seconds + save.gained) : Observed (log ++ [save]) more := by
  obtain ⟨earlier, entry, since, rfl, fresh, entered, valid, kept, enough⟩ := observed
  refine ⟨earlier, entry, since ++ [save], by simp, fresh, entered, valid, fun other among => ?_, ?_⟩
  · obtain old | new := List.mem_append.mp among
    · exact kept other old
    · rw [List.mem_singleton.mp new]
      exact ⟨before, after⟩
  · rw [List.map_append, List.sum_append, List.map_singleton, List.sum_singleton]
    omega

/-! ### What a save shows -/

section Evidence

variable {save : Save}

theorem fails_of_unready (unready : save.Unready) (unasked : save.evidence.validation = none) :
    save.fails = true := by
  obtain ⟨error, looked⟩ | ⟨readiness, looked, held⟩ := unready
  · rw [Save.fails, looked, unasked]
  · rw [Save.fails, looked, unasked]
    exact congrArg not held

theorem not_fails_of_ready (ready : save.Ready) (unasked : save.evidence.validation = none) :
    save.fails = false := by
  obtain ⟨readiness, looked, held⟩ := ready
  rw [Save.fails, looked, unasked]
  exact congrArg not held

theorem fails_of_refuted {scope : ValidationScope} {result : RollupValidationResult}
    (ready : save.Ready) (asked : save.evidence.validation = some (scope, result))
    (failed : result.ok = false) : save.fails = (result.kind != some .mismatch) := by
  obtain ⟨readiness, looked, -⟩ := ready
  rw [Save.fails, looked, asked]
  dsimp only
  rw [failed]
  rfl

theorem not_fails_of_passed {scope : ValidationScope} {result : RollupValidationResult}
    (ready : save.Ready) (asked : save.evidence.validation = some (scope, result))
    (held : result.ok = true) : save.fails = false := by
  obtain ⟨readiness, looked, -⟩ := ready
  rw [Save.fails, looked, asked]
  dsimp only
  rw [held]
  rfl

theorem not_mismatched_of_unasked (unasked : save.evidence.validation = none) :
    ¬ save.Mismatched := by
  rintro ⟨scope, result, asked, -⟩
  rw [unasked] at asked
  cases asked

end Evidence

/-! ### One save -/

section OneSave

variable {earlier : List Save} {save : Save} {now : Int}

theorem proper_quiet (state : save.after.state = save.before.state) (gained : save.gained = 0)
    (refuted : ¬ save.Mismatched) (well : save.fails = false) : Proper earlier save where
  earned before after := absurd (state ▸ after) before
  capped := by rw [gained]; exact Nat.zero_le _
  held some_ := absurd some_ (by omega)
  refuted mismatched := absurd mismatched refuted
  third _ failed := by rw [well] at failed; cases failed
  reset before after := absurd (state ▸ after) before

theorem keeps_unready {kind : UnhealthyKind} {detail : Option String}
    (standing : Standing earlier save.before) (unready : save.Unready)
    (unasked : save.evidence.validation = none)
    (after : save.after = recordUnhealthy save.before now kind detail) :
    Proper earlier save ∧ Standing (earlier ++ [save]) save.after := by
  have fails := fails_of_unready unready unasked
  have gained : save.gained = 0 := by
    rw [Save.gained, after]
    exact Nat.sub_self _
  by_cases active : save.before.state = .active
  · have failures : save.after.consecutiveFailures = failuresInARow earlier + 1 := by
      rw [after, recordUnhealthy]
      dsimp only
      rw [if_pos active, standing.counted active]
    have state : save.after.state
        = if MAX_TRANSIENT_FAILURES ≤ failuresInARow earlier + 1 then .fallback else .active := by
      rw [after, recordUnhealthy]
      simp only [active, standing.counted active, if_true, true_and]
    have count : failuresInARow (earlier ++ [save]) = failuresInARow earlier + 1 := by
      rw [failuresInARow_append, if_pos ⟨active, fails⟩]
    refine ⟨{
      earned := fun other => absurd active other
      capped := by rw [gained]; exact Nat.zero_le _
      held := fun some_ => absurd some_ (by omega)
      refuted := fun mismatched => absurd mismatched (not_mismatched_of_unasked unasked)
      third := fun _ _ third => by rw [state, if_pos third]
      reset := fun _ observing => ?_ }, {
      observed := fun observing => ?_
      counted := fun _ => by rw [failures, count]
      clean := fun _ none_ => ?_ }⟩
    · rw [state] at observing
      split at observing <;> cases observing
    · rw [state] at observing
      split at observing <;> cases observing
    · rw [after] at none_
      cases none_
  · have state : save.after.state = save.before.state := by
      rw [after, recordUnhealthy]
      simp only [active, false_and, if_false]
    refine ⟨{
      earned := fun before became => absurd (state ▸ became) before
      capped := by rw [gained]; exact Nat.zero_le _
      held := fun some_ => absurd some_ (by omega)
      refuted := fun mismatched => absurd mismatched (not_mismatched_of_unasked unasked)
      third := fun before => absurd before active
      reset := fun before became => absurd (state ▸ became) before }, {
      observed := fun observing => ?_
      counted := fun became => absurd (state ▸ became) active
      clean := fun became => absurd (state ▸ became) active }⟩
    have before : save.before.state = .observing := state ▸ observing
    refine (standing.observed before).append before observing ?_
    rw [gained, after]
    exact Nat.le_refl _

theorem keeps_due (standing : Standing earlier save.before) (ready : save.Ready)
    (unasked : save.evidence.validation = none) (state : save.before.state ≠ .observing)
    (after : save.after = baseUpdate save.before now) :
    Proper earlier save ∧ Standing (earlier ++ [save]) save.after := by
  have fails := not_fails_of_ready ready unasked
  have same : save.after.state = save.before.state := by rw [after]; rfl
  have gained : save.gained = 0 := by
    rw [Save.gained, after]
    exact Nat.sub_self _
  refine ⟨proper_quiet same gained (not_mismatched_of_unasked unasked) fails, {
    observed := fun observing => absurd (same ▸ observing) state
    counted := fun active => ?_
    clean := fun active none_ => ?_ }⟩
  · have before : save.before.state = .active := same ▸ active
    have failures : save.after.consecutiveFailures = failuresInARow earlier := by
      rw [after]
      exact standing.counted before
    rw [failuresInARow_append, if_neg (by rw [fails]; simp), failures]
    split
    case isTrue recovers =>
      have none_ : save.before.lastFailureKind = none := by
        rw [Save.recovers, after] at recovers
        exact Option.isNone_iff_eq_none.mp recovers
      rw [← standing.counted before, standing.clean before none_]
    case isFalse => rfl
  · rw [after] at none_ ⊢
    exact standing.clean (same ▸ active) none_

theorem observedSeconds_le (record : RollupCutoverRecord) (now : Int) :
    observedSeconds record now ≤ record.healthySeconds + MAX_OBSERVATION_INCREMENT_SECONDS := by
  have few : elapsedHealthySeconds record now ≤ MAX_OBSERVATION_INCREMENT_SECONDS := by
    unfold elapsedHealthySeconds
    split
    case h_1 => exact Nat.zero_le _
    case h_2 => exact Nat.min_le_left _ _
  have cut : observedSeconds record now ≤ _ := Nat.min_le_right _ _
  omega

variable (now) in
theorem keeps_observed (standing : Standing earlier save.before) (ready : save.Ready)
    (unasked : save.evidence.validation = none) (before : save.before.state = .observing)
    (state : save.after.state = .observing)
    (seconds : save.after.healthySeconds = observedSeconds save.before now) :
    Proper earlier save ∧ Standing (earlier ++ [save]) save.after := by
  have few := observedSeconds_le save.before now
  refine ⟨{
    earned := fun _ became => by rw [state] at became; cases became
    capped := by rw [Save.gained, seconds]; omega
    held := fun _ => ready
    refuted := fun mismatched => absurd mismatched (not_mismatched_of_unasked unasked)
    third := fun active => by rw [before] at active; cases active
    reset := fun other => absurd before other }, {
    observed := fun observing => (standing.observed before).append before observing (by
      rw [Save.gained]
      omega)
    counted := fun active => by rw [state] at active; cases active
    clean := fun active => by rw [state] at active; cases active }⟩

theorem keeps_healthy (ready : save.Ready) (unasked : save.evidence.validation = none)
    (before : save.before.state = .active) (after : save.after = (baseUpdate save.before now).cleared) :
    Proper earlier save ∧ Standing (earlier ++ [save]) save.after := by
  have fails := not_fails_of_ready ready unasked
  have same : save.after.state = save.before.state := by rw [after]; rfl
  have gained : save.gained = 0 := by
    rw [Save.gained, after]
    exact Nat.sub_self _
  have recovers : save.recovers = true := by rw [Save.recovers, after]; rfl
  refine ⟨proper_quiet same gained (not_mismatched_of_unasked unasked) fails, {
    observed := fun observing => by rw [same, before] at observing; cases observing
    counted := fun _ => ?_
    clean := fun _ _ => by rw [after]; rfl }⟩
  rw [failuresInARow_append, if_neg (by rw [fails]; simp), if_pos recovers, after]
  rfl

theorem keeps_refuted {scope : ValidationScope} {result : RollupValidationResult}
    (standing : Standing earlier save.before) (ready : save.Ready)
    (asked : save.evidence.validation = some (scope, result)) (failed : result.ok = false)
    (after : save.after = recordValidationFailure save.before now result) :
    Proper earlier save ∧ Standing (earlier ++ [save]) save.after := by
  have fails := fails_of_refuted ready asked failed
  have gained : save.gained = 0 := by
    rw [Save.gained, after]
    exact Nat.sub_self _
  have state : save.after.state = if result.kind.getD .unavailable = .mismatch ∨
      save.before.state = .active ∧ MAX_TRANSIENT_FAILURES ≤ save.before.consecutiveFailures + 1
        then .fallback else save.before.state := by
    rw [after]
    rfl
  have kept : save.after.state ≠ .fallback → save.after.state = save.before.state := by
    intro other
    rw [state] at other ⊢
    split at other
    case isTrue => exact absurd rfl other
    case isFalse none_ => rw [if_neg none_]
  have mismatched : save.Mismatched → save.after.state = .fallback := by
    rintro ⟨scope', result', asked', -, kind⟩
    rw [asked] at asked'
    have same : result = result' := congrArg Prod.snd (Option.some.inj asked')
    rw [state, if_pos (.inl (by rw [same, kind]; rfl))]
  refine ⟨{
    earned := fun before became =>
      absurd (kept (by rw [became]; decide) ▸ became) before
    capped := by rw [gained]; exact Nat.zero_le _
    held := fun _ => ready
    refuted := mismatched
    third := fun active _ third => by
      rw [state, if_pos (.inr ⟨active, by rwa [standing.counted active]⟩)]
    reset := fun before became => absurd (kept (by rw [became]; decide) ▸ became) before }, {
    observed := fun observing => ?_
    counted := fun active => ?_
    clean := fun _ none_ => by rw [after] at none_; cases none_ }⟩
  · have before : save.before.state = .observing :=
      kept (by rw [observing]; decide) ▸ observing
    refine (standing.observed before).append before observing ?_
    rw [gained, after]
    exact Nat.le_refl _
  · have before : save.before.state = .active := kept (by rw [active]; decide) ▸ active
    have transient : save.fails = true := by
      rw [fails]
      by_contra mismatch
      have kind : result.kind = some .mismatch := by simpa using mismatch
      rw [mismatched ⟨scope, result, asked, failed, kind⟩] at active
      cases active
    rw [failuresInARow_append, if_pos ⟨before, transient⟩, after, ← standing.counted before]
    rfl

theorem keeps_passed {task : RollupValidationTask} {result : RollupValidationResult}
    (standing : Standing earlier save.before) (ready : save.Ready)
    (asked : save.evidence.validation = some (task.scope, result)) (held : result.ok = true)
    (scope : task.scope = .recurring ↔ save.before.state = .active)
    (left : validated save.before now task = some save.after) :
    Proper earlier save ∧ Standing (earlier ++ [save]) save.after := by
  have valid : save.Validated := ⟨ready, task.scope, result, asked, held⟩
  have fails := not_fails_of_passed ready asked held
  have gained : save.gained = 0 := Nat.sub_eq_zero_of_le (validated_healthySeconds left)
  have unrefuted : ¬ save.Mismatched := by
    rintro ⟨scope', result', asked', failed, -⟩
    rw [asked] at asked'
    have same : result = result' := congrArg Prod.snd (Option.some.inj asked')
    rw [← same, held] at failed
    cases failed
  unfold validated at left
  dsimp only at left
  split at left
  case isTrue recurring =>
    have active := scope.mp recurring
    have after := (Option.some.inj left).symm
    have same : save.after.state = save.before.state := by rw [after]; rfl
    have recovers : save.recovers = true := by rw [Save.recovers, after]; rfl
    refine ⟨proper_quiet same gained unrefuted fails, {
      observed := fun observing => by rw [same, active] at observing; cases observing
      counted := fun _ => ?_
      clean := fun _ _ => by rw [after]; rfl }⟩
    rw [failuresInARow_append, if_neg (by rw [fails]; simp), if_pos recovers, after]
    rfl
  case isFalse first =>
    have inactive : save.before.state ≠ .active := fun active => first (scope.mpr active)
    split at left
    case isTrue observing =>
      split at left
      case isTrue => cases left
      case isFalse enough =>
        have after := (Option.some.inj left).symm
        have state : save.after.state = .active := by rw [after]
        have recovers : save.recovers = true := by rw [Save.recovers, after]; rfl
        obtain ⟨before, entry, since, whole, fresh, entered, entryValid, kept, seconds⟩ :=
          standing.observed observing
        refine ⟨{
          earned := fun _ _ => ⟨valid, before, entry, since, whole, fresh, entered, entryValid, kept,
            (Nat.not_lt.mp enough).trans seconds⟩
          capped := by rw [gained]; exact Nat.zero_le _
          held := fun _ => ready
          refuted := fun mismatched => absurd mismatched unrefuted
          third := fun active => absurd active inactive
          reset := fun other => absurd observing other }, {
          observed := fun became => by rw [state] at became; cases became
          counted := fun _ => ?_
          clean := fun _ _ => by rw [after]; rfl }⟩
        rw [failuresInARow_append, if_neg (by rw [fails]; simp), if_pos recovers, after]
        rfl
    case isFalse fresh =>
      have after := (Option.some.inj left).symm
      have state : save.after.state = .observing := by rw [after]
      have seconds : save.after.healthySeconds = 0 := by rw [after]
      refine ⟨{
        earned := fun _ became => by rw [state] at became; cases became
        capped := by rw [gained]; exact Nat.zero_le _
        held := fun _ => ready
        refuted := fun mismatched => absurd mismatched unrefuted
        third := fun active => absurd active inactive
        reset := fun _ _ => seconds }, {
        observed := fun _ => ⟨earlier, save, [], rfl, fresh, state, valid,
          fun _ none_ => absurd none_ List.not_mem_nil, by rw [seconds]; exact Nat.zero_le _⟩
        counted := fun became => by rw [state] at became; cases became
        clean := fun became => by rw [state] at became; cases became }⟩

theorem keeps_demoted (unlooked : save.evidence.readiness = none)
    (unasked : save.evidence.validation = none) (after : save.after = demoted save.before now) :
    Proper earlier save ∧ Standing (earlier ++ [save]) save.after := by
  have state : save.after.state = .backfilling := by rw [after]; rfl
  have gained : save.gained = 0 := by rw [Save.gained, after]; exact Nat.zero_sub _
  have fails : save.fails = false := by rw [Save.fails, unlooked]
  refine ⟨{
    earned := fun _ became => by rw [state] at became; cases became
    capped := by rw [gained]; exact Nat.zero_le _
    held := fun some_ => absurd some_ (by omega)
    refuted := fun mismatched => absurd mismatched (not_mismatched_of_unasked unasked)
    third := fun _ failed => by rw [fails] at failed; cases failed
    reset := fun _ became => by rw [state] at became; cases became }, {
    observed := fun became => by rw [state] at became; cases became
    counted := fun became => by rw [state] at became; cases became
    clean := fun became => by rw [state] at became; cases became }⟩

/-- **Every change is proper, and the log stands afterwards.** -/
theorem keeps_change (standing : Standing earlier save.before) (change : Change save) :
    Proper earlier save ∧ Standing (earlier ++ [save]) save.after := by
  cases change with
  | unready unready unasked after => exact keeps_unready standing unready unasked after
  | due ready unasked state after => exact keeps_due standing ready unasked state after
  | @observed now ready unasked state after =>
    exact keeps_observed now standing ready unasked state (by rw [after]; exact state)
      (by rw [after])
  | @observedAll now ready unasked state after =>
    exact keeps_observed now standing ready unasked state (by rw [after]; exact state)
      (by rw [after])
  | healthy ready unasked state after => exact keeps_healthy ready unasked state after
  | refuted ready asked failed after => exact keeps_refuted standing ready asked failed after
  | passed ready asked held scope after => exact keeps_passed standing ready asked held scope after
  | demoted unlooked unasked after => exact keeps_demoted unlooked unasked after

end OneSave

/-! ### The log of a run -/

def onLayer (layer : RollupCutoverLayer) (log : List Save) : List Save :=
  log.filter fun save => save.layer = layer

theorem onLayer_append (layer : RollupCutoverLayer) (log : List Save) (save : Save) :
    onLayer layer (log ++ [save]) = onLayer layer log ++ if save.layer = layer then [save] else [] := by
  by_cases on : save.layer = layer <;> simp [onLayer, List.filter_append, on]

/-- The log of a layer is proper throughout, and stands by its record. -/
structure Kept (layer : RollupCutoverLayer) (log : List Save) (store : Store) : Prop where
  proper : ∀ earlier save later, onLayer layer log = earlier ++ save :: later → Proper earlier save
  standing : Standing (onLayer layer log) (store.get layer)

theorem Kept.saves {layer : RollupCutoverLayer} {store : Store} {saves log : List Save}
    (all : Saves store saves) (kept : Kept layer log store) :
    Kept layer (log ++ saves) (store.apply saves) := by
  induction all generalizing log with
  | nil =>
    rw [List.append_nil]
    exact kept
  | @cons store save rest current change _ ih =>
    have next : Kept layer (log ++ [save]) (store.save save) := by
      by_cases on : save.layer = layer
      · have extended : onLayer layer (log ++ [save]) = onLayer layer log ++ [save] := by
          rw [onLayer_append, if_pos on]
        have before : save.before = store.get layer := on ▸ current
        obtain ⟨proper, standing⟩ := keeps_change (before ▸ kept.standing) change
        refine ⟨fun earlier other later split => ?_, ?_⟩
        · rw [extended] at split
          obtain rfl | ⟨shorter, last, rfl⟩ := List.eq_nil_or_concat later
          · obtain ⟨rfl, same⟩ := List.append_inj' split rfl
            rw [← (List.cons.inj same).1]
            exact proper
          · have whole : onLayer layer log = earlier ++ other :: shorter := by
              rw [List.concat_eq_append, ← List.cons_append, ← List.append_assoc] at split
              exact (List.append_inj' split rfl).1
            exact kept.proper earlier other shorter whole
        · rw [extended, Store.get_save, if_pos on]
          exact standing
      · have same : onLayer layer (log ++ [save]) = onLayer layer log := by
          rw [onLayer_append, if_neg on, List.append_nil]
        refine ⟨by rw [same]; exact kept.proper, ?_⟩
        rw [same, Store.get_save, if_neg on]
        exact kept.standing
    rw [List.append_cons]
    exact ih next

theorem kept_start (layer : RollupCutoverLayer) : Kept layer start.log start.store where
  proper earlier save later split := by
    have whole : [] = earlier ++ save :: later := split
    simp at whole
  standing := by
    cases layer <;> exact ⟨nofun, nofun, nofun⟩

theorem kept_of_reachable {running : Running} (reached : Reachable next start running)
    (layer : RollupCutoverLayer) : Kept layer running.log running.store := by
  refine reached.invariant (fun running => Kept layer running.log running.store) (kept_start layer)
    fun before tick after kept moved => ?_
  cases moved
  exact kept.saves (saves_tick before.store tick)

/-! ### A tick's healthy seconds -/

def gainedOn (layer : RollupCutoverLayer) (saves : List Save) : Nat :=
  ((onLayer layer saves).map Save.gained).sum

theorem gainedOn_append (layer : RollupCutoverLayer) (first later : List Save) :
    gainedOn layer (first ++ later) = gainedOn layer first + gainedOn layer later := by
  rw [gainedOn, onLayer, List.filter_append, List.map_append, List.sum_append]
  rfl

theorem gainedOn_take (layer : RollupCutoverLayer) (saves : List Save) (count : Nat) :
    gainedOn layer (saves.take count) ≤ gainedOn layer saves := by
  conv_rhs => rw [← List.take_append_drop count saves, gainedOn_append]
  exact Nat.le_add_right _ _

theorem gained_le {save : Save} (change : Change save) :
    save.gained ≤ MAX_OBSERVATION_INCREMENT_SECONDS := by
  cases change with
  | unready _ _ after => rw [Save.gained, after]; exact (Nat.sub_self _).trans_le (Nat.zero_le _)
  | due _ _ _ after => rw [Save.gained, after]; exact (Nat.sub_self _).trans_le (Nat.zero_le _)
  | @observed now _ _ _ after =>
    have few := observedSeconds_le save.before now
    rw [Save.gained, after]
    dsimp only
    omega
  | @observedAll now _ _ _ after =>
    have few := observedSeconds_le save.before now
    rw [Save.gained, after]
    dsimp only
    omega
  | healthy _ _ _ after => rw [Save.gained, after]; exact (Nat.sub_self _).trans_le (Nat.zero_le _)
  | refuted _ _ _ after => rw [Save.gained, after]; exact (Nat.sub_self _).trans_le (Nat.zero_le _)
  | passed _ _ _ _ after =>
    exact (Nat.sub_eq_zero_of_le (validated_healthySeconds after)).trans_le (Nat.zero_le _)
  | demoted _ _ after => rw [Save.gained, after]; exact (Nat.zero_sub _).trans_le (Nat.zero_le _)

theorem gainedOn_looked {layer : RollupCutoverLayer} (other : RollupCutoverLayer) {record : RollupCutoverRecord}
    {result : ReconciledLayer} (looked : Looked layer record result) :
    gainedOn other result.saves
      ≤ if layer = other then MAX_OBSERVATION_INCREMENT_SECONDS else 0 := by
  cases looked with
  | kept => exact Nat.zero_le _
  | @saved save _ on _ change =>
    have few := gained_le change
    by_cases same : layer = other
    · simp [gainedOn, onLayer, on, same, few]
    · simp [gainedOn, onLayer, on, same]

theorem gainedOn_reconcile (dependencies : RollupCutoverDependencies) (store : Store) (now : Int)
    (layer : RollupCutoverLayer) :
    gainedOn layer (reconcileRollupCutoverWith dependencies store now).1
      ≤ MAX_OBSERVATION_INCREMENT_SECONDS := by
  have usage := gainedOn_looked layer (looked_reconcileLayer dependencies .usage15mV2
    store.usage now (dependencies.eligibleTarget now))
  have timezone := fun target => gainedOn_looked layer
    (looked_reconcileLayer dependencies .timezone store.timezone now target)
  have restart : gainedOn layer [{
      layer := .timezone, before := store.timezone, after := demoted store.timezone now
      evidence := { readiness := none, validation := none } }] = 0 := by
    cases layer <;> simp [gainedOn, onLayer, Save.gained, demoted]
  have alone : gainedOn layer (reconcileLayer dependencies .usage15mV2 store.usage now
      (dependencies.eligibleTarget now)).saves ≤ MAX_OBSERVATION_INCREMENT_SECONDS := by
    refine usage.trans ?_
    split <;> decide
  unfold reconcileRollupCutoverWith
  dsimp only
  split
  case h_1 => exact alone
  split
  case h_2.isTrue =>
    split
    case isTrue =>
      rw [gainedOn_append, restart]
      exact alone
    case isFalse => exact alone
  case h_2.isFalse =>
    rw [gainedOn_append]
    refine (Nat.add_le_add usage (timezone _)).trans ?_
    cases layer <;> decide

theorem gainedOn_execute (task : RollupValidationTask) (dependencies : RollupCutoverDependencies)
    (store : Store) (now : Int) (layer : RollupCutoverLayer) :
    gainedOn layer (executeRollupValidationWith task dependencies store now).2 = 0 := by
  obtain none_ | ⟨save, one, on, -, -, few⟩ := changes_execute task dependencies store now
  · rw [none_]
    rfl
  · have gained : save.gained = 0 := Nat.sub_eq_zero_of_le few
    rw [one]
    by_cases same : save.layer = layer <;> simp [gainedOn, onLayer, same, gained]

theorem gainedOn_tick (store : Store) (tick : Tick) (layer : RollupCutoverLayer) :
    gainedOn layer (tickSaves store tick) ≤ MAX_OBSERVATION_INCREMENT_SECONDS := by
  have whole : gainedOn layer (advanceRollupCutoverWith store tick)
      ≤ MAX_OBSERVATION_INCREMENT_SECONDS := by
    unfold advanceRollupCutoverWith
    dsimp only
    split
    case h_1 => exact gainedOn_reconcile tick.first store tick.now layer
    case h_2 =>
      rw [gainedOn_append, gainedOn_execute, Nat.add_zero]
      exact gainedOn_reconcile tick.first store tick.now layer
  rw [tickSaves]
  split
  case h_1 => exact whole
  case h_2 count _ => exact (gainedOn_take layer _ count).trans whole

def unavailable : RollupCutoverDependencies where
  eligibleTarget now := now
  readiness _ _ _ := .ok {
    ready := true, validationReady := some true, forceValidation := none, kind := none
    detail := none, activeTimezones := [] }
  validate _ _ _ _ := .ok { ok := false, kind := some .unavailable, detail := none }

def unavailableTick (now : Int) : Tick where
  first := unavailable
  now := now
  second := unavailable
  later := now
  stopped := none

def threeFailures : Running :=
  ((run next start [unavailableTick 0, unavailableTick 60000, unavailableTick 120000]).getD start)

theorem reachable_threeFailures : Reachable next start threeFailures :=
  Reachable.of_run [unavailableTick 0, unavailableTick 60000, unavailableTick 120000] rfl

end Toard.Rollup
