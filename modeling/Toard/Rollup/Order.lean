/-
**The time zones serve only while the usage does.**

The time zones' rollup is built from the usage's, and a tick sends it back when it finds the usage
not active. A tick that hands the usage to a validation ends without a look at the time zones; where
that validation takes the usage out of service, the time zones stay in it.

* **`timezone_behind_usage`**: every run whose whole ticks are such.
-/

import Toard.Rollup.Cutover

namespace Toard.Rollup

open Toard.Library (Reachable ReachableBy run)

def InOrder (store : Store) : Prop := store.timezone.state = .active → store.usage.state = .active

def usageTarget (dependencies : RollupCutoverDependencies) (store : Store) (now : Int) : Int :=
  if store.usage.state = .observing then
    store.usage.targetWatermark.getD (dependencies.eligibleTarget now)
  else dependencies.eligibleTarget now

def Due (readiness : RollupLayerReadiness) (record : RollupCutoverRecord) (now : Int) : Prop :=
  match record.state with
  | .backfilling | .fallback => True
  | .observing => REQUIRED_HEALTHY_SECONDS ≤ record.healthySeconds + elapsedHealthySeconds record now
  | .active => (readiness.forceValidation = some true ∨ recurringValidationDue record now = true) ∧
      readiness.validationReady ≠ some false

def HandsOver (dependencies : RollupCutoverDependencies) (store : Store) (now : Int) : Prop :=
  ∃ readiness, dependencies.readiness .usage15mV2 (usageTarget dependencies store now)
      store.usage.state = .ok readiness ∧ readiness.ready = true ∧
    validationRetryDue store.usage now = true ∧ Due readiness store.usage now

def NotThird (record : RollupCutoverRecord) : Prop :=
  record.consecutiveFailures + 1 < MAX_TRANSIENT_FAILURES

def StaysActive (target : Int) (second : RollupCutoverDependencies) (record : RollupCutoverRecord) :
    Prop :=
  match record.state with
  | .backfilling | .fallback => False
  | .observing =>
    ∃ readiness, second.readiness .usage15mV2 target .observing = .ok readiness ∧
      readiness.ready = true ∧
      ∃ result, second.validate .usage15mV2 target readiness.activeTimezones .initial = .ok result ∧
        result.ok = true
  | .active =>
    match second.readiness .usage15mV2 target .active with
    | .error _ => NotThird record
    | .ok readiness =>
      if readiness.ready = false then NotThird record
      else if readiness.validationReady = some false then True
      else match second.validate .usage15mV2 target readiness.activeTimezones .recurring with
        | .error _ => NotThird record
        | .ok result => result.ok = true ∨ result.kind ≠ some .mismatch ∧ NotThird record

/-- The tick does not take the usage out of service and leave the time zones in it. -/
def KeepsOrder (store : Store) (tick : Tick) : Prop :=
  store.timezone.state = .active → HandsOver tick.first store tick.now →
    StaysActive (usageTarget tick.first store tick.now) tick.second store.usage

/-! ### The look at the usage -/

/-- A look that ends in a validation leaves the state, the failures, and a complete observation. -/
structure Handed (dependencies : RollupCutoverDependencies) (store : Store) (now : Int)
    (result : ReconciledLayer) (task : RollupValidationTask) : Prop where
  due : result.validation = some task
  layer : task.layer = .usage15mV2
  target : task.target = usageTarget dependencies store now
  scope : task.scope = if store.usage.state = .active then .recurring else .initial
  state : result.record.state = store.usage.state
  failures : result.record.consecutiveFailures = store.usage.consecutiveFailures
  seconds : store.usage.state = .observing → REQUIRED_HEALTHY_SECONDS ≤ result.record.healthySeconds

theorem look_usage (dependencies : RollupCutoverDependencies) (store : Store) (now : Int) :
    (¬ HandsOver dependencies store now ∧ (reconcileLayer dependencies .usage15mV2 store.usage now
        (dependencies.eligibleTarget now)).validation = none) ∨
      (HandsOver dependencies store now ∧ ∃ task, Handed dependencies store now
        (reconcileLayer dependencies .usage15mV2 store.usage now (dependencies.eligibleTarget now))
        task) := by
  have target : (if store.usage.state = .observing then
      store.usage.targetWatermark.getD (dependencies.eligibleTarget now)
    else dependencies.eligibleTarget now) = usageTarget dependencies store now := rfl
  unfold reconcileLayer
  dsimp only
  rw [target]
  split
  case h_1 error asked =>
    refine .inl ⟨?_, rfl⟩
    rintro ⟨readiness, found, -⟩
    rw [asked] at found
    cases found
  case h_2 readiness asked =>
    have same : ∀ {other}, dependencies.readiness .usage15mV2 (usageTarget dependencies store now)
        store.usage.state = .ok other → readiness = other := fun found =>
      Except.ok.inj (asked.symm.trans found)
    by_cases held : readiness.ready = false
    · rw [if_pos held]
      refine .inl ⟨?_, rfl⟩
      rintro ⟨other, found, ready, -⟩
      rw [← same found, held] at ready
      cases ready
    rw [if_neg held]
    have ready : readiness.ready = true := Bool.not_eq_false _ ▸ held
    split
    case isTrue early =>
      refine .inl ⟨?_, rfl⟩
      rintro ⟨-, -, -, retry, -⟩
      rw [early] at retry
      cases retry
    case isFalse late =>
      have retry : validationRetryDue store.usage now = true := Bool.not_eq_false _ ▸ late
      have hands : Due readiness store.usage now → HandsOver dependencies store now :=
        fun due => ⟨readiness, asked, ready, retry, due⟩
      have holds : HandsOver dependencies store now → Due readiness store.usage now := by
        rintro ⟨other, found, -, -, due⟩
        rw [same found]
        exact due
      split
      case h_1 state =>
        refine .inr ⟨hands (by rw [Due, state]; trivial), _, rfl, rfl, rfl, ?_, rfl, rfl, ?_⟩
        · rw [state]; rfl
        · rw [state]; nofun
      case h_2 state =>
        refine .inr ⟨hands (by rw [Due, state]; trivial), _, rfl, rfl, rfl, ?_, rfl, rfl, ?_⟩
        · rw [state]; rfl
        · rw [state]; nofun
      case h_3 state =>
        have whole : observedSeconds store.usage now < REQUIRED_HEALTHY_SECONDS ↔
            ¬ Due readiness store.usage now := by
          rw [Due, state]
          dsimp only
          rw [observedSeconds]
          omega
        split
        case isTrue less => exact .inl ⟨fun handed => whole.mp less (holds handed), rfl⟩
        case isFalse enough =>
          refine .inr ⟨hands (not_not.mp (mt whole.mpr enough)), _, rfl, rfl, rfl, ?_, rfl, rfl,
            fun _ => Nat.not_lt.mp enough⟩
          rw [state]
          rfl
      case h_4 state =>
        have needs : Due readiness store.usage now ↔ (readiness.forceValidation = some true ∨
            recurringValidationDue store.usage now = true) ∧ readiness.validationReady ≠ some false := by
          rw [Due, state]
        split
        case isTrue quiet =>
          refine .inl ⟨fun handed => ?_, rfl⟩
          obtain ⟨forced | recurring, -⟩ := needs.mp (holds handed)
          · exact quiet.1 forced
          · rw [quiet.2] at recurring
            cases recurring
        case isFalse some_ =>
          split
          case isTrue postponed =>
            exact .inl ⟨fun handed => (needs.mp (holds handed)).2 postponed, rfl⟩
          case isFalse ready_ =>
            have due : Due readiness store.usage now := by
              refine needs.mpr ⟨?_, ready_⟩
              by_contra neither
              rw [not_or] at neither
              exact some_ ⟨neither.1, Bool.not_eq_true _ ▸ neither.2⟩
            refine .inr ⟨hands due, _, rfl, rfl, rfl, ?_, rfl, rfl, ?_⟩
            · rw [state]; rfl
            · rw [state]; nofun

/-! ### The validation of the usage -/

theorem recordUnhealthy_active_iff (record : RollupCutoverRecord) (now : Int) (kind : UnhealthyKind)
    (detail : Option String) : (recordUnhealthy record now kind detail).state = .active
      ↔ record.state = .active ∧ NotThird record := by
  rw [recordUnhealthy, NotThird]
  dsimp only
  by_cases active : record.state = .active
  · rw [if_pos active]
    by_cases third : MAX_TRANSIENT_FAILURES ≤ record.consecutiveFailures + 1
    · rw [if_pos ⟨active, third⟩]
      exact ⟨nofun, fun both => absurd third (Nat.not_le.mpr both.2)⟩
    · rw [if_neg fun both => third both.2]
      exact ⟨fun _ => ⟨active, Nat.not_le.mp third⟩, fun both => both.1⟩
  · rw [if_neg active, if_neg fun both => active both.1]
    exact ⟨fun became => absurd became active, fun both => absurd both.1 active⟩

theorem recordValidationFailure_active_iff (record : RollupCutoverRecord) (now : Int)
    (result : RollupValidationResult) : (recordValidationFailure record now result).state = .active
      ↔ record.state = .active ∧ result.kind ≠ some .mismatch ∧ NotThird record := by
  have kind : result.kind.getD .unavailable = .mismatch ↔ result.kind = some .mismatch := by
    cases result.kind with
    | none => exact ⟨nofun, nofun⟩
    | some kind => exact ⟨fun same => congrArg some same, fun same => Option.some.inj same⟩
  rw [recordValidationFailure, NotThird]
  simp only [kind]
  by_cases mismatch : result.kind = some .mismatch
  · rw [if_pos (.inl mismatch)]
    exact ⟨nofun, fun all => absurd mismatch all.2.1⟩
  by_cases third : record.state = .active ∧ MAX_TRANSIENT_FAILURES ≤ record.consecutiveFailures + 1
  · rw [if_pos (.inr third)]
    exact ⟨nofun, fun all => absurd third.2 (Nat.not_le.mpr all.2.2)⟩
  · rw [if_neg (not_or.mpr ⟨mismatch, third⟩)]
    exact ⟨fun active => ⟨active, mismatch, Nat.not_le.mp fun more => third ⟨active, more⟩⟩,
      fun all => all.1⟩

section Execute

variable {store : Store} {target later : Int} {timezones : List String}
  (second : RollupCutoverDependencies)

def executed (store : Store) (target : Int) (scope : ValidationScope) (timezones : List String)
    (second : RollupCutoverDependencies) (later : Int) : RollupCutoverRecord :=
  (store.apply (executeRollupValidationWith
    { layer := .usage15mV2, target, scope, activeTimezones := timezones } second store later).2).usage

theorem executed_early (state : store.usage.state = .backfilling ∨ store.usage.state = .fallback) :
    (executed store target .initial timezones second later).state ≠ .active := by
  have inactive : store.usage.state ≠ .active := by
    obtain state | state := state <;> rw [state] <;> decide
  have unobserved : store.usage.state ≠ .observing := by
    obtain state | state := state <;> rw [state] <;> decide
  unfold executed executeRollupValidationWith
  dsimp only [Store.get]
  rw [if_neg (by simp [inactive])]
  split
  case h_1 error _ =>
    exact fun became => inactive ((recordUnhealthy_active_iff _ _ _ _).mp became).1
  case h_2 readiness _ =>
    by_cases held : readiness.ready = false
    · rw [if_pos held]
      exact fun became => inactive ((recordUnhealthy_active_iff _ _ _ _).mp became).1
    rw [if_neg held, if_neg (by simp)]
    split
    case isTrue =>
      exact fun became => inactive ((recordValidationFailure_active_iff _ _ _).mp became).1
    case isFalse =>
      rw [validated, if_neg (by simp), if_neg unobserved]
      exact nofun

theorem executed_observing (state : store.usage.state = .observing)
    (seconds : REQUIRED_HEALTHY_SECONDS ≤ store.usage.healthySeconds) :
    (executed store target .initial timezones second later).state = .active
      ↔ StaysActive target second store.usage := by
  have inactive : store.usage.state ≠ .active := by rw [state]; decide
  rw [StaysActive, state]
  dsimp only
  unfold executed executeRollupValidationWith
  dsimp only [Store.get]
  rw [if_neg (by simp [inactive]), state]
  split
  case h_1 error asked =>
    rw [asked]
    refine ⟨fun became => absurd ((recordUnhealthy_active_iff _ _ _ _).mp became).1 inactive, ?_⟩
    rintro ⟨readiness, found, -⟩
    cases found
  case h_2 readiness asked =>
    rw [asked]
    by_cases held : readiness.ready = false
    · rw [if_pos held]
      refine ⟨fun became => absurd ((recordUnhealthy_active_iff _ _ _ _).mp became).1 inactive, ?_⟩
      rintro ⟨other, found, ready, -⟩
      rw [← Except.ok.inj found, held] at ready
      cases ready
    rw [if_neg held, if_neg (by simp)]
    have ready : readiness.ready = true := Bool.not_eq_false _ ▸ held
    rw [runValidation]
    dsimp only
    cases found : second.validate .usage15mV2 target readiness.activeTimezones .initial with
    | error error =>
      dsimp only
      rw [if_pos rfl]
      refine ⟨fun became =>
        absurd ((recordValidationFailure_active_iff _ _ _).mp became).1 inactive, ?_⟩
      rintro ⟨other, same, -, result, none_, -⟩
      rw [← Except.ok.inj same, found] at none_
      cases none_
    | ok result =>
      dsimp only
      by_cases failed : result.ok = false
      · rw [if_pos failed]
        refine ⟨fun became =>
          absurd ((recordValidationFailure_active_iff _ _ _).mp became).1 inactive, ?_⟩
        rintro ⟨other, same, -, result', some_, held'⟩
        rw [← Except.ok.inj same, found] at some_
        rw [← Except.ok.inj some_, failed] at held'
        cases held'
      · rw [if_neg failed, validated, if_neg (by simp), if_pos state,
          if_neg (Nat.not_lt.mpr seconds)]
        exact ⟨fun _ => ⟨readiness, rfl, ready, result, found, Bool.not_eq_false _ ▸ failed⟩,
          fun _ => rfl⟩

theorem executed_active (state : store.usage.state = .active) :
    (executed store target .recurring timezones second later).state = .active
      ↔ StaysActive target second store.usage := by
  have unhealthy : ∀ kind detail, (recordUnhealthy store.usage later kind detail).state = .active
      ↔ NotThird store.usage := fun kind detail =>
    (recordUnhealthy_active_iff _ _ _ _).trans ⟨fun both => both.2, fun few => ⟨state, few⟩⟩
  have failed : ∀ result, (recordValidationFailure store.usage later result).state = .active
      ↔ result.kind ≠ some .mismatch ∧ NotThird store.usage := fun result =>
    (recordValidationFailure_active_iff _ _ _).trans ⟨fun all => all.2, fun few => ⟨state, few⟩⟩
  rw [StaysActive, state]
  dsimp only
  unfold executed executeRollupValidationWith
  dsimp only [Store.get]
  rw [if_neg (by simp [state]), state]
  cases asked : second.readiness .usage15mV2 target .active with
  | error error => exact unhealthy _ _
  | ok readiness =>
    dsimp only
    by_cases held : readiness.ready = false
    · rw [if_pos held, if_pos held]
      exact unhealthy _ _
    rw [if_neg held, if_neg held]
    by_cases postponed : readiness.validationReady = some false
    · rw [if_pos ⟨rfl, postponed⟩, if_pos postponed]
      exact ⟨fun _ => trivial, fun _ => state⟩
    rw [if_neg fun both => postponed both.2, if_neg postponed, runValidation]
    dsimp only
    cases found : second.validate .usage15mV2 target readiness.activeTimezones .recurring with
    | error error =>
      dsimp only
      rw [if_pos rfl]
      exact (failed _).trans ⟨fun both => both.2, fun few => ⟨by simp, few⟩⟩
    | ok result =>
      dsimp only
      by_cases refuted : result.ok = false
      · rw [if_pos refuted]
        exact (failed _).trans ⟨fun both => .inr both, fun either => either.resolve_left (by
          rw [refuted]; decide)⟩
      · rw [if_neg refuted, validated, if_pos rfl]
        exact ⟨fun _ => .inl (Bool.not_eq_false _ ▸ refuted), fun _ => state⟩

end Execute

/-! ### A whole tick -/

theorem staysActive_congr {target : Int} {second : RollupCutoverDependencies}
    {record other : RollupCutoverRecord} (state : record.state = other.state)
    (failures : record.consecutiveFailures = other.consecutiveFailures) :
    StaysActive target second record ↔ StaysActive target second other := by
  unfold StaysActive NotThird
  rw [state, failures]

theorem get_apply_execute (task : RollupValidationTask) (layer : RollupCutoverLayer)
    (other : task.layer ≠ layer) (dependencies : RollupCutoverDependencies) (store : Store)
    (now : Int) :
    (store.apply (executeRollupValidationWith task dependencies store now).2).get layer
      = store.get layer := by
  obtain none_ | ⟨save, one, on, -⟩ := changes_execute task dependencies store now
  · rw [none_]
    rfl
  · rw [one]
    have kept := store.get_save save layer
    rw [if_neg (by rw [on]; exact other)] at kept
    exact kept

theorem inOrder_of_not_handsOver {store : Store} {tick : Tick}
    (none_ : (reconcileLayer tick.first .usage15mV2 store.usage tick.now
      (tick.first.eligibleTarget tick.now)).validation = none) :
    InOrder (store.apply (advanceRollupCutoverWith store tick)) := by
  have usage := looked_reconcileLayer tick.first .usage15mV2 store.usage tick.now
    (tick.first.eligibleTarget tick.now)
  have untouched := get_apply_looked store .usage15mV2 .timezone usage
  have looked := get_apply_looked store .usage15mV2 .usage15mV2 usage
  rw [if_neg (by decide)] at untouched
  rw [if_pos rfl] at looked
  unfold advanceRollupCutoverWith reconcileRollupCutoverWith
  dsimp only
  rw [none_]
  dsimp only
  generalize reconcileLayer tick.first .usage15mV2 store.usage tick.now
    (tick.first.eligibleTarget tick.now) = first at untouched looked ⊢
  by_cases active : first.record.state = .active
  · rw [if_neg (not_not.mpr active)]
    dsimp only
    have timezone := fun target => looked_reconcileLayer tick.first .timezone store.timezone tick.now
      target
    generalize (if store.timezone.state = .active ∨ store.timezone.activatedAt.isSome = true then
        tick.first.eligibleTarget tick.now
      else first.record.targetWatermark.getD (tick.first.eligibleTarget tick.now)) = target
    have second := timezone target
    generalize reconcileLayer tick.first .timezone store.timezone tick.now target = result at second
    -- whatever is saved of the time zones, the usage is as it was looked at
    have kept : ((store.apply (first.saves ++ result.saves)).get .usage15mV2) = first.record := by
      rw [Store.apply_append, get_apply_looked _ .timezone _ (untouched.symm ▸ second),
        if_neg (by decide), looked]
    cases second with
    | kept =>
      intro _
      exact (congrArg RollupCutoverRecord.state kept).trans active
    | @saved save validation on current change unasked scope =>
      cases validation with
      | none =>
        intro _
        exact (congrArg RollupCutoverRecord.state kept).trans active
      | some task =>
        intro _
        dsimp only at kept ⊢
        rw [Store.apply_append]
        have other : task.layer ≠ .usage15mV2 := by rw [scope task rfl]; decide
        have left := get_apply_execute task .usage15mV2 other tick.second (store.apply (first.saves ++ [save]))
          tick.later
        exact (congrArg RollupCutoverRecord.state (left.trans kept)).trans active
  · rw [if_pos active]
    split
    case h_1 found =>
      split
      case isTrue =>
        rw [Store.apply_append]
        intro became
        cases became
      case isFalse kept =>
        intro became
        have state : store.timezone.state = .backfilling := by
          by_contra other
          exact kept (.inl other)
        have became : ((store.apply first.saves).get .timezone).state = .active := became
        rw [untouched] at became
        exact absurd (state.symm.trans became) (by decide)
    case h_2 task found =>
      split at found <;> cases found

theorem inOrder_iff_of_handsOver {store : Store} {tick : Tick} {task : RollupValidationTask}
    (handed : Handed tick.first store tick.now (reconcileLayer tick.first .usage15mV2 store.usage
      tick.now (tick.first.eligibleTarget tick.now)) task) :
    InOrder (store.apply (advanceRollupCutoverWith store tick))
      ↔ (store.timezone.state = .active →
        StaysActive (usageTarget tick.first store tick.now) tick.second store.usage) := by
  have usage := looked_reconcileLayer tick.first .usage15mV2 store.usage tick.now
    (tick.first.eligibleTarget tick.now)
  have untouched := get_apply_looked store .usage15mV2 .timezone usage
  have looked := get_apply_looked store .usage15mV2 .usage15mV2 usage
  rw [if_neg (by decide)] at untouched
  rw [if_pos rfl] at looked
  unfold advanceRollupCutoverWith reconcileRollupCutoverWith
  dsimp only
  generalize reconcileLayer tick.first .usage15mV2 store.usage tick.now
    (tick.first.eligibleTarget tick.now) = first at untouched looked handed ⊢
  rw [handed.due]
  dsimp only
  rw [Store.apply_append]
  obtain ⟨layer, target, scope, timezones⟩ := task
  obtain rfl : layer = .usage15mV2 := handed.layer
  obtain rfl : target = usageTarget tick.first store tick.now := handed.target
  obtain rfl : scope = _ := handed.scope
  have left := get_apply_execute {
      layer := .usage15mV2, target := usageTarget tick.first store tick.now
      scope := if store.usage.state = .active then .recurring else .initial
      activeTimezones := timezones } .timezone nofun tick.second
    (store.apply first.saves) tick.later
  have record : (store.apply first.saves).usage = first.record := looked
  have state : (store.apply first.saves).usage.state = store.usage.state := by
    rw [record, handed.state]
  have stays : StaysActive (usageTarget tick.first store tick.now) tick.second
      (store.apply first.saves).usage
      ↔ StaysActive (usageTarget tick.first store tick.now) tick.second store.usage :=
    staysActive_congr state (by rw [record, handed.failures])
  have after : (executed (store.apply first.saves) (usageTarget tick.first store tick.now)
      (if store.usage.state = .active then .recurring else .initial) timezones tick.second
      tick.later).state = .active
      ↔ StaysActive (usageTarget tick.first store tick.now) tick.second store.usage := by
    rw [← stays]
    cases known : store.usage.state with
    | active =>
      rw [if_pos rfl]
      exact executed_active tick.second (state.trans known)
    | observing =>
      rw [if_neg (by decide)]
      exact executed_observing tick.second (state.trans known) (by
        rw [record]
        exact handed.seconds known)
    | backfilling =>
      rw [if_neg (by decide), StaysActive, state, known]
      exact ⟨fun became => absurd became (executed_early tick.second (.inl (state.trans known))),
        False.elim⟩
    | fallback =>
      rw [if_neg (by decide), StaysActive, state, known]
      exact ⟨fun became => absurd became (executed_early tick.second (.inr (state.trans known))),
        False.elim⟩
  have timezone : ((store.apply first.saves).apply (executeRollupValidationWith {
      layer := .usage15mV2, target := usageTarget tick.first store tick.now
      scope := if store.usage.state = .active then .recurring else .initial
      activeTimezones := timezones } tick.second (store.apply first.saves) tick.later).2).timezone.state
      = store.timezone.state := congrArg RollupCutoverRecord.state (left.trans untouched)
  rw [InOrder, timezone]
  exact imp_congr_right fun _ => after

/-- **A whole tick leaves the two in order if and only if it keeps to the condition.** -/
theorem inOrder_tick_iff {store : Store} {tick : Tick} (whole : tick.stopped = none) :
    InOrder (store.apply (tickSaves store tick)) ↔ KeepsOrder store tick := by
  rw [tickSaves, whole]
  dsimp only
  obtain ⟨stays, none_⟩ | ⟨hands, task, handed⟩ := look_usage tick.first store tick.now
  · exact ⟨fun _ _ hands => absurd hands stays, fun _ => inOrder_of_not_handsOver none_⟩
  · rw [inOrder_iff_of_handsOver handed]
    exact ⟨fun stays active _ => stays active, fun keeps active => keeps active hands⟩

def KeepsWholeOrder (running : Running) (tick : Tick) : Prop :=
  tick.stopped = none → KeepsOrder running.store tick

/-- After every whole tick of a run whose whole ticks keep to the condition, the time zones are active
only while the usage is; and a whole tick that does not leaves them active without the usage. -/
theorem timezone_behind_usage (running : Running) :
    (ReachableBy next KeepsWholeOrder start running → running.completed = true →
      InOrder running.store) ∧
      ∀ tick after, Reachable next start running → tick.stopped = none →
        ¬ KeepsOrder running.store tick → next running tick = some after → ¬ InOrder after.store := by
  refine ⟨fun reached => ?_, fun tick after _ whole breaks moved => ?_⟩
  · refine reached.invariant (fun running => running.completed = true → InOrder running.store)
      (fun completed => absurd completed (by decide)) fun before tick after _ keeps moved completed => ?_
    cases moved
    have whole : tick.stopped = none := Option.isNone_iff_eq_none.mp completed
    exact (inOrder_tick_iff whole).mpr (keeps whole)
  · cases moved
    exact mt (inOrder_tick_iff whole).mp breaks

def answering (result : RollupValidationResult) : RollupCutoverDependencies where
  eligibleTarget now := now
  readiness _ _ _ := .ok {
    ready := true, validationReady := some true, forceValidation := none, kind := none
    detail := none, activeTimezones := [] }
  validate _ _ _ _ := .ok result

def wholeTick (result : RollupValidationResult) (now : Int) : Tick where
  first := answering result
  now := now
  second := answering result
  later := now
  stopped := none

def matching : RollupValidationResult := { ok := true, kind := none, detail := none }

def differing : RollupValidationResult := { ok := false, kind := some .mismatch, detail := none }

theorem timezone_behind_usage_first :
    ∃ running, next start (wholeTick matching 0) = some running ∧ InOrder running.store := by
  have reached : ReachableBy next KeepsWholeOrder start _ :=
    .step (wholeTick matching 0) .start (fun _ active => absurd active (by decide)) rfl
  exact ⟨_, rfl, (timezone_behind_usage _).1 reached rfl⟩

/-- Both layers come to be active in two hours; six hours later the usage's data differ. -/
def mismatchRun : List Tick :=
  ((List.range 125).map fun minute => wholeTick matching (minute * 60000)) ++
    [wholeTick differing (8 * 60 * 60 * 1000)]

set_option maxRecDepth 8000 in
/-- The time zones stay active when a validation takes the usage out of service. -/
theorem not_timezone_behind_usage :
    (run next start mismatchRun).map (fun running =>
      (running.completed, running.store.timezone.state, running.store.usage.state))
        = some (true, .active, .fallback) := by
  decide

end Toard.Rollup
