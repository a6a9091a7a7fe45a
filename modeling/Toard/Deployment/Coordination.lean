/-
**Coordinator ticks among the changes of administrators.**

A tick of the coordinator reads the open rollouts once and writes its decisions one after the other,
each with an update that looks at the phase of the row and at nothing else. Between the reading and a
write a leader may set a new target, and another tick may write: a process that holds the lease may
begin a second tick before its first has ended.

* **`promoted_after_stages`**: in every run whose steps are careful, whatever is active or last known
  good has passed its stages.
* **`reachable_tick`**: a tick that nothing interrupts is such a run.
-/

import Toard.Library.Transition
import Toard.Deployment.Policy

namespace Toard.Deployment

open Toard.Library

/-- One rollout as a tick has listed it, in the setting of its target that counts so many before. -/
structure Observation where
  key : PolicyKey
  setting : Nat
  row : PolicyRow
  counters : RolloutEvaluation
  seenAt : Int
deriving DecidableEq

structure Tick where
  now : Int
  remaining : List Observation
deriving DecidableEq

structure CoordinationState where
  policies : PolicyTable
  ticks : List Tick
  settings : PolicyKey → Nat
  observed : List Observation
  approvals : List (PolicyKey × Nat × Int)

namespace CoordinationState

def initial : CoordinationState where
  policies := .empty
  ticks := []
  settings := fun _ => 0
  observed := []
  approvals := []

def listings (state : CoordinationState) (fleet : Fleet) (now : Int) : List Observation :=
  (listOpenRollouts state.policies fleet).filterMap fun rollout =>
    (state.policies.get rollout.1).map fun row =>
      { key := rollout.1, setting := state.settings rollout.1, row, counters := rollout.2,
        seenAt := now }

end CoordinationState

inductive CoordinationAction where
  /-- A leader's change, which goes to preflight, or is paused if it needs approval. -/
  | save (key : PolicyKey) (versionId : String) (approvalRequired : Bool) (seed : String) (now : Int)
  | approve (actor : SessionUser) (catalogItemId : String) (now : Int)
  | list (fleet : Fleet) (now : Int)
  /-- The tick of that number handles its next rollout. -/
  | write (tick : Nat)
  /-- The tick of that number ends, or its process does. -/
  | stop (tick : Nat)

open CoordinationState in
def coordinationNext (state : CoordinationState) : CoordinationAction → Option CoordinationState
  | .save key versionId approvalRequired seed now =>
    some { state with
      policies := saveTeamPolicy state.policies key.1 key.2 versionId
        (if approvalRequired then .paused else .preflight) 0 seed now
      settings := Function.update state.settings key (state.settings key + 1) }
  | .approve actor catalogItemId now =>
    let policies := approveTeamRollout actor catalogItemId now state.policies
    some { state with
      policies
      approvals := if policies = state.policies then state.approvals else
        match actor.teamId with
        | none => state.approvals
        | some teamId => state.approvals ++
            [((teamId, catalogItemId), state.settings (teamId, catalogItemId), now)] }
  | .list fleet now =>
    some { state with
      ticks := state.ticks ++ [{ now, remaining := state.listings fleet now }]
      observed := state.observed ++ state.listings fleet now }
  | .write number =>
    match state.ticks[number]? with
    | some { now, remaining := rollout :: remaining } =>
      some { state with
        policies := coordinate state.policies (rollout.key, rollout.counters) now
        ticks := state.ticks.set number { now, remaining } }
    | _ => none
  | .stop number => some { state with ticks := state.ticks.eraseIdx number }

/-! ### What a promotion needs -/

namespace Observation

def IsOf (seen : Observation) (key : PolicyKey) (setting : Nat) (version : String) : Prop :=
  seen.key = key ∧ seen.setting = setting ∧ seen.row.targetVersionId = version

/-- A phase that lasted so long, with so many attempts, and did not reach the threshold. -/
def Passes (seen : Observation) (phase : ToolRolloutPhase) (minutes : Int) (target : Nat → Nat) :
    Prop :=
  seen.counters.phase = phase ∧ minutes * 60000 ≤ seen.seenAt - seen.counters.phaseStartedAt ∧
    target seen.counters.eligible ≤ seen.counters.attempted ∧
    reachesFailureThreshold seen.counters.failed seen.counters.attempted = false

end Observation

section Stages

variable (observed : List Observation) (approvals : List (PolicyKey × Nat × Int)) (key : PolicyKey)
  (setting : Nat) (version : String)

/-- The canary of the rollout began then: a tick found it in preflight, or a leader approved it. -/
def CanaryBegan (time : Int) : Prop :=
  (∃ seen ∈ observed, seen.IsOf key setting version ∧ seen.counters.phase = .preflight ∧
    seen.seenAt = time) ∨ (key, setting, time) ∈ approvals

def CanaryPassed (time : Int) : Prop :=
  ∃ seen ∈ observed, seen.IsOf key setting version ∧ seen.Passes .canary 30 canaryTarget ∧
    CanaryBegan observed approvals key setting version seen.counters.phaseStartedAt ∧
    seen.seenAt = time

/-- The expand phase began when the canary was passed, and was passed too. -/
def PassedStages : Prop :=
  ∃ seen ∈ observed, seen.IsOf key setting version ∧ seen.Passes .expand 60 expandTarget ∧
    CanaryPassed observed approvals key setting version seen.counters.phaseStartedAt

end Stages

def landsAsListed (state : CoordinationState) (rollout : Observation) : Bool :=
  state.policies.get rollout.key == some rollout.row &&
    state.settings rollout.key == rollout.setting

/-- A decision to move a rollout on is written while the row is the one listed. -/
def Careful (state : CoordinationState) (action : CoordinationAction) : Prop :=
  (match action with
    | .write number =>
      match state.ticks[number]? with
      | some { now, remaining := rollout :: _ } =>
        (movesTo rollout.counters now).isNone || landsAsListed state rollout
      | _ => true
    | _ => true) = true

instance (state : CoordinationState) (action : CoordinationAction) :
    Decidable (Careful state action) :=
  inferInstanceAs (Decidable (_ = true))

/-! ### The invariant -/

structure RowSound (observed : List Observation) (approvals : List (PolicyKey × Nat × Int))
    (key : PolicyKey) (setting : Nat) (row : PolicyRow) : Prop where
  canary : row.rolloutPhase = .canary →
    CanaryBegan observed approvals key setting row.targetVersionId row.phaseStartedAt
  expand : row.rolloutPhase = .expand →
    CanaryPassed observed approvals key setting row.targetVersionId row.phaseStartedAt
  active : row.rolloutPhase = .active → row.rolloutPercent = 100 ∧
    row.lastKnownGoodVersionId = some row.targetVersionId ∧
    PassedStages observed approvals key setting row.targetVersionId
  good : ∀ version, row.lastKnownGoodVersionId = some version →
    ∃ setting, PassedStages observed approvals key setting version

structure Sound (state : CoordinationState) : Prop where
  rows : ∀ key row, state.policies.get key = some row →
    RowSound state.observed state.approvals key (state.settings key) row
  ticks : ∀ tick ∈ state.ticks, ∀ seen ∈ tick.remaining,
    seen ∈ state.observed ∧ seen.seenAt = tick.now ∧
      seen.counters.phase = seen.row.rolloutPhase ∧
      seen.counters.phaseStartedAt = seen.row.phaseStartedAt

section Log

variable {observed more : List Observation} {approvals agreed : List (PolicyKey × Nat × Int)}
  {key : PolicyKey} {setting : Nat} {version : String} {time : Int} {row : PolicyRow}

theorem CanaryBegan.mono (began : CanaryBegan observed approvals key setting version time)
    (seen : observed ⊆ more) (approved : approvals ⊆ agreed) :
    CanaryBegan more agreed key setting version time := by
  rcases began with ⟨tick, among, facts⟩ | among
  · exact .inl ⟨tick, seen among, facts⟩
  · exact .inr (approved among)

theorem CanaryPassed.mono (passed : CanaryPassed observed approvals key setting version time)
    (seen : observed ⊆ more) (approved : approvals ⊆ agreed) :
    CanaryPassed more agreed key setting version time := by
  obtain ⟨tick, among, isOf, passes, began, time⟩ := passed
  exact ⟨tick, seen among, isOf, passes, began.mono seen approved, time⟩

theorem PassedStages.mono (passed : PassedStages observed approvals key setting version)
    (seen : observed ⊆ more) (approved : approvals ⊆ agreed) :
    PassedStages more agreed key setting version := by
  obtain ⟨tick, among, isOf, passes, canary⟩ := passed
  exact ⟨tick, seen among, isOf, passes, canary.mono seen approved⟩

theorem RowSound.mono (sound : RowSound observed approvals key setting row)
    (seen : observed ⊆ more) (approved : approvals ⊆ agreed) :
    RowSound more agreed key setting row where
  canary phase := (sound.canary phase).mono seen approved
  expand phase := (sound.expand phase).mono seen approved
  active phase := by
    obtain ⟨percent, good, passed⟩ := sound.active phase
    exact ⟨percent, good, passed.mono seen approved⟩
  good version known := by
    obtain ⟨setting, passed⟩ := sound.good version known
    exact ⟨setting, passed.mono seen approved⟩

end Log

/-! ### One step -/

section Step

variable {observed : List Observation} {approvals : List (PolicyKey × Nat × Int)} {key : PolicyKey}
  {setting : Nat} {row : PolicyRow} {state : CoordinationState}

theorem RowSound.of_closed (closed : row.rolloutPhase ≠ .canary ∧ row.rolloutPhase ≠ .expand ∧
      row.rolloutPhase ≠ .active)
    (good : ∀ version, row.lastKnownGoodVersionId = some version →
      ∃ setting, PassedStages observed approvals key setting version) :
    RowSound observed approvals key setting row :=
  ⟨fun phase => absurd phase closed.1, fun phase => absurd phase closed.2.1,
    fun phase => absurd phase closed.2.2, good⟩

/-- **A decision on the row as listed keeps the row sound.** -/
theorem RowSound.advanced (sound : RowSound observed approvals key setting row) {seen : Observation}
    {now : Int} (among : seen ∈ observed) (isOf : seen.key = key ∧ seen.setting = setting)
    (listed : seen.row = row) (time : seen.seenAt = now)
    (phase : seen.counters.phase = row.rolloutPhase)
    (started : seen.counters.phaseStartedAt = row.phaseStartedAt)
    {nextPhase : ToolRolloutPhase} {percent : Nat}
    (moves : movesTo seen.counters now = some (nextPhase, percent)) :
    RowSound observed approvals key setting (row.advanced nextPhase percent now) := by
  have version : seen.IsOf key setting row.targetVersionId := ⟨isOf.1, isOf.2, by rw [listed]⟩
  unfold movesTo at moves
  split at moves
  case isTrue preflight =>
    cases moves
    exact ⟨fun _ => .inl ⟨seen, among, version, preflight, time⟩, nofun, nofun, sound.good⟩
  case isFalse =>
    split at moves
    case h_2 => cases moves
    case h_1 decided =>
      cases moves
      obtain ⟨below, ⟨canary, elapsed, enough, rfl, rfl⟩ | ⟨expand, elapsed, enough, rfl, rfl⟩⟩ :=
        evaluateRollout_advance decided
      · have began := sound.canary (phase.symm.trans canary)
        rw [← started] at began
        exact ⟨nofun, fun _ => ⟨seen, among, version, ⟨canary, time ▸ elapsed, enough, below⟩,
          began, time⟩, nofun, sound.good⟩
      · have passed := sound.expand (phase.symm.trans expand)
        rw [← started] at passed
        have stages : PassedStages observed approvals key setting row.targetVersionId :=
          ⟨seen, among, version, ⟨expand, time ▸ elapsed, enough, below⟩, passed⟩
        refine ⟨nofun, nofun, fun _ => ⟨rfl, rfl, stages⟩, ?_⟩
        rintro version ⟨⟩
        exact ⟨setting, stages⟩

theorem RowSound.rolledBack (sound : RowSound observed approvals key setting row) (now : Int) :
    RowSound observed approvals key setting (row.rolledBack now) := by
  refine .of_closed ?_ sound.good
  unfold PolicyRow.rolledBack
  cases row.lastKnownGoodVersionId <;> simp

theorem mem_listings {fleet : Fleet} {now : Int} {seen : Observation}
    (among : seen ∈ state.listings fleet now) :
    seen.seenAt = now ∧ seen.counters.phase = seen.row.rolloutPhase ∧
      seen.counters.phaseStartedAt = seen.row.phaseStartedAt := by
  obtain ⟨rollout, listed, made⟩ := List.mem_filterMap.mp among
  obtain ⟨row, found, rfl⟩ := Option.map_eq_some_iff.mp made
  obtain ⟨entry, stored, rfl⟩ := List.mem_map.mp listed
  have same : entry.2 = row := by
    have read := OrderedMap.get_eq_some.mpr (List.mem_filter.mp stored).1
    exact Option.some_inj.mp (read.symm.trans found)
  exact ⟨rfl, congrArg PolicyRow.rolloutPhase same, congrArg PolicyRow.phaseStartedAt same⟩

theorem sound_initial : Sound .initial :=
  ⟨fun _ _ found => (nomatch found), fun _ among => absurd among List.not_mem_nil⟩

theorem Sound.coordinate (sound : Sound state) {now : Int} {seen : Observation}
    (among : seen ∈ state.observed) (time : seen.seenAt = now)
    (phase : seen.counters.phase = seen.row.rolloutPhase)
    (started : seen.counters.phaseStartedAt = seen.row.phaseStartedAt)
    (careful : (movesTo seen.counters now).isSome = true →
      state.policies.get seen.key = some seen.row ∧ state.settings seen.key = seen.setting) :
    ∀ key row, (coordinate state.policies (seen.key, seen.counters) now).get key = some row →
      RowSound state.observed state.approvals key (state.settings key) row := by
  refine forall_coordinate sound.rows (fun nextPhase percent moves row found _ => ?_)
    fun row found => (sound.rows _ row found).rolledBack now
  obtain ⟨listed, setting⟩ := careful (by rw [moves]; rfl)
  obtain rfl := Option.some_inj.mp (found.symm.trans listed)
  exact (sound.rows _ _ found).advanced among ⟨rfl, setting.symm⟩ rfl time phase started moves

theorem Sound.step (sound : Sound state) {action : CoordinationAction} (careful : Careful state action)
    {after : CoordinationState} (moved : coordinationNext state action = some after) :
    Sound after := by
  cases action with
  | save key versionId approvalRequired seed now =>
    cases moved
    refine ⟨fun other row found => ?_, sound.ticks⟩
    dsimp only at found ⊢
    rw [saveTeamPolicy, OrderedMap.get_set] at found
    split at found
    case isFalse differs =>
      rw [Function.update_of_ne differs]
      exact sound.rows other row found
    case isTrue here =>
      cases found
      refine .of_closed ?_ fun version known => ?_
      · cases approvalRequired <;> simp
      · obtain ⟨before, found, known⟩ := Option.bind_eq_some_iff.mp known
        rw [here]
        exact (sound.rows _ before found).good version known
  | approve actor catalogItemId now =>
    cases moved
    by_cases same : approveTeamRollout actor catalogItemId now state.policies = state.policies
    · refine ⟨?_, sound.ticks⟩
      simp only [same, if_true]
      exact sound.rows
    · refine ⟨?_, sound.ticks⟩
      simp only [if_neg same]
      cases isTeam : actor.teamId with
      | none => exact absurd (by rw [approveTeamRollout, isTeam]) same
      | some teamId =>
        have more := List.subset_append_left state.approvals
          [((teamId, catalogItemId), state.settings (teamId, catalogItemId), now)]
        have kept := fun key row found =>
          (sound.rows key row found).mono (List.Subset.refl _) more
        simp only [approveTeamRollout, isTeam]
        split
        case isFalse => exact kept
        case isTrue =>
          refine forall_updateWhere kept fun row found _ => ⟨fun _ => .inr ?_, ?_, ?_, ?_⟩
          · exact List.mem_append_right _ List.mem_cons_self
          · exact fun phase => by cases phase
          · exact fun phase => by cases phase
          · exact (kept _ row found).good
  | list fleet now =>
    cases moved
    refine ⟨fun key row found => (sound.rows key row found).mono
      (List.subset_append_left _ _) (List.Subset.refl _), fun tick among seen remains => ?_⟩
    rcases List.mem_append.mp among with before | new
    · obtain ⟨logged, facts⟩ := sound.ticks tick before seen remains
      exact ⟨List.mem_append_left _ logged, facts⟩
    · obtain rfl := List.mem_singleton.mp new
      exact ⟨List.mem_append_right _ remains, mem_listings remains⟩
  | write number =>
    simp only [coordinationNext] at moved
    split at moved
    case h_2 => cases moved
    case h_1 now rollout remaining underway =>
      cases moved
      have among := List.mem_of_getElem? underway
      obtain ⟨logged, time, phase, started⟩ := sound.ticks _ among rollout List.mem_cons_self
      refine ⟨sound.coordinate logged time phase started fun moves => ?_, fun tick changed => ?_⟩
      · unfold Careful at careful
        have landed : landsAsListed state rollout = true := by
          simpa [underway, Option.isNone_eq_false_iff.mpr moves] using careful
        simpa [landsAsListed] using landed
      · rcases List.mem_or_eq_of_mem_set changed with before | rfl
        · exact sound.ticks tick before
        · exact fun seen remains => sound.ticks _ among seen (List.mem_cons_of_mem _ remains)
  | stop number =>
    cases moved
    exact ⟨sound.rows, fun tick among => sound.ticks tick (List.mem_of_mem_eraseIdx among)⟩

end Step

/-! ### Every run -/

/-- **What is active or last known good has passed its stages.** In every run of ticks and
administrators where each decision to move a rollout on is written while the row is the one listed,
an active policy is at one hundred percent, its target is the last known good version, and passed its
canary and its expand phase since it was set; and every last known good version did so in the setting
in which it was promoted. -/
theorem promoted_after_stages {state : CoordinationState}
    (reached : ReachableBy coordinationNext Careful .initial state) {key : PolicyKey} {row : PolicyRow}
    (found : state.policies.get key = some row) :
    (row.rolloutPhase = .active → row.rolloutPercent = 100 ∧
      row.lastKnownGoodVersionId = some row.targetVersionId ∧
      PassedStages state.observed state.approvals key (state.settings key) row.targetVersionId) ∧
    ∀ version, row.lastKnownGoodVersionId = some version →
      ∃ setting, PassedStages state.observed state.approvals key setting version := by
  have sound : Sound state := reached.invariant _ sound_initial
    fun _ _ _ sound careful moved => sound.step careful moved
  exact ⟨(sound.rows key row found).active, (sound.rows key row found).good⟩

/-! ### A tick that nothing interrupts -/

theorem get_coordinate_of_ne {policies : PolicyTable} {rollout : PolicyKey × RolloutEvaluation}
    {now : Int} {other : PolicyKey} (differs : other ≠ rollout.1) :
    (coordinate policies rollout now).get other = policies.get other := by
  have kept (condition : PolicyRow → Bool) (change : PolicyRow → PolicyRow) :
      (updateWhere policies rollout.1 condition change).get other = policies.get other := by
    rw [get_updateWhere, if_neg differs]
  unfold coordinate
  split
  · exact kept _ _
  · split
    · rfl
    · exact kept _ _
    · exact kept _ _

theorem listings_eq (state : CoordinationState) (fleet : Fleet) (now : Int) :
    (state.listings fleet now).map (fun seen => (seen.key, seen.counters))
        = listOpenRollouts state.policies fleet ∧
      ∀ seen ∈ state.listings fleet now, landsAsListed state seen = true := by
  constructor
  · rw [CoordinationState.listings, List.map_filterMap]
    refine (List.filterMap_congr fun rollout listed => ?_).trans List.filterMap_some
    obtain ⟨entry, stored, rfl⟩ := List.mem_map.mp listed
    rw [OrderedMap.get_eq_some.mpr (List.mem_filter.mp stored).1]
    rfl
  · intro seen among
    obtain ⟨rollout, -, made⟩ := List.mem_filterMap.mp among
    obtain ⟨row, found, rfl⟩ := Option.map_eq_some_iff.mp made
    simp [landsAsListed, found]

theorem writes_of_tick {start state : CoordinationState} {ticks : List Tick} {now : Int}
    {rest : List Observation} (reached : ReachableBy coordinationNext Careful start state)
    (underway : state.ticks = ticks ++ [⟨now, rest⟩])
    (distinct : (rest.map Observation.key).Nodup)
    (listed : ∀ seen ∈ rest, landsAsListed state seen = true) :
    ∃ after, ReachableBy coordinationNext Careful start after ∧ after.ticks = ticks ++ [⟨now, []⟩] ∧
      after.policies = rest.foldl (fun table seen => coordinate table (seen.key, seen.counters) now)
        state.policies := by
  induction rest generalizing state with
  | nil => exact ⟨state, reached, underway, rfl⟩
  | cons seen rest ih =>
    rw [List.map_cons, List.nodup_cons] at distinct
    obtain ⟨lands, others⟩ := List.forall_mem_cons.mp listed
    have first : state.ticks[ticks.length]? = some ⟨now, seen :: rest⟩ := by
      rw [underway, List.getElem?_concat_length]
    have careful : Careful state (.write ticks.length) := by
      simp [Careful, first, lands]
    have moved : coordinationNext state (.write ticks.length) = some { state with
        policies := coordinate state.policies (seen.key, seen.counters) now
        ticks := ticks ++ [⟨now, rest⟩] } := by
      simp [coordinationNext, underway]
    refine ih (reached.step _ careful moved) rfl distinct.2 fun other among => ?_
    have differs : other.key ≠ seen.key := fun same =>
      distinct.1 (same ▸ List.mem_map_of_mem among)
    have lands := others other among
    unfold landsAsListed at lands ⊢
    rwa [get_coordinate_of_ne differs]

/-- One user with one device, whose report of the first version came in at some time. -/
def oneDevice (reportedAt : Option Int) : Fleet where
  users := [("user-1", some "team-1")]
  devices := [⟨"user-1", "token-1", "fingerprint-1"⟩]
  reports := reportedAt.toList.map fun time => ⟨some "v1", .installed, some "seed-1", time⟩

/-- The first version passes its canary, and a tick reads that it has passed its expand phase. -/
def stagesOfFirst : List CoordinationAction :=
  [.save ("team-1", "item-1") "v1" false "seed-1" 0, .list (oneDevice none) 0, .write 0, .stop 0,
    .list (oneDevice (some 600000)) 1800000, .write 0, .stop 0,
    .list (oneDevice (some 2400000)) 5400000]

/-- **A leader's change falls between the reading and the write: the new version is promoted**, and
nothing about it was ever looked at. -/
theorem promoted_unstaged : ∃ state row, Reachable coordinationNext .initial state ∧
    state.policies.get ("team-1", "item-1") = some row ∧ row.rolloutPhase = .active ∧
    row.rolloutPercent = 100 ∧ row.targetVersionId = "v2" ∧ row.lastKnownGoodVersionId = some "v2" ∧
    ∀ setting, ¬ PassedStages state.observed state.approvals ("team-1", "item-1") setting "v2" := by
  have facts : ((run coordinationNext .initial (stagesOfFirst ++
      [.save ("team-1", "item-1") "v2" false "seed-2" 5400001, .write 0])).any fun state =>
        state.policies.get ("team-1", "item-1") == some
          { targetVersionId := "v2", lastKnownGoodVersionId := some "v2", rolloutPhase := .active,
            rolloutPercent := 100, rolloutSeed := "seed-2", phaseStartedAt := 5400000,
            enabled := true } &&
        state.observed.all fun seen => seen.row.targetVersionId == "v1") = true := by
    decide +kernel
  obtain ⟨state, ends, holds⟩ := (Option.any_eq_true _ _).mp facts
  rw [Bool.and_eq_true, beq_iff_eq, List.all_eq_true] at holds
  refine ⟨state, _, Reachable.of_run _ ends, holds.1, rfl, rfl, rfl, rfl, fun setting passed => ?_⟩
  obtain ⟨seen, among, isOf, -⟩ := passed
  have first := beq_iff_eq.mp (holds.2 seen among)
  rw [isOf.2.2] at first
  exact absurd first (by decide)

/-- Without that change the first version is promoted, and it has passed its stages. -/
theorem first_promoted_after_stages : ∃ state row,
    run coordinationNext .initial (stagesOfFirst ++ [.write 0]) = some state ∧
    state.policies.get ("team-1", "item-1") = some row ∧ row.lastKnownGoodVersionId = some "v1" ∧
    PassedStages state.observed state.approvals ("team-1", "item-1")
      (state.settings ("team-1", "item-1")) "v1" := by
  have facts : ((checkedRun coordinationNext Careful .initial (stagesOfFirst ++ [.write 0])).any
      fun state => state.policies.get ("team-1", "item-1") == some
        { targetVersionId := "v1", lastKnownGoodVersionId := some "v1", rolloutPhase := .active,
          rolloutPercent := 100, rolloutSeed := "seed-1", phaseStartedAt := 5400000,
          enabled := true }) = true := by
    decide +kernel
  obtain ⟨state, ends, found⟩ := (Option.any_eq_true _ _).mp facts
  have promoted := (promoted_after_stages (ReachableBy.of_checkedRun _ ends)
    (beq_iff_eq.mp found)).1 rfl
  exact ⟨state, _, run_of_checkedRun ends, beq_iff_eq.mp found, rfl, promoted.2.2⟩

end Toard.Deployment
