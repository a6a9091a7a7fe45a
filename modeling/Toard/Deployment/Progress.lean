/-
**Whether a healthy rollout gets to its end.**

Every device in the cohort keeps polling, installs what it is offered, and reports; the coordinator
keeps ticking; nobody changes the policy. A device reports when it gets a manifest, and gets one only
if its saved ETag is not that of the items it would be sent: a device that has reported in the canary
is not heard again in the expand phase, which counts only the reports since its own beginning.

* **`never_stuck_iff`**: no state is a dead end exactly if there are enough devices.
-/

import Toard.Deployment.Desired
import Toard.Library.Transition

namespace Toard.Deployment

open Toard.Library

/-! ### The rollout -/

/-- One policy with the devices of its team. The users choose other tools only. -/
structure RolloutSetting where
  teamId : String
  catalogItemId : String
  versionId : String
  seed : String
  devices : List DeviceRow
  preferences : String → List ToolPreference
  others : ∀ device ∈ devices, ∀ preference ∈ preferences device.userId,
    preference.catalogItemId ≠ catalogItemId

structure RolloutState where
  row : PolicyRow
  now : Int
  tick : Option (RolloutEvaluation × Int)
  etags : DeviceRow → Option (List DesiredTool)
  reports : DeviceRow → Option ReportRow

inductive RolloutAction where
  | list (now : Int)
  | write
  | poll (device : DeviceRow) (now : Int)

/-- The server counts the report of a device in the phase of the row. -/
def RolloutState.heard (state : RolloutState) (device : DeviceRow) : Bool :=
  ((state.reports device).map fun report => report.rolloutId == some state.row.rolloutSeed &&
    report.desiredVersionId == some state.row.targetVersionId &&
    decide (state.row.phaseStartedAt ≤ report.lastAttemptedAt)).getD false

namespace RolloutSetting

variable (setting : RolloutSetting)

def table (row : PolicyRow) : PolicyTable :=
  OrderedMap.empty.set (setting.teamId, setting.catalogItemId) row

def fleet (state : RolloutState) : Fleet where
  users := setting.devices.map fun device => (device.userId, some setting.teamId)
  devices := setting.devices
  reports := setting.devices.filterMap state.reports

/-- What a device is sent. The manifest of a version never changes, so the ETag is that of these
items. -/
def tools (row : PolicyRow) (device : DeviceRow) : List DesiredTool :=
  resolveDesiredTools (getDeviceContext (setting.table row) (fun _ => some .published)
    setting.teamId device.userId device.fingerprint (setting.preferences device.userId))

def installedReport (tools : List DesiredTool) (now : Int) (before : Option ReportRow) :
    Option ReportRow :=
  match tools.find? fun entry => entry.catalogItemId == setting.catalogItemId with
  | none => before
  | some entry => some
    { desiredVersionId := some entry.versionId, status := .installed, rolloutId := entry.rolloutId,
      lastAttemptedAt := now }

/-- The state after an action. One tick at a time holds the lease, and time does not go back. -/
def rolloutNext (state : RolloutState) : RolloutAction → Option RolloutState
  | .list now =>
    if state.now ≤ now ∧ state.tick = none then
      some { state with
        now
        tick := (listOpenRollouts (setting.table state.row) (setting.fleet state)).head?.map
          fun rollout => (rollout.2, now) }
    else none
  | .write =>
    state.tick.map fun (counters, time) =>
      { state with row := coordinateRow counters time state.row, tick := none }
  | .poll device now =>
    if state.now ≤ now ∧ device ∈ setting.devices then
      let tools := setting.tools state.row device
      if state.etags device = some tools then some { state with now }
      else some { state with
        now
        etags := Function.update state.etags device (some tools)
        reports := Function.update state.reports device
          (setting.installedReport tools now (state.reports device)) }
    else none

structure Enters (state : RolloutState) : Prop where
  target : state.row.targetVersionId = setting.versionId
  seed : state.row.rolloutSeed = setting.seed
  phase : state.row.rolloutPhase = .preflight
  percent : state.row.rolloutPercent = 0
  enabled : state.row.enabled = true
  started : state.row.phaseStartedAt ≤ state.now
  tick : state.tick = none
  unseen : ∀ device tools entry, state.etags device = some tools → entry ∈ tools →
    entry.rolloutId ≠ some setting.seed
  unreported : ∀ device report, state.reports device = some report →
    report.rolloutId ≠ some setting.seed

/-- The rollout is over: active on all devices, and the target is the last known good version. -/
def Completed (state : RolloutState) : Prop :=
  state.row.rolloutPhase = .active ∧ state.row.rolloutPercent = 100 ∧
    state.row.targetVersionId = setting.versionId ∧
    state.row.lastKnownGoodVersionId = some setting.versionId

def NeverStuck : Prop :=
  ∀ start, setting.Enters start → ∀ state, Reachable setting.rolloutNext start state →
    ∃ final, Reachable setting.rolloutNext state final ∧ setting.Completed final

def cohort (device : DeviceRow) : Nat := rolloutCohortPercent setting.seed device.fingerprint

/-- The devices of the canary, and those that the expand phase adds, are as many as the phases
need. -/
def EnoughDevices : Prop :=
  canaryTarget setting.devices.length
      ≤ setting.devices.countP (fun device => setting.cohort device < 10) ∧
    expandTarget setting.devices.length
      ≤ setting.devices.countP fun device => 10 ≤ setting.cohort device ∧ setting.cohort device < 50

/-! ### What a device is sent -/

def entry : DesiredTool where
  catalogItemId := setting.catalogItemId
  versionId := setting.versionId
  origin := .team
  rolloutId := some setting.seed

def policy (percent : Nat) : TeamToolPolicy where
  catalogItemId := setting.catalogItemId
  versionId := setting.versionId
  rolloutId := setting.seed
  rolloutSeed := setting.seed
  rolloutPercent := percent

structure IsRow (row : PolicyRow) : Prop where
  target : row.targetVersionId = setting.versionId
  seed : row.rolloutSeed = setting.seed
  enabled : row.enabled = true

section Tools

variable {setting} {row row' : PolicyRow} {device : DeviceRow}

theorem teamPolicies_table (isRow : setting.IsRow row) :
    teamPolicies (setting.table row) (fun _ => some .published) setting.teamId =
      if isServingPhase row.rolloutPhase then [setting.policy row.rolloutPercent] else [] := by
  have entries : (setting.table row).entries = [((setting.teamId, setting.catalogItemId), row)] := rfl
  by_cases serving : isServingPhase row.rolloutPhase
  · simp [teamPolicies, entries, isServed, isRow.enabled, serving, isRow.target, isRow.seed,
      policy]
  · simp [teamPolicies, entries, serving]

theorem context_plain (row : PolicyRow) (among : device ∈ setting.devices) :
    setting.catalogItemId ∉ excludedIds (getDeviceContext (setting.table row)
      (fun _ => some .published) setting.teamId device.userId device.fingerprint
      (setting.preferences device.userId)) ∧
    chosenInstall (getDeviceContext (setting.table row) (fun _ => some .published) setting.teamId
      device.userId device.fingerprint (setting.preferences device.userId)) setting.catalogItemId
      = none := by
  have others (preference : ToolPreference)
      (isPreference : preference ∈ (setting.preferences device.userId).filter fun preference =>
        isServed (fun _ => some .published) preference.catalogItemId) :
      preference.catalogItemId ≠ setting.catalogItemId :=
    setting.others device among preference (List.mem_filter.mp isPreference).1
  constructor
  · intro excluded
    obtain ⟨preference, isPreference, same⟩ := List.mem_map.mp excluded
    exact others preference (List.mem_filter.mp isPreference).1 same
  · rw [chosenInstall, Option.bind_eq_none_iff]
    intro preference found
    obtain ⟨isPreference, same⟩ := mapGet_spec found
    exact absurd same (others preference (List.mem_filter.mp isPreference).1)

/-- **What the item resolves to on a device.** -/
theorem mem_tools_iff (isRow : setting.IsRow row) (among : device ∈ setting.devices)
    {offer : DesiredTool} : offer ∈ setting.tools row device ∧
      offer.catalogItemId = setting.catalogItemId ↔
    offer = setting.entry ∧ isServingPhase row.rolloutPhase = true ∧
      setting.cohort device < row.rolloutPercent := by
  obtain ⟨included, unchosen⟩ := context_plain row among
  have resolved : resolveItem (getDeviceContext (setting.table row) (fun _ => some .published)
      setting.teamId device.userId device.fingerprint (setting.preferences device.userId))
      setting.catalogItemId = if isServingPhase row.rolloutPhase = true ∧
        setting.cohort device < row.rolloutPercent then [setting.entry] else [] := by
    rw [resolveItem, if_neg (by simpa using included), unchosen]
    simp only [getDeviceContext, teamPolicies_table isRow]
    by_cases serving : isServingPhase row.rolloutPhase = true
    · rw [if_pos serving]
      have found : mapGet (·.catalogItemId) [setting.policy row.rolloutPercent]
          setting.catalogItemId = some (setting.policy row.rolloutPercent) := by
        simp [mapGet, policy]
      rw [found]
      simp only [serving, true_and]
      change (if row.rolloutPercent ≤ setting.cohort device then _ else _) = _
      by_cases below : setting.cohort device < row.rolloutPercent
      · rw [if_pos below, if_neg (not_le.mpr below)]
        rfl
      · rw [if_neg below, if_pos (not_lt.mp below)]
    · rw [if_neg serving, if_neg fun both => serving both.1]
      rfl
  constructor
  · rintro ⟨isOffer, same⟩
    have isResolved := mem_resolveDesiredTools.mp isOffer
    rw [same, resolved] at isResolved
    split at isResolved
    case isTrue serves => exact ⟨List.mem_singleton.mp isResolved, serves⟩
    case isFalse => cases isResolved
  · rintro ⟨rfl, serves⟩
    refine ⟨mem_resolveDesiredTools.mpr ?_, rfl⟩
    rw [show setting.entry.catalogItemId = setting.catalogItemId from rfl, resolved, if_pos serves]
    exact List.mem_singleton_self _

/-- **A device that both rows serve is sent the same items**, so its ETag stays good. -/
theorem tools_eq (isRow : setting.IsRow row) (isRow' : setting.IsRow row')
    (serving : isServingPhase row.rolloutPhase = true)
    (serving' : isServingPhase row'.rolloutPhase = true)
    (below : setting.cohort device < row.rolloutPercent)
    (below' : setting.cohort device < row'.rolloutPercent) :
    setting.tools row device = setting.tools row' device := by
  unfold tools getDeviceContext
  rw [teamPolicies_table isRow, teamPolicies_table isRow', if_pos serving, if_pos serving']
  exact resolveDesiredTools_percent below below'

end Tools

/-! ### What holds in every state -/

def Reported (state : RolloutState) (device : DeviceRow) : Prop :=
  ∃ report, state.reports device = some report ∧ report.rolloutId = some setting.seed

inductive Stage (row : PolicyRow) : Prop
  | preflight (phase : row.rolloutPhase = .preflight) (percent : row.rolloutPercent = 0)
  | canary (phase : row.rolloutPhase = .canary) (percent : row.rolloutPercent = 10)
  | expand (phase : row.rolloutPhase = .expand) (percent : row.rolloutPercent = 50)
  | active (phase : row.rolloutPhase = .active) (percent : row.rolloutPercent = 100)
    (good : row.lastKnownGoodVersionId = some setting.versionId)

structure IsReport (state : RolloutState) (device : DeviceRow) (report : ReportRow) : Prop where
  version : report.desiredVersionId = some setting.versionId
  status : report.status = .installed
  past : report.lastAttemptedAt ≤ state.now
  served : setting.cohort device < state.row.rolloutPercent
  canary : state.row.rolloutPhase = .canary → state.row.phaseStartedAt ≤ report.lastAttemptedAt
  expand : state.row.rolloutPhase = .expand → 10 ≤ setting.cohort device →
    state.row.phaseStartedAt ≤ report.lastAttemptedAt

/-- What a tick under way has listed: the phase as it is, all devices, and no failure. -/
structure IsTick (state : RolloutState) (counters : RolloutEvaluation) (time : Int) : Prop where
  past : time ≤ state.now
  eligible : counters.eligible = setting.devices.length
  phase : counters.phase = state.row.rolloutPhase
  started : counters.phaseStartedAt = state.row.phaseStartedAt
  isOpen : isOpenPhase state.row.rolloutPhase = true
  failed : counters.failed = 0

structure Healthy (state : RolloutState) : Prop where
  row : setting.IsRow state.row
  stage : setting.Stage state.row
  started : state.row.phaseStartedAt ≤ state.now
  tick : ∀ counters time, state.tick = some (counters, time) →
    setting.IsTick state counters time
  saved : ∀ device ∈ setting.devices, ∀ tools, state.etags device = some tools →
    setting.entry ∈ tools → setting.Reported state device
  reports : ∀ device ∈ setting.devices, ∀ report, state.reports device = some report →
    report.rolloutId = some setting.seed → setting.IsReport state device report

section Steps

variable {setting} {state after : RolloutState} {counters : RolloutEvaluation}
  {time time' : Int} {device : DeviceRow}

theorem healthy_of_enters (enters : setting.Enters state) : setting.Healthy state where
  row := ⟨enters.target, enters.seed, enters.enabled⟩
  stage := .preflight enters.phase enters.percent
  started := enters.started
  tick counters time tick := by
    rw [enters.tick] at tick
    cases tick
  saved device among tools saved listed := absurd rfl (enters.unseen device tools _ saved listed)
  reports device among report found isSeed := absurd isSeed (enters.unreported device report found)

/-! #### The decision -/

theorem not_reachesFailureThreshold (attempted : Nat) :
    reachesFailureThreshold 0 attempted = false := by
  have none : decimal (((0 : Nat) : ℚ) / attempted) = 0 := by
    rw [Nat.cast_zero, zero_div, decimal, binary64_zero]
    rfl
  have fifth : ¬ decimal (1 / 5) ≤ 0 := by decide +kernel
  rw [reachesFailureThreshold, none, decide_eq_false fifth, Bool.and_false]
  rfl

/-- **What a write does to the row**: nothing, or the next phase if its counters allow it. -/
inductive Written (row : PolicyRow) (counters : RolloutEvaluation) (time : Int) : PolicyRow → Prop
  | hold : Written row counters time row
  | canary (phase : row.rolloutPhase = .preflight) :
      Written row counters time (row.advanced .canary 10 time)
  | expand (phase : row.rolloutPhase = .canary)
      (enough : canaryTarget counters.eligible ≤ counters.attempted) :
      Written row counters time (row.advanced .expand 50 time)
  | active (phase : row.rolloutPhase = .expand)
      (enough : expandTarget counters.eligible ≤ counters.attempted) :
      Written row counters time (row.advanced .active 100 time)

theorem written (isTick : setting.IsTick state counters time) :
    Written state.row counters time (coordinateRow counters time state.row) := by
  unfold coordinateRow
  split
  case isTrue preflight =>
    rw [if_pos isTick.isOpen]
    exact .canary (isTick.phase.symm.trans preflight)
  case isFalse =>
    split
    case h_1 => exact .hold
    case h_2 decided =>
      rw [if_pos isTick.isOpen]
      obtain ⟨-, ⟨phase, -, enough, rfl, rfl⟩ | ⟨phase, -, enough, rfl, rfl⟩⟩ :=
        evaluateRollout_advance decided
      · exact .expand (isTick.phase.symm.trans phase) enough
      · exact .active (isTick.phase.symm.trans phase) enough
    case h_3 decided =>
      refine absurd decided ?_
      rw [evaluateRollout, isTick.failed, not_reachesFailureThreshold, if_neg Bool.false_ne_true]
      dsimp only
      split
      case isTrue => nofun
      case isFalse => split <;> nofun

/-! #### What a tick lists -/

theorem eligible_fleet (state : RolloutState) :
    (setting.fleet state).eligible setting.teamId = setting.devices := by
  refine List.filter_eq_self.mpr fun device among => ?_
  refine List.contains_iff_mem.mpr (List.mem_map.mpr ⟨(device.userId, some setting.teamId), ?_, rfl⟩)
  exact List.mem_filter.mpr ⟨List.mem_map.mpr ⟨device, among, rfl⟩, beq_self_eq_true _⟩

theorem attempted_fleet (state : RolloutState) :
    ((setting.fleet state).attempts state.row).length
      = setting.devices.countP state.heard := by
  rw [Fleet.attempts, ← List.countP_eq_length_filter]
  exact List.countP_filterMap

/-- **What a tick lists**: the counters of the row, if its phase is open. -/
theorem listed_eq (isRow : setting.IsRow state.row) (some : setting.devices ≠ [])
    (isOpen : isOpenPhase state.row.rolloutPhase = true) :
    (listOpenRollouts (setting.table state.row) (setting.fleet state)).head?.map (fun rollout =>
      (rollout.2, time)) = .some (evaluation (setting.fleet state) setting.teamId state.row, time) := by
  have entries : (setting.table state.row).entries
      = [((setting.teamId, setting.catalogItemId), state.row)] := rfl
  have members : ((setting.fleet state).members setting.teamId).isEmpty = false := by
    obtain ⟨device, rest, devices⟩ := List.exists_cons_of_ne_nil some
    simp [Fleet.members, fleet, devices]
  simp [listOpenRollouts, entries, isRow.enabled, isOpen, members]

theorem of_listed (listed : (listOpenRollouts (setting.table state.row)
      (setting.fleet state)).head?.map (fun rollout => (rollout.2, time)) = some (counters, time')) :
    isOpenPhase state.row.rolloutPhase = true ∧ time' = time ∧
      counters = evaluation (setting.fleet state) setting.teamId state.row := by
  have entries : (setting.table state.row).entries
      = [((setting.teamId, setting.catalogItemId), state.row)] := rfl
  obtain ⟨rollout, first, same⟩ := Option.map_eq_some_iff.mp listed
  have among := List.mem_of_mem_head? first
  rw [listOpenRollouts, entries] at among
  obtain ⟨entry, isEntry, rfl⟩ := List.mem_map.mp among
  obtain ⟨isEntry, served⟩ := List.mem_filter.mp isEntry
  cases List.mem_singleton.mp isEntry
  cases same
  simp only [Bool.and_eq_true] at served
  exact ⟨served.1.2, rfl, rfl⟩

/-! #### Each action keeps the rollout healthy -/

theorem failed_fleet (healthy : setting.Healthy state) :
    (evaluation (setting.fleet state) setting.teamId state.row).failed = 0 := by
  rw [evaluation, List.length_eq_zero_iff, List.filter_eq_nil_iff]
  intro report attempt failing
  obtain ⟨among, counted⟩ := List.mem_filter.mp attempt
  obtain ⟨device, isDevice, found⟩ := List.mem_filterMap.mp among
  simp only [Bool.and_eq_true, beq_iff_eq] at counted
  have isReport := healthy.reports device isDevice report found
    (counted.1.1.trans (congrArg some healthy.row.seed))
  rw [isReport.status] at failing
  cases failing

theorem Healthy.list (healthy : setting.Healthy state)
    (moved : setting.rolloutNext state (.list time) = some after) : setting.Healthy after := by
  rw [rolloutNext] at moved
  split at moved
  case isFalse => cases moved
  case isTrue later =>
    cases moved
    refine { healthy with started := healthy.started.trans later.1, tick := ?_, reports := ?_ }
    · intro counters time' listed
      obtain ⟨isOpen, rfl, rfl⟩ := of_listed listed
      exact ⟨le_refl _, congrArg List.length (eligible_fleet state), rfl, rfl, isOpen,
        failed_fleet healthy⟩
    · intro device among report found isSeed
      have isReport := healthy.reports device among report found isSeed
      exact { isReport with past := isReport.past.trans later.1 }

theorem Healthy.advanced (healthy : setting.Healthy state) {phase : ToolRolloutPhase}
    {percent : Nat} (past : time ≤ state.now)
    (stage : setting.Stage (state.row.advanced phase percent time))
    (wider : state.row.rolloutPercent ≤ percent)
    (canary : phase = .canary → state.row.rolloutPercent = 0)
    (expand : phase = .expand → state.row.rolloutPercent = 10) :
    setting.Healthy { state with row := state.row.advanced phase percent time, tick := none } where
  row := ⟨healthy.row.target, healthy.row.seed, healthy.row.enabled⟩
  stage := stage
  started := past
  tick := nofun
  saved := healthy.saved
  reports device among report found isSeed := by
    have isReport := healthy.reports device among report found isSeed
    have served := isReport.served
    refine { isReport with
      served := served.trans_le wider
      canary := fun isPhase => ?_
      expand := fun isPhase added => ?_ }
    · rw [canary isPhase] at served
      exact absurd served (Nat.not_lt_zero _)
    · rw [expand isPhase] at served
      exact absurd added (not_le.mpr served)

theorem Stage.percent_eq {row : PolicyRow} (stage : setting.Stage row) :
    (row.rolloutPhase = .preflight → row.rolloutPercent = 0) ∧
    (row.rolloutPhase = .canary → row.rolloutPercent = 10) ∧
    (row.rolloutPhase = .expand → row.rolloutPercent = 50) := by
  cases stage with
  | preflight phase percent => simp [phase, percent]
  | canary phase percent => simp [phase, percent]
  | expand phase percent => simp [phase, percent]
  | active phase percent => simp [phase]

theorem Healthy.write (healthy : setting.Healthy state)
    (moved : setting.rolloutNext state .write = some after) : setting.Healthy after := by
  obtain ⟨⟨counters, time⟩, tick, rfl⟩ := Option.map_eq_some_iff.mp moved
  have isTick := healthy.tick counters time tick
  have percents := healthy.stage.percent_eq
  have step := written isTick
  dsimp only
  generalize coordinateRow counters time state.row = row at step ⊢
  cases step with
  | hold => exact { healthy with tick := nofun, reports := fun device among report found isSeed =>
      { healthy.reports device among report found isSeed with } }
  | canary phase =>
    have percent := percents.1 phase
    exact healthy.advanced isTick.past (.canary rfl rfl) (by omega) (fun _ => percent) nofun
  | expand phase enough =>
    have percent := percents.2.1 phase
    exact healthy.advanced isTick.past (.expand rfl rfl) (by omega) nofun fun _ => percent
  | active phase enough =>
    have percent := percents.2.2 phase
    exact healthy.advanced isTick.past
      (.active rfl rfl (congrArg some healthy.row.target)) (by omega) nofun nofun

theorem installedReport_of_mem (isRow : setting.IsRow state.row) {device : DeviceRow}
    (among : device ∈ setting.devices) (before : Option ReportRow)
    (listed : setting.entry ∈ setting.tools state.row device) :
    setting.installedReport (setting.tools state.row device) time before = some
      { desiredVersionId := some setting.versionId, status := .installed,
        rolloutId := some setting.seed, lastAttemptedAt := time } := by
  unfold installedReport
  cases found : (setting.tools state.row device).find? (fun entry =>
      entry.catalogItemId == setting.catalogItemId) with
  | none => exact absurd (List.find?_eq_none.mp found _ listed) (by simp [entry])
  | some offer =>
    have same : offer = setting.entry := (mem_tools_iff isRow among).mp
      ⟨List.mem_of_find?_eq_some found, by simpa using List.find?_some found⟩ |>.1
    rw [same]
    rfl

theorem installedReport_of_not_mem (isRow : setting.IsRow state.row) {device : DeviceRow}
    (among : device ∈ setting.devices) (before : Option ReportRow)
    (unlisted : setting.entry ∉ setting.tools state.row device) :
    setting.installedReport (setting.tools state.row device) time before = before := by
  unfold installedReport
  cases found : (setting.tools state.row device).find? (fun entry =>
      entry.catalogItemId == setting.catalogItemId) with
  | none => rfl
  | some offer =>
    have isOffer : offer ∈ setting.tools state.row device := List.mem_of_find?_eq_some found
    have same : offer = setting.entry := (mem_tools_iff isRow among).mp
      ⟨isOffer, by simpa using List.find?_some found⟩ |>.1
    exact absurd (same ▸ isOffer) unlisted

/-- **What a poll does.** The device keeps its report if it is not sent the item, or has it
already; else it reports the item installed. -/
theorem poll_cases (isRow : setting.IsRow state.row)
    (moved : setting.rolloutNext state (.poll device time) = some after) :
    state.now ≤ time ∧ device ∈ setting.devices ∧ ∃ reports,
      after = { state with
        now := time
        etags := Function.update state.etags device (some (setting.tools state.row device))
        reports } ∧
      (∀ other, other ≠ device → reports other = state.reports other) ∧
      (reports device = state.reports device ∧ (setting.entry ∈ setting.tools state.row device →
          state.etags device = some (setting.tools state.row device)) ∨
        setting.entry ∈ setting.tools state.row device ∧
          state.etags device ≠ some (setting.tools state.row device) ∧ reports device = some
          { desiredVersionId := some setting.versionId, status := .installed,
            rolloutId := some setting.seed, lastAttemptedAt := time }) := by
  rw [rolloutNext] at moved
  split at moved
  case isFalse => cases moved
  case isTrue allowed =>
    obtain ⟨later, among⟩ := allowed
    refine ⟨later, among, ?_⟩
    dsimp only at moved
    split at moved
    case isTrue current =>
      cases moved
      refine ⟨state.reports, ?_, fun _ _ => rfl, .inl ⟨rfl, fun _ => current⟩⟩
      rw [← current, Function.update_eq_self]
    case isFalse changed =>
      cases moved
      refine ⟨_, rfl, fun other apart => Function.update_of_ne apart _ _, ?_⟩
      rw [Function.update_self]
      by_cases listed : setting.entry ∈ setting.tools state.row device
      · exact .inr ⟨listed, changed, installedReport_of_mem isRow among _ listed⟩
      · exact .inl ⟨installedReport_of_not_mem isRow among _ listed, fun sent => absurd sent listed⟩

theorem Reported.poll (isRow : setting.IsRow state.row)
    (moved : setting.rolloutNext state (.poll device time) = some after) {other : DeviceRow}
    (reported : setting.Reported state other) : setting.Reported after other := by
  obtain ⟨report, found, isSeed⟩ := reported
  obtain ⟨-, -, reports, rfl, others, own⟩ := poll_cases isRow moved
  by_cases same : other = device
  · subst same
    obtain ⟨kept, -⟩ | ⟨-, -, new⟩ := own
    · exact ⟨report, kept.trans found, isSeed⟩
    · exact ⟨_, new, rfl⟩
  · exact ⟨report, (others other same).trans found, isSeed⟩

/-- **A poll makes a device that is served report**, or it has done so. -/
theorem reported_of_poll (healthy : setting.Healthy state)
    (moved : setting.rolloutNext state (.poll device time) = some after)
    (listed : setting.entry ∈ setting.tools state.row device) : setting.Reported after device := by
  have inverted := poll_cases healthy.row moved
  obtain ⟨-, among, reports, rfl, -, ⟨-, current⟩ | ⟨-, -, new⟩⟩ := inverted
  · exact (healthy.saved device among _ (current listed) listed).poll healthy.row moved
  · exact ⟨_, new, rfl⟩

theorem Healthy.poll (healthy : setting.Healthy state)
    (moved : setting.rolloutNext state (.poll device time) = some after) :
    setting.Healthy after := by
  have inverted := poll_cases healthy.row moved
  obtain ⟨later, among, reports, same, others, own⟩ := inverted
  have started : after.row.phaseStartedAt ≤ after.now := by
    rw [same]
    exact healthy.started.trans later
  have kept (other : DeviceRow) (isOther : other ∈ setting.devices) (report : ReportRow)
      (found : state.reports other = some report) (isSeed : report.rolloutId = some setting.seed) :
      setting.IsReport after other report := by
    have isReport := healthy.reports other isOther report found isSeed
    rw [same]
    exact { isReport with past := isReport.past.trans later }
  constructor
  case row => rw [same]; exact healthy.row
  case stage => rw [same]; exact healthy.stage
  case started => exact started
  case tick =>
    intro counters time' listed
    rw [same] at listed ⊢
    have isTick := healthy.tick counters time' listed
    exact { isTick with past := isTick.past.trans later }
  case saved =>
    intro other isOther tools saved listed
    rw [same] at saved
    dsimp only at saved
    by_cases apart : other = device
    · subst apart
      rw [Function.update_self] at saved
      cases saved
      exact reported_of_poll healthy moved listed
    · rw [Function.update_of_ne apart] at saved
      exact (healthy.saved other isOther tools saved listed).poll healthy.row moved
  case reports =>
    intro other isOther report found isSeed
    rw [same] at found
    dsimp only at found
    by_cases apart : other = device
    · subst apart
      obtain ⟨unchanged, -⟩ | ⟨listed, -, new⟩ := own
      · exact kept other isOther report (unchanged.symm.trans found) isSeed
      · rw [new] at found
        cases found
        have served := ((mem_tools_iff healthy.row among).mp ⟨listed, rfl⟩).2.2
        rw [same] at started ⊢
        exact ⟨rfl, rfl, le_refl _, served, fun _ => started, fun _ _ => started⟩
    · exact kept other isOther report ((others other apart).symm.trans found) isSeed

/-- **Every action keeps the rollout healthy.** -/
theorem healthy_next (healthy : setting.Healthy state) (action : RolloutAction)
    (moved : setting.rolloutNext state action = some after) : setting.Healthy after := by
  cases action with
  | list => exact healthy.list moved
  | write => exact healthy.write moved
  | poll => exact healthy.poll moved

/-! ### From a healthy state to the end -/

/-- A round of polls: all devices have what they are sent, and those that are sent the item have
reported it. -/
structure Round (state after : RolloutState) : Prop where
  row : after.row = state.row
  now : after.now = state.now
  tick : after.tick = state.tick
  saved : ∀ device ∈ setting.devices,
    after.etags device = some (setting.tools state.row device)
  reported : ∀ device ∈ setting.devices, setting.entry ∈ setting.tools state.row device →
    setting.Reported after device

/-- **All devices poll**, one after the other. -/
theorem exists_round (healthy : setting.Healthy state) :
    ∃ after, Reachable setting.rolloutNext state after ∧ setting.Healthy after ∧
      setting.Round state after := by
  suffices polled : ∀ devices ⊆ setting.devices, ∃ after,
      Reachable setting.rolloutNext state after ∧ setting.Healthy after ∧
      after.row = state.row ∧ after.now = state.now ∧ after.tick = state.tick ∧
      ∀ device ∈ devices, after.etags device = some (setting.tools state.row device) ∧
        (setting.entry ∈ setting.tools state.row device → setting.Reported after device) by
    obtain ⟨after, reached, healthy, row, now, tick, all⟩ := polled _ (List.Subset.refl _)
    exact ⟨after, reached, healthy, row, now, tick, fun device among => (all device among).1,
      fun device among => (all device among).2⟩
  intro devices
  induction devices with
  | nil => exact fun _ => ⟨state, .start, healthy, rfl, rfl, rfl, nofun⟩
  | cons device rest ih =>
    intro among
    obtain ⟨middle, reached, healthy, row, now, tick, all⟩ := ih (List.subset_of_cons_subset among)
    have isDevice : device ∈ setting.devices := among List.mem_cons_self
    obtain ⟨after, moved⟩ : ∃ after,
        setting.rolloutNext middle (.poll device middle.now) = some after := by
      rw [rolloutNext, if_pos ⟨le_refl _, isDevice⟩]
      dsimp only
      split <;> exact ⟨_, rfl⟩
    have inverted := poll_cases healthy.row moved
    obtain ⟨-, -, reports, same, -⟩ := inverted
    refine ⟨after, reached.step _ trivial moved, healthy.poll moved, ?_, ?_, ?_, ?_⟩
    · rw [same, row]
    · rw [same, now]
    · rw [same, tick]
    · intro other isOther
      rw [← row]
      by_cases apart : other = device
      · subst apart
        refine ⟨?_, reported_of_poll healthy moved⟩
        rw [same]
        exact Function.update_self _ _ _
      · have polled := all other ((List.mem_cons.mp isOther).resolve_left apart)
        rw [← row] at polled
        refine ⟨?_, fun listed => (polled.2 listed).poll healthy.row moved⟩
        rw [same]
        exact (Function.update_of_ne apart _ _).trans polled.1

def rank : ToolRolloutPhase → Nat
  | .preflight => 3
  | .canary => 2
  | .expand => 1
  | _ => 0

theorem write_eq (setting : RolloutSetting) {state : RolloutState}
    (tick : state.tick = some (counters, time)) :
    setting.rolloutNext state .write = some
      { state with row := coordinateRow counters time state.row, tick := none } := by
  rw [rolloutNext, tick]
  rfl

theorem ticks (healthy : setting.Healthy state) (some : setting.devices ≠ [])
    (isOpen : isOpenPhase state.row.rolloutPhase = true) (free : state.tick = none)
    (later : state.now ≤ time) {row : PolicyRow} (next : coordinateRow
      (evaluation (setting.fleet state) setting.teamId state.row) time state.row = row) :
    Reachable setting.rolloutNext state { state with row, now := time, tick := none } ∧
      setting.Healthy { state with row, now := time, tick := none } := by
  subst next
  have listed : setting.rolloutNext state (.list time) = .some { state with
      now := time
      tick := .some (evaluation (setting.fleet state) setting.teamId state.row, time) } := by
    rw [rolloutNext, if_pos ⟨later, free⟩, listed_eq healthy.row some isOpen]
  have written := write_eq setting (show RolloutState.tick { state with
    now := time
    tick := .some (evaluation (setting.fleet state) setting.teamId state.row, time) } = _ from rfl)
  exact ⟨(ReachableBy.start.step _ trivial listed).step _ trivial written,
    (healthy.list listed).write written⟩

theorem listed_of_served (healthy : setting.Healthy state) (among : device ∈ setting.devices)
    (serving : isServingPhase state.row.rolloutPhase = true)
    (served : setting.cohort device < state.row.rolloutPercent) :
    setting.entry ∈ setting.tools state.row device :=
  ((mem_tools_iff healthy.row among).mpr ⟨rfl, serving, served⟩).1

theorem heard_of_reported (healthy : setting.Healthy state) (among : device ∈ setting.devices)
    (reported : setting.Reported state device)
    (new : state.row.rolloutPhase = .canary ∨
      state.row.rolloutPhase = .expand ∧ 10 ≤ setting.cohort device) :
    state.heard device = true := by
  obtain ⟨report, found, isSeed⟩ := reported
  have isReport := healthy.reports device among report found isSeed
  have since : state.row.phaseStartedAt ≤ report.lastAttemptedAt := by
    obtain canary | ⟨expand, added⟩ := new
    · exact isReport.canary canary
    · exact isReport.expand expand added
  simp [RolloutState.heard, found, isSeed, healthy.row.seed, isReport.version, healthy.row.target,
    since]

theorem coordinateRow_canary {row : PolicyRow} (phase : row.rolloutPhase = .canary)
    (same : counters.phase = row.rolloutPhase) (failed : counters.failed = 0)
    (elapsed : 30 * 60000 ≤ time - counters.phaseStartedAt)
    (enough : canaryTarget counters.eligible ≤ counters.attempted) :
    coordinateRow counters time row = row.advanced .expand 50 time := by
  rw [phase] at same
  have decided : evaluateRollout counters time = .advance .expand 50 := by
    rw [evaluateRollout, failed, not_reachesFailureThreshold, if_neg Bool.false_ne_true]
    simpa [same, enough] using elapsed
  have later : counters.phase ≠ .preflight := by rw [same]; nofun
  rw [coordinateRow, if_neg later, decided]
  simp [isOpenPhase, phase]

theorem coordinateRow_expand {row : PolicyRow} (phase : row.rolloutPhase = .expand)
    (same : counters.phase = row.rolloutPhase) (failed : counters.failed = 0)
    (elapsed : 60 * 60000 ≤ time - counters.phaseStartedAt)
    (enough : expandTarget counters.eligible ≤ counters.attempted) :
    coordinateRow counters time row = row.advanced .active 100 time := by
  rw [phase] at same
  have decided : evaluateRollout counters time = .advance .active 100 := by
    rw [evaluateRollout, failed, not_reachesFailureThreshold, if_neg Bool.false_ne_true]
    simpa [same, enough] using elapsed
  have later : counters.phase ≠ .preflight := by rw [same]; nofun
  rw [coordinateRow, if_neg later, decided]
  simp [isOpenPhase, phase]

theorem countP_le_attempted (state : RolloutState) (waits : DeviceRow → Bool)
    (heard : ∀ device ∈ setting.devices, waits device = true → state.heard device = true) :
    setting.devices.countP waits
      ≤ (evaluation (setting.fleet state) setting.teamId state.row).attempted := by
  rw [evaluation, attempted_fleet]
  exact List.countP_mono_left heard

theorem Round.reported_of_served (round : setting.Round state after)
    (healthy : setting.Healthy after) (among : device ∈ setting.devices)
    (serving : isServingPhase after.row.rolloutPhase = true)
    (served : setting.cohort device < after.row.rolloutPercent) :
    setting.Reported after device := by
  have listed := listed_of_served healthy among serving served
  rw [round.row] at listed
  exact round.reported device among listed

theorem canary_of_preflight (healthy : setting.Healthy state) (some : setting.devices ≠ [])
    (phase : state.row.rolloutPhase = .preflight) (free : state.tick = none) :
    ∃ after, Reachable setting.rolloutNext state after ∧ setting.Healthy after ∧
      after.row.rolloutPhase = .canary ∧ after.tick = none := by
  have isOpen : isOpenPhase state.row.rolloutPhase = true := by rw [phase]; rfl
  have same : (evaluation (setting.fleet state) setting.teamId state.row).phase = .preflight := phase
  have next : coordinateRow (evaluation (setting.fleet state) setting.teamId state.row) state.now
      state.row = state.row.advanced .canary 10 state.now := by
    rw [coordinateRow, if_pos same, if_pos isOpen]
  obtain ⟨reached, healthy⟩ := ticks healthy some isOpen free (le_refl _) next
  exact ⟨_, reached, healthy, rfl, rfl⟩

/-- The devices of the canary are through: they have what the row sends them, and their reports
are older than its phase. -/
def CanaryThrough (state : RolloutState) : Prop :=
  ∀ device ∈ setting.devices, setting.cohort device < 10 →
    state.etags device = some (setting.tools state.row device) ∧
    ∀ report, state.reports device = some report → report.rolloutId = some setting.seed →
      report.lastAttemptedAt < state.row.phaseStartedAt

theorem expand_of_canary (healthy : setting.Healthy state)
    (enough : canaryTarget setting.devices.length
      ≤ setting.devices.countP fun device => setting.cohort device < 10)
    (some : setting.devices ≠ []) (phase : state.row.rolloutPhase = .canary)
    (free : state.tick = none) :
    ∃ after, Reachable setting.rolloutNext state after ∧ setting.Healthy after ∧
      after.row.rolloutPhase = .expand ∧ after.tick = none ∧ setting.CanaryThrough after := by
  obtain ⟨polled, polls, healthy, round⟩ := exists_round healthy
  rw [← round.row] at phase
  have percent := healthy.stage.percent_eq.2.1 phase
  have attempted := countP_le_attempted polled
    (fun device => decide (setting.cohort device < 10)) fun device among waited =>
    heard_of_reported healthy among (round.reported_of_served healthy among (by rw [phase]; rfl)
      (percent ▸ of_decide_eq_true waited)) (.inl phase)
  rw [← eligible_fleet polled] at enough
  have elapsed : 30 * 60000 ≤ max (polled.now + 1) (polled.row.phaseStartedAt + 30 * 60000)
      - polled.row.phaseStartedAt := by omega
  obtain ⟨reached, healthy'⟩ := ticks healthy some (by rw [phase]; rfl) (round.tick.trans free)
    (by omega) (coordinateRow_canary phase rfl (failed_fleet healthy) elapsed
      (enough.trans (by rw [eligible_fleet]; exact attempted)))
  refine ⟨_, polls.trans reached, healthy', rfl, rfl, fun device among served => ⟨?_, ?_⟩⟩
  · rw [show RolloutState.etags _ device = polled.etags device from rfl, round.saved device among,
      ← round.row]
    exact congrArg Option.some (tools_eq healthy.row healthy'.row (by rw [phase]; rfl) rfl
      (by omega) (served.trans (by decide : 10 < 50)))
  · intro report found isSeed
    have past := (healthy.reports device among report found isSeed).past
    exact (Int.lt_add_one_of_le past).trans_le (le_max_left _ _)

theorem active_of_expand (healthy : setting.Healthy state)
    (enough : expandTarget setting.devices.length ≤ setting.devices.countP fun device =>
      10 ≤ setting.cohort device ∧ setting.cohort device < 50)
    (some : setting.devices ≠ []) (phase : state.row.rolloutPhase = .expand)
    (free : state.tick = none) :
    ∃ after, Reachable setting.rolloutNext state after ∧ setting.Healthy after ∧
      after.row.rolloutPhase = .active := by
  obtain ⟨polled, polls, healthy, round⟩ := exists_round healthy
  rw [← round.row] at phase
  have percent := healthy.stage.percent_eq.2.2 phase
  have attempted := countP_le_attempted polled
    (fun device => decide (10 ≤ setting.cohort device ∧ setting.cohort device < 50))
    fun device among waited => heard_of_reported healthy among
      (round.reported_of_served healthy among (by rw [phase]; rfl)
        (percent ▸ (of_decide_eq_true waited).2)) (.inr ⟨phase, (of_decide_eq_true waited).1⟩)
  rw [← eligible_fleet polled] at enough
  have elapsed : 60 * 60000 ≤ max polled.now (polled.row.phaseStartedAt + 60 * 60000)
      - polled.row.phaseStartedAt := by omega
  obtain ⟨reached, healthy'⟩ := ticks healthy some (by rw [phase]; rfl) (round.tick.trans free)
    (le_max_left _ _) (coordinateRow_expand phase rfl (failed_fleet healthy) elapsed
      (enough.trans (by rw [eligible_fleet]; exact attempted)))
  exact ⟨_, polls.trans reached, healthy', rfl⟩

theorem exists_advance_of_free (healthy : setting.Healthy state) (enough : setting.EnoughDevices)
    (isOpen : isOpenPhase state.row.rolloutPhase = true) (free : state.tick = none) : ∃ after,
      Reachable setting.rolloutNext state after ∧ setting.Healthy after ∧
        rank after.row.rolloutPhase < rank state.row.rolloutPhase := by
  have some : setting.devices ≠ [] := by
    intro empty
    have canary := (le_max_left _ _).trans enough.1
    rw [empty, List.countP_nil] at canary
    exact absurd canary (by decide)
  cases healthy.stage with
  | preflight phase =>
    obtain ⟨after, reached, healthy, next, -⟩ := canary_of_preflight healthy some phase free
    refine ⟨after, reached, healthy, ?_⟩
    rw [phase, next]
    decide
  | canary phase =>
    obtain ⟨after, reached, healthy, next, -⟩ :=
      expand_of_canary healthy enough.1 some phase free
    refine ⟨after, reached, healthy, ?_⟩
    rw [phase, next]
    decide
  | expand phase =>
    obtain ⟨after, reached, healthy, next⟩ := active_of_expand healthy enough.2 some phase free
    refine ⟨after, reached, healthy, ?_⟩
    rw [phase, next]
    decide
  | active phase =>
    rw [phase] at isOpen
    cases isOpen

/-- **The rollout goes on**, from each open phase. -/
theorem exists_advance (healthy : setting.Healthy state) (enough : setting.EnoughDevices)
    (isOpen : isOpenPhase state.row.rolloutPhase = true) : ∃ after,
      Reachable setting.rolloutNext state after ∧ setting.Healthy after ∧
        rank after.row.rolloutPhase < rank state.row.rolloutPhase := by
  cases free : state.tick with
  | none => exact exists_advance_of_free healthy enough isOpen free
  | some tick =>
    obtain ⟨counters, time⟩ := tick
    have moved := write_eq setting free
    have healthy' := healthy.write moved
    have step := written (healthy.tick counters time free)
    have first : Reachable setting.rolloutNext state _ := ReachableBy.start.step _ trivial moved
    generalize coordinateRow counters time state.row = row at step healthy' first
    cases step with
    | hold =>
      obtain ⟨after, reached, healthy, closer⟩ :=
        exists_advance_of_free healthy' enough isOpen rfl
      exact ⟨after, first.trans reached, healthy, closer⟩
    | canary phase =>
      refine ⟨_, first, healthy', ?_⟩
      rw [phase]
      exact (by decide : rank .canary < rank .preflight)
    | expand phase =>
      refine ⟨_, first, healthy', ?_⟩
      rw [phase]
      exact (by decide : rank .expand < rank .canary)
    | active phase =>
      refine ⟨_, first, healthy', ?_⟩
      rw [phase]
      exact (by decide : rank .active < rank .expand)

theorem completes (healthy : setting.Healthy state) (enough : setting.EnoughDevices) :
    ∃ final, Reachable setting.rolloutNext state final ∧ setting.Completed final := by
  induction left : rank state.row.rolloutPhase using Nat.strong_induction_on generalizing state with
  | h left ih =>
    subst left
    by_cases isOpen : isOpenPhase state.row.rolloutPhase = true
    · obtain ⟨after, reached, healthy, closer⟩ := exists_advance healthy enough isOpen
      obtain ⟨final, goesOn, completed⟩ := ih _ closer healthy rfl
      exact ⟨final, reached.trans goesOn, completed⟩
    · refine ⟨state, .start, ?_⟩
      cases healthy.stage with
      | active phase percent good => exact ⟨phase, percent, healthy.row.target, good⟩
      | preflight phase | canary phase | expand phase =>
        rw [phase] at isOpen
        exact absurd rfl isOpen

/-! ### Dead ends -/

theorem of_heard (healthy : setting.Healthy state) (among : device ∈ setting.devices)
    (heard : state.heard device = true) : setting.cohort device < state.row.rolloutPercent ∧
      ∃ report, state.reports device = some report ∧ report.rolloutId = some setting.seed ∧
        state.row.phaseStartedAt ≤ report.lastAttemptedAt := by
  unfold RolloutState.heard at heard
  cases found : state.reports device with
  | none =>
    rw [found] at heard
    cases heard
  | some report =>
    rw [found] at heard
    simp only [Option.map_some, Option.getD_some, Bool.and_eq_true, beq_iff_eq,
      decide_eq_true_eq] at heard
    have isSeed := heard.1.1.trans (congrArg some healthy.row.seed)
    exact ⟨(healthy.reports device among report found isSeed).served, report, rfl, isSeed, heard.2⟩

def Counts (setting : RolloutSetting) (kind : DeviceRow → Bool) (state : RolloutState) : Prop :=
  ∀ counters time, state.tick = some (counters, time) →
    counters.attempted ≤ setting.devices.countP kind

theorem counts_of_heard {kind : DeviceRow → Bool}
    (heard : ∀ device ∈ setting.devices, state.heard device = true → kind device = true)
    (moved : setting.rolloutNext state (.list time) = some after) : setting.Counts kind after := by
  rw [rolloutNext] at moved
  split at moved
  case isFalse => cases moved
  case isTrue =>
    cases moved
    intro counters time' listed
    obtain ⟨-, -, rfl⟩ := of_listed listed
    rw [evaluation, attempted_fleet]
    exact List.countP_mono_left heard

structure InCanary (state : RolloutState) : Prop where
  healthy : setting.Healthy state
  phase : state.row.rolloutPhase = .preflight ∨ state.row.rolloutPhase = .canary
  counts : setting.Counts (fun device => setting.cohort device < 10) state

/-- **With too few devices in the canary, the rollout stays there.** -/
theorem InCanary.next (few : setting.devices.countP (fun device => setting.cohort device < 10)
      < canaryTarget setting.devices.length)
    (canary : setting.InCanary state) (action : RolloutAction)
    (moved : setting.rolloutNext state action = some after) : setting.InCanary after := by
  have healthy := healthy_next canary.healthy action moved
  cases action with
  | list time =>
    refine ⟨healthy, ?_, counts_of_heard (fun device among heard => ?_) moved⟩
    · rw [rolloutNext] at moved
      split at moved
      case isFalse => cases moved
      case isTrue =>
        cases moved
        exact canary.phase
    · have served := (of_heard canary.healthy among heard).1
      obtain phase | phase := canary.phase
      · rw [canary.healthy.stage.percent_eq.1 phase] at served
        exact absurd served (Nat.not_lt_zero _)
      · rw [canary.healthy.stage.percent_eq.2.1 phase] at served
        exact decide_eq_true served
  | write =>
    obtain ⟨⟨counters, time⟩, tick, rfl⟩ := Option.map_eq_some_iff.mp moved
    have isTick := canary.healthy.tick counters time tick
    refine ⟨healthy, ?_, nofun⟩
    have step := written isTick
    dsimp only
    generalize coordinateRow counters time state.row = row at step ⊢
    cases step with
    | hold => exact canary.phase
    | canary => exact .inr rfl
    | expand phase enough =>
      rw [isTick.eligible] at enough
      exact absurd (enough.trans (canary.counts counters time tick)) (not_le.mpr few)
    | active phase =>
      obtain other | other := canary.phase
      · cases phase.symm.trans other
      · cases phase.symm.trans other
  | poll device time =>
    have inverted := poll_cases canary.healthy.row moved
    obtain ⟨-, -, reports, rfl, -⟩ := inverted
    exact ⟨healthy, canary.phase, canary.counts⟩

/-- A rollout that waits in the expand phase, with the devices of the canary through. -/
structure InExpand (state : RolloutState) : Prop where
  healthy : setting.Healthy state
  phase : state.row.rolloutPhase = .expand
  through : setting.CanaryThrough state
  counts : setting.Counts
    (fun device => 10 ≤ setting.cohort device ∧ setting.cohort device < 50) state

/-- **With too few devices that the expand phase adds, the rollout stays there**: those of the
canary get no manifest any more. -/
theorem InExpand.next (few : setting.devices.countP (fun device =>
      10 ≤ setting.cohort device ∧ setting.cohort device < 50)
      < expandTarget setting.devices.length)
    (expand : setting.InExpand state) (action : RolloutAction)
    (moved : setting.rolloutNext state action = some after) : setting.InExpand after := by
  have healthy := healthy_next expand.healthy action moved
  cases action with
  | list time =>
    have heard (device : DeviceRow) (among : device ∈ setting.devices)
        (heard : state.heard device = true) :
        decide (10 ≤ setting.cohort device ∧ setting.cohort device < 50) = true := by
      obtain ⟨served, report, found, isSeed, since⟩ := of_heard expand.healthy among heard
      rw [expand.healthy.stage.percent_eq.2.2 expand.phase] at served
      refine decide_eq_true ⟨?_, served⟩
      by_contra below
      have old := (expand.through device among (not_le.mp below)).2 report found isSeed
      exact absurd since (not_le.mpr old)
    have counts := counts_of_heard heard moved
    rw [rolloutNext] at moved
    split at moved
    case isFalse => cases moved
    case isTrue =>
      cases moved
      exact ⟨healthy, expand.phase, expand.through, counts⟩
  | write =>
    obtain ⟨⟨counters, time⟩, tick, rfl⟩ := Option.map_eq_some_iff.mp moved
    have isTick := expand.healthy.tick counters time tick
    have step := written isTick
    have through := expand.through
    dsimp only at healthy ⊢
    generalize coordinateRow counters time state.row = row at step healthy ⊢
    cases step with
    | hold => exact ⟨healthy, expand.phase, expand.through, nofun⟩
    | canary phase => cases phase.symm.trans expand.phase
    | expand phase => cases phase.symm.trans expand.phase
    | active phase enough =>
      rw [isTick.eligible] at enough
      exact absurd (enough.trans (expand.counts counters time tick)) (not_le.mpr few)
  | poll device time =>
    have inverted := poll_cases expand.healthy.row moved
    obtain ⟨-, among, reports, rfl, others, own⟩ := inverted
    refine ⟨healthy, expand.phase, fun other isOther below => ?_, expand.counts⟩
    have through := expand.through other isOther below
    by_cases same : other = device
    · subst same
      refine ⟨Function.update_self _ _ _, ?_⟩
      obtain ⟨kept, -⟩ | ⟨-, changed, -⟩ := own
      · intro report found
        exact through.2 report (kept.symm.trans found)
      · exact absurd through.1 changed
    · refine ⟨(Function.update_of_ne same _ _).trans through.1, fun report found => ?_⟩
      exact through.2 report ((others other same).symm.trans found)

def fresh (setting : RolloutSetting) : RolloutState where
  row :=
    { targetVersionId := setting.versionId
      lastKnownGoodVersionId := none
      rolloutPhase := .preflight
      rolloutPercent := 0
      rolloutSeed := setting.seed
      phaseStartedAt := 0
      enabled := true }
  now := 0
  tick := none
  etags _ := none
  reports _ := none

theorem enters_fresh (setting : RolloutSetting) : setting.Enters setting.fresh :=
  ⟨rfl, rfl, rfl, rfl, rfl, le_refl _, rfl, nofun, nofun⟩

theorem not_neverStuck (few : ¬ setting.EnoughDevices) : ¬ setting.NeverStuck := by
  intro never
  have enters := enters_fresh setting
  have healthy := healthy_of_enters enters
  by_cases enough : canaryTarget setting.devices.length
      ≤ setting.devices.countP fun device => setting.cohort device < 10
  · have lacks := fun added => few ⟨enough, added⟩
    have some : setting.devices ≠ [] := by
      intro empty
      have canary := (le_max_left _ _).trans enough
      rw [empty, List.countP_nil] at canary
      exact absurd canary (by decide)
    obtain ⟨canary, first, healthy, phase, free⟩ := canary_of_preflight healthy some rfl rfl
    obtain ⟨expand, second, healthy, phase, free, through⟩ :=
      expand_of_canary healthy enough some phase free
    have waits : setting.InExpand expand := by
      refine ⟨healthy, phase, through, ?_⟩
      rw [Counts, free]
      nofun
    obtain ⟨final, reached, active, -⟩ := never _ enters _ (first.trans second)
    have stays := Reachable.invariant setting.InExpand waits
      (fun _ action _ waits moved => waits.next (not_le.mp lacks) action moved) reached
    cases stays.phase.symm.trans active
  · have waits : setting.InCanary setting.fresh := ⟨healthy, .inl rfl, nofun⟩
    obtain ⟨final, reached, active, -⟩ := never _ enters _ .start
    have stays := Reachable.invariant setting.InCanary waits
      (fun _ action _ waits moved => waits.next (not_le.mp enough) action moved) reached
    obtain phase | phase := stays.phase
    · cases phase.symm.trans active
    · cases phase.symm.trans active

end Steps

/-- **A rollout is never stuck exactly if there are enough devices**: the canary's share of all
devices below ten percent, and the expand phase's share between ten and fifty. -/
theorem never_stuck_iff (setting : RolloutSetting) :
    setting.NeverStuck ↔ setting.EnoughDevices := by
  constructor
  · intro never
    by_contra few
    exact not_neverStuck few never
  · intro enough start enters state reached
    have healthy := Reachable.invariant setting.Healthy (healthy_of_enters enters)
      (fun _ action _ healthy moved => healthy_next healthy action moved) reached
    exact completes healthy enough

/-- A team with one device, which the hash puts at sixty-four percent. -/
def loneDevice : RolloutSetting where
  teamId := "t1"
  catalogItemId := "c1"
  versionId := "v1"
  seed := "00000000-0000-0000-0000-000000000001"
  devices := [{ userId := "u1", tokenId := "k1", fingerprint := String.ofList (List.replicate 64 'a') }]
  preferences _ := []
  others := nofun

set_option maxRecDepth 8000 in
/-- The canary of this team waits for a report that no device will send. -/
theorem lone_device_stuck : loneDevice.devices ≠ [] ∧ ¬ loneDevice.NeverStuck := by
  have outside : loneDevice.devices.countP (fun device => loneDevice.cohort device < 10) = 0 := by
    decide
  refine ⟨List.cons_ne_nil _ _, not_neverStuck fun enough => ?_⟩
  have canary := (le_max_left _ _).trans enough.1
  rw [outside] at canary
  exact absurd canary (by decide)

end RolloutSetting

end Toard.Deployment
