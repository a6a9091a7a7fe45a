/-
**What a staged rollout does to the devices that have the tool.**

A device that polls gets the manifest of the moment, and removes what it has and the manifest does not
list. A new target takes the item out of the manifest of every device until the new rollout reaches
the device: there is no phase in which the others are offered the last known good version.

* **`tool_never_taken`**: then the device is offered the item at every poll.
-/

import Toard.Deployment.Approval
import Toard.Deployment.Coordination
import Toard.Deployment.Desired

namespace Toard.Deployment

open Toard.Library

structure OfferState where
  coordination : CoordinationState
  seeds : List String
  /-- The rollouts that have installed an item on a device since the device last had none. -/
  installed : String → String → List String

structure Poll where
  userId : String
  fingerprint : String
  preferences : List ToolPreference
  lifecycle : String → Option ToolCatalogLifecycle
  versions : String → Option ToolVersion

inductive OfferAction where
  | coordination (action : CoordinationAction)
  | poll (request : Poll)

namespace OfferState

def initial : OfferState where
  coordination := .initial
  seeds := []
  installed := fun _ _ => []

end OfferState

def keptRollouts (tools : List DesiredTool) (catalogItemId : String) (before : List String) :
    List String :=
  match tools.find? fun entry => entry.catalogItemId == catalogItemId with
  | none => []
  | some entry => entry.rolloutId.toList ++ before

section System

variable (newUrl : String → Option Url) (teamId : String)

def pollContext (state : OfferState) (request : Poll) : ResolveDesiredInput :=
  getDeviceContext state.coordination.policies request.lifecycle teamId request.userId
    request.fingerprint request.preferences

/-- A new target gets a seed that no other has; a poll that fails changes nothing on the device. -/
def offerNext (state : OfferState) : OfferAction → Option OfferState
  | .coordination (.save key versionId approvalRequired seed now) =>
    if seed ∈ state.seeds then none
    else
      (coordinationNext state.coordination (.save key versionId approvalRequired seed now)).map
        fun coordination => { state with coordination, seeds := seed :: state.seeds }
  | .coordination action =>
    (coordinationNext state.coordination action).map
      fun coordination => { state with coordination }
  | .poll request =>
    match buildDeviceManifest newUrl request.versions (pollContext teamId state request) with
    | none => some state
    | some items =>
      some { state with
        installed := Function.update state.installed request.fingerprint fun catalogItemId =>
          keptRollouts (items.map Prod.fst) catalogItemId
            (state.installed request.fingerprint catalogItemId) }

end System

def Reaches (row : PolicyRow) (fingerprint : String) : Prop :=
  isServingPhase row.rolloutPhase = true ∧
    rolloutCohortPercent row.rolloutSeed fingerprint < row.rolloutPercent

/-- The item stays enabled and published, and the user does not exclude it. -/
structure Wanted (teamId : String) (state : OfferState) (request : Poll) (catalogItemId : String) :
    Prop where
  enabled : ∀ row, state.coordination.policies.get (teamId, catalogItemId) = some row →
    row.enabled = true
  served : isServed request.lifecycle catalogItemId = true
  included : catalogItemId ∉ excludedIds (pollContext teamId state request)

/-- A device that has an item from earlier rollouts polls only when the present one has reached it. -/
def PollsInTurn (teamId : String) (state : OfferState) (request : Poll) : Prop :=
  ∀ catalogItemId row, state.installed request.fingerprint catalogItemId ≠ [] →
    Wanted teamId state request catalogItemId →
    chosenInstall (pollContext teamId state request) catalogItemId = none →
    state.coordination.policies.get (teamId, catalogItemId) = some row →
    row.rolloutSeed ∉ state.installed request.fingerprint catalogItemId →
    Reaches row request.fingerprint

/-- The next write of a tick does not lower the percent of the rollout it moves on. -/
def LowersNothing (state : CoordinationState) (number : Nat) : Prop :=
  (match state.ticks[number]? with
    | some { now, remaining := rollout :: _ } =>
      match movesTo rollout.counters now, state.policies.get rollout.key with
      | some (_, percent), some row =>
        !isOpenPhase row.rolloutPhase || decide (row.rolloutPercent ≤ percent)
      | _, _ => true
    | _ => true) = true

instance (state : CoordinationState) (number : Nat) : Decidable (LowersNothing state number) :=
  inferInstanceAs (Decidable (_ = true))

def KeepsTurns (teamId : String) (state : OfferState) : OfferAction → Prop
  | .coordination (.write number) => LowersNothing state.coordination number
  | .coordination _ => True
  | .poll request => PollsInTurn teamId state request

/-! ### The invariant -/

section Invariant

variable {newUrl : String → Option Url} {teamId : String} {state : OfferState}

/-- A row whose rollout has installed the item on a device still serves the device, if it is
enabled. -/
def KeepsServing (teamId : String) (installed : String → String → List String) (key : PolicyKey)
    (row : PolicyRow) : Prop :=
  key.1 = teamId → ∀ fingerprint, row.rolloutSeed ∈ installed fingerprint key.2 →
    row.enabled = true → Reaches row fingerprint

structure OffersSound (teamId : String) (state : OfferState) : Prop where
  drawn : ∀ fingerprint catalogItemId seed, seed ∈ state.installed fingerprint catalogItemId →
    seed ∈ state.seeds
  stays : ∀ fingerprint catalogItemId, state.installed fingerprint catalogItemId ≠ [] →
    (state.coordination.policies.get (teamId, catalogItemId)).isSome = true
  serves : ∀ key row, state.coordination.policies.get key = some row →
    row.rolloutSeed ∈ state.seeds ∧ KeepsServing teamId state.installed key row

theorem offersSound_initial : OffersSound teamId .initial :=
  ⟨fun _ _ _ among => absurd among List.not_mem_nil, fun _ _ some => absurd rfl some,
    fun _ _ found => nomatch found⟩

theorem OffersSound.of_policies (sound : OffersSound teamId state) {coordination : CoordinationState}
    (stays : ∀ key, (state.coordination.policies.get key).isSome = true →
      (coordination.policies.get key).isSome = true)
    (serves : ∀ key row, coordination.policies.get key = some row →
      row.rolloutSeed ∈ state.seeds ∧ KeepsServing teamId state.installed key row) :
    OffersSound teamId { state with coordination } :=
  ⟨sound.drawn, fun fingerprint catalogItemId some =>
    stays _ (sound.stays fingerprint catalogItemId some), serves⟩

/-- **A rollout that goes on without lowering its percent still serves its devices.** -/
theorem KeepsServing.advanced {installed : String → String → List String} {key : PolicyKey}
    {row : PolicyRow} (serves : KeepsServing teamId installed key row) {counters : RolloutEvaluation}
    {now : Int} {phase : ToolRolloutPhase} {percent : Nat}
    (moves : movesTo counters now = some (phase, percent)) (keeps : row.rolloutPercent ≤ percent) :
    KeepsServing teamId installed key (row.advanced phase percent now) := by
  intro isTeam fingerprint among enabled
  refine ⟨?_, (serves isTeam fingerprint among enabled).2.trans_le keeps⟩
  show isServingPhase phase = true
  unfold movesTo at moves
  split at moves
  case isTrue =>
    cases moves
    rfl
  case isFalse =>
    split at moves
    case h_2 => cases moves
    case h_1 decided =>
      cases moves
      rcases (evaluateRollout_advance decided).2 with ⟨_, _, _, rfl, _⟩ | ⟨_, _, _, rfl, _⟩ <;> rfl

theorem keepsServing_rolledBack (installed : String → String → List String) (key : PolicyKey)
    (row : PolicyRow) (now : Int) : KeepsServing teamId installed key (row.rolledBack now) := by
  intro isTeam fingerprint among enabled
  unfold PolicyRow.rolledBack at enabled ⊢
  cases known : row.lastKnownGoodVersionId with
  | none =>
    rw [known] at enabled
    cases enabled
  | some version => exact ⟨rfl, rolloutCohortPercent_lt _ _⟩

theorem OffersSound.approve (sound : OffersSound teamId state) (actor : SessionUser)
    (catalogItemId : String) (now : Int) :
    (∀ key, (state.coordination.policies.get key).isSome = true →
      ((approveTeamRollout actor catalogItemId now state.coordination.policies).get key).isSome
        = true) ∧
    ∀ key row,
      (approveTeamRollout actor catalogItemId now state.coordination.policies).get key = some row →
      row.rolloutSeed ∈ state.seeds ∧ KeepsServing teamId state.installed key row := by
  unfold approveTeamRollout
  split
  case h_1 => exact ⟨fun _ => id, sound.serves⟩
  case h_2 =>
    split
    case isFalse => exact ⟨fun _ => id, sound.serves⟩
    case isTrue =>
      refine ⟨fun key isRow => by rwa [isSome_updateWhere],
        forall_updateWhere sound.serves fun row found paused => ?_⟩
      obtain ⟨drawn, serves⟩ := sound.serves _ row found
      refine ⟨drawn, fun isTeam fingerprint among enabled => ?_⟩
      have serving := (serves isTeam fingerprint among enabled).1
      rw [beq_iff_eq.mp paused] at serving
      cases serving

theorem OffersSound.coordinationStep (sound : OffersSound teamId state) {action : CoordinationAction}
    (noSave : ∀ key versionId approvalRequired seed now,
      action ≠ .save key versionId approvalRequired seed now)
    (keeps : KeepsTurns teamId state (.coordination action)) {coordination : CoordinationState}
    (moved : coordinationNext state.coordination action = some coordination) :
    OffersSound teamId { state with coordination } := by
  cases action with
  | save key versionId approvalRequired seed now => exact absurd rfl (noSave _ _ _ _ _)
  | approve actor catalogItemId now =>
    cases moved
    obtain ⟨stays, serves⟩ := sound.approve actor catalogItemId now
    exact sound.of_policies stays serves
  | list fleet now =>
    cases moved
    exact sound.of_policies (fun _ => id) sound.serves
  | stop number =>
    cases moved
    exact sound.of_policies (fun _ => id) sound.serves
  | write number =>
    simp only [coordinationNext] at moved
    split at moved
    case h_2 => cases moved
    case h_1 now rollout remaining underway =>
      cases moved
      refine sound.of_policies (fun key isRow => by rwa [isSome_coordinate])
        (forall_coordinate sound.serves (fun phase percent moves row found isOpen => ?_)
          fun row found => ⟨(sound.serves _ row found).1, keepsServing_rolledBack _ _ _ _⟩)
      obtain ⟨drawn, serves⟩ := sound.serves _ row found
      have keeps : row.rolloutPercent ≤ percent := by
        have lowers : LowersNothing state.coordination number := keeps
        simpa [LowersNothing, underway, moves, found, isOpen] using lowers
      exact ⟨drawn, serves.advanced moves keeps⟩

theorem OffersSound.save (sound : OffersSound teamId state) {key : PolicyKey}
    {versionId seed : String} {approvalRequired : Bool} {now : Int} (fresh : seed ∉ state.seeds)
    {coordination : CoordinationState}
    (moved : coordinationNext state.coordination (.save key versionId approvalRequired seed now)
      = some coordination) :
    OffersSound teamId { state with coordination, seeds := seed :: state.seeds } := by
  cases moved
  refine ⟨fun fingerprint catalogItemId other among =>
    List.mem_cons_of_mem _ (sound.drawn fingerprint catalogItemId other among),
    fun fingerprint catalogItemId some => ?_, fun other row found => ?_⟩
  · show ((OrderedMap.set _ _ _).get _).isSome = true
    rw [OrderedMap.get_set]
    split
    case isTrue => rfl
    case isFalse => exact sound.stays fingerprint catalogItemId some
  · change (OrderedMap.set _ _ _).get _ = _ at found
    rw [OrderedMap.get_set] at found
    split at found
    case isFalse =>
      obtain ⟨drawn, serves⟩ := sound.serves other row found
      exact ⟨List.mem_cons_of_mem _ drawn, serves⟩
    case isTrue =>
      cases found
      exact ⟨List.mem_cons_self, fun _ fingerprint among _ =>
        absurd (sound.drawn fingerprint other.2 seed among) fresh⟩

theorem mem_keptRollouts {tools : List DesiredTool} {catalogItemId seed : String}
    {before : List String} (among : seed ∈ keptRollouts tools catalogItemId before) :
    seed ∈ before ∨ ∃ entry ∈ tools, entry.catalogItemId = catalogItemId ∧
      entry.rolloutId = some seed := by
  unfold keptRollouts at among
  split at among
  case h_1 => cases among
  case h_2 entry found =>
    rcases List.mem_append.mp among with now | earlier
    · have same := List.find?_some found
      exact .inr ⟨entry, List.mem_of_find?_eq_some found, by simpa using same,
        Option.mem_toList.mp now⟩
    · exact .inl earlier

theorem OffersSound.poll (sound : OffersSound teamId state) {request : Poll} {after : OfferState}
    (moved : offerNext newUrl teamId state (.poll request) = some after) :
    OffersSound teamId after := by
  simp only [offerNext] at moved
  split at moved
  case h_1 =>
    cases moved
    exact sound
  case h_2 items built =>
    cases moved
    have tools := buildDeviceManifest_eq built
    -- what is installed afterwards was so before or comes from the row of this moment
    have earlier : ∀ fingerprint catalogItemId seed,
        seed ∈ Function.update state.installed request.fingerprint (fun catalogItemId =>
          keptRollouts (items.map Prod.fst) catalogItemId
            (state.installed request.fingerprint catalogItemId)) fingerprint catalogItemId →
        seed ∈ state.installed fingerprint catalogItemId ∨
          fingerprint = request.fingerprint ∧ ∃ row,
            state.coordination.policies.get (teamId, catalogItemId) = some row ∧
            row.rolloutSeed = seed ∧ Reaches row fingerprint := by
      intro fingerprint catalogItemId seed among
      by_cases here : fingerprint = request.fingerprint
      · subst here
        rw [Function.update_self] at among
        rcases mem_keptRollouts among with before | ⟨entry, isEntry, rfl, isSeed⟩
        · exact .inl before
        · rw [tools] at isEntry
          obtain ⟨policy, found, same, below⟩ := reached_of_mem isEntry isSeed
          obtain ⟨row, isRow, -, -, serving, rfl⟩ := mapGet_teamPolicies.mp found
          exact .inr ⟨rfl, row, isRow, same, serving, below⟩
      · rw [Function.update_of_ne here] at among
        exact .inl among
    refine ⟨fun fingerprint catalogItemId seed among => ?_, fun fingerprint catalogItemId some => ?_,
      fun key row found => ⟨(sound.serves key row found).1,
        fun isTeam fingerprint among enabled => ?_⟩⟩
    · rcases earlier fingerprint catalogItemId seed among with before | ⟨-, row, isRow, rfl, -⟩
      · exact sound.drawn fingerprint catalogItemId seed before
      · exact (sound.serves _ row isRow).1
    · obtain ⟨seed, among⟩ := List.exists_mem_of_ne_nil _ some
      rcases earlier fingerprint catalogItemId seed among with before | ⟨-, row, isRow, -⟩
      · exact sound.stays fingerprint catalogItemId (List.ne_nil_of_mem before)
      · exact Option.isSome_iff_exists.mpr ⟨row, isRow⟩
    · rcases earlier fingerprint key.2 _ among with before | ⟨-, other, isOther, -, reaches⟩
      · exact (sound.serves key row found).2 isTeam fingerprint before enabled
      · rw [← isTeam] at isOther
        rwa [Option.some_inj.mp (found.symm.trans isOther)]

theorem OffersSound.step (sound : OffersSound teamId state) {action : OfferAction}
    (keeps : KeepsTurns teamId state action) {after : OfferState}
    (moved : offerNext newUrl teamId state action = some after) : OffersSound teamId after := by
  cases action with
  | poll request => exact sound.poll moved
  | coordination action =>
    cases action with
    | save key versionId approvalRequired seed now =>
      simp only [offerNext] at moved
      split at moved
      case isTrue => cases moved
      case isFalse fresh =>
        obtain ⟨coordination, went, rfl⟩ := Option.map_eq_some_iff.mp moved
        exact sound.save fresh went
    | approve actor catalogItemId now =>
      simp only [offerNext] at moved
      obtain ⟨coordination, went, rfl⟩ := Option.map_eq_some_iff.mp moved
      exact sound.coordinationStep (fun _ _ _ _ _ => by simp) keeps went
    | list fleet now =>
      simp only [offerNext] at moved
      obtain ⟨coordination, went, rfl⟩ := Option.map_eq_some_iff.mp moved
      exact sound.coordinationStep (fun _ _ _ _ _ => by simp) keeps went
    | write number =>
      simp only [offerNext] at moved
      obtain ⟨coordination, went, rfl⟩ := Option.map_eq_some_iff.mp moved
      exact sound.coordinationStep (fun _ _ _ _ _ => by simp) keeps went
    | stop number =>
      simp only [offerNext] at moved
      obtain ⟨coordination, went, rfl⟩ := Option.map_eq_some_iff.mp moved
      exact sound.coordinationStep (fun _ _ _ _ _ => by simp) keeps went

end Invariant

/-! ### Every run -/

/-- **A staged rollout takes no tool away**, in every run of ticks, administrators and polls where
devices that have an item from earlier rollouts poll only when the present one has reached them, and no
write lowers the percent of a rollout: a device on which a rollout has installed an item is offered
it at every poll, as long as it is enabled, published and not excluded. -/
theorem tool_never_taken {newUrl : String → Option Url} {teamId : String} {state : OfferState}
    (reached : ReachableBy (offerNext newUrl teamId) (KeepsTurns teamId) .initial state)
    {request : Poll} (inTurn : PollsInTurn teamId state request) {catalogItemId : String}
    (installed : state.installed request.fingerprint catalogItemId ≠ [])
    (wanted : Wanted teamId state request catalogItemId) :
    Offered (resolveDesiredTools (pollContext teamId state request)) catalogItemId := by
  have sound : OffersSound teamId state := reached.invariant _ offersSound_initial
    fun _ _ _ sound keeps moved => sound.step keeps moved
  refine offered_of_reached wanted.included fun unchosen => ?_
  obtain ⟨row, found⟩ := Option.isSome_iff_exists.mp (sound.stays _ _ installed)
  have enabled := wanted.enabled row found
  have reaches : Reaches row request.fingerprint := by
    by_cases present : row.rolloutSeed ∈ state.installed request.fingerprint catalogItemId
    · exact (sound.serves _ row found).2 rfl _ present enabled
    · exact inTurn catalogItemId row installed wanted unchosen found present
  exact ⟨_, mapGet_teamPolicies.mpr ⟨row, found, wanted.served, enabled, reaches.1, rfl⟩, reaches.2⟩

/-! ### One tool, two versions -/

def plainPoll (fingerprint : String) : Poll where
  userId := "user-1"
  fingerprint := fingerprint
  preferences := []
  lifecycle := fun _ => some .published
  versions := issueTrackerVersions

theorem plainPoll_wanted {state : OfferState} {fingerprint : String} {row : PolicyRow}
    (found : state.coordination.policies.get ("team-1", "item-1") = some row)
    (enabled : row.enabled = true) : Wanted "team-1" state (plainPoll fingerprint) "item-1" where
  enabled other isOther := by rwa [Option.some_inj.mp (isOther.symm.trans found)]
  served := rfl
  included := List.not_mem_nil

/-- **The update of an active tool takes it away**: the first version is active and installed, the
leader sets the second one, and the device's next poll lists nothing. -/
theorem update_takes_tool : ∃ state : OfferState,
    Reachable (offerNext codeloadUrl "team-1") .initial state ∧
    state.installed "fingerprint-1" "item-1" ≠ [] ∧
    Wanted "team-1" state (plainPoll "fingerprint-1") "item-1" ∧
    ¬ Offered (resolveDesiredTools (pollContext "team-1" state (plainPoll "fingerprint-1")))
      "item-1" := by
  have facts : ((run (offerNext codeloadUrl "team-1") .initial
      (stagesOfFirst.map .coordination ++ [.coordination (.write 0),
        .poll (plainPoll "fingerprint-1"), .coordination
          (.save ("team-1", "item-1") "v2" false "seed-2" 6000000)])).any fun state =>
      state.installed "fingerprint-1" "item-1" == ["seed-1"] &&
      (state.coordination.policies.get ("team-1", "item-1")).any (fun row => row.enabled) &&
      resolveItem (pollContext "team-1" state (plainPoll "fingerprint-1")) "item-1" == []) = true := by
    decide +kernel
  obtain ⟨state, ends, holds⟩ := (Option.any_eq_true _ _).mp facts
  rw [Bool.and_eq_true, Bool.and_eq_true, beq_iff_eq, beq_iff_eq] at holds
  obtain ⟨row, found, enabled⟩ := (Option.any_eq_true _ _).mp holds.1.2
  refine ⟨state, Reachable.of_run _ ends, ?_, plainPoll_wanted found enabled, ?_⟩
  · rw [holds.1.1]
    exact List.cons_ne_nil _ _
  · rw [offered_iff, not_not]
    exact holds.2

def withoutPolls (state : OfferState) : OfferAction → Bool
  | .coordination (.write number) => decide (LowersNothing state.coordination number)
  | .coordination _ => true
  | .poll _ => false

theorem keepsTurns_of_withoutPolls (teamId : String) (state : OfferState) (action : OfferAction)
    (quiet : withoutPolls state action = true) : KeepsTurns teamId state action := by
  cases action with
  | poll request => cases quiet
  | coordination action =>
    cases action with
    | write number =>
      show LowersNothing state.coordination number
      exact of_decide_eq_true quiet
    | save => trivial
    | approve => trivial
    | list => trivial
    | stop => trivial

theorem installed_of_withoutPolls {newUrl : String → Option Url} {teamId : String} {state : OfferState}
    (reached : ReachableBy (offerNext newUrl teamId)
      (fun state action => withoutPolls state action = true) .initial state) :
    state.installed = fun _ _ => [] := by
  refine reached.invariant (fun state => state.installed = fun _ _ => []) rfl
    fun before action after empty quiet moved => ?_
  cases action with
  | poll request => cases quiet
  | coordination action =>
    unfold offerNext at moved
    split at moved
    case h_1 =>
      split at moved
      case isTrue => cases moved
      case isFalse =>
        obtain ⟨_, -, rfl⟩ := Option.map_eq_some_iff.mp moved
        exact empty
    case h_2 =>
      obtain ⟨_, -, rfl⟩ := Option.map_eq_some_iff.mp moved
      exact empty
    case h_3 same => cases same

/-- A device of the canary keeps its tool: it is offered the item at its next poll. -/
theorem canary_keeps_tool : ∃ state : OfferState,
    state.installed "fingerprint-0" "item-1" = ["seed-1"] ∧
    Offered (resolveDesiredTools (pollContext "team-1" state (plainPoll "fingerprint-0")))
      "item-1" := by
  have facts : ((checkedRun (offerNext codeloadUrl "team-1")
      (fun state action => withoutPolls state action = true) .initial
      ((stagesOfFirst.take 3).map .coordination)).any fun before =>
        (offerNext codeloadUrl "team-1" before (.poll (plainPoll "fingerprint-0"))).any fun state =>
          state.installed "fingerprint-0" "item-1" == ["seed-1"] &&
          state.coordination.policies.entries.map (fun entry =>
            (entry.1, entry.2.enabled, entry.2.rolloutSeed)) ==
              [(("team-1", "item-1"), true, "seed-1")]) = true := by
    decide +kernel
  obtain ⟨before, quiet, facts⟩ := (Option.any_eq_true _ _).mp facts
  obtain ⟨state, polled, holds⟩ := (Option.any_eq_true _ _).mp facts
  rw [Bool.and_eq_true, beq_iff_eq, beq_iff_eq] at holds
  have only (item : String) (row : PolicyRow)
      (found : state.coordination.policies.get ("team-1", item) = some row) :
      item = "item-1" ∧ row.enabled = true ∧ row.rolloutSeed = "seed-1" := by
    have among := List.mem_map_of_mem (f := fun entry : PolicyKey × PolicyRow =>
      (entry.1, entry.2.enabled, entry.2.rolloutSeed)) (OrderedMap.get_eq_some.mp found)
    rw [holds.2, List.mem_singleton] at among
    simpa using among
  have first := ReachableBy.of_checkedRun _ quiet
  have reached : ReachableBy (offerNext codeloadUrl "team-1") (KeepsTurns "team-1") .initial state := by
    refine .step _ (first.mono (keepsTurns_of_withoutPolls "team-1")) ?_ polled
    intro item row some
    exact absurd (by rw [installed_of_withoutPolls first]) some
  have installed : state.installed "fingerprint-0" "item-1" ≠ [] := by
    rw [holds.1]
    exact List.cons_ne_nil _ _
  obtain ⟨row, found⟩ := Option.isSome_iff_exists.mp <|
    (reached.invariant _ offersSound_initial fun _ _ _ sound keeps moved =>
      sound.step keeps moved).stays "fingerprint-0" "item-1" installed
  refine ⟨state, holds.1, tool_never_taken reached ?_ installed
    (plainPoll_wanted found (only _ row found).2.1)⟩
  intro item other _ _ _ isOther new
  obtain ⟨rfl, -, seed⟩ := only item other isOther
  refine absurd ?_ new
  show other.rolloutSeed ∈ state.installed "fingerprint-0" "item-1"
  rw [holds.1, seed]
  exact List.mem_singleton_self _

end Toard.Deployment
