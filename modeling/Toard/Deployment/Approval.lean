/-
**What the approval of permission changes guarantees over the history of a policy.**

Each change of a team's policy is compared with the last known good version of that moment, which the
coordinator moves on in between.

* **`escalations_need_approval`**: when the check misses an escalation, that it never does so in what
  it compares, and what this means for policies that only ever went to preflight.
-/

import Toard.Library.Transition
import Toard.Deployment.Policy

namespace Toard.Deployment

open Toard.Library

inductive PolicyAction where
  | mutate (actor : SessionUser) (versionId seed : String) (now : Int)
  | approve (actor : SessionUser) (now : Int)
  | advance (phase : ToolRolloutPhase) (percent : Nat) (now : Int)
  | rollback (now : Int)

section History

variable (newUrl : String → Option Url) (versions : String → Option ToolVersion)
  (teamId catalogItemId : String)

/-- The table after an action. A change that is refused with an error does not happen. -/
def policyNext (policies : PolicyTable) : PolicyAction → Option PolicyTable
  | .mutate actor versionId seed now =>
    match mutateTeamPolicy newUrl versions actor teamId catalogItemId versionId seed now policies with
    | .ok (_, changed) => some changed
    | .error _ => none
  | .approve actor now => some (approveTeamRollout actor catalogItemId now policies)
  | .advance phase percent now =>
    some (Deployment.advance policies (teamId, catalogItemId) phase percent now)
  | .rollback now => some (rollbackToLastKnownGood policies (teamId, catalogItemId) now)

def Preflighted (policies : PolicyTable) (action : PolicyAction) : Prop :=
  ∀ actor versionId seed now, action = .mutate actor versionId seed now → ∀ changed,
    mutateTeamPolicy newUrl versions actor teamId catalogItemId versionId seed now policies
      ≠ .ok (.saved .paused, changed)

/-- The version that a change asks for keeps what the check does not look at. -/
def KeepsUncompared (policies : PolicyTable) (action : PolicyAction) : Prop :=
  ∀ actor versionId seed now, action = .mutate actor versionId seed now → ∀ row good previous next,
    policies.get (teamId, catalogItemId) = some row → row.lastKnownGoodVersionId = some good →
    versions good = some previous → versions versionId = some next →
    KeepsTheRest previous.manifest next.manifest

/-- The row of the item, whose last known good version and target are both `good`. -/
def HasGood (good : String → Prop) (policies : PolicyTable) : Prop :=
  ∃ row, policies.get (teamId, catalogItemId) = some row ∧
    (∃ known, row.lastKnownGoodVersionId = some known ∧ good known) ∧ good row.targetVersionId

variable {newUrl versions teamId catalogItemId} {policies changed : PolicyTable}

/-! ### One action -/

theorem mutate_cases {actor : SessionUser} {versionId seed : String} {now : Int}
    {result : TeamPolicyMutationResult}
    (saved : mutateTeamPolicy newUrl versions actor teamId catalogItemId versionId seed now policies
      = .ok (result, changed)) :
    changed = policies ∨ ∃ approvalRequired,
      permissionDiffFromLastKnownGood newUrl versions policies teamId catalogItemId versionId
        = .ok approvalRequired ∧
      result = .saved (if approvalRequired then .paused else .preflight) ∧
      changed = saveTeamPolicy policies teamId catalogItemId versionId
        (if approvalRequired then .paused else .preflight) 0 seed now := by
  unfold mutateTeamPolicy at saved
  split at saved
  case isTrue =>
    cases saved
    exact .inl rfl
  case isFalse =>
    cases compared : permissionDiffFromLastKnownGood newUrl versions policies teamId catalogItemId
        versionId with
    | error message =>
      rw [compared] at saved
      cases saved
    | ok approvalRequired =>
      rw [compared] at saved
      cases saved
      exact .inr ⟨approvalRequired, rfl, rfl, rfl⟩

theorem permissionDiff_of_good {versionId good : String} {row : PolicyRow} {previous : ToolVersion}
    {approvalRequired : Bool} (found : policies.get (teamId, catalogItemId) = some row)
    (known : row.lastKnownGoodVersionId = some good) (stored : versions good = some previous)
    (compared : permissionDiffFromLastKnownGood newUrl versions policies teamId catalogItemId versionId
      = .ok approvalRequired) :
    ∃ next, versions versionId = some next ∧
      approvalRequired = (diffToolPermissions previous.manifest next.manifest).approvalRequired := by
  unfold permissionDiffFromLastKnownGood at compared
  rw [found, Option.bind_some, known, Option.bind_some, stored] at compared
  cases asked : versions versionId with
  | none =>
    rw [asked] at compared
    cases compared
  | some next =>
    rw [asked] at compared
    dsimp only at compared
    split at compared
    case isFalse => cases compared
    case isTrue =>
      refine ⟨next, rfl, ?_⟩
      cases first : validateInstallManifest newUrl previous.manifest with
      | error message =>
        rw [first] at compared
        cases compared
      | ok left =>
        cases second : validateInstallManifest newUrl next.manifest with
        | error message =>
          rw [first, second] at compared
          cases compared
        | ok right =>
          rw [first, second] at compared
          cases compared
          rw [validateInstallManifest_eq newUrl first, validateInstallManifest_eq newUrl second]

theorem HasGood.updateWhere {good : String → Prop} (has : HasGood teamId catalogItemId good policies)
    (condition : PolicyRow → Bool) {change : PolicyRow → PolicyRow}
    (keeps : ∀ row known, row.lastKnownGoodVersionId = some known → good known →
      good row.targetVersionId →
      (∃ known, (change row).lastKnownGoodVersionId = some known ∧ good known) ∧
        good (change row).targetVersionId) (key : PolicyKey) :
    HasGood teamId catalogItemId good (updateWhere policies key condition change) := by
  obtain ⟨row, found, ⟨known, isKnown, knownGood⟩, targetGood⟩ := has
  unfold HasGood
  rw [get_updateWhere]
  by_cases here : (teamId, catalogItemId) = key
  · rw [if_pos here, ← here, found, Option.map_some]
    refine ⟨_, rfl, ?_⟩
    by_cases holds : condition row
    · rw [if_pos holds]
      exact keeps row known isKnown knownGood targetGood
    · rw [if_neg holds]
      exact ⟨⟨known, isKnown, knownGood⟩, targetGood⟩
  · rw [if_neg here]
    exact ⟨row, found, ⟨known, isKnown, knownGood⟩, targetGood⟩

/-! ### Every history -/

/-- **What holds between each new target and the last known good version of that moment holds between
the target and the last known good version of the beginning.** -/
theorem keptRights (related : ToolDeploymentManifest → ToolDeploymentManifest → Prop)
    (transitive : ∀ {first second third}, related first second → related second third →
      related first third)
    {admits : PolicyTable → PolicyAction → Prop}
    (preflighted : ∀ table action, admits table action →
      Preflighted newUrl versions teamId catalogItemId table action)
    (asked : ∀ table actor versionId seed now, admits table (.mutate actor versionId seed now) →
      ∀ row good previous next, table.get (teamId, catalogItemId) = some row →
        row.lastKnownGoodVersionId = some good → versions good = some previous →
        versions versionId = some next → Within previous.manifest next.manifest →
        related previous.manifest next.manifest)
    {base : ToolDeploymentManifest} {start : PolicyTable}
    (initial : HasGood teamId catalogItemId
      (fun id => ∃ version, versions id = some version ∧ related base version.manifest) start)
    (reached : ReachableBy (policyNext newUrl versions teamId catalogItemId) admits start policies) :
    HasGood teamId catalogItemId
      (fun id => ∃ version, versions id = some version ∧ related base version.manifest) policies := by
  refine reached.invariant _ initial fun table action after has admitted moved => ?_
  cases action with
  | mutate actor versionId seed now =>
    simp only [policyNext] at moved
    cases saved : mutateTeamPolicy newUrl versions actor teamId catalogItemId versionId seed now
        table with
    | error message =>
      rw [saved] at moved
      cases moved
    | ok outcome =>
      obtain ⟨result, changed⟩ := outcome
      rw [saved] at moved
      cases moved
      rcases mutate_cases saved with rfl | ⟨approvalRequired, compared, rfl, rfl⟩
      · exact has
      obtain ⟨row, found, ⟨known, isKnown, previous, stored, knownGood⟩, -⟩ := has
      obtain ⟨next, isNext, rfl⟩ := permissionDiff_of_good found isKnown stored compared
      have unasked : (diffToolPermissions previous.manifest next.manifest).approvalRequired
          = false := by
        by_contra needed
        rw [Bool.not_eq_false] at needed
        simp only [needed, if_true] at saved
        exact preflighted _ _ admitted actor versionId seed now rfl _ saved
      have step := asked _ _ _ _ _ admitted row known previous next found isKnown stored isNext
        (approvalRequired_eq_false_iff.mp unasked)
      refine ⟨_, (OrderedMap.get_set _ _ _ _).trans (if_pos rfl), ⟨known, ?_, previous, stored,
        knownGood⟩, next, isNext, transitive knownGood step⟩
      show (table.get (teamId, catalogItemId)).bind (·.lastKnownGoodVersionId) = some known
      rw [found, Option.bind_some, isKnown]
  | approve actor now =>
    cases moved
    unfold approveTeamRollout
    split
    case h_1 => exact has
    case h_2 =>
      split
      case isFalse => exact has
      case isTrue =>
        refine has.updateWhere _ ?_ _
        exact fun row known isKnown knownGood target => ⟨⟨known, isKnown, knownGood⟩, target⟩
  | advance phase percent now =>
    cases moved
    refine has.updateWhere _ ?_ _
    intro row known isKnown knownGood target
    refine ⟨?_, target⟩
    by_cases promoted : phase = .active
    · exact ⟨row.targetVersionId, if_pos promoted, target⟩
    · exact ⟨known, (if_neg promoted).trans isKnown, knownGood⟩
  | rollback now =>
    cases moved
    refine has.updateWhere _ ?_ _
    intro row known isKnown knownGood target
    refine ⟨⟨known, isKnown, knownGood⟩, ?_⟩
    show ∃ version, versions (row.lastKnownGoodVersionId.getD row.targetVersionId) = some version ∧ _
    rw [isKnown, Option.getD_some]
    exact knownGood

/-- A table whose item has the target `targetId` and the last known good version `goodId`. -/
def StartsAt (teamId catalogItemId targetId goodId : String) (policies : PolicyTable) : Prop :=
  ∃ row, policies.get (teamId, catalogItemId) = some row ∧ row.targetVersionId = targetId ∧
    row.lastKnownGoodVersionId = some goodId

end History

/-- **Escalations need approval.** For two versions the check asks for the approval of every
escalation exactly if a compared right grows or what it does not look at is kept. A chain of steps
without approval needs none as a whole. And from a policy whose target is its last known good version,
whatever leaders and the coordinator do, as long as every change goes to preflight, the target needs
no approval over that version; if the changes also keep what the check does not look at, the target
does not escalate. -/
theorem escalations_need_approval (previous next : ToolDeploymentManifest)
    (chain : List ToolDeploymentManifest) (newUrl : String → Option Url)
    (versions : String → Option ToolVersion) (teamId catalogItemId goodId : String)
    (good : ToolVersion) (start policies : PolicyTable) :
    ((Escalation previous next → (diffToolPermissions previous next).approvalRequired = true) ↔
      ¬ Within previous next ∨ KeepsTheRest previous next) ∧
    ((chain.IsChain fun previous next =>
        (diffToolPermissions previous next).approvalRequired = false) →
      chain.Pairwise fun previous next =>
        (diffToolPermissions previous next).approvalRequired = false) ∧
    (versions goodId = some good → StartsAt teamId catalogItemId goodId goodId start →
      (ReachableBy (policyNext newUrl versions teamId catalogItemId)
          (Preflighted newUrl versions teamId catalogItemId) start policies →
        ∃ row target, policies.get (teamId, catalogItemId) = some row ∧
          versions row.targetVersionId = some target ∧
          (diffToolPermissions good.manifest target.manifest).approvalRequired = false) ∧
      (ReachableBy (policyNext newUrl versions teamId catalogItemId)
          (fun table action => Preflighted newUrl versions teamId catalogItemId table action ∧
            KeepsUncompared versions teamId catalogItemId table action) start policies →
        ∃ row target, policies.get (teamId, catalogItemId) = some row ∧
          versions row.targetVersionId = some target ∧
          ¬ Escalation good.manifest target.manifest)) := by
  refine ⟨escalation_asks_iff, approval_chain, ?_⟩
  rintro stored ⟨row, found, target, known⟩
  have begins (related : ToolDeploymentManifest → ToolDeploymentManifest → Prop)
      (reflexive : related good.manifest good.manifest) : HasGood teamId catalogItemId
        (fun id => ∃ version, versions id = some version ∧ related good.manifest version.manifest)
        start :=
    ⟨row, found, ⟨goodId, known, good, stored, reflexive⟩, good, by rw [target, stored], reflexive⟩
  constructor
  · intro reached
    obtain ⟨row, found, -, target, isTarget, within⟩ :=
      keptRights Within Within.trans (fun _ _ admitted => admitted)
        (fun _ _ _ _ _ _ _ _ _ _ _ _ _ _ within => within) (begins Within (Within.refl _)) reached
    exact ⟨row, target, found, isTarget, approvalRequired_eq_false_iff.mpr within⟩
  · intro reached
    obtain ⟨row, found, -, target, isTarget, kept⟩ :=
      keptRights NoNewRights NoNewRights.trans (fun _ _ admitted => admitted.1)
        (fun table actor versionId seed now admitted row good previous next found known stored isNext
          within => ⟨within, admitted.2 actor versionId seed now rfl row good previous next found
            known stored isNext⟩) (begins NoNewRights (NoNewRights.refl _)) reached
    exact ⟨row, target, found, isTarget, fun escalates => escalation_iff.mp escalates kept⟩

/-- A stdio server for both clients that may start some executables. -/
def issueTracker (versionId : String) (executables : List String) : ToolDeploymentManifest where
  schemaVersion := 1
  catalogItemId := "item-1"
  versionId := versionId
  slug := "issue-tracker"
  kind := .mcp
  source :=
    { provider := "github"
      repository := "acme/issue-tracker"
      exactRef := "1111111111111111111111111111111111111111"
      path := ""
      treeDigest :=
        "sha256:2222222222222222222222222222222222222222222222222222222222222222"
      downloadUrl := "https://codeload.github.com/acme/issue-tracker/tar.gz/1111111" }
  clients := [.codex, .claudeCode]
  minProtocolVersion := 1
  permissions := { env := ["TRACKER_TOKEN"], networkHosts := ["tracker.acme.dev"], executables }
  payload := .mcpStdio "npx" ["-y", "@acme/issue-tracker@1.4.0"] ["TRACKER_TOKEN"] "issue-tracker"

def codeloadUrl (value : String) : Option Url :=
  if value = "https://codeload.github.com/acme/issue-tracker/tar.gz/1111111" then
    some { protocol := "https:", username := "", password := "" }
  else none

/-- **Two versions that the server accepts, the second with a new executable: nobody is asked.** -/
theorem executable_added_unasked : ∃ previous next : ToolDeploymentManifest,
    validateInstallManifest codeloadUrl previous = .ok previous ∧
    validateInstallManifest codeloadUrl next = .ok next ∧
    Escalation previous next ∧ (diffToolPermissions previous next).approvalRequired = false := by
  refine ⟨issueTracker "v1" ["node"], issueTracker "v2" ["node", "docker"], by decide, by decide,
    .executable "docker" (by decide) (by decide), ?_⟩
  rw [approvalRequired_eq_false_iff]
  exact ⟨fun _ => id, fun _ => id, fun _ => id, rfl, rfl, rfl⟩

/-- Two versions of that tool, the second for nothing more than the first. -/
def issueTrackerVersions (id : String) : Option ToolVersion :=
  if id = "v1" ∨ id = "v2" then some ⟨"item-1", issueTracker id ["node"]⟩ else none

def issueTrackerInForce : PolicyTable :=
  OrderedMap.empty.set ("team-1", "item-1")
    { targetVersionId := "v1", lastKnownGoodVersionId := some "v1", rolloutPhase := .active,
      rolloutPercent := 100, rolloutSeed := "seed-1", phaseStartedAt := 0, enabled := true }

theorem issueTrackerVersions_eq {id : String} {version : ToolVersion}
    (stored : issueTrackerVersions id = some version) : version.manifest = issueTracker id ["node"] := by
  unfold issueTrackerVersions at stored
  split at stored
  case isTrue =>
    cases stored
    rfl
  case isFalse => cases stored

theorem second_version_escalates_nothing : ∃ policies row target,
    Library.run (policyNext codeloadUrl issueTrackerVersions "team-1" "item-1") issueTrackerInForce
      [.mutate ⟨some "team-1", true⟩ "v2" "seed-2" 5] = some policies ∧
    policies.get ("team-1", "item-1") = some row ∧
    issueTrackerVersions row.targetVersionId = some target ∧
    ¬ Escalation (issueTracker "v1" ["node"]) target.manifest := by
  have unasked : (diffToolPermissions (issueTracker "v1" ["node"])
      (issueTracker "v2" ["node"])).approvalRequired = false :=
    approvalRequired_eq_false_iff.mpr ⟨fun _ => id, fun _ => id, fun _ => id, rfl, rfl, rfl⟩
  have compared : permissionDiffFromLastKnownGood codeloadUrl issueTrackerVersions
      issueTrackerInForce "team-1" "item-1" "v2" = .ok false := by
    rw [← unasked]
    rfl
  have saved : mutateTeamPolicy codeloadUrl issueTrackerVersions ⟨some "team-1", true⟩ "team-1"
      "item-1" "v2" "seed-2" 5 issueTrackerInForce = .ok (.saved .preflight,
        saveTeamPolicy issueTrackerInForce "team-1" "item-1" "v2" .preflight 0 "seed-2" 5) := by
    rw [mutateTeamPolicy, compared]
    rfl
  have moved : policyNext codeloadUrl issueTrackerVersions "team-1" "item-1" issueTrackerInForce
      (.mutate ⟨some "team-1", true⟩ "v2" "seed-2" 5) = some
        (saveTeamPolicy issueTrackerInForce "team-1" "item-1" "v2" .preflight 0 "seed-2" 5) := by
    simp only [policyNext, saved]
  have reached : ReachableBy (policyNext codeloadUrl issueTrackerVersions "team-1" "item-1")
      (fun table action =>
        Preflighted codeloadUrl issueTrackerVersions "team-1" "item-1" table action ∧
          KeepsUncompared issueTrackerVersions "team-1" "item-1" table action) issueTrackerInForce
      (saveTeamPolicy issueTrackerInForce "team-1" "item-1" "v2" .preflight 0 "seed-2" 5) := by
    refine .step _ .start ⟨?_, ?_⟩ moved
    · rintro _ _ _ _ ⟨⟩ changed paused
      rw [saved] at paused
      cases paused
    · rintro _ _ _ _ ⟨⟩ row good previous next found known stored asked
      rw [issueTrackerVersions_eq stored, issueTrackerVersions_eq asked]
      exact ⟨fun _ => id, fun _ => id, rfl, rfl⟩
  obtain ⟨row, target, found, stored, calm⟩ :=
    ((escalations_need_approval (issueTracker "v1" ["node"]) (issueTracker "v2" ["node"]) []
      codeloadUrl issueTrackerVersions "team-1" "item-1" "v1"
      ⟨"item-1", issueTracker "v1" ["node"]⟩ issueTrackerInForce _).2.2 rfl ⟨_, rfl, rfl, rfl⟩).2 reached
  refine ⟨_, row, target, ?_, found, stored, calm⟩
  rw [Library.run_cons, moved]
  rfl

end Toard.Deployment
