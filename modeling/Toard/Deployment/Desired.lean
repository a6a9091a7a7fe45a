/-
**Which tools a device is offered (`resolveDesiredTools`, `getDeviceContext`).**

A device gets what its user has chosen for it and, of the other items, what the team's rollouts have
reached it with: each rollout orders the devices by a hash of its seed and the fingerprint, and serves
those below its percent. Excluded items are left out.
-/

import Toard.Deployment.Policy

namespace Toard.Deployment

open Toard.Library

/-! ### The data -/

inductive PreferenceMode where
  | install
  | exclude
deriving DecidableEq

inductive PreferenceScope where
  | allDevices
  | selectedDevices
deriving DecidableEq

structure ToolPreference where
  catalogItemId : String
  mode : PreferenceMode
  scope : PreferenceScope
  versionId : Option String
  deviceFingerprints : List String
deriving DecidableEq

structure TeamToolPolicy where
  catalogItemId : String
  versionId : String
  rolloutId : String
  rolloutSeed : String
  rolloutPercent : Nat
deriving DecidableEq

structure ResolveDesiredInput where
  userId : String
  deviceFingerprint : String
  preferences : List ToolPreference
  teamPolicies : List TeamToolPolicy
deriving DecidableEq

inductive ToolDeploymentOrigin where
  | personal
  | team
deriving DecidableEq

structure DesiredTool where
  catalogItemId : String
  versionId : String
  origin : ToolDeploymentOrigin
  rolloutId : Option String
deriving DecidableEq

/-! ### The cohort of a device -/

def utf8 (text : String) : List UInt8 := text.toList.flatMap String.utf8EncodeChar

/-- Where a device stands in a rollout: the FNV-1a hash of seed and fingerprint, modulo 100. -/
def rolloutCohortPercent (seed fingerprint : String) : Nat :=
  ((utf8 (seed ++ ":" ++ fingerprint)).foldl
    (fun (hash : UInt32) byte => (hash ^^^ byte.toUInt32) * 16777619) 2166136261).toNat % 100

theorem rolloutCohortPercent_lt (seed fingerprint : String) :
    rolloutCohortPercent seed fingerprint < 100 :=
  Nat.mod_lt _ (by decide)

/-! ### The resolution -/

def selectedForDevice (preference : ToolPreference) (fingerprint : String) : Bool :=
  preference.scope == .allDevices || preference.deviceFingerprints.contains fingerprint

/-- `new Map(...)` of a list of keyed values, read at a key: the last one of the key. -/
def mapGet {α : Type} (keyOf : α → String) (values : List α) (key : String) : Option α :=
  values.reverse.find? fun value => keyOf value == key

def chosenVersion (preference : ToolPreference) : Option String :=
  preference.versionId.filter (· != "")

def excludedIds (input : ResolveDesiredInput) : List String :=
  (input.preferences.filter fun preference => preference.mode == .exclude).map (·.catalogItemId)

def personalInstalls (input : ResolveDesiredInput) : List ToolPreference :=
  input.preferences.filter fun preference => preference.mode == .install &&
    preference.versionId.isSome && selectedForDevice preference input.deviceFingerprint

def chosenInstall (input : ResolveDesiredInput) (catalogItemId : String) : Option String :=
  (mapGet (·.catalogItemId) (personalInstalls input) catalogItemId).bind chosenVersion

def resolveItem (input : ResolveDesiredInput) (catalogItemId : String) : List DesiredTool :=
  if (excludedIds input).contains catalogItemId then []
  else
    match chosenInstall input catalogItemId with
    | some versionId => [{ catalogItemId, versionId, origin := .personal, rolloutId := none }]
    | none =>
      match mapGet (·.catalogItemId) input.teamPolicies catalogItemId with
      | none => []
      | some policy =>
        if policy.rolloutPercent ≤
            rolloutCohortPercent policy.rolloutSeed input.deviceFingerprint then []
        else [{ catalogItemId, versionId := policy.versionId, origin := .team,
                rolloutId := some policy.rolloutId }]

def resolveDesiredTools (input : ResolveDesiredInput) : List DesiredTool :=
  let ids := (((personalInstalls input).map (·.catalogItemId) ++
    input.teamPolicies.map (·.catalogItemId)).eraseDups).mergeSort stringLe
  ids.flatMap (resolveItem input)

/-! ### What the repository hands on -/

inductive ToolCatalogLifecycle where
  | published
  | deprecated
  | blocked
  | archived
deriving DecidableEq

def isServed (lifecycle : String → Option ToolCatalogLifecycle) (catalogItemId : String) : Bool :=
  lifecycle catalogItemId == some .published || lifecycle catalogItemId == some .deprecated

def isServingPhase (phase : ToolRolloutPhase) : Bool :=
  phase == .canary || phase == .expand || phase == .active || phase == .rollback

/-- The policies of a team in `getDeviceContext`. -/
def teamPolicies (policies : PolicyTable) (lifecycle : String → Option ToolCatalogLifecycle)
    (teamId : String) : List TeamToolPolicy :=
  (policies.entries.filter fun entry => entry.1.1 == teamId && isServed lifecycle entry.1.2 &&
      entry.2.enabled && isServingPhase entry.2.rolloutPhase).map fun entry =>
    { catalogItemId := entry.1.2, versionId := entry.2.targetVersionId,
      rolloutId := entry.2.rolloutSeed, rolloutSeed := entry.2.rolloutSeed,
      rolloutPercent := entry.2.rolloutPercent }

/-- The context of a registered device of a user in a team; the preferences are those of items that
the catalog still serves. -/
def getDeviceContext (policies : PolicyTable) (lifecycle : String → Option ToolCatalogLifecycle)
    (teamId userId fingerprint : String) (preferences : List ToolPreference) : ResolveDesiredInput where
  userId := userId
  deviceFingerprint := fingerprint
  preferences := preferences.filter fun preference => isServed lifecycle preference.catalogItemId
  teamPolicies := teamPolicies policies lifecycle teamId

section Manifest

variable (newUrl : String → Option Url) (versions : String → Option ToolVersion)

/-- The manifest of a version, if there is one that is valid and of an installable kind. -/
def getManifestVersion (versionId : String) : Option ToolDeploymentManifest :=
  (versions versionId).bind fun version =>
    match validateInstallManifest newUrl version.manifest with
    | .error _ => none
    | .ok manifest =>
      match manifest.payload with
      | .skill .. => some manifest
      | .mcpStdio .. => some manifest
      | _ => none

/-- `buildDeviceManifest`: the items with their manifests, or none where the request fails because a
version is not available. -/
def buildDeviceManifest (context : ResolveDesiredInput) :
    Option (List (DesiredTool × ToolDeploymentManifest)) :=
  (resolveDesiredTools context).mapM fun entry =>
    (getManifestVersion newUrl versions entry.versionId).map fun manifest => (entry, manifest)

end Manifest

theorem buildDeviceManifest_eq {newUrl : String → Option Url}
    {versions : String → Option ToolVersion} {context : ResolveDesiredInput}
    {items : List (DesiredTool × ToolDeploymentManifest)}
    (built : buildDeviceManifest newUrl versions context = some items) :
    items.map Prod.fst = resolveDesiredTools context := by
  unfold buildDeviceManifest at built
  generalize resolveDesiredTools context = tools at built ⊢
  induction tools generalizing items with
  | nil =>
    rw [List.mapM_nil] at built
    cases built
    rfl
  | cons entry tools ih =>
    rw [List.mapM_cons] at built
    obtain ⟨first, isFirst, built⟩ := Option.bind_eq_some_iff.mp built
    obtain ⟨rest, isRest, made⟩ := Option.bind_eq_some_iff.mp built
    cases made
    obtain ⟨manifest, -, rfl⟩ := Option.map_eq_some_iff.mp isFirst
    rw [List.map_cons, ih isRest]

/-! ### Whether an item is offered -/

section Resolution

variable {input : ResolveDesiredInput} {catalogItemId : String}

theorem mapGet_spec {α : Type} {keyOf : α → String} {values : List α} {key : String} {value : α}
    (found : mapGet keyOf values key = some value) : value ∈ values ∧ keyOf value = key := by
  unfold mapGet at found
  have holds := List.find?_some found
  exact ⟨List.mem_reverse.mp (List.mem_of_find?_eq_some found), by simpa using holds⟩

theorem mapGet_eq_some {α : Type} {keyOf : α → String} {values : List α} {key : String} {value : α}
    (unique : ∀ left ∈ values, ∀ right ∈ values, keyOf left = keyOf right → left = right) :
    mapGet keyOf values key = some value ↔ value ∈ values ∧ keyOf value = key := by
  refine ⟨mapGet_spec, ?_⟩
  rintro ⟨among, rfl⟩
  cases found : mapGet keyOf values (keyOf value) with
  | none =>
    have none := List.find?_eq_none.mp found value (List.mem_reverse.mpr among)
    simp at none
  | some other =>
    obtain ⟨among', same⟩ := mapGet_spec found
    rw [unique other among' value among same]

theorem mem_of_mapGet {α : Type} {keyOf : α → String} {values : List α} {key : String} {value : α}
    (found : mapGet keyOf values key = some value) : key ∈ values.map keyOf :=
  List.mem_map.mpr ⟨value, mapGet_spec found⟩

theorem catalogItemId_of_mem_resolveItem {entry : DesiredTool}
    (among : entry ∈ resolveItem input catalogItemId) : entry.catalogItemId = catalogItemId := by
  unfold resolveItem at among
  split at among
  case isTrue => cases among
  case isFalse =>
    split at among
    case h_1 => rw [List.mem_singleton.mp among]
    case h_2 =>
      split at among
      case h_1 => cases among
      case h_2 =>
        split at among
        case isTrue => cases among
        case isFalse => rw [List.mem_singleton.mp among]

theorem mem_ids_of_resolveItem (some : resolveItem input catalogItemId ≠ []) :
    catalogItemId ∈ (personalInstalls input).map (·.catalogItemId) ++
      input.teamPolicies.map (·.catalogItemId) := by
  rw [List.mem_append]
  by_contra absent
  rw [not_or] at absent
  apply some
  have noInstall : chosenInstall input catalogItemId = none := by
    rw [chosenInstall, Option.bind_eq_none_iff]
    exact fun value found => absurd (mem_of_mapGet found) absent.1
  have noPolicy : mapGet (·.catalogItemId) input.teamPolicies catalogItemId = none := by
    rw [Option.eq_none_iff_forall_not_mem]
    exact fun value found => absent.2 (mem_of_mapGet found)
  rw [resolveItem, noInstall, noPolicy]
  exact ite_self _

/-- **What a device gets of an item is what the item resolves to.** -/
theorem mem_resolveDesiredTools {entry : DesiredTool} :
    entry ∈ resolveDesiredTools input ↔ entry ∈ resolveItem input entry.catalogItemId := by
  unfold resolveDesiredTools
  rw [List.mem_flatMap]
  constructor
  · rintro ⟨id, -, among⟩
    rwa [catalogItemId_of_mem_resolveItem among]
  · intro among
    refine ⟨entry.catalogItemId, ?_, among⟩
    rw [List.mem_mergeSort, List.mem_eraseDups]
    exact mem_ids_of_resolveItem (List.ne_nil_of_mem among)

def Offered (tools : List DesiredTool) (catalogItemId : String) : Prop :=
  ∃ entry ∈ tools, entry.catalogItemId = catalogItemId

theorem offered_iff : Offered (resolveDesiredTools input) catalogItemId ↔
    resolveItem input catalogItemId ≠ [] := by
  constructor
  · rintro ⟨entry, among, rfl⟩
    exact List.ne_nil_of_mem (mem_resolveDesiredTools.mp among)
  · intro some
    obtain ⟨entry, among⟩ := List.exists_mem_of_ne_nil _ some
    have same := catalogItemId_of_mem_resolveItem among
    exact ⟨entry, mem_resolveDesiredTools.mpr (by rwa [same]), same⟩

/-- **An item that is not excluded is offered where it was chosen or a rollout has reached the
device.** -/
theorem offered_of_reached (included : catalogItemId ∉ excludedIds input)
    (reached : chosenInstall input catalogItemId = none → ∃ policy : TeamToolPolicy,
      mapGet (·.catalogItemId) input.teamPolicies catalogItemId = some policy ∧
      rolloutCohortPercent policy.rolloutSeed input.deviceFingerprint < policy.rolloutPercent) :
    Offered (resolveDesiredTools input) catalogItemId := by
  rw [offered_iff, resolveItem, if_neg (by simpa using included)]
  cases chosen : chosenInstall input catalogItemId with
  | some versionId => exact List.cons_ne_nil _ _
  | none =>
    obtain ⟨policy, found, below⟩ := reached chosen
    rw [found]
    dsimp only
    rw [if_neg (not_le.mpr below)]
    exact List.cons_ne_nil _ _

theorem reached_of_mem {entry : DesiredTool} {rollout : String}
    (among : entry ∈ resolveDesiredTools input) (isRollout : entry.rolloutId = some rollout) :
    ∃ policy : TeamToolPolicy,
      mapGet (·.catalogItemId) input.teamPolicies entry.catalogItemId = some policy ∧
      policy.rolloutId = rollout ∧
      rolloutCohortPercent policy.rolloutSeed input.deviceFingerprint < policy.rolloutPercent := by
  have resolved := mem_resolveDesiredTools.mp among
  unfold resolveItem at resolved
  split at resolved
  case isTrue => cases resolved
  case isFalse =>
    split at resolved
    case h_1 =>
      rw [List.mem_singleton.mp resolved] at isRollout
      cases isRollout
    case h_2 =>
      split at resolved
      case h_1 => cases resolved
      case h_2 policy found =>
        split at resolved
        case isTrue => cases resolved
        case isFalse below =>
          rw [List.mem_singleton.mp resolved] at isRollout
          cases isRollout
          exact ⟨policy, found, rfl, not_le.mp below⟩

/-- **The percent of a rollout that serves the device does not show in what it is sent.** -/
theorem resolveDesiredTools_percent {userId fingerprint : String} {preferences : List ToolPreference}
    {policy : TeamToolPolicy} {percent : Nat}
    (serves : rolloutCohortPercent policy.rolloutSeed fingerprint < policy.rolloutPercent)
    (serves' : rolloutCohortPercent policy.rolloutSeed fingerprint < percent) :
    resolveDesiredTools ⟨userId, fingerprint, preferences, [policy]⟩ =
      resolveDesiredTools ⟨userId, fingerprint, preferences,
        [{ policy with rolloutPercent := percent }]⟩ := by
  have resolved (item : String) : resolveItem ⟨userId, fingerprint, preferences, [policy]⟩ item =
      resolveItem ⟨userId, fingerprint, preferences,
        [{ policy with rolloutPercent := percent }]⟩ item := by
    unfold resolveItem
    change (if _ then _ else match chosenInstall ⟨userId, fingerprint, preferences, []⟩ item with
        | some versionId => _
        | none => _) = if _ then _ else
      match chosenInstall ⟨userId, fingerprint, preferences, []⟩ item with
        | some versionId => _
        | none => _
    congr 1
    cases chosenInstall ⟨userId, fingerprint, preferences, []⟩ item with
    | some versionId => rfl
    | none =>
      by_cases here : policy.catalogItemId = item
      · simp [mapGet, here, not_le.mpr serves, not_le.mpr serves']
      · simp [mapGet, here]
  unfold resolveDesiredTools
  exact congrFun (congrArg List.flatMap (funext resolved)) _

end Resolution

/-- **The policy of an item that the repository hands on**: the row of the team, if it is enabled, in
a serving phase, and of an item that is served. -/
theorem mapGet_teamPolicies {policies : PolicyTable}
    {lifecycle : String → Option ToolCatalogLifecycle} {teamId catalogItemId : String}
    {policy : TeamToolPolicy} :
    mapGet (·.catalogItemId) (teamPolicies policies lifecycle teamId) catalogItemId = some policy ↔
      ∃ row, policies.get (teamId, catalogItemId) = some row ∧
        isServed lifecycle catalogItemId = true ∧ row.enabled = true ∧
        isServingPhase row.rolloutPhase = true ∧
        policy = { catalogItemId, versionId := row.targetVersionId, rolloutId := row.rolloutSeed,
                   rolloutSeed := row.rolloutSeed, rolloutPercent := row.rolloutPercent } := by
  have member (entry : PolicyKey × PolicyRow) :
      entry ∈ policies.entries.filter (fun entry => entry.1.1 == teamId &&
        isServed lifecycle entry.1.2 && entry.2.enabled && isServingPhase entry.2.rolloutPhase) ↔
      policies.get (teamId, entry.1.2) = some entry.2 ∧ isServed lifecycle entry.1.2 = true ∧
        entry.2.enabled = true ∧ isServingPhase entry.2.rolloutPhase = true ∧
        entry.1.1 = teamId := by
    rw [List.mem_filter, OrderedMap.get_eq_some]
    simp only [Bool.and_eq_true, beq_iff_eq]
    obtain ⟨⟨team, item⟩, row⟩ := entry
    dsimp only
    constructor
    · rintro ⟨among, ⟨⟨rfl, served⟩, enabled⟩, serving⟩
      exact ⟨among, served, enabled, serving, rfl⟩
    · rintro ⟨among, served, enabled, serving, rfl⟩
      exact ⟨among, ⟨⟨rfl, served⟩, enabled⟩, serving⟩
  rw [mapGet_eq_some]
  · unfold teamPolicies
    rw [List.mem_map]
    constructor
    · rintro ⟨⟨entry, among, rfl⟩, rfl⟩
      obtain ⟨found, served, enabled, serving, -⟩ := (member entry).mp among
      exact ⟨entry.2, found, served, enabled, serving, rfl⟩
    · rintro ⟨row, found, served, enabled, serving, rfl⟩
      exact ⟨⟨((teamId, catalogItemId), row),
        (member _).mpr ⟨found, served, enabled, serving, rfl⟩, rfl⟩, rfl⟩
  · intro left isLeft right isRight same
    obtain ⟨entry, among, rfl⟩ := List.mem_map.mp isLeft
    obtain ⟨other, among', rfl⟩ := List.mem_map.mp isRight
    have first := ((member entry).mp among).1
    have second := ((member other).mp among').1
    dsimp only at same
    rw [same] at first
    rw [same, Option.some_inj.mp (first.symm.trans second)]

end Toard.Deployment
