/-
**From the catalog to the device: which desired items are delivered.**

The server puts the manifests of all desired items into one response, and fails if one of them is not
available. The device checks the response again, by rules of its own, and refuses it as a whole.

* **`unblocked_iff`**: no desired item blocks another exactly if all are usable, or none.
-/

import Toard.Reconcile.Protocol

namespace Toard.Deployment

open Toard.Library
open Toard.Shim (bind_eq_ok)

/-! ### The choices of the users -/

structure PersonalPreferenceInput where
  actorUserId : String
  catalogItemId : String
  mode : PreferenceMode
  scope : PreferenceScope
  versionId : Option String
  deviceFingerprints : List String
deriving DecidableEq

/-- `FINGERPRINT` -/
def isFingerprint (value : String) : Bool :=
  value.toList.length == 64 && value.toList.all isHex

def validatePersonalPreference (input : PersonalPreferenceInput) : Except String Unit :=
  let hasVersion := input.versionId.any (· != "")
  if input.mode = .install ∧ !hasVersion then .error "install preference requires versionId"
  else if input.mode = .exclude ∧ hasVersion then
    .error "exclude preference cannot include versionId"
  else if input.deviceFingerprints.any fun value => !isFingerprint value then
    .error "invalid device fingerprint"
  else .ok ()

/-- A row of `user_tool_preferences`, with its devices. -/
structure PreferenceRow where
  mode : PreferenceMode
  installScope : PreferenceScope
  targetVersionId : Option String
  deviceFingerprints : List String
deriving DecidableEq

abbrev PreferenceTable := OrderedMap (String × String) PreferenceRow

/-- The choice of a user. The table refers to a version that exists, of whichever item. -/
def savePersonalPreference (versions : String → Option ToolVersion) (table : PreferenceTable)
    (input : PersonalPreferenceInput) : Except String PreferenceTable := do
  validatePersonalPreference input
  let length := input.catalogItemId.toList.length
  if length < 1 || 200 < length then throw "user_tool_preferences_catalog_item_id_check"
  if input.versionId.any fun versionId => (versions versionId).isNone then
    throw "user_tool_preferences_target_version_id_fkey"
  if input.mode = .exclude ∧ input.versionId.isSome then throw "user_tool_preferences_check"
  let scope := if input.mode = .exclude then .allDevices else input.scope
  let devices := if input.mode = .install ∧ scope = .selectedDevices then
      input.deviceFingerprints.eraseDups.mergeSort stringLe
    else []
  return table.set (input.actorUserId, input.catalogItemId)
    { mode := input.mode, installScope := scope, targetVersionId := input.versionId,
      deviceFingerprints := devices }

/-- The preferences of a user in `getDeviceContext`. -/
def preferencesOf (table : PreferenceTable) (userId : String) : List ToolPreference :=
  (table.entries.filter fun entry => entry.1.1 == userId).map fun entry =>
    { catalogItemId := entry.1.2, mode := entry.2.mode, scope := entry.2.installScope,
      versionId := entry.2.targetVersionId, deviceFingerprints := entry.2.deviceFingerprints }

/-! ### The response, as the device reads it -/

namespace ToolCatalogKind

def text : ToolCatalogKind → String
  | .mcp => "mcp"
  | .skill => "skill"
  | .plugin => "plugin"

end ToolCatalogKind

namespace ToolCatalogClient

def text : ToolCatalogClient → String
  | .codex => "codex"
  | .claudeCode => "claude_code"

end ToolCatalogClient

namespace HttpAuth

def text : HttpAuth → String
  | .none => "none"
  | .oauth => "oauth"
  | .manualSecretHeader => "manual_secret_header"

end HttpAuth

def wirePayload : ToolDeploymentPayload → Reconcile.InstallPayload
  | .skill files targetKey => .skill files targetKey
  | .mcpStdio command args requiredEnvNames managedKey =>
    .mcpStdio command args requiredEnvNames managedKey
  | .mcpHttp url auth managedKey => .mcpHttp url auth.text managedKey
  | .plugin components => .plugin (components.map fun component =>
      { componentType := component.type.text, key := component.key })

def wireManifest (manifest : ToolDeploymentManifest) : Reconcile.ToolManifestV1 where
  schemaVersion := manifest.schemaVersion
  catalogItemId := manifest.catalogItemId
  versionId := manifest.versionId
  slug := manifest.slug
  kind := manifest.kind.text
  source :=
    { provider := manifest.source.provider
      repository := manifest.source.repository
      exactRef := manifest.source.exactRef
      path := manifest.source.path
      treeDigest := manifest.source.treeDigest
      downloadUrl := manifest.source.downloadUrl }
  clients := manifest.clients.map ToolCatalogClient.text
  minProtocolVersion := manifest.minProtocolVersion
  permissions :=
    { env := manifest.permissions.env
      networkHosts := manifest.permissions.networkHosts
      executables := manifest.permissions.executables }
  payload := wirePayload manifest.payload

def wireOrigin : ToolDeploymentOrigin → Reconcile.DeploymentOrigin
  | .personal => .personal
  | .team => .team

def wireItem (item : DesiredTool × ToolDeploymentManifest) : Reconcile.DesiredItem where
  catalogItemId := item.1.catalogItemId
  versionId := item.1.versionId
  origin := wireOrigin item.1.origin
  rolloutId := item.1.rolloutId
  manifest := wireManifest item.2

structure DateText where
  text : String
  written : text.isEmpty = false

section Manifest

variable (newUrl : String → Option Url) (versions : String → Option ToolVersion)

/-- The response to a device, of which the repository has a context if it is the token's own. That a
version is not available stands also for a manifest on which the check throws. -/
def getDeviceManifest (deviceContext : String → Option ResolveDesiredInput) (generatedAt : DateText)
    (protocol : Nat) (fingerprint : String) : Except String Reconcile.DeviceManifestV1 :=
  if protocol ≠ 1 then .error "protocol_unsupported"
  else if !isFingerprint fingerprint then .error "invalid_fingerprint"
  else
    match deviceContext fingerprint with
    | none => .error "device_not_owned"
    | some context =>
      match buildDeviceManifest newUrl versions context with
      | none => .error "version_unavailable"
      | some items =>
        .ok { schemaVersion := 1, generatedAt := generatedAt.text, reconcileAfterSeconds := 60,
              items := items.map wireItem }

end Manifest

def DeviceAccepts (response : Reconcile.DeviceManifestV1) : Prop :=
  ∃ manifest, Reconcile.parseManifest response = .ok manifest ∧
    Reconcile.validateProtocolContract manifest = .ok ()

/-! ### What the server has checked -/

section Checks

variable {newUrl : String → Option Url} {manifest : ToolDeploymentManifest}

theorem of_check {condition : Bool} {message : String} {rest : Except String Unit}
    (passes : (do
      if condition then throw message
      rest) = Except.ok ()) : condition = false ∧ rest = .ok () := by
  cases condition with
  | true => cases passes
  | false => exact ⟨rfl, passes⟩

theorem of_step {condition : Bool} {step : Except String String} {rest : Except String Unit}
    (passes : (if condition then step >>= fun _ => rest else rest) = Except.ok ()) :
    rest = .ok () := by
  cases condition with
  | true =>
    obtain ⟨-, -, passes⟩ := bind_eq_ok.mp passes
    exact passes
  | false => exact passes

structure IsChecked (newUrl : String → Option Url) (manifest : ToolDeploymentManifest) : Prop where
  schemaVersion : manifest.schemaVersion = 1
  minProtocolVersion : manifest.minProtocolVersion = 1
  repository : isRepository manifest.source.repository = true
  exactRef : isCommitSha manifest.source.exactRef = true
  permissions : validatePermissions manifest.permissions = .ok ()
  payload : validatePayload newUrl manifest.payload = .ok ()
  kind : manifest.kind = manifest.payload.kind

theorem isChecked_of_validateInstallManifest {valid : ToolDeploymentManifest}
    (passes : validateInstallManifest newUrl manifest = .ok valid) :
    IsChecked newUrl manifest := by
  have checked : checkInstallManifest newUrl manifest = .ok () := by
    unfold validateInstallManifest at passes
    cases same : checkInstallManifest newUrl manifest with
    | error message => rw [same] at passes; cases passes
    | ok => rfl
  unfold checkInstallManifest at checked
  obtain ⟨schema, checked⟩ := of_check checked
  obtain ⟨source, checked⟩ := of_check checked
  have checked := of_step checked
  obtain ⟨-, checked⟩ := of_check checked
  obtain ⟨-, -, checked⟩ := bind_eq_ok.mp checked
  obtain ⟨-, checked⟩ := of_check checked
  obtain ⟨⟨⟩, permissions, checked⟩ := bind_eq_ok.mp checked
  obtain ⟨⟨⟩, payload, checked⟩ := bind_eq_ok.mp checked
  obtain ⟨kind, -⟩ := of_check checked
  simp only [Bool.or_eq_false_iff, bne_eq_false_iff_eq, Bool.not_eq_false'] at schema source kind
  exact ⟨schema.1, schema.2, source.1, source.2, permissions, payload, kind⟩

/-! ### What the device asks -/

theorem utf8Size_of_isHex {c : Char} (isDigit : isHex c = true) : c.utf8Size = 1 := by
  have small : c.val ≤ 127 := by
    simp only [isHex, isNumeral, Bool.or_eq_true, Bool.and_eq_true, decide_eq_true_iff] at isDigit
    obtain ⟨-, high⟩ | ⟨-, high⟩ := isDigit
    · exact UInt32.le_trans high (by decide)
    · exact UInt32.le_trans high (by decide)
  exact Char.utf8Size_eq_one_iff.mpr small

theorem refIsSha_of_isCommitSha {value : String} (isCommit : isCommitSha value = true) :
    Reconcile.refIsSha value = true := by
  rw [isCommitSha, Bool.and_eq_true, beq_iff_eq, List.all_eq_true] at isCommit
  obtain ⟨length, digits⟩ := isCommit
  rw [Reconcile.refIsSha, Bool.and_eq_true, beq_iff_eq, List.all_eq_true]
  constructor
  · rw [utf8, List.length_flatMap, ← length]
    have ones : value.toList.map (fun c => (String.utf8EncodeChar c).length) =
        value.toList.map fun _ => 1 :=
      List.map_congr_left fun c among => by
        rw [String.length_utf8EncodeChar, utf8Size_of_isHex (digits c among)]
    rw [ones]
    simp
  · intro c among
    have isDigit := digits c among
    simp only [isHex, isNumeral, Bool.or_eq_true, Bool.and_eq_true, decide_eq_true_iff] at isDigit
    simp only [Char.isDigit, Bool.or_eq_true, Bool.and_eq_true, decide_eq_true_iff]
    exact .inl isDigit

theorem slash_mem_of_isRepository {value : String} (isName : isRepository value = true) :
    value.toList.contains '/' = true := by
  rw [List.contains_iff_mem]
  by_contra absent
  rw [isRepository, List.splitOn_eq_singleton absent] at isName
  cases isName

theorem any_isEmpty_eq_false {isName : String → Bool} {names : List String}
    (rejects : isName "" = false) (checked : ¬ (names.any fun name => !isName name) = true) :
    names.any String.isEmpty = false := by
  rw [Bool.not_eq_true, List.any_eq_false] at checked
  rw [List.any_eq_false]
  intro name among empty
  rw [String.isEmpty_iff.mp empty] at among
  exact checked "" among (by rw [rejects]; rfl)

theorem permissions_accepted {permissions : ToolDeploymentPermissions}
    (checked : validatePermissions permissions = .ok ()) :
    permissions.env.any String.isEmpty = false ∧
      permissions.networkHosts.any String.isEmpty = false ∧
      permissions.executables.any String.isEmpty = false := by
  unfold validatePermissions at checked
  split at checked
  case isTrue => cases checked
  case isFalse env =>
    split at checked
    case isTrue => cases checked
    case isFalse hosts =>
      split at checked
      case isTrue => cases checked
      case isFalse executables =>
        exact ⟨any_isEmpty_eq_false (by decide) env,
          any_isEmpty_eq_false (by decide) hosts,
          any_isEmpty_eq_false (by decide) executables⟩

def isIssued : ToolDeploymentPayload → Bool
  | .skill .. => true
  | .mcpStdio .. => true
  | _ => false

theorem payloadFieldsValid_wirePayload {payload : ToolDeploymentPayload}
    (issued : isIssued payload = true) (checked : validatePayload newUrl payload = .ok ()) :
    Reconcile.payloadFieldsValid (wirePayload payload) = true := by
  cases payload with
  | skill => rfl
  | mcpStdio command args requiredEnvNames managedKey =>
    unfold validatePayload at checked
    obtain ⟨-, checked⟩ := of_check checked
    obtain ⟨noShell, -⟩ := of_check checked
    have lower : String.ofList (command.toList.map Char.toLower) = command.toLower := by
      show _ = command.map Char.toLower
      rw [← String.toList_inj, String.toList_ofList, String.toList_map]
    rw [lower] at noShell
    rw [wirePayload, Reconcile.payloadFieldsValid, Bool.not_eq_true']
    exact noShell
  | mcpHttp => cases issued
  | plugin => cases issued

theorem payloadMatches_wireManifest (kind : manifest.kind = manifest.payload.kind) :
    Reconcile.payloadMatches (wireManifest manifest) = true := by
  rw [Reconcile.payloadMatches, wireManifest]
  dsimp only
  rw [kind]
  cases manifest.payload <;> rfl

end Checks

/-! ### The items of a response -/

section Delivery

variable {newUrl : String → Option Url} {versions : String → Option ToolVersion}

/-- The manifest of a version: stored, valid, and of a kind that is issued. -/
structure IsAvailable (newUrl : String → Option Url) (versions : String → Option ToolVersion)
    (versionId : String) (manifest : ToolDeploymentManifest) : Prop where
  stored : (versions versionId).map ToolVersion.manifest = some manifest
  valid : validateInstallManifest newUrl manifest = .ok manifest
  issued : isIssued manifest.payload = true

theorem getManifestVersion_eq_some {versionId : String} {manifest : ToolDeploymentManifest} :
    getManifestVersion newUrl versions versionId = some manifest ↔
      IsAvailable newUrl versions versionId manifest := by
  unfold getManifestVersion
  cases stored : versions versionId with
  | none => exact ⟨nofun, fun available => by simpa [stored] using available.stored⟩
  | some version =>
    rw [Option.bind_some]
    cases checked : validateInstallManifest newUrl version.manifest with
    | error message =>
      refine iff_of_false nofun fun available => ?_
      have same : version.manifest = manifest := by simpa [stored] using available.stored
      rw [same, available.valid] at checked
      cases checked
    | ok valid =>
      obtain rfl := validateInstallManifest_eq newUrl checked
      have issued_iff : (match version.manifest.payload with
          | .skill .. => some version.manifest
          | .mcpStdio .. => some version.manifest
          | _ => none) = some manifest ↔
          isIssued version.manifest.payload = true ∧ version.manifest = manifest := by
        cases version.manifest.payload <;> simp [isIssued]
      refine issued_iff.trans ⟨?_, fun available => ?_⟩
      · rintro ⟨issued, rfl⟩
        exact ⟨by rw [stored]; rfl, checked, issued⟩
      · have same : version.manifest = manifest := by simpa [stored] using available.stored
        exact ⟨same ▸ available.issued, same⟩

/-- A desired item that can be delivered: its manifest is the item's own, from a source that the
device knows. -/
structure IsUsable (newUrl : String → Option Url) (versions : String → Option ToolVersion)
    (entry : DesiredTool) (manifest : ToolDeploymentManifest) : Prop
    extends IsAvailable newUrl versions entry.versionId manifest where
  provider : manifest.source.provider = "github"
  item : manifest.catalogItemId = entry.catalogItemId
  version : manifest.versionId = entry.versionId

theorem rollout_of_mem {context : ResolveDesiredInput} {entry : DesiredTool}
    (among : entry ∈ resolveDesiredTools context) :
    (match wireOrigin entry.origin with
      | .personal => entry.rolloutId.isNone
      | .team => entry.rolloutId.isSome) = true := by
  have resolved := mem_resolveDesiredTools.mp among
  unfold resolveItem at resolved
  split at resolved
  case isTrue => cases resolved
  case isFalse =>
    split at resolved
    case h_1 => rw [List.mem_singleton.mp resolved]; rfl
    case h_2 =>
      split at resolved
      case h_1 => cases resolved
      case h_2 =>
        split at resolved
        case isTrue => cases resolved
        case isFalse => rw [List.mem_singleton.mp resolved]; rfl

/-- **What the device asks of an item**, on top of what the server has checked. -/
theorem itemAccepted_wireItem {context : ResolveDesiredInput} {entry : DesiredTool}
    {manifest : ToolDeploymentManifest} (among : entry ∈ resolveDesiredTools context)
    (available : IsAvailable newUrl versions entry.versionId manifest) :
    Reconcile.itemAccepted (wireItem (entry, manifest)) = true ↔
      IsUsable newUrl versions entry manifest := by
  have checked := isChecked_of_validateInstallManifest available.valid
  obtain ⟨env, hosts, executables⟩ := permissions_accepted checked.permissions
  have rollout := rollout_of_mem among
  have accepted : Reconcile.itemAccepted (wireItem (entry, manifest)) =
      (manifest.source.provider == "github" && entry.catalogItemId == manifest.catalogItemId &&
        entry.versionId == manifest.versionId) := by
    have kind : Reconcile.payloadMatches (wireItem (entry, manifest)).manifest = true :=
      payloadMatches_wireManifest checked.kind
    have fields : Reconcile.payloadFieldsValid (wireItem (entry, manifest)).manifest.payload = true :=
      payloadFieldsValid_wirePayload available.issued checked.payload
    rw [Reconcile.itemAccepted, kind, fields]
    simp only [wireItem, wireManifest, checked.schemaVersion, checked.minProtocolVersion,
      slash_mem_of_isRepository checked.repository, refIsSha_of_isCommitSha checked.exactRef,
      env, hosts, executables, beq_self_eq_true, Bool.true_and, Bool.and_true, Bool.not_false]
    exact (congrArg (and _) rollout).trans (Bool.and_true _)
  rw [accepted, Bool.and_eq_true, Bool.and_eq_true, beq_iff_eq, beq_iff_eq, beq_iff_eq]
  exact ⟨fun ⟨⟨provider, item⟩, version⟩ => ⟨available, provider, item.symm, version.symm⟩,
    fun usable => ⟨⟨usable.provider, usable.item.symm⟩, usable.version.symm⟩⟩

/-- **A response has every desired item with its manifest**, or there is none. -/
theorem buildDeviceManifest_eq_some {context : ResolveDesiredInput}
    {items : List (DesiredTool × ToolDeploymentManifest)} :
    buildDeviceManifest newUrl versions context = some items ↔
      List.Forall₂ (fun entry item => item.1 = entry ∧
        IsAvailable newUrl versions entry.versionId item.2) (resolveDesiredTools context) items := by
  unfold buildDeviceManifest
  generalize resolveDesiredTools context = tools
  induction tools generalizing items with
  | nil =>
    rw [List.mapM_nil, List.forall₂_nil_left_iff]
    exact ⟨fun same => (Option.some_inj.mp same).symm, fun same => by rw [same]; rfl⟩
  | cons entry tools ih =>
    rw [List.mapM_cons]
    constructor
    · intro built
      obtain ⟨first, isFirst, built⟩ := Option.bind_eq_some_iff.mp built
      obtain ⟨rest, isRest, made⟩ := Option.bind_eq_some_iff.mp built
      cases made
      obtain ⟨manifest, available, rfl⟩ := Option.map_eq_some_iff.mp isFirst
      exact .cons ⟨rfl, getManifestVersion_eq_some.mp available⟩ (ih.mp isRest)
    · rintro (_ | ⟨⟨rfl, available⟩, isRest⟩)
      rw [getManifestVersion_eq_some.mpr available, ih.mpr isRest]
      rfl

theorem exists_buildDeviceManifest {context : ResolveDesiredInput} :
    (∃ items, buildDeviceManifest newUrl versions context = some items) ↔
      ∀ entry ∈ resolveDesiredTools context, ∃ manifest,
        IsAvailable newUrl versions entry.versionId manifest := by
  simp only [buildDeviceManifest_eq_some]
  generalize resolveDesiredTools context = tools
  induction tools with
  | nil => exact iff_of_true ⟨[], .nil⟩ nofun
  | cons entry tools ih =>
    rw [List.forall_mem_cons, ← ih]
    constructor
    · rintro ⟨_, _ | ⟨⟨rfl, available⟩, rest⟩⟩
      exact ⟨⟨_, available⟩, _, rest⟩
    · rintro ⟨⟨manifest, available⟩, items, rest⟩
      exact ⟨(entry, manifest) :: items, .cons ⟨rfl, available⟩ rest⟩

theorem IsAvailable.unique {versionId : String} {manifest manifest' : ToolDeploymentManifest}
    (available : IsAvailable newUrl versions versionId manifest)
    (available' : IsAvailable newUrl versions versionId manifest') : manifest = manifest' :=
  Option.some_inj.mp (available.stored.symm.trans available'.stored)

theorem forall_itemAccepted_iff {context : ResolveDesiredInput} {tools : List DesiredTool}
    {items : List (DesiredTool × ToolDeploymentManifest)}
    (desired : ∀ entry ∈ tools, entry ∈ resolveDesiredTools context)
    (pairs : List.Forall₂ (fun entry item => item.1 = entry ∧
      IsAvailable newUrl versions entry.versionId item.2) tools items) :
    (∀ item ∈ items, Reconcile.itemAccepted (wireItem item) = true) ↔
      ∀ entry ∈ tools, ∃ manifest, IsUsable newUrl versions entry manifest := by
  induction pairs with
  | nil => exact iff_of_true nofun nofun
  | @cons entry item tools items isItem rest ih =>
    obtain ⟨rfl, available⟩ := isItem
    rw [List.forall_mem_cons, List.forall_mem_cons,
      ih fun other among => desired other (List.mem_cons_of_mem _ among)]
    refine and_congr_left' ((itemAccepted_wireItem (desired _ List.mem_cons_self) available).trans
      ⟨fun usable => ⟨_, usable⟩, fun ⟨manifest, usable⟩ => ?_⟩)
    rwa [available.unique usable.toIsAvailable]

/-- **A device takes a response exactly if all its items are usable.** -/
theorem deviceAccepts_iff {context : ResolveDesiredInput} {generatedAt : DateText}
    {items : List (DesiredTool × ToolDeploymentManifest)}
    (built : buildDeviceManifest newUrl versions context = some items) :
    DeviceAccepts ⟨1, generatedAt.text, 60, items.map wireItem⟩ ↔
      ∀ entry ∈ resolveDesiredTools context, ∃ manifest,
        IsUsable newUrl versions entry manifest := by
  rw [← forall_itemAccepted_iff (fun _ among => among) (buildDeviceManifest_eq_some.mp built)]
  have parsed : Reconcile.parseManifest ⟨1, generatedAt.text, 60, items.map wireItem⟩
      = .ok ⟨1, generatedAt.text, 60, items.map wireItem⟩ := rfl
  have all_iff := List.all_eq_true (l := items) (p := Reconcile.itemAccepted ∘ wireItem)
  rw [← List.all_map] at all_iff
  refine Iff.trans ?_ all_iff
  unfold DeviceAccepts
  rw [parsed]
  simp only [Except.ok.injEq, exists_eq_left', Reconcile.validateProtocolContract,
    generatedAt.written, Bool.false_or, Bool.not_eq_true']
  cases (items.map wireItem).all Reconcile.itemAccepted <;> simp

theorem exists_of_forall₂ {α β : Type} {relation : α → β → Prop} {left : List α} {right : List β}
    (pairs : List.Forall₂ relation left right) {value : α} (among : value ∈ left) :
    ∃ other ∈ right, relation value other := by
  induction pairs with
  | nil => cases among
  | cons first rest ih =>
    obtain rfl | among := List.mem_cons.mp among
    · exact ⟨_, List.mem_cons_self, first⟩
    · obtain ⟨other, isOther, related⟩ := ih among
      exact ⟨other, List.mem_cons_of_mem _ isOther, related⟩

def CanDeliver (newUrl : String → Option Url) (versions : String → Option ToolVersion)
    (entry : DesiredTool) : Prop :=
  ∃ manifest, IsUsable newUrl versions entry manifest

/-- Each usable item is in the answer, and the device takes what is sent. -/
structure IsUnblocked (newUrl : String → Option Url) (versions : String → Option ToolVersion)
    (context : ResolveDesiredInput) (answer : Except String Reconcile.DeviceManifestV1) : Prop where
  delivered : ∀ entry ∈ resolveDesiredTools context, ∀ manifest,
    IsUsable newUrl versions entry manifest →
    ∃ response, answer = .ok response ∧ wireItem (entry, manifest) ∈ response.items
  accepted : ∀ response, answer = .ok response → DeviceAccepts response

section Answers

variable {deviceContext : String → Option ResolveDesiredInput} {context : ResolveDesiredInput}
  {generatedAt : DateText} {fingerprint : String}

theorem getDeviceManifest_eq_ok (isDevice : isFingerprint fingerprint = true)
    (owned : deviceContext fingerprint = some context) {response : Reconcile.DeviceManifestV1} :
    getDeviceManifest newUrl versions deviceContext generatedAt 1 fingerprint = .ok response ↔
      ∃ items, buildDeviceManifest newUrl versions context = some items ∧
        response = ⟨1, generatedAt.text, 60, items.map wireItem⟩ := by
  rw [getDeviceManifest, if_neg (not_not.mpr rfl), isDevice, owned, if_neg (by decide)]
  dsimp only
  cases buildDeviceManifest newUrl versions context with
  | none => exact iff_of_false (fun same => nomatch same) fun ⟨_, same, _⟩ => nomatch same
  | some items =>
    constructor
    · rintro ⟨⟩
      exact ⟨items, rfl, rfl⟩
    · rintro ⟨_, ⟨⟩, rfl⟩
      rfl

theorem canDeliver_of_isUnblocked (isDevice : isFingerprint fingerprint = true)
    (owned : deviceContext fingerprint = some context)
    (unblocked : IsUnblocked newUrl versions context
      (getDeviceManifest newUrl versions deviceContext generatedAt 1 fingerprint))
    {entry : DesiredTool} (among : entry ∈ resolveDesiredTools context)
    (usable : CanDeliver newUrl versions entry) :
    ∀ other ∈ resolveDesiredTools context, CanDeliver newUrl versions other := by
  obtain ⟨manifest, isUsable⟩ := usable
  obtain ⟨response, answered, -⟩ := unblocked.delivered entry among manifest isUsable
  have accepted := unblocked.accepted response answered
  obtain ⟨items, built, rfl⟩ := (getDeviceManifest_eq_ok isDevice owned).mp answered
  exact (deviceAccepts_iff built).mp accepted

/-- **No desired item blocks another** exactly if all of them are usable, or none is and one of them
is not even available, so that nothing is sent. -/
theorem unblocked_iff (isDevice : isFingerprint fingerprint = true)
    (owned : deviceContext fingerprint = some context) :
    IsUnblocked newUrl versions context
        (getDeviceManifest newUrl versions deviceContext generatedAt 1 fingerprint) ↔
      (∀ entry ∈ resolveDesiredTools context, CanDeliver newUrl versions entry) ∨
      (∀ entry ∈ resolveDesiredTools context, ¬ CanDeliver newUrl versions entry) ∧
        ∃ entry ∈ resolveDesiredTools context, ∀ manifest,
          ¬ IsAvailable newUrl versions entry.versionId manifest := by
  constructor
  · intro unblocked
    by_cases one : ∃ entry ∈ resolveDesiredTools context, CanDeliver newUrl versions entry
    · obtain ⟨entry, among, usable⟩ := one
      exact .inl (canDeliver_of_isUnblocked isDevice owned unblocked among usable)
    · push Not at one
      by_cases all : ∀ entry ∈ resolveDesiredTools context, ∃ manifest,
          IsAvailable newUrl versions entry.versionId manifest
      · obtain ⟨items, built⟩ := exists_buildDeviceManifest.mpr all
        have accepted := unblocked.accepted _
          ((getDeviceManifest_eq_ok isDevice owned).mpr ⟨items, built, rfl⟩)
        exact .inl ((deviceAccepts_iff built).mp accepted)
      · push Not at all
        exact .inr ⟨one, all⟩
  · rintro (all | ⟨none, entry, among, unavailable⟩)
    · refine ⟨fun entry among manifest usable => ?_, fun response answered => ?_⟩
      · obtain ⟨items, built⟩ := exists_buildDeviceManifest.mpr fun entry among =>
          (all entry among).imp fun _ usable => usable.toIsAvailable
        refine ⟨_, (getDeviceManifest_eq_ok isDevice owned).mpr ⟨items, built, rfl⟩, ?_⟩
        obtain ⟨item, isItem, same, available⟩ :=
          exists_of_forall₂ (buildDeviceManifest_eq_some.mp built) among
        rw [usable.toIsAvailable.unique available, ← same]
        exact List.mem_map_of_mem isItem
      · obtain ⟨items, built, rfl⟩ := (getDeviceManifest_eq_ok isDevice owned).mp answered
        exact (deviceAccepts_iff built).mpr all
    · refine ⟨fun other isOther manifest usable => absurd ⟨manifest, usable⟩ (none other isOther),
        fun response answered => ?_⟩
      obtain ⟨items, built, -⟩ := (getDeviceManifest_eq_ok isDevice owned).mp answered
      obtain ⟨manifest, available⟩ := exists_buildDeviceManifest.mp ⟨items, built⟩ entry among
      exact absurd available (unavailable manifest)

end Answers

end Delivery

/-! ### One version and two items -/

def archiveUrl (value : String) : Option Url :=
  if value = "https://github.com/acme/review/archive/a.tar.gz" then some ⟨"https:", "", ""⟩ else none

def reviewManifest : ToolDeploymentManifest where
  schemaVersion := 1
  catalogItemId := "review"
  versionId := "version-1"
  slug := "review"
  kind := .skill
  source :=
    { provider := "github"
      repository := "acme/review"
      exactRef := "aaaaaaaaaaaaaaaaaaaaaaaaaaaaaaaaaaaaaaaa"
      path := ""
      treeDigest := "sha256:bbbbbbbbbbbbbbbbbbbbbbbbbbbbbbbbbbbbbbbbbbbbbbbbbbbbbbbbbbbbbbbb"
      downloadUrl := "https://github.com/acme/review/archive/a.tar.gz" }
  clients := [.codex]
  minProtocolVersion := 1
  permissions := ⟨[], [], []⟩
  payload := .skill ["SKILL.md"] "review"

def storedVersions (versionId : String) : Option ToolVersion :=
  if versionId = "version-1" then some ⟨"review", reviewManifest⟩ else none

def installOf (catalogItemId : String) : PersonalPreferenceInput where
  actorUserId := "user-1"
  catalogItemId := catalogItemId
  mode := .install
  scope := .allDevices
  versionId := some "version-1"
  deviceFingerprints := []

def isPublished (_ : String) : Option ToolCatalogLifecycle := some .published

def plainFingerprint : String := "aaaaaaaaaaaaaaaaaaaaaaaaaaaaaaaaaaaaaaaaaaaaaaaaaaaaaaaaaaaaaaaa"

def plainContext (table : PreferenceTable) : ResolveDesiredInput :=
  getDeviceContext .empty isPublished "team-1" "user-1" plainFingerprint
    (preferencesOf table "user-1")

def plainDate : DateText := ⟨"2026-07-15T00:00:00.000Z", by decide⟩

theorem review_isUsable :
    IsUsable archiveUrl storedVersions ⟨"review", "version-1", .personal, none⟩ reviewManifest where
  stored := rfl
  valid := by decide
  issued := rfl
  provider := rfl
  item := rfl
  version := rfl

def installRow : PreferenceRow := ⟨.install, .allDevices, some "version-1", []⟩

theorem unblocked_iff_review :
    ∃ table, savePersonalPreference storedVersions .empty (installOf "review") = .ok table ∧
      IsUnblocked archiveUrl storedVersions (plainContext table)
        (getDeviceManifest archiveUrl storedVersions (fun _ => some (plainContext table)) plainDate 1
          plainFingerprint) := by
  refine ⟨⟨[(("user-1", "review"), installRow)], by decide⟩, by decide,
    (unblocked_iff (by decide) rfl).mpr (.inl fun entry among => ⟨reviewManifest, ?_⟩)⟩
  have tools : resolveDesiredTools (plainContext ⟨[(("user-1", "review"), installRow)], by decide⟩) =
      [⟨"review", "version-1", .personal, none⟩] := by decide +kernel
  rw [tools, List.mem_singleton] at among
  rw [among]
  exact review_isUsable

/-- **A version chosen for an item that is not its own** blocks the item that it belongs to. -/
theorem blocked_by_other :
    ∃ table table', savePersonalPreference storedVersions .empty (installOf "review") = .ok table ∧
      savePersonalPreference storedVersions table (installOf "lint") = .ok table' ∧
      (∃ entry ∈ resolveDesiredTools (plainContext table'),
        CanDeliver archiveUrl storedVersions entry) ∧
      ¬ IsUnblocked archiveUrl storedVersions (plainContext table')
        (getDeviceManifest archiveUrl storedVersions (fun _ => some (plainContext table')) plainDate 1
          plainFingerprint) := by
  refine ⟨⟨[(("user-1", "review"), installRow)], by decide⟩,
    ⟨[(("user-1", "review"), installRow), (("user-1", "lint"), installRow)], by decide⟩,
    by decide, by decide, ?_⟩
  have review : (⟨"review", "version-1", .personal, none⟩ : DesiredTool) ∈ resolveDesiredTools
      (plainContext ⟨[(("user-1", "review"), installRow), (("user-1", "lint"), installRow)],
        by decide⟩) :=
    mem_resolveDesiredTools.mpr (by decide)
  have lint : (⟨"lint", "version-1", .personal, none⟩ : DesiredTool) ∈ resolveDesiredTools
      (plainContext ⟨[(("user-1", "review"), installRow), (("user-1", "lint"), installRow)],
        by decide⟩) :=
    mem_resolveDesiredTools.mpr (by decide)
  have usable : CanDeliver archiveUrl storedVersions ⟨"review", "version-1", .personal, none⟩ :=
    ⟨reviewManifest, review_isUsable⟩
  refine ⟨⟨_, review, usable⟩, fun unblocked => ?_⟩
  obtain ⟨manifest, other⟩ :=
    canDeliver_of_isUnblocked (by decide) rfl unblocked review usable _ lint
  have same : reviewManifest = manifest := Option.some_inj.mp other.stored
  rw [← same] at other
  exact absurd other.item (by decide)

end Toard.Deployment
