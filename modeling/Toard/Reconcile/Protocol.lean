/-
**What the server wants on a device, and what the device has recorded.**
-/

import Toard.Reconcile.Archive

namespace Toard.Reconcile

open Toard.Library (OrderedMap)
open Toard.Deployment (ToolDeploymentStatus utf8)

/-! ### The manifest -/

inductive DeploymentOrigin where
  | personal
  | team
deriving DecidableEq

structure ManifestSource where
  provider : String
  repository : String
  exactRef : String
  path : String
  treeDigest : String
  downloadUrl : String
deriving DecidableEq

structure ManifestPermissions where
  env : List String
  networkHosts : List String
  executables : List String
deriving DecidableEq

structure PluginComponent where
  componentType : String
  key : String
deriving DecidableEq

inductive InstallPayload where
  | skill (files : List String) (targetKey : String)
  | mcpStdio (command : String) (args requiredEnvNames : List String) (managedKey : String)
  | mcpHttp (url auth managedKey : String)
  | plugin (components : List PluginComponent)
deriving DecidableEq

structure ToolManifestV1 where
  schemaVersion : Nat
  catalogItemId : String
  versionId : String
  slug : String
  kind : String
  source : ManifestSource
  clients : List String
  minProtocolVersion : Nat
  permissions : ManifestPermissions
  payload : InstallPayload
deriving DecidableEq

structure DesiredItem where
  catalogItemId : String
  versionId : String
  origin : DeploymentOrigin
  rolloutId : Option String
  manifest : ToolManifestV1
deriving DecidableEq

def DesiredItem.slug (item : DesiredItem) : String := item.manifest.slug

structure DeviceManifestV1 where
  schemaVersion : Nat
  generatedAt : String
  reconcileAfterSeconds : Nat
  items : List DesiredItem
deriving DecidableEq

/-- `parse_manifest`, of a body that has the fields of a manifest. -/
def parseManifest (manifest : DeviceManifestV1) : Except String DeviceManifestV1 :=
  if manifest.schemaVersion != 1 || manifest.reconcileAfterSeconds < 60 then
    .error "protocol_unsupported"
  else .ok manifest

def shells : List String :=
  ["sh", "bash", "zsh", "fish", "cmd", "cmd.exe", "pwsh", "powershell", "powershell.exe"]

def refIsSha (exactRef : String) : Bool :=
  (utf8 exactRef).length == 40 && exactRef.toList.all fun c =>
    c.isDigit || ('a' ≤ c && c ≤ 'f') || ('A' ≤ c && c ≤ 'F')

def payloadMatches (manifest : ToolManifestV1) : Bool :=
  match manifest.kind, manifest.payload with
  | "skill", .skill .. => true
  | "mcp", .mcpStdio .. => true
  | "mcp", .mcpHttp .. => true
  | "plugin", .plugin .. => true
  | _, _ => false

def payloadFieldsValid : InstallPayload → Bool
  | .mcpStdio command .. => !shells.contains command.toLower
  | .mcpHttp url _ managedKey => "https://".isPrefixOf url && !managedKey.isEmpty
  | .plugin components => components.all fun component =>
      ["skill", "mcp_stdio", "mcp_http"].contains component.componentType && !component.key.isEmpty
  | .skill .. => true

/-- What `validate_protocol_contract` asks of an item. -/
def itemAccepted (item : DesiredItem) : Bool :=
  let source := item.manifest.source
  let permissions := item.manifest.permissions
  item.manifest.schemaVersion == 1 && item.manifest.minProtocolVersion == 1 &&
    source.provider == "github" && source.repository.toList.contains '/' &&
    refIsSha source.exactRef &&
    item.catalogItemId == item.manifest.catalogItemId && item.versionId == item.manifest.versionId &&
    (match item.origin with
      | .personal => item.rolloutId.isNone
      | .team => item.rolloutId.isSome) &&
    payloadMatches item.manifest && payloadFieldsValid item.manifest.payload &&
    !permissions.env.any String.isEmpty && !permissions.networkHosts.any String.isEmpty &&
    !permissions.executables.any String.isEmpty

def validateProtocolContract (manifest : DeviceManifestV1) : Except String Unit :=
  if manifest.generatedAt.isEmpty || !manifest.items.all itemAccepted then
    .error "invalid_manifest"
  else .ok ()

/-! ### The clients -/

inductive Client where
  | claudeCode
  | codex
deriving DecidableEq

def clientOf : String → Option Client
  | "claude_code" => some .claudeCode
  | "codex" => some .codex
  | _ => none

def skillsDirectory : Client → List String
  | .claudeCode => [".claude", "skills"]
  | .codex => [".codex", "skills"]

def configFile : Client → List String
  | .claudeCode => [".claude.json"]
  | .codex => [".codex", "config.toml"]

structure TargetPath where
  directory : Location
  key : String
deriving DecidableEq

def TargetPath.path (target : TargetPath) : Path := join (pathOf target.directory) target.key

def targetPath (directory : Location) (key : String) : TargetPath where
  directory := if isAbsolute key then [] else directory
  key := key

/-- `skill_targets`. -/
def skillTargets (home : Location) (clients : List String) (targetKey : String) : List TargetPath :=
  clients.filterMap fun client =>
    (clientOf client).map fun client => targetPath (home ++ skillsDirectory client) targetKey

/-! ### The managed state -/

structure ManagedItem where
  catalogItemId : String
  versionId : String
  lastKnownGoodVersionId : String
  managedKeys : List String
  managedPaths : List TargetPath
  settingsRequired : Bool
deriving DecidableEq

abbrev ManagedState := OrderedMap String ManagedItem

/-- `ManagedState::manages_key`: some item has the key, in whichever client. -/
def managesKey (state : ManagedState) (key : String) : Bool :=
  state.values.any fun item => item.managedKeys.contains key

def slugs (state : ManagedState) : List String :=
  (state.entries.map Prod.fst).insertionSort (· ≤ ·)

/-! ### Reports -/

structure DeploymentReport where
  deviceFingerprint : String
  catalogItemId : String
  desiredVersionId : Option String
  appliedVersionId : Option String
  status : ToolDeploymentStatus
  errorCode : Option String
  attempt : Nat
  rolloutId : Option String
deriving DecidableEq

def report (item : DesiredItem) (status : ToolDeploymentStatus) (errorCode : Option String) :
    DeploymentReport where
  deviceFingerprint := ""
  catalogItemId := item.catalogItemId
  desiredVersionId := some item.versionId
  appliedVersionId :=
    if status = .installed ∨ status = .settingsRequired then some item.versionId else none
  status := status
  errorCode := errorCode
  attempt := 1
  rolloutId := item.rolloutId

end Toard.Reconcile
