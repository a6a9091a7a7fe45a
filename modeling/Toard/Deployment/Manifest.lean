/-
**The manifest of a tool version (`tool-deployment.ts`, `tool-source.ts`).**

A version of a tool is described by one manifest: where its files come from, which rights it asks
for, the clients it is for, and a payload of one of four kinds. `validateInstallManifest` is what the
server checks before it stores or serves one. The regular expressions are predicates on the
characters, and the platform's URL parser is a parameter.
-/

import Mathlib.Data.List.Basic

namespace Toard.Deployment

/-! ### The data -/

inductive ToolCatalogKind where
  | mcp
  | skill
  | plugin
deriving DecidableEq

inductive ToolCatalogClient where
  | codex
  | claudeCode
deriving DecidableEq

structure ToolDeploymentSource where
  provider : String
  repository : String
  exactRef : String
  path : String
  treeDigest : String
  downloadUrl : String
deriving DecidableEq

structure ToolDeploymentPermissions where
  env : List String
  networkHosts : List String
  executables : List String
deriving DecidableEq

inductive HttpAuth where
  | none
  | oauth
  | manualSecretHeader
deriving DecidableEq

inductive ComponentType where
  | skill
  | mcpStdio
  | mcpHttp
deriving DecidableEq

namespace ComponentType

def text : ComponentType → String
  | .skill => "skill"
  | .mcpStdio => "mcp_stdio"
  | .mcpHttp => "mcp_http"

end ComponentType

structure PluginComponent where
  type : ComponentType
  key : String
deriving DecidableEq

inductive ToolDeploymentPayload where
  | skill (files : List String) (targetKey : String)
  | mcpStdio (command : String) (args requiredEnvNames : List String) (managedKey : String)
  | mcpHttp (url : String) (auth : HttpAuth) (managedKey : String)
  | plugin (components : List PluginComponent)
deriving DecidableEq

structure ToolDeploymentManifest where
  schemaVersion : Nat
  catalogItemId : String
  versionId : String
  slug : String
  kind : ToolCatalogKind
  source : ToolDeploymentSource
  clients : List ToolCatalogClient
  minProtocolVersion : Nat
  permissions : ToolDeploymentPermissions
  payload : ToolDeploymentPayload
deriving DecidableEq

/-! ### The regular expressions -/

def isLower (c : Char) : Bool := 'a' ≤ c && c ≤ 'z'

def isUpper (c : Char) : Bool := 'A' ≤ c && c ≤ 'Z'

def isNumeral (c : Char) : Bool := '0' ≤ c && c ≤ '9'

def isHex (c : Char) : Bool := isNumeral c || ('a' ≤ c && c ≤ 'f')

/-- `[A-Za-z0-9._-]` -/
def isKeyChar (c : Char) : Bool :=
  isLower c || isUpper c || isNumeral c || c == '.' || c == '_' || c == '-'

/-- `DIGEST`: `sha256:` and 64 hexadecimal digits. -/
def isDigest (value : String) : Bool :=
  let text := value.toList
  text.take 7 == "sha256:".toList && (text.drop 7).length == 64 && (text.drop 7).all isHex

/-- `COMMIT_SHA` -/
def isCommitSha (value : String) : Bool :=
  value.toList.length == 40 && value.toList.all isHex

/-- `REPOSITORY`: an owner and a name. -/
def isRepository (value : String) : Bool :=
  match value.toList.splitOn '/' with
  | [owner, name] => !owner.isEmpty && owner.all isKeyChar && !name.isEmpty && name.all isKeyChar
  | _ => false

/-- `ENV_NAME` -/
def isEnvName (value : String) : Bool :=
  match value.toList with
  | [] => false
  | first :: rest => (isUpper first || first == '_') &&
      rest.all fun c => isUpper c || isNumeral c || c == '_'

/-- One label of a host name: letters and digits, hyphens only inside. -/
def isHostLabel (label : List Char) : Bool :=
  let isEnd := fun c => isLower c || isNumeral c
  label.length ≤ 63 && label.head?.any isEnd && label.getLast?.any isEnd &&
    label.all fun c => isEnd c || c == '-'

/-- `HOST` -/
def isHost (value : String) : Bool :=
  1 ≤ value.toList.length && value.toList.length ≤ 253 &&
    (value.toList.splitOn '.').all isHostLabel

/-- `EXECUTABLE` -/
def isExecutable (value : String) : Bool :=
  !value.toList.isEmpty && value.toList.all fun c => isKeyChar c || c == '+'

/-- `MANAGED_KEY` -/
def isManagedKey (value : String) : Bool :=
  1 ≤ value.toList.length && value.toList.length ≤ 200 && value.toList.all isKeyChar

/-- `\d+\.\d+\.\d+(?:-[0-9A-Za-z.-]+)?` -/
def isPinnedVersion (text : List Char) : Bool :=
  let isNumber := fun (part : List Char) => !part.isEmpty && part.all isNumeral
  let release := text.takeWhile (· != '-')
  let suffix := text.drop release.length
  (match release.splitOn '.' with
    | [major, minor, patch] => isNumber major && isNumber minor && isNumber patch
    | _ => false) &&
  (suffix.isEmpty || (1 < suffix.length && (suffix.drop 1).all fun c =>
    isNumeral c || isLower c || isUpper c || c == '.' || c == '-'))

/-- `PINNED_NPM_PACKAGE`: a package, perhaps in a scope, at one version. -/
def isPinnedNpmPackage (arg : String) : Bool :=
  let isName := fun (part : List Char) => !part.isEmpty && part.all isKeyChar
  match arg.toList.splitOn '@' with
  | [name, version] => isName name && isPinnedVersion version
  | [[], full, version] =>
    (match full.splitOn '/' with
      | [owner, name] => isName owner && isName name
      | _ => false) && isPinnedVersion version
  | _ => false

def SHELL_TRAMPOLINES : List String :=
  ["sh", "bash", "zsh", "fish", "cmd", "cmd.exe", "pwsh", "powershell", "powershell.exe"]

/-! ### What the server checks -/

structure Url where
  protocol : String
  username : String
  password : String
deriving DecidableEq

/-- The UTF-16 code units of a string, by which the language measures and compares it. -/
def codeUnits (value : String) : List Nat :=
  value.toList.flatMap fun c => if c.toNat ≤ 0xFFFF then [c.toNat]
    else [0xD800 + (c.toNat - 0x10000) / 1024, 0xDC00 + (c.toNat - 0x10000) % 1024]

def normalizeSafeRelativePath (value : String) : Except String String :=
  let segments := value.toList.splitOn '/'
  if value.toList.isEmpty || value.toList.contains '\x00' || value.toList.contains '\\' then
    .error "unsafe source path"
  -- A leading slash and a double one leave an empty segment.
  else if segments.any fun segment => segment.isEmpty || segment == ['.'] || segment == ['.', '.']
    then .error "unsafe source path"
  else .ok value

section Validation

-- `new URL`, the parser of the platform: none where it throws.
variable (newUrl : String → Option Url)

def validateHttpsUrl (value label : String) : Except String Unit :=
  match newUrl value with
  | none => .error ("invalid " ++ label ++ " URL")
  | some url =>
    if url.protocol != "https:" || url.username != "" || url.password != "" then
      .error ("invalid " ++ label ++ " URL")
    else .ok ()

def validatePermissions (value : ToolDeploymentPermissions) : Except String Unit :=
  if value.env.any fun name => !isEnvName name then .error "invalid environment name"
  else if value.networkHosts.any fun host => !isHost host then .error "invalid network host"
  else if value.executables.any fun command => !isExecutable command then
    .error "invalid executable"
  else .ok ()

/-- The text that `validatePayload` and the permission check compare a component by. -/
def componentKey (component : PluginComponent) : String :=
  component.type.text ++ ":" ++ component.key

def validatePayload : ToolDeploymentPayload → Except String Unit
  | .skill files targetKey => do
    let files ← files.mapM normalizeSafeRelativePath
    if !files.contains "SKILL.md" then throw "Skill manifest requires SKILL.md"
    if !isManagedKey targetKey then throw "invalid managed key"
  | .mcpStdio command args requiredEnvNames managedKey => do
    if !isExecutable command then throw "invalid command"
    if SHELL_TRAMPOLINES.contains (String.ofList (command.toList.map Char.toLower)) then
      throw "shell command is not allowed"
    if args.any fun arg => arg.toList.contains '\x00' || 2000 < (codeUnits arg).length then
      throw "invalid command argument"
    if command == "npx" && !args.any isPinnedNpmPackage then
      throw "npx requires a pinned package version"
    if requiredEnvNames.any fun name => !isEnvName name then throw "invalid environment name"
    if !isManagedKey managedKey then throw "invalid managed key"
  | .mcpHttp url _ managedKey => do
    validateHttpsUrl newUrl url "MCP"
    if !isManagedKey managedKey then throw "invalid managed key"
  | .plugin components => do
    let second := fun (component : PluginComponent) =>
      String.ofList (((componentKey component).toList.splitOn ':').getD 1 [])
    if components.any (fun component => !isManagedKey (second component)) ||
        !(components.map componentKey).Nodup then
      throw "invalid plugin component"

def ToolDeploymentPayload.kind : ToolDeploymentPayload → ToolCatalogKind
  | .skill .. => .skill
  | .mcpStdio .. => .mcp
  | .mcpHttp .. => .mcp
  | .plugin .. => .plugin

/-- The checks of `validateInstallManifest`, in their order. -/
def checkInstallManifest (value : ToolDeploymentManifest) : Except String Unit := do
  if value.schemaVersion != 1 || value.minProtocolVersion != 1 then
    throw "unsupported manifest schema"
  if !isRepository value.source.repository || !isCommitSha value.source.exactRef then
    throw "source must use repository identity and exact commit"
  if value.source.path != "" then
    let _ ← normalizeSafeRelativePath value.source.path
  if !isDigest value.source.treeDigest then throw "invalid source digest"
  validateHttpsUrl newUrl value.source.downloadUrl "download"
  if value.clients.isEmpty || !value.clients.Nodup then throw "manifest requires unique clients"
  validatePermissions value.permissions
  validatePayload newUrl value.payload
  if value.kind != value.payload.kind then throw "kind and payload mismatch"
  match value.payload with
  | .mcpStdio _ _ requiredEnvNames _ =>
    if requiredEnvNames.any fun name => !value.permissions.env.contains name then
      throw "required environment name missing from permissions"
  | _ => pure ()

def validateInstallManifest (value : ToolDeploymentManifest) :
    Except String ToolDeploymentManifest :=
  (checkInstallManifest newUrl value).map fun _ => value

theorem validateInstallManifest_eq {value valid : ToolDeploymentManifest}
    (passes : validateInstallManifest newUrl value = .ok valid) : valid = value := by
  unfold validateInstallManifest at passes
  cases checked : checkInstallManifest newUrl value with
  | error message =>
    rw [checked] at passes
    cases passes
  | ok =>
    rw [checked] at passes
    cases passes
    rfl

end Validation

end Toard.Deployment
