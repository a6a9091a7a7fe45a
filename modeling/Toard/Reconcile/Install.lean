/-
**The reconciler: how an item is installed, updated and removed.**

Each function of the reconciler is a program over the operations of the disk, in the order in which
the source calls them. A reply that the source does not look at is not looked at here.
-/

import Toard.Reconcile.Disk

namespace Toard.Reconcile

open Toard.Library
open Toard.Library.Fallible hiding ask

abbrev call (op : ToolOp) : Tool (ToolReply op) := Program.request op

abbrev ask (op : ToolOp) : Deploy (ToolReply op) := Fallible.ask op

def tried {α : Type} (program : Deploy α) : Deploy (Except String α) :=
  Program.bind program fun result => .done (.ok result)

/-! ### Skills -/

def workingName (name purpose : String) (pid : Nat) : String :=
  "." ++ name ++ ".toard-" ++ purpose ++ "-" ++ toString pid

def workingPath (parent : Path) (name purpose : String) (pid : Nat) : Path :=
  parent ++ [.normal (workingName name purpose pid)]

def writeFiles (slug : String) (staging : Path) : List SourceFile → Deploy Unit
  | [] => pure ()
  | file :: rest => do
    let destination := join staging file.path
    if let some directory := parentPath destination then
      ensure "target_write_failed" (← ask (.createDirAll (some slug) directory))
    ensure "target_write_failed" (← ask (.write slug destination file.bytes))
    writeFiles slug staging rest

/-- The staged files take the place of the target, or what was there is brought back. -/
def placeStaged (target staging backup : Path) (hadPrevious : Bool) : Deploy (Option Path) := do
  if ← ask (.rename staging target .place) then
    return if hadPrevious then some backup else none
  else if hadPrevious then
    let _ ← ask (.rename backup target .restore)
    giveUp "target_write_failed"
  else giveUp "target_write_failed"

/-- `stage_directory`, after its staging directory is made: the files, and the two renames. -/
def fillAndPlace (slug : String) (target staging backup : Path) (files : List SourceFile) :
    Deploy (Option Path) := do
  writeFiles slug staging files
  if !(← ask (.isFile (join staging "SKILL.md"))) then
    let _ ← ask (.removeDirAll staging)
    giveUp "health_check_failed"
  else if ← ask (.exists target) then
    ensure "target_write_failed" (← ask (.rename target backup .setAside))
    placeStaged target staging backup true
  else placeStaged target staging backup false

def stageDirectory (slug : String) (pid : Nat) (target : Path) (files : List SourceFile) :
    Deploy (Option Path) := do
  let parent ← orGiveUp "invalid_target_path" (parentPath target)
  ensure "target_write_failed" (← ask (.createDirAll none parent))
  let name ← orGiveUp "invalid_target_path" (fileName target)
  let staging := workingPath parent name "stage" pid
  let backup := workingPath parent name "backup" pid
  let _ ← ask (.removeDirAll staging)
  let _ ← ask (.removeDirAll backup)
  ensure "target_write_failed" (← ask (.createDirAll (some slug) staging))
  fillAndPlace slug target staging backup files

/-- `rollback_skill_targets`, from the last target to the first. -/
def rollbackSkillTargets : List (Path × Option Path) → Deploy Unit
  | [] => pure ()
  | (target, backup) :: rest => do
    let _ ← ask (.removeDirAll target)
    if let some backup := backup then
      let _ ← ask (.rename backup target .restore)
    rollbackSkillTargets rest

/-- The targets one after the other; the ones before are rolled back if one fails. -/
def stageTargets (slug : String) (pid : Nat) (files : List SourceFile) :
    List TargetPath → List (Path × Option Path) → Deploy (List (Path × Option Path))
  | [], applied => pure applied
  | target :: rest, applied => do
    match ← tried (stageDirectory slug pid target.path files) with
    | .ok backup => stageTargets slug pid files rest ((target.path, backup) :: applied)
    | .error code => do
      rollbackSkillTargets applied
      giveUp code

def removeBackups : List (Path × Option Path) → Deploy Unit
  | [] => pure ()
  | (_, backup) :: rest => do
    if let some backup := backup then
      let _ ← ask (.removeDirAll backup)
    removeBackups rest

/-- A target that is there, and not one that the item has recorded, is a conflict. -/
def refuseUnmanaged (recorded : List TargetPath) : List TargetPath → Deploy Unit
  | [] => pure ()
  | target :: rest => do
    if (← ask (.exists target.path)) && !recorded.contains target then
      giveUp "unmanaged_conflict"
    else refuseUnmanaged recorded rest

def recordedPaths (state : ManagedState) (slug : String) : List TargetPath :=
  ((state.get slug).map ManagedItem.managedPaths).getD []

def managedItem (item : DesiredItem) (managedKeys : List String) (managedPaths : List TargetPath)
    (settingsRequired : Bool) : ManagedItem where
  catalogItemId := item.catalogItemId
  versionId := item.versionId
  lastKnownGoodVersionId := item.versionId
  managedKeys := managedKeys
  managedPaths := managedPaths
  settingsRequired := settingsRequired

section Skill

variable (home : Location) (sha256 : List UInt8 → String) (pid : Nat)

/-- The files of the source, if they have the digest of the manifest. -/
def fetchSource (source : ManifestSource) (listed : List String) : Deploy (List SourceFile) := do
  let archive ← ofExcept (← ask (.download source.downloadUrl))
  let files ← ofExcept (readTarGzFiles sha256 archive source.path listed)
  let digest ← ofExcept (canonicalTreeDigest sha256 files)
  ensure "digest_mismatch" (digest == source.treeDigest)
  return files

def installSkill (item : DesiredItem) (state : ManagedState) (files : List String)
    (targetKey : String) : Deploy ManagedItem := do
  let sourceFiles ← fetchSource sha256 item.manifest.source files
  let targets := skillTargets home item.manifest.clients targetKey
  refuseUnmanaged (recordedPaths state item.slug) targets
  let applied ← stageTargets item.slug pid sourceFiles targets []
  removeBackups applied.reverse
  return managedItem item [] targets false

end Skill

/-! ### Servers -/

/-- What `build_mcp_launch` puts into the files of the clients. -/
def launchEntry (slug : String) : ServerEntry where
  value := .launch "toard-shim" ["tool", "run-mcp", slug]
  maker := some slug

def emptyDocument : Document where
  object := true
  servers := .missing
  rest := ""

def writtenFile (document : Document) : ClientFile where
  access := .text
  parses := true
  document := document

/-- The merge of both adapters: an entry that is there is a conflict, unless some item has the
key. -/
def mergeEntry (document : Document) (state : ManagedState) (key : String) (entry : ServerEntry) :
    Except String Document :=
  if !document.object then .error "invalid_client_config"
  else
    match document.servers with
    | .missing => .ok { document with
        servers := .table (Function.update (fun _ => none) key (some entry)) }
    | .other => .error "invalid_client_config"
    | .table entries =>
      if (entries key).isSome && !managesKey state key then .error "unmanaged_conflict"
      else .ok { document with servers := .table (Function.update entries key (some entry)) }

def mergeManagedJsonEntry (root : Document) (state : ManagedState) (key : String)
    (entry : ServerEntry) : Except String Document := mergeEntry root state key entry

def mergeManagedTomlMcp (content : Document) (state : ManagedState) (key : String)
    (entry : ServerEntry) : Except String Document := mergeEntry content state key entry

def removeEntry (document : Document) (state : ManagedState) (key : String) :
    Except String Document :=
  if !managesKey state key then .error "unmanaged_conflict"
  else
    match document.object, document.servers with
    | true, .table entries =>
      .ok { document with servers := .table (Function.update entries key none) }
    | _, _ => .ok document

def removeManagedJsonEntry (root : Document) (state : ManagedState) (key : String) :
    Except String Document := removeEntry root state key

def removeManagedTomlMcp (content : Document) (state : ManagedState) (key : String) :
    Except String Document := removeEntry content state key

/-- The new file of a client. A file that cannot be read counts as one that is not there. -/
def clientReplacement (state : ManagedState) (slug key client : String) :
    Deploy (Client × ClientFile) :=
  match clientOf client with
  | some .claudeCode => do
    let content : Option (Option Document) ← ask (.readClient .claudeCode)
    let root ← orGiveUp "invalid_client_config" (content.getD (some emptyDocument))
    let merged ← ofExcept (mergeManagedJsonEntry root state key (launchEntry slug))
    return (.claudeCode, writtenFile merged)
  | some .codex => do
    let content : Option (Option Document) ← ask (.readClient .codex)
    let document ← orGiveUp "invalid_client_config" (content.getD (some emptyDocument))
    let merged ← ofExcept (mergeManagedTomlMcp document state key (launchEntry slug))
    return (.codex, writtenFile merged)
  | none => giveUp "unsupported_client"

def clientReplacements (state : ManagedState) (slug key : String) :
    List String → Deploy (List (Client × ClientFile))
  | [] => pure []
  | client :: rest => do
    let replacement ← clientReplacement state slug key client
    return replacement :: (← clientReplacements state slug key rest)

def backUpFiles : List (Client × ClientFile) → Deploy (List (Option ClientFile))
  | [] => pure []
  | (client, _) :: rest => do
    let previous : Option ClientFile ← ask (.backupClient client)
    return previous :: (← backUpFiles rest)

def rollBackFiles : List (Client × Option ClientFile) → Deploy Unit
  | [] => pure ()
  | (client, previous) :: rest => do
    match previous with
    | some file => let _ ← ask (.writeClient client file)
    | none => let _ ← ask (.removeClient client)
    rollBackFiles rest

/-- The writes one after the other; the ones before are taken back if one fails. -/
def replaceFiles : List ((Client × ClientFile) × Option ClientFile) →
    List (Client × Option ClientFile) → Deploy Unit
  | [], _ => pure ()
  | ((client, file), previous) :: rest, written => do
    if ← ask (.writeClient client file) then replaceFiles rest ((client, previous) :: written)
    else
      rollBackFiles written
      giveUp "target_write_failed"

def applyFileReplacements (replacements : List (Client × ClientFile)) : Deploy Unit := do
  let previous ← backUpFiles replacements
  replaceFiles (replacements.zip previous) []

def writeMcpConfigs (state : ManagedState) (slug : String) (clients : List String) (key : String) :
    Deploy (List String) := do
  let replacements ← clientReplacements state slug key clients
  applyFileReplacements replacements
  return [key]

def definitionPath (home : Location) (slug : String) : Path :=
  join (pathOf (home ++ [".toard", "tools", "deployments"])) (slug ++ ".json")

def installMcpStdio (home : Location) (item : DesiredItem) (state : ManagedState)
    (command : String) (requiredEnvNames : List String) (managedKey : String) :
    Deploy (ManagedItem × Bool) := do
  ensure "health_check_failed" (← ask (.commandAvailable command))
  ensure "target_write_failed" (← ask (.writeDefinition (definitionPath home item.slug)))
  let localSecrets : List String ← ask (.loadSecrets item.slug requiredEnvNames)
  let settingsRequired := !requiredEnvNames.all localSecrets.contains
  let managedKeys ← writeMcpConfigs state item.slug item.manifest.clients managedKey
  return (managedItem item managedKeys [] settingsRequired, settingsRequired)

/-! ### Removal -/

def restoreMoved : List (Path × Path) → Deploy Unit
  | [] => pure ()
  | (target, backup) :: rest => do
    let _ ← ask (.rename backup target .restore)
    restoreMoved rest

/-- The paths of an item are set aside, the last first in the result. -/
def moveAside (pid : Nat) : List TargetPath → List (Path × Path) → Deploy (List (Path × Path))
  | [], moved => pure moved
  | target :: rest, moved => do
    if ← ask (.exists target.path) then
      let parent ← orGiveUp "remove_failed" (parentPath target.path)
      let name ← orGiveUp "remove_failed" (fileName target.path)
      let backup := workingPath parent name "remove" pid
      if ← ask (.exists backup) then
        let _ ← ask (.removeDirAll backup)
      if ← ask (.rename target.path backup .setAside) then
        moveAside pid rest ((target.path, backup) :: moved)
      else
        restoreMoved moved
        giveUp "remove_failed"
    else moveAside pid rest moved

def removeKeys (document : Document) (state : ManagedState) : List String → Except String Document
  | [] => .ok document
  | key :: rest => do
    let next ← removeEntry document state key
    removeKeys next state rest

/-- The file of Claude Code after the entries of an item are taken out. One that is no document is
left as it is. -/
def claudeRemoval (state : ManagedState) (keys : List String) :
    Deploy (List (Client × ClientFile)) := do
  let content : Option (Option Document) ← ask (.readClient .claudeCode)
  match content with
  | some (some root) => do
    let next ← ofExcept (removeKeys root state keys)
    return [(.claudeCode, writtenFile next)]
  | _ => return []

/-- The file of Codex after the entries are taken out. One that is no document is an error, unless
nothing is taken out of it. -/
def codexRemoval (state : ManagedState) (keys : List String) :
    Deploy (List (Client × ClientFile)) := do
  let content : Option (Option Document) ← ask (.readClient .codex)
  match content with
  | none => return []
  | some (some document) => do
    let next ← ofExcept (removeKeys document state keys)
    return [(.codex, writtenFile next)]
  | some none =>
    if keys.isEmpty then
      let file : Option ClientFile ← ask (.backupClient .codex)
      return (file.map fun file => (Client.codex, file)).toList
    else giveUp "invalid_client_config"

def removalReplacements (state : ManagedState) (keys : List String) :
    Deploy (List (Client × ClientFile)) := do
  let claude ← claudeRemoval state keys
  let codex ← codexRemoval state keys
  return claude ++ codex

def dropMoved : List (Path × Path) → Deploy Unit
  | [] => pure ()
  | (_, backup) :: rest => do
    let _ ← ask (.removeDirAll backup)
    dropMoved rest

def removeManagedItem (pid : Nat) (slug : String) (state : ManagedState) : Deploy ManagedState :=
  match state.get slug with
  | none => pure state
  | some item => do
    let moved ← moveAside pid item.managedPaths []
    let replacements ← removalReplacements state item.managedKeys
    match ← tried (applyFileReplacements replacements) with
    | .error code => do
      restoreMoved moved
      giveUp code
    | .ok () => do
      dropMoved moved.reverse
      return state.delete slug

/-! ### One item -/

structure Applied where
  state : ManagedState
  report : DeploymentReport
  failed : Bool

def installed (item : DesiredItem) (state : ManagedState) :
    Except String (ManagedItem × Bool) → Applied
  | .ok (managed, settingsRequired) =>
    { state := state.set item.slug managed
      report :=
        if settingsRequired then report item .settingsRequired (some "local_secret_missing")
        else report item .installed none
      failed := false }
  | .error code =>
    if code = "unmanaged_conflict" then
      { state, report := report item .conflict (some code), failed := false }
    else if code = "client_auth_required" then
      { state, report := report item .settingsRequired (some code), failed := false }
    else if code = "unsupported_manifest" ∨ code = "unsupported_client" then
      { state, report := report item .unsupported (some code), failed := false }
    else { state, report := report item .failed (some code), failed := true }

/-- An item that is at its version: whether its settings are still missing. -/
def recheck (item : DesiredItem) (current : ManagedItem) (state : ManagedState) : Tool Applied :=
  if current.settingsRequired then
    match item.manifest.payload with
    | .mcpStdio command _ requiredEnvNames _ => do
      let secrets : List String ← call (.loadSecrets item.slug requiredEnvNames)
      let available : Bool ← call (.commandAvailable command)
      if available && requiredEnvNames.all secrets.contains then
        return {
          state := state.set item.slug { current with settingsRequired := false }
          report := report item .installed none
          failed := false }
      else
        return {
          state
          report := report item .settingsRequired (some "local_secret_missing")
          failed := false }
    | _ => return {
        state
        report := report item .settingsRequired (some "local_secret_missing")
        failed := false }
  else return { state, report := report item .installed none, failed := false }

section Item

variable (home : Location) (sha256 : List UInt8 → String) (pid : Nat)

def installItem (item : DesiredItem) (state : ManagedState) : Deploy (ManagedItem × Bool) :=
  match item.manifest.payload with
  | .skill files targetKey => do
    let managed ← installSkill home sha256 pid item state files targetKey
    return (managed, false)
  | .mcpStdio command _ requiredEnvNames managedKey =>
    installMcpStdio home item state command requiredEnvNames managedKey
  | .mcpHttp _ auth _ =>
    if auth = "manual_secret_header" then giveUp "client_auth_required"
    else giveUp "unsupported_manifest"
  | .plugin _ => giveUp "unsupported_manifest"

def applyItem (item : DesiredItem) (state : ManagedState) : Tool Applied :=
  match (state.get item.slug).filter fun current => current.versionId == item.versionId with
  | some current => recheck item current state
  | none => Program.bind (installItem home sha256 pid item state) fun result =>
      .done (installed item state result)

def removeItem (slug : String) (state : ManagedState) : Tool (ManagedState × Bool) :=
  Program.bind (removeManagedItem pid slug state) fun
    | .ok next => .done (next, false)
    | .error _ => .done (state, true)

end Item

end Toard.Reconcile
