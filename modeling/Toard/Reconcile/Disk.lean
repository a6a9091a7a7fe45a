/-
**What the reconciler reads and writes.**
-/

import Toard.Library.Program
import Toard.Reconcile.Protocol

namespace Toard.Reconcile

/-! ### Files and directories -/

/-- The root of a skill directory: in its place, or set aside while its successor is put there. -/
inductive Mark where
  | skill
  | aside
deriving DecidableEq

/-- A file with its bytes, or a directory. The maker is the slug of the item it was made for; the
directories above a target are nobody's. -/
structure Node where
  bytes : Option (List UInt8)
  maker : Option String
  mark : Option Mark
deriving DecidableEq

/-! ### The configuration files -/

/-- An entry of the server table: what the reconciler writes, or any other. -/
inductive EntryValue where
  | launch (command : String) (args : List String)
  | other (text : String)
deriving DecidableEq

structure ServerEntry where
  value : EntryValue
  maker : Option String
deriving DecidableEq

/-- `mcpServers` or `mcp_servers`. -/
inductive ServerTable where
  | missing
  | other
  | table (entries : String → Option ServerEntry)

/-- A document: whether its root is an object, its server table, and the rest of it. -/
structure Document where
  object : Bool
  servers : ServerTable
  rest : String

inductive Access where
  | text
  | bytes
  | denied
deriving DecidableEq

structure ClientFile where
  access : Access
  parses : Bool
  document : Document

def ClientFile.entries (file : ClientFile) : String → Option ServerEntry :=
  match file.document.servers with
  | .table entries => entries
  | _ => fun _ => none

/-! ### The disk -/

structure Disk where
  nodes : Location → Option Node
  clients : Client → Option ClientFile
  saved : ManagedState
  downloads : String → Except String SourceArchive
  commands : String → Bool
  secrets : String → String → Bool

def Disk.entry (disk : Disk) (client : Client) (key : String) : Option ServerEntry :=
  (disk.clients client).bind fun file => file.entries key

/-! ### The operations -/

/-- A rename puts a skill directory in its place, sets the one before aside, or brings it back. -/
inductive Move where
  | place
  | setAside
  | restore
deriving DecidableEq

inductive ToolOp where
  | exists (path : Path)
  | isFile (path : Path)
  | createDirAll (maker : Option String) (path : Path)
  | write (slug : String) (path : Path) (bytes : List UInt8)
  | removeDirAll (path : Path)
  | rename (source target : Path) (move : Move)
  | readClient (client : Client)
  | backupClient (client : Client)
  | writeClient (client : Client) (file : ClientFile)
  | removeClient (client : Client)
  | download (url : String)
  | commandAvailable (command : String)
  | loadSecrets (slug : String) (names : List String)
  | writeDefinition (path : Path)
  | save (state : ManagedState)

/-- The reply to an operation: what was read, or whether it went well. -/
abbrev ToolReply : ToolOp → Type
  | .readClient _ => Option (Option Document)
  | .backupClient _ => Option ClientFile
  | .download _ => Except String SourceArchive
  | .loadSecrets _ _ => List String
  | _ => Bool

abbrev Tool := Toard.Library.Program ToolOp ToolReply

abbrev Deploy := Toard.Library.Fallible ToolOp ToolReply

def isBelow (location other : Location) : Bool := location.isPrefixOf other

def Move.remark (move : Move) (node : Node) : Node :=
  match move, node.mark with
  | .place, _ => { node with mark := some .skill }
  | .setAside, some .skill => { node with mark := some .aside }
  | .restore, some .aside => { node with mark := some .skill }
  | _, _ => node

/-- A directory with what is below it, moved to a location that is free. -/
def moveNodes (nodes : Location → Option Node) (source target : Location) (move : Move) :
    Location → Option Node := fun location =>
  if isBelow target location then
    (nodes (source ++ location.drop target.length)).map fun node =>
      if location = target then move.remark node else node
  else if isBelow source location then none
  else nodes location

def createNodes (nodes : Location → Option Node) (maker : Option String) (directory : Location) :
    Location → Option Node := fun location =>
  if isBelow location directory && (nodes location).isNone then
    some { bytes := none, maker, mark := none }
  else nodes location

def removeNodes (nodes : Location → Option Node) (directory : Location) : Location → Option Node :=
  fun location => if isBelow directory location then none else nodes location

def isFileAt (nodes : Location → Option Node) (location : Location) : Bool :=
  (nodes location).any fun node => node.bytes.isSome

def isDirectoryAt (nodes : Location → Option Node) (location : Location) : Bool :=
  (nodes location).any fun node => node.bytes.isNone

def readText (file : Option ClientFile) : Option (Option Document) :=
  file.bind fun file =>
    if file.access = .text then some (if file.parses then some file.document else none) else none

def perform : (op : ToolOp) → Bool → Disk → ToolReply op × Disk
  | .exists path, _, disk => ((disk.nodes (locate path)).isSome, disk)
  | .isFile path, _, disk => (isFileAt disk.nodes (locate path), disk)
  | .createDirAll maker path, fails, disk =>
    if fails || (locate path).inits.any (isFileAt disk.nodes) then (false, disk)
    else (true, { disk with nodes := createNodes disk.nodes maker (locate path) })
  | .write slug path bytes, fails, disk =>
    if fails || isDirectoryAt disk.nodes (locate path) then (false, disk)
    else (true, { disk with
      nodes := Function.update disk.nodes (locate path)
        (some { bytes := some bytes, maker := some slug, mark := none }) })
  | .removeDirAll path, fails, disk =>
    if fails || (disk.nodes (locate path)).isNone then (false, disk)
    else (true, { disk with nodes := removeNodes disk.nodes (locate path) })
  | .rename source target move, fails, disk =>
    if fails || (disk.nodes (locate source)).isNone || (disk.nodes (locate target)).isSome then
      (false, disk)
    else (true, { disk with
      nodes := moveNodes disk.nodes (locate source) (locate target) move })
  | .readClient client, _, disk => (readText (disk.clients client), disk)
  | .backupClient client, _, disk =>
    ((disk.clients client).filter fun file => file.access != .denied, disk)
  | .writeClient client file, fails, disk =>
    if fails then (false, disk)
    else (true, { disk with clients := Function.update disk.clients client (some file) })
  | .removeClient client, fails, disk =>
    if fails then (false, disk)
    else (true, { disk with clients := Function.update disk.clients client none })
  | .download url, fails, disk =>
    (if fails then .error "source_download_failed" else disk.downloads url, disk)
  | .commandAvailable command, _, disk => (disk.commands command, disk)
  | .loadSecrets slug names, _, disk => (names.filter (disk.secrets slug), disk)
  | .writeDefinition _, fails, disk => (!fails, disk)
  | .save state, fails, disk => if fails then (false, disk) else (true, { disk with saved := state })

/-! ### What each operation can do -/

theorem isBelow_iff {location other : Location} :
    isBelow location other = true ↔ location <+: other := List.isPrefixOf_iff_prefix

theorem moveNodes_of_apart {nodes : Location → Option Node} {source target location : Location}
    (move : Move) (apart : ¬ source <+: location) (apart' : ¬ target <+: location) :
    moveNodes nodes source target move location = nodes location := by
  rw [moveNodes, if_neg (mt isBelow_iff.mp apart'), if_neg (mt isBelow_iff.mp apart)]

theorem attempt (fails : Bool) (disk done : Disk) :
    (if fails then (false, disk) else (true, done)) = (false, disk) ∨
      (if fails then (false, disk) else (true, done)) = (true, done) := by
  cases fails with
  | true => exact .inl rfl
  | false => exact .inr rfl

section Perform

variable (disk : Disk) (fails : Bool)

theorem perform_createDirAll (maker : Option String) (path : Path) :
    perform (.createDirAll maker path) fails disk = (false, disk) ∨
      perform (.createDirAll maker path) fails disk
        = (true, { disk with nodes := createNodes disk.nodes maker (locate path) }) :=
  attempt _ _ _

theorem perform_write (slug : String) (path : Path) (bytes : List UInt8) :
    perform (.write slug path bytes) fails disk = (false, disk) ∨
      perform (.write slug path bytes) fails disk = (true, { disk with
        nodes := Function.update disk.nodes (locate path)
          (some { bytes := some bytes, maker := some slug, mark := none }) }) :=
  attempt _ _ _

theorem perform_removeDirAll (path : Path) :
    perform (.removeDirAll path) fails disk = (false, disk) ∨
      perform (.removeDirAll path) fails disk
        = (true, { disk with nodes := removeNodes disk.nodes (locate path) }) :=
  attempt _ _ _

theorem perform_rename (source target : Path) (move : Move) :
    perform (.rename source target move) fails disk = (false, disk) ∨
      (disk.nodes (locate source)).isSome = true ∧ disk.nodes (locate target) = none ∧
      perform (.rename source target move) fails disk = (true, { disk with
        nodes := moveNodes disk.nodes (locate source) (locate target) move }) := by
  change (if _ then _ else _) = _ ∨ _ ∧ _ ∧ (if _ then _ else _) = _
  split
  case isTrue => exact .inl rfl
  case isFalse goes =>
    simp only [Bool.or_eq_true, not_or, Bool.not_eq_true, Option.isSome_eq_false_iff,
      Option.isNone_iff_eq_none] at goes
    exact .inr ⟨Option.isSome_iff_ne_none.mpr goes.1.2, goes.2, rfl⟩

theorem perform_writeClient (client : Client) (file : ClientFile) :
    perform (.writeClient client file) fails disk = (false, disk) ∨
      perform (.writeClient client file) fails disk = (true, { disk with
        clients := Function.update disk.clients client (some file) }) :=
  attempt _ _ _

theorem perform_removeClient (client : Client) :
    perform (.removeClient client) fails disk = (false, disk) ∨
      perform (.removeClient client) fails disk = (true, { disk with
        clients := Function.update disk.clients client none }) :=
  attempt _ _ _

end Perform

end Toard.Reconcile
