/-
**Histories of a device: runs of the reconciler, and what happens between them.**

A run loads the saved state, removes the items that are not desired any more, handles the desired
ones in their order, and saves the state at its end. Every operation may fail and the process may
end at any point. Between runs the user edits the files and the server, the commands and the
secrets change.

* **`steady_of_reachable`**: the rule from the tasks to all histories.
-/

import Toard.Library.Transition
import Toard.Reconcile.Footprint

namespace Toard.Reconcile

open Toard.Library
open Toard.Library.Program (Through)

/-! ### What happens outside -/

inductive Edit (α : Type) where
  | keep
  | remove
  | put (value : α)

structure FileChange where
  access : Access
  parses : Bool
  object : Bool
  isTable : Bool
  rest : String
  entries : String → Edit String

/-- The entries after an edit; the ones that are put there are the user's. -/
def editedEntries (entries : String → Option ServerEntry) (edits : String → Edit String) :
    String → Option ServerEntry := fun key =>
  match edits key with
  | .keep => entries key
  | .remove => none
  | .put text => some { value := .other text, maker := none }

def FileChange.apply (change : FileChange) (file : Option ClientFile) : ClientFile where
  access := change.access
  parses := change.parses
  document :=
    { object := change.object
      servers :=
        if change.isTable then
          .table (editedEntries ((file.map ClientFile.entries).getD fun _ => none) change.entries)
        else .other
      rest := change.rest }

structure Change where
  nodes : Location → Edit (Option (List UInt8))
  clients : Client → Edit FileChange
  downloads : String → Except String SourceArchive
  commands : String → Bool
  secrets : String → String → Bool

def Change.apply (change : Change) (disk : Disk) : Disk where
  nodes location :=
    match change.nodes location with
    | .keep => disk.nodes location
    | .remove => none
    | .put bytes => some { bytes := bytes, maker := none, mark := none }
  clients client :=
    match change.clients client with
    | .keep => disk.clients client
    | .remove => none
    | .put file => some (file.apply (disk.clients client))
  saved := disk.saved
  downloads := change.downloads
  commands := change.commands
  secrets := change.secrets

/-! ### The runs -/

inductive Task where
  | remove (slug : String)
  | apply (item : DesiredItem)
  | save

structure Reconciler where
  disk : Disk
  memory : ManagedState
  pid : Nat
  desired : List DesiredItem
  todo : List Task
  process : Option (Task × Tool ManagedState)

inductive Action where
  | begin (pid : Nat) (manifest : DeviceManifestV1)
  | start
  | advance (fails : Bool)
  | crash
  | outside (change : Change)

/-- What a run does: it removes the items that are not in the manifest, then handles those that
are, and saves the state. -/
def tasksOf (saved : ManagedState) (items : List DesiredItem) : List Task :=
  ((slugs saved).filter fun slug => !(items.map DesiredItem.slug).contains slug).map .remove ++
    items.map .apply ++ [.save]

section Histories

variable (home : Location) (sha256 : List UInt8 → String)

def taskProgram (pid : Nat) (memory : ManagedState) : Task → Tool ManagedState
  | .remove slug => Program.bind (removeItem pid slug memory) fun result => .done result.1
  | .apply item => Program.bind (applyItem home sha256 pid item memory) fun applied =>
      .done applied.state
  | .save => .call (.save memory) fun _ => .done memory

def Reconciler.settle (reconciler : Reconciler) (task : Task) : Tool ManagedState → Reconciler
  | .done memory => { reconciler with memory, process := none }
  | .call op rest => { reconciler with process := some (task, .call op rest) }

def Reconciler.calling (reconciler : Reconciler) : Option (Task × ToolOp) :=
  match reconciler.process with
  | some (task, .call op _) => some (task, op)
  | _ => none

def reconcilerNext (reconciler : Reconciler) : Action → Option Reconciler
  | .begin pid manifest =>
    match reconciler.process, reconciler.todo, parseManifest manifest,
        validateProtocolContract manifest with
    | none, [], .ok _, .ok _ => some { reconciler with
        memory := reconciler.disk.saved
        pid
        desired := manifest.items
        todo := tasksOf reconciler.disk.saved manifest.items }
    | _, _, _, _ => none
  | .start =>
    match reconciler.process, reconciler.todo with
    | none, task :: rest => some ({ reconciler with todo := rest }.settle task
        (taskProgram home sha256 reconciler.pid reconciler.memory task))
    | _, _ => none
  | .advance fails =>
    match reconciler.process with
    | some (task, .call op rest) => some ({ reconciler with
        disk := (perform op fails reconciler.disk).2 }.settle task
          (rest (perform op fails reconciler.disk).1))
    | _ => none
  | .crash => some { reconciler with memory := reconciler.disk.saved, todo := [], process := none }
  | .outside change =>
    match reconciler.process, reconciler.todo with
    | none, [] => some { reconciler with disk := change.apply reconciler.disk }
    | _, _ => none

/-! ### Conditions on the actions -/

structure Terms where
  begins : Reconciler → Nat → List DesiredItem → Prop
  starts : Reconciler → Task → Prop
  admits : ToolOp → Bool → Disk → Prop
  crashes : Disk → Prop

def Terms.allow (terms : Terms) (reconciler : Reconciler) : Action → Prop
  | .begin pid manifest => terms.begins reconciler pid manifest.items
  | .start => ∀ task ∈ reconciler.todo.head?, terms.starts reconciler task
  | .advance fails => ∀ call ∈ reconciler.calling, terms.admits call.2 fails reconciler.disk
  | .crash => terms.crashes reconciler.disk
  | .outside _ => True

/-- What is to be shown of the operations of a task, for a process and its state at the start. -/
abbrev Soundness := Nat → ManagedState → Task → ToolOp → Bool → Disk → Prop

structure Steady (terms : Terms) (rests : Reconciler → Prop) (during : Disk → Prop)
    (sound : Soundness) (reconciler : Reconciler) : Prop where
  idle : reconciler.process = none → rests reconciler
  busy : ∀ task program, reconciler.process = some (task, program) →
    Through perform during terms.admits (sound reconciler.pid reconciler.memory task)
      (fun memory disk => rests { reconciler with memory, disk, process := none })
      program reconciler.disk

variable {home sha256} {terms : Terms} {rests : Reconciler → Prop} {during : Disk → Prop}
  {sound : Soundness} {reconciler after : Reconciler}

theorem steady_settle {task : Task} {program : Tool ManagedState}
    (through : Through perform during terms.admits (sound reconciler.pid reconciler.memory task)
      (fun memory disk => rests { reconciler with memory, disk, process := none })
      program reconciler.disk) :
    Steady terms rests during sound (reconciler.settle task program) := by
  cases program with
  | done memory => exact ⟨fun _ => through.2, nofun⟩
  | call op rest =>
    refine ⟨nofun, fun task program isProgram => ?_⟩
    cases isProgram
    exact through

theorem Steady.sound_of_calling (steady : Steady terms rests during sound reconciler) {task : Task}
    {op : ToolOp} (calling : reconciler.calling = some (task, op)) (fails : Bool)
    (admitted : terms.admits op fails reconciler.disk) :
    sound reconciler.pid reconciler.memory task op fails reconciler.disk := by
  unfold Reconciler.calling at calling
  split at calling
  case h_1 task op rest isProgram =>
    cases calling
    exact ((steady.busy _ _ isProgram).2 fails admitted).1
  case h_2 => cases calling

/-- **From the tasks to the histories.** -/
theorem steady_of_reachable
    (begin : ∀ reconciler pid desired, rests reconciler → reconciler.process = none →
      reconciler.todo = [] → terms.begins reconciler pid desired →
      rests { reconciler with
        memory := reconciler.disk.saved
        pid
        desired
        todo := tasksOf reconciler.disk.saved desired })
    (start : ∀ reconciler task rest, rests reconciler → reconciler.process = none →
      reconciler.todo = task :: rest → terms.starts reconciler task →
      Through perform during terms.admits (sound reconciler.pid reconciler.memory task)
        (fun memory disk => rests { reconciler with memory, disk, todo := rest })
        (taskProgram home sha256 reconciler.pid reconciler.memory task) reconciler.disk)
    (crash : ∀ reconciler, rests reconciler ∧ reconciler.process = none ∨ during reconciler.disk →
      terms.crashes reconciler.disk →
      rests { reconciler with memory := reconciler.disk.saved, todo := [], process := none })
    (outside : ∀ reconciler change, rests reconciler → reconciler.process = none →
      reconciler.todo = [] → rests { reconciler with disk := Change.apply change reconciler.disk })
    (initial : Steady terms rests during sound reconciler)
    (reached : ReachableBy (reconcilerNext home sha256) terms.allow reconciler after) :
    Steady terms rests during sound after := by
  refine reached.invariant _ initial fun before action after steady admitted moved => ?_
  cases action with
  | begin pid manifest =>
    rw [reconcilerNext] at moved
    split at moved
    case h_1 free empty _ _ =>
      cases moved
      refine ⟨fun _ => begin _ _ _ (steady.idle free) free empty admitted, fun _ program busy => ?_⟩
      rw [free] at busy
      cases busy
    case h_2 => cases moved
  | start =>
    rw [reconcilerNext] at moved
    split at moved
    case h_1 task rest free left =>
      cases moved
      refine steady_settle ?_
      have through := start before task rest (steady.idle free) free left
        (admitted task (by rw [left]; rfl))
      rw [free] at through
      exact through
    case h_2 => cases moved
  | advance fails =>
    rw [reconcilerNext] at moved
    split at moved
    case h_1 task op rest busy =>
      cases moved
      have calling : before.calling = some (task, op) := by
        rw [Reconciler.calling, busy]
      exact steady_settle ((steady.busy _ _ busy).2 fails (admitted _ calling)).2
    case h_2 => cases moved
  | crash =>
    cases moved
    refine ⟨fun _ => crash before ?_ admitted, nofun⟩
    cases busy : before.process with
    | none => exact .inl ⟨steady.idle busy, rfl⟩
    | some process => exact .inr (steady.busy process.1 process.2 busy).now
  | outside change =>
    rw [reconcilerNext] at moved
    split at moved
    case h_1 free empty =>
      cases moved
      refine ⟨fun _ => outside _ _ (steady.idle free) free empty, fun _ program busy => ?_⟩
      rw [free] at busy
      cases busy
    case h_2 => cases moved

end Histories

theorem exists_calling (home : Location) (sha256 : List UInt8 → String) (start : Reconciler)
    (actions : List Action) (holds : Reconciler → Task → ToolOp → Bool)
    (check : (run (reconcilerNext home sha256) start actions).any (fun reconciler =>
      reconciler.calling.any fun call => holds reconciler call.1 call.2) = true) :
    ∃ reconciler task op, run (reconcilerNext home sha256) start actions = some reconciler ∧
      reconciler.calling = some (task, op) ∧ holds reconciler task op = true := by
  obtain ⟨reconciler, ends, check⟩ := (Option.any_eq_true _ _).mp check
  obtain ⟨⟨task, op⟩, calling, check⟩ := (Option.any_eq_true _ _).mp check
  exact ⟨reconciler, task, op, ends, calling, check⟩

/-! ### A device on which nothing is installed -/

def freshDisk (downloads : String → Except String SourceArchive) : Disk where
  nodes := fun _ => none
  clients := fun _ => none
  saved := OrderedMap.empty
  downloads := downloads
  commands := fun _ => true
  secrets := fun _ _ => true

def restingOn (disk : Disk) : Reconciler where
  disk := disk
  memory := disk.saved
  pid := 0
  desired := []
  todo := []
  process := none

def personalItem (slug kind : String) (clients : List String) (source : String)
    (digest : String) (payload : InstallPayload) : DesiredItem where
  catalogItemId := slug
  versionId := "v1"
  origin := .personal
  rolloutId := none
  manifest :=
    { schemaVersion := 1
      catalogItemId := slug
      versionId := "v1"
      slug := slug
      kind := kind
      source :=
        { provider := "github"
          repository := "owner/tools"
          exactRef := "0123456789abcdef0123456789abcdef01234567"
          path := source
          treeDigest := digest
          downloadUrl := "https://example.test/archive" }
      clients := clients
      minProtocolVersion := 1
      permissions := { env := [], networkHosts := [], executables := [] }
      payload := payload }

def manifestOf (items : List DesiredItem) : DeviceManifestV1 where
  schemaVersion := 1
  generatedAt := "2026-01-01T00:00:00Z"
  reconcileAfterSeconds := 300
  items := items

end Toard.Reconcile
