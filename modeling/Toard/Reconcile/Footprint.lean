/-
**Where the reconciler works when it handles a skill.**

For each target of an item the process works in the target itself and in three directories beside
it. Nothing else is written or moved, except that missing directories above are made.

* **`uses_installSkill`**, **`uses_moveAside`**, **`uses_dropMoved`**: the programs keep to the areas
  of their targets.
-/

import Toard.Reconcile.Install

namespace Toard.Reconcile

open Toard.Library
open Toard.Library.Fallible hiding ask
open Toard.Library.Program (Uses)

theorem workingName_ne (name purpose : String) (pid : Nat) :
    workingName name purpose pid ≠ name := by
  intro same
  have lengths := congrArg (fun text => text.toList.length) same
  simp only [workingName, String.toList_append, List.length_append] at lengths
  have dot : ".".toList.length = 1 := rfl
  omega

theorem workingName_inj {name purpose purpose' : String} {pid : Nat}
    (same : workingName name purpose pid = workingName name purpose' pid) : purpose = purpose' := by
  have texts := congrArg String.toList same
  simp only [workingName, String.toList_append, List.append_cancel_right_eq,
    List.append_cancel_left_eq] at texts
  exact String.toList_inj.mp texts

def workAreas (pid : Nat) (purposes : List String) (path : Path) : List Location :=
  match parentPath path, fileName path with
  | some parent, some name =>
    locate path :: purposes.map fun purpose => locate (workingPath parent name purpose pid)
  | _, _ => []

def stagePurposes : List String := ["stage", "backup"]

def removePurposes : List String := ["remove"]

def parentFolder (path : Path) : List Location := ((parentPath path).map locate).toList

def AreBeside (areas : List Location) (path other : Path) : Prop :=
  locate path ∈ areas ∧ locate other ∈ areas ∧
    ∃ folder name name', locate path = folder ++ [name] ∧ locate other = folder ++ [name']

theorem AreBeside.symm {areas : List Location} {path other : Path}
    (beside : AreBeside areas path other) : AreBeside areas other path := by
  obtain ⟨isArea, isArea', folder, name, name', same, same'⟩ := beside
  exact ⟨isArea', isArea, folder, name', name, same', same⟩

/-- The operations for a skill: they write for the item, below one of the areas, and make
directories there or above. The quiet ones write no file, and put no directory in its place. -/
def SkillOp (quiet : Bool) (slug : String) (areas folders : List Location) : ToolOp → Prop
  | .exists _ | .isFile _ | .download _ => True
  | .createDirAll maker path =>
    maker = some slug ∧ ((∃ area ∈ areas, area <+: locate path) ∨ locate path ∈ folders) ∨
      maker = none ∧ locate path ∈ folders
  | .write maker path _ => quiet = false ∧ maker = slug ∧ ∃ area ∈ areas, area <+: locate path
  | .removeDirAll path => ∃ area ∈ areas, area <+: locate path
  | .rename source target move => (move = .place → quiet = false) ∧ AreBeside areas source target
  | _ => False

theorem uses_tried {allowed : ToolOp → Prop} {α : Type} {ends : α → Prop} {program : Deploy α}
    (uses : Uses allowed (Gives ends) program) : Uses allowed (Gives (Gives ends)) (tried program) :=
  Uses.bind uses fun _ ended => ended

theorem through_tried {during : Disk → Prop} {admits sound : ToolOp → Bool → Disk → Prop} {α : Type}
    {ends : Except String α → Disk → Prop} {program : Deploy α} {disk : Disk}
    (through : Program.Through perform during admits sound ends program disk) :
    Program.Through perform during admits sound
      (fun result disk => ∃ inner, result = .ok inner ∧ ends inner disk) (tried program) disk :=
  Program.Through.bind through fun result _ now ended => ⟨now, result, rfl, ended⟩

section Uses

variable {quiet : Bool} {slug : String} {pid : Nat} {areas folders : List Location}

theorem uses_writeFiles {parent : Path} {work : String} {files : List SourceFile}
    (inner : ∀ file ∈ files, IsInner file.path) (isArea : locate (parent ++ [.normal work]) ∈ areas)
    (above : locate parent ∈ folders) :
    Uses (SkillOp false slug areas folders) (Gives fun _ => True)
      (writeFiles slug (parent ++ [.normal work]) files) := by
  induction files with
  | nil => exact uses_pure trivial
  | cons file rest ih =>
    have isInner := inner file List.mem_cons_self
    have later := ih fun other among => inner other (List.mem_cons_of_mem file among)
    obtain ⟨names, same⟩ := exists_names isInner.inner
    have destination : join (parent ++ [.normal work]) file.path
        = parent ++ [.normal work] ++ pathOf names := by
      rw [join, if_neg (Bool.eq_false_iff.mp isInner.relative), same]
    have below (names : List String) : locate (parent ++ [.normal work])
        <+: locate (parent ++ [.normal work] ++ pathOf names) := by
      rw [locate_append_names]
      exact List.prefix_append _ _
    have write : Uses (SkillOp false slug areas folders) (Gives fun _ => True) (do
        ensure "target_write_failed"
          (← ask (.write slug (parent ++ [.normal work] ++ pathOf names) file.bytes))
        writeFiles slug (parent ++ [.normal work]) rest : Deploy Unit) :=
      uses_ask_bind ⟨rfl, rfl, _, isArea, below names⟩ fun _ => uses_ensure_bind fun _ => later
    rw [writeFiles, destination]
    obtain rfl | ⟨outer, name, rfl⟩ := names.eq_nil_or_concat'
    · rw [pathOf, List.map_nil, List.append_nil, parentPath_concat]
      refine uses_ask_bind (.inl ⟨rfl, .inr above⟩) fun reply => uses_ensure_bind fun _ => ?_
      rw [pathOf, List.map_nil, List.append_nil] at write
      exact write
    · have folder : parentPath (parent ++ [.normal work] ++ pathOf (outer ++ [name]))
          = some (parent ++ [.normal work] ++ pathOf outer) := by
        rw [pathOf, List.map_append, List.map_singleton, ← List.append_assoc, parentPath_concat]
        rfl
      rw [folder]
      exact uses_ask_bind (.inl ⟨rfl, .inl ⟨_, isArea, below outer⟩⟩) fun reply =>
        uses_ensure_bind fun _ => write

theorem workAreas_eq {path parent : Path} {name : String} (purposes : List String)
    (above : parentPath path = some parent) (named : fileName path = some name) :
    workAreas pid purposes path = locate path ::
      purposes.map fun purpose => locate (workingPath parent name purpose pid) := by
  rw [workAreas, above, named]

section Target

variable {path parent : Path} {name : String}

theorem uses_placeStaged {backup staging : Path} (stages : AreBeside areas staging path)
    (keeps : AreBeside areas path backup) (hadPrevious : Bool) :
    Uses (SkillOp false slug areas folders) (Gives fun kept => kept.toList ⊆ [backup])
      (placeStaged path staging backup hadPrevious) := by
  refine uses_ask_bind ⟨fun _ => rfl, stages⟩ fun placed => ?_
  cases placed with
  | true =>
    refine uses_pure ?_
    cases hadPrevious <;> simp
  | false =>
    cases hadPrevious with
    | true => exact uses_ask_bind ⟨nofun, keeps.symm⟩ fun _ => uses_giveUp _
    | false => exact uses_giveUp _

theorem uses_fillAndPlace {files : List SourceFile} (inner : ∀ file ∈ files, IsInner file.path)
    (stages : AreBeside areas (workingPath parent name "stage" pid) path)
    (keeps : AreBeside areas path (workingPath parent name "backup" pid))
    (isFolder : locate parent ∈ folders) :
    Uses (SkillOp false slug areas folders)
      (Gives fun kept => kept.toList ⊆ [workingPath parent name "backup" pid])
      (fillAndPlace slug path (workingPath parent name "stage" pid)
        (workingPath parent name "backup" pid) files) := by
  refine uses_bind (uses_writeFiles inner stages.1 isFolder) fun _ _ =>
    uses_ask_bind trivial fun isFile => ?_
  cases isFile with
  | false => exact uses_ask_bind ⟨_, stages.1, List.prefix_rfl⟩ fun _ => uses_giveUp _
  | true =>
    refine uses_ask_bind trivial fun hadPrevious => ?_
    cases hadPrevious with
    | true =>
      exact uses_ask_bind ⟨nofun, keeps⟩ fun _ => uses_ensure_bind fun _ =>
        uses_placeStaged stages keeps true
    | false => exact uses_placeStaged stages keeps false

def KeepsWithin (areas : List Location) (applied : Path × Option Path) : Prop :=
  locate applied.1 ∈ areas ∧ ∀ backup ∈ applied.2, AreBeside areas applied.1 backup

theorem beside_workingPath {purposes : List String} {purpose : String}
    (above : parentPath path = some parent) (named : fileName path = some name)
    (isArea : workAreas pid purposes path ⊆ areas) (among : purpose ∈ purposes) :
    AreBeside areas path (workingPath parent name purpose pid) := by
  rw [workAreas_eq purposes above named] at isArea
  refine ⟨isArea List.mem_cons_self,
    isArea (List.mem_cons_of_mem _ (List.mem_map_of_mem among)), ?_⟩
  obtain ⟨parent', rfl⟩ := fileName_eq_some.mp named
  rw [parentPath_concat] at above
  cases above
  exact ⟨locate parent, name, _, locate_concat _ _, locate_concat _ _⟩

theorem uses_stageDirectory {files : List SourceFile} (inner : ∀ file ∈ files, IsInner file.path)
    (isArea : workAreas pid stagePurposes path ⊆ areas) (isFolder : parentFolder path ⊆ folders) :
    Uses (SkillOp false slug areas folders) (Gives fun kept => KeepsWithin areas (path, kept))
      (stageDirectory slug pid path files) := by
  rw [stageDirectory]
  cases above : parentPath path with
  | none => exact uses_giveUp _
  | some parent =>
    have folder : locate parent ∈ folders :=
      isFolder (by rw [parentFolder, above]; exact List.mem_singleton_self _)
    refine uses_ask_bind (.inr ⟨rfl, folder⟩) fun _ => uses_ensure_bind fun _ => ?_
    cases named : fileName path with
    | none => exact uses_giveUp _
    | some name =>
      have stages : AreBeside areas path (workingPath parent name "stage" pid) :=
        beside_workingPath above named isArea (by decide)
      have keeps : AreBeside areas path (workingPath parent name "backup" pid) :=
        beside_workingPath above named isArea (by decide)
      refine uses_ask_bind ⟨_, stages.2.1, List.prefix_rfl⟩ fun _ =>
        uses_ask_bind ⟨_, keeps.2.1, List.prefix_rfl⟩ fun _ =>
        uses_ask_bind (.inl ⟨rfl, .inl ⟨_, stages.2.1, List.prefix_rfl⟩⟩) fun _ =>
        uses_ensure_bind fun _ => ?_
      refine (uses_fillAndPlace inner stages.symm keeps folder).mono (fun _ => id) ?_
      rintro (code | kept) isKept
      · trivial
      · refine ⟨keeps.1, fun backup among => ?_⟩
        obtain rfl : kept = some backup := among
        rw [List.mem_singleton.mp (isKept (List.mem_singleton_self backup))]
        exact keeps

end Target

theorem uses_rollbackSkillTargets {applied : List (Path × Option Path)}
    (within : ∀ one ∈ applied, KeepsWithin areas one) :
    Uses (SkillOp quiet slug areas folders) (Gives fun _ => True) (rollbackSkillTargets applied) := by
  induction applied with
  | nil => exact uses_pure trivial
  | cons one rest ih =>
    obtain ⟨target, backup⟩ := one
    obtain ⟨isTarget, beside⟩ := within _ List.mem_cons_self
    have later := ih fun other among => within other (List.mem_cons_of_mem _ among)
    refine uses_ask_bind ⟨_, isTarget, List.prefix_rfl⟩ fun _ => ?_
    cases backup with
    | none => exact later
    | some backup => exact uses_ask_bind ⟨nofun, (beside backup rfl).symm⟩ fun _ => later

theorem uses_removeBackups {applied : List (Path × Option Path)}
    (within : ∀ one ∈ applied, KeepsWithin areas one) :
    Uses (SkillOp quiet slug areas folders) (Gives fun _ => True) (removeBackups applied) := by
  induction applied with
  | nil => exact uses_pure trivial
  | cons one rest ih =>
    obtain ⟨target, backup⟩ := one
    have later := ih fun other among => within other (List.mem_cons_of_mem _ among)
    cases backup with
    | none => exact later
    | some backup =>
      have isBackup := ((within _ List.mem_cons_self).2 backup rfl).2.1
      exact uses_ask_bind ⟨_, isBackup, List.prefix_rfl⟩ fun _ => later

theorem uses_refuseUnmanaged (recorded targets : List TargetPath) :
    Uses (SkillOp quiet slug areas folders) (Gives fun _ => True) (refuseUnmanaged recorded targets) := by
  induction targets with
  | nil => exact uses_pure trivial
  | cons target rest ih =>
    refine uses_ask_bind trivial fun there => ?_
    split
    case isTrue => exact uses_giveUp _
    case isFalse => exact ih

theorem uses_stageTargets {files : List SourceFile} (inner : ∀ file ∈ files, IsInner file.path)
    {targets : List TargetPath}
    (areasOf : ∀ target ∈ targets, workAreas pid stagePurposes target.path ⊆ areas)
    (foldersOf : ∀ target ∈ targets, parentFolder target.path ⊆ folders)
    {applied : List (Path × Option Path)} (within : ∀ one ∈ applied, KeepsWithin areas one) :
    Uses (SkillOp false slug areas folders) (Gives fun all => ∀ one ∈ all, KeepsWithin areas one)
      (stageTargets slug pid files targets applied) := by
  induction targets generalizing applied with
  | nil => exact uses_pure within
  | cons target rest ih =>
    refine uses_bind (uses_tried (uses_stageDirectory inner (areasOf target List.mem_cons_self)
      (foldersOf target List.mem_cons_self))) fun result kept => ?_
    cases result with
    | error code =>
      exact uses_bind (uses_rollbackSkillTargets within) fun _ _ => uses_giveUp _
    | ok backup =>
      refine ih (fun other among => areasOf other (List.mem_cons_of_mem _ among))
        (fun other among => foldersOf other (List.mem_cons_of_mem _ among)) fun one among => ?_
      obtain rfl | among := List.mem_cons.mp among
      · exact kept
      · exact within one among

/-! ### Installation -/

/-- The files of an item are the listed ones, and have the digest of its manifest. -/
structure IsSource (sha256 : List UInt8 → String) (source : ManifestSource) (listed : List String)
    (files : List SourceFile) : Prop where
  listed : AreListed listed files
  digest : canonicalTreeDigest sha256 files = .ok source.treeDigest

theorem IsSource.inner {sha256 : List UInt8 → String} {source : ManifestSource}
    {listed : List String} {files : List SourceFile} (isSource : IsSource sha256 source listed files)
    (file : SourceFile) (among : file ∈ files) : IsInner file.path :=
  isSource.listed.inner _ (isSource.listed.only file among)

theorem uses_fetchSource (sha256 : List UInt8 → String) (source : ManifestSource)
    (listed : List String) : Uses (SkillOp quiet slug areas folders)
      (Gives (IsSource sha256 source listed)) (fetchSource sha256 source listed) := by
  refine uses_ask_bind trivial fun archive => ?_
  refine uses_bind (uses_ofExcept fun _ _ => trivial) fun archive _ => ?_
  refine uses_bind (uses_ofExcept fun files read => of_readTarGzFiles read) fun files listed => ?_
  refine uses_bind (uses_ofExcept fun digest made => made) fun digest made => ?_
  refine uses_ensure_bind fun same => uses_pure ⟨listed, ?_⟩
  rw [made, beq_iff_eq.mp same]

variable {home : Location} {sha256 : List UInt8 → String} {item : DesiredItem}
  {listed : List String} {targetKey : String}

def areasOf (pid : Nat) (purposes : List String) (targets : List TargetPath) : List Location :=
  targets.flatMap fun target => workAreas pid purposes target.path

def foldersOf (targets : List TargetPath) : List Location :=
  targets.flatMap fun target => parentFolder target.path

/-- **The installation of a skill keeps to the areas of its targets**, and records these. -/
theorem uses_installSkill (state : ManagedState) :
    Uses (SkillOp false item.slug
        (areasOf pid stagePurposes (skillTargets home item.manifest.clients targetKey))
        (foldersOf (skillTargets home item.manifest.clients targetKey)))
      (Gives fun managed => managed
        = managedItem item [] (skillTargets home item.manifest.clients targetKey) false)
      (installSkill home sha256 pid item state listed targetKey) := by
  refine uses_bind (uses_fetchSource _ _ _) fun files isSource => ?_
  refine uses_bind (uses_refuseUnmanaged _ _) fun _ _ => ?_
  refine uses_bind (uses_stageTargets isSource.inner
    (fun target among _ inside => List.mem_flatMap_of_mem among inside)
    (fun target among _ inside => List.mem_flatMap_of_mem among inside) nofun) fun applied within => ?_
  refine uses_bind (uses_removeBackups fun one among => within one (List.mem_reverse.mp among))
    fun _ _ => uses_pure rfl

/-! ### Removal -/

def MovedWithin (areas : List Location) (moved : List (Path × Path)) : Prop :=
  ∀ one ∈ moved, AreBeside areas one.1 one.2

theorem uses_restoreMoved {moved : List (Path × Path)} (within : MovedWithin areas moved) :
    Uses (SkillOp quiet slug areas folders) (Gives fun _ => True) (restoreMoved moved) := by
  induction moved with
  | nil => exact uses_pure trivial
  | cons one rest ih =>
    exact uses_ask_bind ⟨nofun, (within _ List.mem_cons_self).symm⟩ fun _ =>
      ih fun other among => within other (List.mem_cons_of_mem _ among)

theorem uses_dropMoved {moved : List (Path × Path)} (within : MovedWithin areas moved) :
    Uses (SkillOp quiet slug areas folders) (Gives fun _ => True) (dropMoved moved) := by
  induction moved with
  | nil => exact uses_pure trivial
  | cons one rest ih =>
    exact uses_ask_bind ⟨_, (within _ List.mem_cons_self).2.1, List.prefix_rfl⟩ fun _ =>
      ih fun other among => within other (List.mem_cons_of_mem _ among)

theorem uses_moveAside {targets : List TargetPath}
    (areasOf : ∀ target ∈ targets, workAreas pid removePurposes target.path ⊆ areas)
    {moved : List (Path × Path)} (within : MovedWithin areas moved) :
    Uses (SkillOp quiet slug areas folders) (Gives (MovedWithin areas)) (moveAside pid targets moved) := by
  induction targets generalizing moved with
  | nil => exact uses_pure within
  | cons target rest ih =>
    have later {moved : List (Path × Path)} (within : MovedWithin areas moved) :=
      ih (fun other among => areasOf other (List.mem_cons_of_mem _ among)) within
    refine uses_ask_bind trivial fun there => ?_
    cases there with
    | false => exact later within
    | true =>
      dsimp only
      cases above : parentPath target.path with
      | none => exact uses_giveUp _
      | some parent =>
        cases named : fileName target.path with
        | none => exact uses_giveUp _
        | some name =>
          have keeps : AreBeside areas target.path (workingPath parent name "remove" pid) :=
            beside_workingPath above named (areasOf target List.mem_cons_self) (by decide)
          refine uses_ask_bind trivial fun stale => ?_
          have rename : Uses (SkillOp quiet slug areas folders) (Gives (MovedWithin areas)) (do
              if ← ask (.rename target.path (workingPath parent name "remove" pid) .setAside) then
                moveAside pid rest ((target.path, workingPath parent name "remove" pid) :: moved)
              else
                restoreMoved moved
                giveUp "remove_failed" : Deploy (List (Path × Path))) := by
            refine uses_ask_bind ⟨nofun, keeps⟩ fun went => ?_
            cases went with
            | false => exact uses_bind (uses_restoreMoved within) fun _ _ => uses_giveUp _
            | true =>
              refine later fun one among => ?_
              obtain rfl | among := List.mem_cons.mp among
              · exact keeps
              · exact within one among
          cases stale with
          | false => exact rename
          | true => exact uses_ask_bind ⟨_, keeps.2.1, List.prefix_rfl⟩ fun _ => rename

end Uses

/-! ### The files of the clients -/

def ClientOp : ToolOp → Prop
  | .readClient _ | .backupClient _ | .writeClient _ _ | .removeClient _ => True
  | _ => False

def ClientRead : ToolOp → Prop
  | .readClient _ | .backupClient _ => True
  | _ => False

theorem ClientRead.client {op : ToolOp} (read : ClientRead op) : ClientOp op := by
  cases op with
  | readClient | backupClient => trivial
  | _ => exact absurd read id

theorem ClientRead.reads {op : ToolOp} (read : ClientRead op) : Program.Reads perform op := by
  cases op with
  | readClient | backupClient => exact fun _ _ => rfl
  | _ => exact absurd read id

section Clients

theorem uses_clientReplacement (state : ManagedState) (slug key client : String) :
    Uses ClientRead (Gives fun _ => True) (clientReplacement state slug key client) := by
  unfold clientReplacement
  split
  case h_1 | h_2 =>
    refine uses_ask_bind trivial fun content => ?_
    refine uses_then ?_ fun _ => uses_then (uses_ofExcept fun _ _ => trivial) fun _ =>
      uses_pure trivial
    unfold orGiveUp
    split
    case h_1 => exact uses_pure trivial
    case h_2 => exact uses_giveUp _
  case h_3 => exact uses_giveUp _

theorem uses_clientReplacements (state : ManagedState) (slug key : String) (clients : List String) :
    Uses ClientRead (Gives fun _ => True) (clientReplacements state slug key clients) := by
  induction clients with
  | nil => exact uses_pure trivial
  | cons client rest ih =>
    exact uses_bind (uses_clientReplacement state slug key client) fun _ _ =>
      uses_bind ih fun _ _ => uses_pure trivial

theorem uses_backUpFiles (replacements : List (Client × ClientFile)) :
    Uses ClientRead (Gives fun _ => True) (backUpFiles replacements) := by
  induction replacements with
  | nil => exact uses_pure trivial
  | cons replacement rest ih =>
    exact uses_ask_bind trivial fun _ => uses_bind ih fun _ _ => uses_pure trivial

theorem uses_rollBackFiles (written : List (Client × Option ClientFile)) :
    Uses ClientOp (Gives fun _ => True) (rollBackFiles written) := by
  induction written with
  | nil => exact uses_pure trivial
  | cons one rest ih =>
    obtain ⟨client, previous⟩ := one
    cases previous with
    | none => exact uses_ask_bind trivial fun _ => ih
    | some file => exact uses_ask_bind trivial fun _ => ih

theorem uses_replaceFiles (replacements : List ((Client × ClientFile) × Option ClientFile))
    (written : List (Client × Option ClientFile)) :
    Uses ClientOp (Gives fun _ => True) (replaceFiles replacements written) := by
  induction replacements generalizing written with
  | nil => exact uses_pure trivial
  | cons one rest ih =>
    obtain ⟨⟨client, file⟩, previous⟩ := one
    refine uses_ask_bind trivial fun went => ?_
    cases went with
    | true => exact ih _
    | false => exact uses_bind (uses_rollBackFiles written) fun _ _ => uses_giveUp _

theorem uses_applyFileReplacements (replacements : List (Client × ClientFile)) :
    Uses ClientOp (Gives fun _ => True) (applyFileReplacements replacements) :=
  uses_bind ((uses_backUpFiles replacements).mono (fun _ => ClientRead.client) fun _ => id)
    fun _ _ => uses_replaceFiles _ _

theorem uses_claudeRemoval (state : ManagedState) (keys : List String) :
    Uses ClientRead (Gives fun _ => True) (claudeRemoval state keys) := by
  refine uses_ask_bind trivial fun content => ?_
  split
  case h_1 => exact uses_then (uses_ofExcept fun _ _ => trivial) fun _ => uses_pure trivial
  case h_2 => exact uses_pure trivial

theorem uses_codexRemoval (state : ManagedState) (keys : List String) :
    Uses ClientRead (Gives fun _ => True) (codexRemoval state keys) := by
  refine uses_ask_bind trivial fun content => ?_
  split
  case h_1 => exact uses_pure trivial
  case h_2 => exact uses_then (uses_ofExcept fun _ _ => trivial) fun _ => uses_pure trivial
  case h_3 =>
    split
    case isTrue => exact uses_ask_bind trivial fun _ => uses_pure trivial
    case isFalse => exact uses_giveUp _

theorem uses_removalReplacements (state : ManagedState) (keys : List String) :
    Uses ClientRead (Gives fun _ => True) (removalReplacements state keys) :=
  uses_then (uses_claudeRemoval state keys) fun _ =>
    uses_then (uses_codexRemoval state keys) fun _ => uses_pure trivial

end Clients

/-! ### Servers -/

/-- The operations for a server: the definition is written, and the files of the clients. -/
def ServerOp (definition : Path) : ToolOp → Prop
  | .commandAvailable _ | .loadSecrets _ _ => True
  | .writeDefinition path => path = definition
  | op => ClientOp op

theorem ClientOp.server {definition : Path} {op : ToolOp} (client : ClientOp op) :
    ServerOp definition op := by
  cases op with
  | readClient | backupClient | writeClient | removeClient | commandAvailable | loadSecrets =>
    trivial
  | «exists» | isFile | createDirAll | write | removeDirAll | rename | download
  | writeDefinition | save => exact absurd client id

/-- **The installation of a server** writes its definition and the files of the clients. -/
theorem uses_installMcpStdio {home : Location} {item : DesiredItem} (state : ManagedState)
    (command : String) (requiredEnvNames : List String) (managedKey : String) :
    Uses (ServerOp (definitionPath home item.slug)) (Gives fun result =>
        ∃ settingsRequired, result.1 = managedItem item [managedKey] [] settingsRequired)
      (installMcpStdio home item state command requiredEnvNames managedKey) := by
  refine uses_ask_bind trivial fun _ => uses_ensure_bind fun _ => ?_
  refine uses_ask_bind rfl fun _ => uses_ensure_bind fun _ => ?_
  refine uses_ask_bind trivial fun localSecrets => ?_
  have written : Uses ClientOp (Gives fun keys => keys = [managedKey])
      (writeMcpConfigs state item.slug item.manifest.clients managedKey) :=
    uses_then ((uses_clientReplacements state item.slug managedKey item.manifest.clients).mono
      (fun _ => ClientRead.client) fun _ => id) fun _ =>
      uses_then (uses_applyFileReplacements _) fun _ => uses_pure rfl
  refine uses_bind (written.mono (fun _ => ClientOp.server) fun _ => id) fun keys same => ?_
  subst same
  exact uses_pure ⟨_, rfl⟩

end Toard.Reconcile
