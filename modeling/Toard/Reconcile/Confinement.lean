/-
**What the reconciler touches, and which files a skill is made of.**

A skill directory is put where the target key of the manifest leads, and the definition of a server
where its slug does. Neither is looked at before it is joined to the directory it belongs in. Where
both are plain names, all that a run creates, renames or deletes stays in its place, apart from the
temporary file beside a configuration file and the directories above.

* **`calls_confined`**: every operation of every run over such manifests keeps to its place, writes
  the files of a source whose digest is right, and puts a skill in place with all of them.
-/

import Toard.Reconcile.Runs

namespace Toard.Reconcile

open Toard.Library
open Toard.Shim (bind_eq_ok)
open Toard.Library.Fallible hiding ask
open Toard.Library.Program (Uses Through)

/-! ### The places of the reconciler -/

def toolsDirectory : List String := [".toard", "tools"]

def IsBase (home base : Location) : Prop :=
  base = home ++ toolsDirectory ∨ ∃ client, base = home ++ skillsDirectory client

def Inside (home location : Location) : Prop :=
  (∃ base, IsBase home base ∧ ∃ names, names ≠ [] ∧ location = base ++ names) ∨
    ∃ client, location = home ++ configFile client

def Above (home location : Location) : Prop := ∃ base, IsBase home base ∧ location <+: base

def temporaryBeside (pid : Nat) (location : Location) : Location :=
  location.dropLast ++ ["." ++ location.getLastD "file" ++ ".toard-tmp-" ++ toString pid]

/-- What an operation creates, renames or deletes, apart from directories that are missing. -/
def touched (home : Location) (pid : Nat) : ToolOp → List Location
  | .write _ path _ => [locate path]
  | .removeDirAll path => [locate path]
  | .rename source target _ => [locate source, locate target]
  | .writeClient client _ =>
    [home ++ configFile client, temporaryBeside pid (home ++ configFile client)]
  | .removeClient client => [home ++ configFile client]
  | .writeDefinition path => [locate path, temporaryBeside pid (locate path)]
  | .save _ => [home ++ toolsDirectory ++ ["state.json"],
      temporaryBeside pid (home ++ toolsDirectory ++ ["state.json"])]
  | _ => []

def madeDirectories (home : Location) : ToolOp → List Location
  | .createDirAll _ path => (locate path).inits
  | .writeClient client _ => (home ++ configFile client).dropLast.inits
  | .writeDefinition path => (locate path).dropLast.inits
  | .save _ => (home ++ toolsDirectory).inits
  | _ => []

structure IsConfined (home : Location) (pid : Nat) (op : ToolOp) : Prop where
  touched : ∀ location ∈ touched home pid op, Inside home location ∨
    ∃ client, location = temporaryBeside pid (home ++ configFile client)
  made : ∀ location ∈ madeDirectories home op, Inside home location ∨ Above home location

/-! ### Plain manifests -/

def isNormal (text : String) : Bool :=
  text == "/".intercalate ((components text).map fun
    | .normal name => name
    | .parent => "..")

def PlainItem (item : DesiredItem) : Prop :=
  match item.manifest.payload with
  | .skill files targetKey => isPlain targetKey = true ∧ ∀ path ∈ files, isNormal path = true
  | .mcpStdio .. => isPlain (item.slug ++ ".json") = true
  | _ => True

def PlainTarget (home : Location) (target : TargetPath) : Prop :=
  (∃ client, target.directory = home ++ skillsDirectory client) ∧ isPlain target.key = true

/-- The recorded paths are targets in the directories of the skills. -/
def PlainState (home : Location) (state : ManagedState) : Prop :=
  ∀ slug item, state.get slug = some item → ∀ target ∈ item.managedPaths, PlainTarget home target

section Areas

variable {home base : Location} {pid : Nat} {slug : String} {quiet : Bool}

theorem Inside.below (isBase : IsBase home base) {names : List String} (nonempty : names ≠ []) :
    Inside home (base ++ names) := .inl ⟨base, isBase, names, nonempty, rfl⟩

theorem inits_confined (isBase : IsBase home base) (names : List String) {location : Location}
    (on : location ∈ (base ++ names).inits) : Inside home location ∨ Above home location := by
  have isPrefix : location <+: base ++ names := (List.mem_inits _ _).mp on
  obtain above | ⟨rest, rfl⟩ :=
    List.prefix_or_prefix_of_prefix isPrefix (List.prefix_append base names)
  · exact .inr ⟨base, isBase, above⟩
  · by_cases empty : rest = []
    · rw [empty, List.append_nil]
      exact .inr ⟨base, isBase, List.prefix_rfl⟩
    · exact .inl (.below isBase empty)

theorem areas_of_plain (pid : Nat) (purposes : List String) {target : TargetPath}
    (plain : isPlain target.key = true) :
    (∀ area ∈ workAreas pid purposes target.path, ∃ names, names ≠ [] ∧ area = target.directory ++ names) ∧
    ∀ folder ∈ parentFolder target.path, ∃ names, folder = target.directory ++ names := by
  obtain ⟨names, nonempty, same⟩ := join_of_plain plain (pathOf target.directory)
  obtain ⟨outer, name, rfl⟩ := (names.eq_nil_or_concat').resolve_left nonempty
  have path : target.path = pathOf (target.directory ++ outer) ++ [.normal name] := by
    rw [TargetPath.path, same, pathOf, pathOf, pathOf, List.map_append, List.map_append,
      ← List.append_assoc]
    rfl
  have above : parentPath target.path = some (pathOf (target.directory ++ outer)) := by
    rw [path, parentPath_concat]
  have named : fileName target.path = some name := fileName_eq_some.mpr ⟨_, path⟩
  constructor
  · intro area isArea
    have beside (work : String) : ∃ names, names ≠ [] ∧
        target.directory ++ outer ++ [work] = target.directory ++ names :=
      ⟨_, List.append_ne_nil_of_right_ne_nil outer (List.cons_ne_nil _ _), List.append_assoc _ _ _⟩
    rw [workAreas_eq purposes above named, path] at isArea
    obtain rfl | isArea := List.mem_cons.mp isArea
    · rw [locate_concat, locate_pathOf]
      exact beside name
    · obtain ⟨purpose, -, rfl⟩ := List.mem_map.mp isArea
      rw [workingPath, locate_concat, locate_pathOf]
      exact beside _
  · intro folder isFolder
    rw [parentFolder, above] at isFolder
    rw [List.mem_singleton.mp isFolder, locate_pathOf]
    exact ⟨outer, rfl⟩

/-- **An operation that keeps to the areas of plain targets is confined.** -/
theorem confined_of_skillOp {purposes : List String} {targets : List TargetPath}
    (plain : ∀ target ∈ targets, PlainTarget home target) {op : ToolOp}
    (skill : SkillOp quiet slug (areasOf pid purposes targets) (foldersOf targets) op) :
    IsConfined home pid op := by
  have below {area location : Location} (isArea : area ∈ areasOf pid purposes targets)
      (within : area <+: location) : ∃ base, IsBase home base ∧ ∃ names, names ≠ [] ∧
        location = base ++ names := by
    obtain ⟨target, among, isArea⟩ := List.mem_flatMap.mp isArea
    obtain ⟨isSkills, plain⟩ := plain target among
    obtain ⟨names, nonempty, rfl⟩ := (areas_of_plain pid purposes plain).1 area isArea
    obtain ⟨rest, rfl⟩ := within
    exact ⟨_, .inr isSkills, names ++ rest, List.append_ne_nil_of_left_ne_nil nonempty rest,
      List.append_assoc _ _ _⟩
  have inside {area location : Location} (isArea : area ∈ areasOf pid purposes targets)
      (within : area <+: location) : Inside home location := .inl (below isArea within)
  cases op with
  | «exists» | isFile | download => exact ⟨nofun, nofun⟩
  | readClient | backupClient | writeClient | removeClient | commandAvailable | loadSecrets
  | writeDefinition | save => exact absurd skill id
  | createDirAll maker path =>
    refine ⟨nofun, fun location on => ?_⟩
    change location ∈ (locate path).inits at on
    have folder (isFolder : locate path ∈ foldersOf targets) :
        Inside home location ∨ Above home location := by
      obtain ⟨target, among, isFolder⟩ := List.mem_flatMap.mp isFolder
      obtain ⟨isSkills, plain⟩ := plain target among
      obtain ⟨names, same⟩ := (areas_of_plain pid purposes plain).2 _ isFolder
      rw [same] at on
      exact inits_confined (.inr isSkills) names on
    obtain ⟨-, ⟨area, isArea, within⟩ | isFolder⟩ | ⟨-, isFolder⟩ := skill
    · obtain ⟨base, isBase, names, -, same⟩ := below isArea within
      rw [same] at on
      exact inits_confined isBase names on
    · exact folder isFolder
    · exact folder isFolder
  | write maker path bytes =>
    obtain ⟨-, -, area, isArea, within⟩ := skill
    refine ⟨fun location isTouched => .inl ?_, nofun⟩
    rw [List.mem_singleton.mp isTouched]
    exact inside isArea within
  | removeDirAll path =>
    obtain ⟨area, isArea, within⟩ := skill
    refine ⟨fun location isTouched => .inl ?_, nofun⟩
    rw [List.mem_singleton.mp isTouched]
    exact inside isArea within
  | rename source target move =>
    refine ⟨fun location isTouched => .inl ?_, nofun⟩
    obtain rfl | isTouched := List.mem_cons.mp isTouched
    · exact inside skill.2.1 List.prefix_rfl
    · rw [List.mem_singleton.mp isTouched]
      exact inside skill.2.2.1 List.prefix_rfl

end Areas

/-! ### The files of a skill -/

/-- The files of a source come to where they are staged, and are all there when the directory is
put in its place. -/
def FromFiles (files : List SourceFile) : ToolOp → Disk → Prop
  | .write _ path bytes, _ => ∃ file ∈ files, bytes = file.bytes ∧
      ∃ staging, path = join staging file.path
  | .rename source _ .place, disk => ∀ file ∈ files,
      (disk.nodes (locate (join source file.path))).bind Node.bytes = some file.bytes
  | _, _ => True

def IsStaged (staging : Path) (disk : Disk) (file : SourceFile) : Prop :=
  (disk.nodes (locate (join staging file.path))).bind Node.bytes = some file.bytes

def AreApart (staging : Path) (files : List SourceFile) : Prop :=
  ∀ file ∈ files, ∀ other ∈ files,
    locate (join staging file.path) = locate (join staging other.path) → file = other

section Files

variable {slug : String} {files : List SourceFile} {staging : Path} {disk : Disk} {fails : Bool}

theorem IsStaged.createDirAll {file : SourceFile} (staged : IsStaged staging disk file)
    (maker : Option String) (path : Path) :
    IsStaged staging (perform (.createDirAll maker path) fails disk).2 file := by
  obtain failed | made := perform_createDirAll disk fails maker path
  · rw [failed]
    exact staged
  · rw [made]
    unfold IsStaged at staged ⊢
    dsimp only [createNodes]
    split
    case isTrue missing =>
      simp only [Bool.and_eq_true, Option.isNone_iff_eq_none] at missing
      rw [missing.2] at staged
      cases staged
    case isFalse => exact staged

theorem IsStaged.write {file other : SourceFile}
    (staged : other ≠ file → IsStaged staging disk other)
    (apart : locate (join staging other.path) = locate (join staging file.path) → other = file) :
    IsStaged staging { disk with
      nodes := Function.update disk.nodes (locate (join staging file.path))
        (some { bytes := some file.bytes, maker := some slug, mark := none }) } other := by
  unfold IsStaged at staged ⊢
  dsimp only
  by_cases same : locate (join staging other.path) = locate (join staging file.path)
  · rw [same, Function.update_self, apart same]
    rfl
  · rw [Function.update_of_ne same]
    exact staged fun equal => same (by rw [equal])

theorem through_writeFiles (done rest : List SourceFile) (all : ∀ file ∈ done ++ rest, file ∈ files)
    (apart : AreApart staging files) (staged : ∀ file ∈ done, IsStaged staging disk file) :
    Through perform (fun _ => True) (fun _ _ _ => True) (fun op _ disk => FromFiles files op disk)
      (fun result disk => result = .ok () → ∀ file ∈ done ++ rest, IsStaged staging disk file)
      (writeFiles slug staging rest) disk := by
  induction rest generalizing done disk with
  | nil => exact ⟨trivial, fun _ => by rw [List.append_nil]; exact staged⟩
  | cons file rest ih =>
    have isFile : file ∈ files := all file (by simp)
    have write (disk : Disk) (staged : ∀ file ∈ done, IsStaged staging disk file) :
        Through perform (fun _ => True) (fun _ _ _ => True)
          (fun op _ disk => FromFiles files op disk)
          (fun result disk => result = .ok () →
            ∀ other ∈ done ++ file :: rest, IsStaged staging disk other) (do
          ensure "target_write_failed" (← ask (.write slug (join staging file.path) file.bytes))
          writeFiles slug staging rest : Deploy Unit) disk := by
      refine ⟨trivial, fun fails _ => ⟨⟨file, isFile, rfl, staging, rfl⟩, ?_⟩⟩
      obtain failed | went := perform_write disk fails slug
        (join staging file.path) file.bytes
      · rw [failed]
        exact ⟨trivial, nofun⟩
      · rw [went]
        have staged' : ∀ other ∈ done ++ [file], IsStaged staging { disk with
            nodes := Function.update disk.nodes (locate (join staging file.path))
              (some { bytes := some file.bytes, maker := some slug, mark := none }) } other := by
          intro other among
          have isOther : other ∈ files := all other (by
            obtain among | same := List.mem_append.mp among
            · exact List.mem_append_left _ among
            · rw [List.mem_singleton.mp same]
              exact List.mem_append_right _ List.mem_cons_self)
          refine IsStaged.write (fun differs => staged other ?_) (apart other isOther file isFile)
          exact (List.mem_append.mp among).resolve_right fun same =>
            differs (List.mem_singleton.mp same)
        have later := ih (done ++ [file]) (by simpa using all) staged'
        rw [List.append_assoc] at later
        exact later
    rw [writeFiles]
    dsimp only
    split
    case h_1 directory _ =>
      refine ⟨trivial, fun fails _ => ⟨trivial, ?_⟩⟩
      have staged' : ∀ file ∈ done,
          IsStaged staging (perform (.createDirAll (some slug) directory) fails disk).2 file :=
        fun file among => (staged file among).createDirAll (some slug) directory
      obtain failed | made := perform_createDirAll disk fails (some slug) directory
      · rw [failed]
        exact ⟨trivial, nofun⟩
      · rw [made] at staged' ⊢
        exact write _ staged'
    case h_2 => exact write disk staged

theorem locate_staged {parent : Path} {work : String} {file : SourceFile}
    (inner : IsInner file.path) : ∃ names,
      locate (join (parent ++ [.normal work]) file.path) = locate parent ++ work :: names := by
  obtain ⟨names, same⟩ := exists_names inner.inner
  refine ⟨names, ?_⟩
  rw [join, if_neg (Bool.eq_false_iff.mp inner.relative), same, locate_append_names,
    locate_concat, List.append_assoc]
  rfl

theorem not_prefix_of_ne {parent : Location} {name work : String} (differ : name ≠ work)
    (names : List String) : ¬ parent ++ [name] <+: parent ++ work :: names := by
  intro isPrefix
  rw [List.prefix_append_right_inj, List.cons_prefix_cons] at isPrefix
  exact differ isPrefix.1

theorem IsStaged.setAside {parent : Path} {name : String} {pid : Nat} {file : SourceFile}
    (inner : IsInner file.path)
    (staged : IsStaged (workingPath parent name "stage" pid) disk file) :
    IsStaged (workingPath parent name "stage" pid)
      (perform (.rename (parent ++ [.normal name]) (workingPath parent name "backup" pid) .setAside)
        fails disk).2 file := by
  obtain failed | ⟨-, -, went⟩ := perform_rename disk fails
    (parent ++ [.normal name]) (workingPath parent name "backup" pid) .setAside
  · rw [failed]
    exact staged
  · rw [went]
    unfold IsStaged at staged ⊢
    obtain ⟨names, same⟩ : ∃ names, locate (join (workingPath parent name "stage" pid) file.path)
        = locate parent ++ workingName name "stage" pid :: names := locate_staged inner
    rw [same] at staged ⊢
    dsimp only
    rw [moveNodes_of_apart, staged]
    · rw [locate_concat]
      exact not_prefix_of_ne (workingName_ne name "stage" pid).symm names
    · rw [workingPath, locate_concat]
      refine not_prefix_of_ne (fun same => ?_) names
      exact absurd (workingName_inj same) (by decide)

theorem through_placeStaged {target staging backup : Path} {hadPrevious : Bool}
    (staged : ∀ file ∈ files, IsStaged staging disk file) :
    Through perform (fun _ => True) (fun _ _ _ => True) (fun op _ disk => FromFiles files op disk)
      (fun _ _ => True) (placeStaged target staging backup hadPrevious) disk := by
  refine ⟨trivial, fun fails _ => ⟨staged, ?_⟩⟩
  obtain failed | ⟨-, -, went⟩ :=
    perform_rename disk fails staging target .place
  · rw [failed]
    cases hadPrevious with
    | true => exact ⟨trivial, fun _ _ => ⟨trivial, trivial, trivial⟩⟩
    | false => exact ⟨trivial, trivial⟩
  · rw [went]
    cases hadPrevious with
    | true => exact ⟨trivial, trivial⟩
    | false => exact ⟨trivial, trivial⟩

theorem through_fillAndPlace {parent : Path} {name : String} {pid : Nat}
    (inner : ∀ file ∈ files, IsInner file.path)
    (apart : AreApart (workingPath parent name "stage" pid) files) :
    Through perform (fun _ => True) (fun _ _ _ => True) (fun op _ disk => FromFiles files op disk)
      (fun _ _ => True)
      (fillAndPlace slug (parent ++ [.normal name]) (workingPath parent name "stage" pid)
        (workingPath parent name "backup" pid) files) disk := by
  refine through_bind (through_writeFiles [] files (fun _ => id) apart nofun)
    (fun _ disk _ staged => ?_) fun _ _ _ _ => trivial
  replace staged := staged rfl
  refine through_ask_bind trivial fun _ _ => ⟨trivial, ?_⟩
  split
  case isTrue => exact ⟨trivial, fun _ _ => ⟨trivial, trivial, trivial⟩⟩
  case isFalse =>
    refine through_ask_bind trivial fun _ _ => ⟨trivial, ?_⟩
    split
    case isTrue =>
      refine through_ask_bind trivial fun fails _ => ⟨trivial, ?_⟩
      refine through_ensure_bind trivial (fun _ => trivial) fun _ => through_placeStaged ?_
      exact fun file among => (staged file among).setAside (inner file among)
    case isFalse => exact through_placeStaged staged

def AreDistinct (files : List SourceFile) : Prop :=
  ∀ file ∈ files, ∀ other ∈ files, components file.path = components other.path → file = other

theorem AreDistinct.apart (distinct : AreDistinct files)
    (inner : ∀ file ∈ files, IsInner file.path) (staging : Path) : AreApart staging files := by
  intro file among other among' same
  obtain ⟨names, isFile⟩ := exists_names (inner file among).inner
  obtain ⟨names', isOther⟩ := exists_names (inner other among').inner
  rw [join, if_neg (Bool.eq_false_iff.mp (inner file among).relative), join,
    if_neg (Bool.eq_false_iff.mp (inner other among').relative), isFile, isOther,
    locate_append_names, locate_append_names, List.append_cancel_left_eq] at same
  refine distinct file among other among' ?_
  rw [isFile, isOther, same]

theorem fromFiles_of_quiet {areas folders : List Location} {op : ToolOp}
    (skill : SkillOp true slug areas folders op) : FromFiles files op disk := by
  cases op with
  | write => exact absurd skill.1 (by decide)
  | rename source target move =>
    cases move with
    | place => exact absurd (skill.1 rfl) (by decide)
    | setAside | restore => trivial
  | «exists» | isFile | createDirAll | removeDirAll | readClient | backupClient | writeClient
  | removeClient | download | commandAvailable | loadSecrets | writeDefinition | save => trivial

theorem through_of_quiet (slug : String) (areas folders : List Location) {α : Type} {ends : α → Prop}
    {program : Tool α} (uses : Uses (SkillOp true slug areas folders) ends program) (disk : Disk) :
    Through perform (fun _ => True) (fun _ _ _ => True) (fun op _ disk => FromFiles files op disk)
      (fun result _ => ends result) program disk :=
  uses.through (fun _ _ _ quiet _ _ => ⟨fromFiles_of_quiet quiet, trivial⟩) trivial

variable (inner : ∀ file ∈ files, IsInner file.path) (distinct : AreDistinct files) {pid : Nat}

include inner distinct

theorem through_stageDirectory (slug : String) (target : Path) (disk : Disk) :
    Through perform (fun _ => True) (fun _ _ _ => True) (fun op _ disk => FromFiles files op disk)
      (fun _ _ => True) (stageDirectory slug pid target files) disk := by
  rw [stageDirectory]
  cases above : parentPath target with
  | none => exact ⟨trivial, trivial⟩
  | some parent =>
    refine through_ask_bind trivial fun _ _ => ⟨trivial, ?_⟩
    refine through_ensure_bind trivial (fun _ => trivial) fun _ => ?_
    cases named : fileName target with
    | none => exact ⟨trivial, trivial⟩
    | some name =>
      obtain ⟨parent', rfl⟩ := fileName_eq_some.mp named
      rw [parentPath_concat] at above
      cases above
      refine through_ask_bind trivial fun _ _ => ⟨trivial, ?_⟩
      refine through_ask_bind trivial fun _ _ => ⟨trivial, ?_⟩
      refine through_ask_bind trivial fun _ _ => ⟨trivial, ?_⟩
      refine through_ensure_bind trivial (fun _ => trivial) fun _ => ?_
      exact through_fillAndPlace inner (distinct.apart inner _)

theorem through_stageTargets {targets : List TargetPath} {areas : List Location}
    (areasOf : ∀ target ∈ targets, workAreas pid stagePurposes target.path ⊆ areas)
    {applied : List (Path × Option Path)} (within : ∀ one ∈ applied, KeepsWithin areas one)
    (disk : Disk) :
    Through perform (fun _ => True) (fun _ _ _ => True) (fun op _ disk => FromFiles files op disk)
      (fun _ _ => True) (stageTargets slug pid files targets applied) disk := by
  induction targets generalizing applied disk with
  | nil => exact ⟨trivial, trivial⟩
  | cons target rest ih =>
    have staged := ((uses_stageDirectory inner (areasOf target List.mem_cons_self)
      (List.Subset.refl (parentFolder target.path))).along
      (through_stageDirectory inner distinct slug target.path disk)).imp
        fun _ _ _ => And.right
    refine Through.bind (through_tried staged) ?_
    rintro _ disk - ⟨result, rfl, kept, -⟩
    cases result with
    | error code =>
      exact through_bind (through_of_quiet slug areas [] (uses_rollbackSkillTargets within) disk)
        (fun _ _ _ _ => ⟨trivial, trivial⟩) fun _ _ _ _ => trivial
    | ok backup =>
      refine ih (fun other among => areasOf other (List.mem_cons_of_mem _ among))
        (fun one among => ?_) disk
      obtain rfl | among := List.mem_cons.mp among
      · exact kept
      · exact within one among

end Files

theorem eq_of_normal {text other : String} (normal : isNormal text = true)
    (normal' : isNormal other = true) (same : components text = components other) : text = other := by
  rw [isNormal, beq_iff_eq] at normal normal'
  rw [normal, normal', same]

theorem IsSource.distinct {sha256 : List UInt8 → String} {source : ManifestSource}
    {listed : List String} {files : List SourceFile} (isSource : IsSource sha256 source listed files)
    (normal : ∀ path ∈ listed, isNormal path = true) : AreDistinct files := by
  have digest := isSource.digest
  rw [canonicalTreeDigest] at digest
  split at digest
  case isTrue => cases digest
  case isFalse =>
    obtain ⟨bytes, made, -⟩ := bind_eq_ok.mp digest
    have nodup : (files.map SourceFile.path).Nodup :=
      ((List.perm_insertionSort _ files).map _).nodup_iff.mp (nodup_of_treeBytes made).1
    intro file among other among' same
    exact List.inj_on_of_nodup_map nodup among among'
      (eq_of_normal (normal _ (isSource.listed.only file among))
        (normal _ (isSource.listed.only other among')) same)

/-! ### The runs -/

def FilesOf (sha256 : List UInt8 → String) (task : Task) (files : List SourceFile) : Prop :=
  ∃ item listed targetKey, task = .apply item ∧ item.manifest.payload = .skill listed targetKey ∧
    IsSource sha256 item.manifest.source listed files

/-- The operations that write a file of a skill, or put a skill in its place. -/
def isInstalling : ToolOp → Bool
  | .write _ _ _ => true
  | .rename _ _ .place => true
  | _ => false

/-- Files are written and put in place out of the source of the task. -/
def FromSource (sha256 : List UInt8 → String) (task : Task) (op : ToolOp) (disk : Disk) : Prop :=
  isInstalling op = true → ∃ files, FilesOf sha256 task files ∧ FromFiles files op disk

theorem SkillOp.not_installing {slug : String} {areas folders : List Location} {op : ToolOp}
    (skill : SkillOp true slug areas folders op) : isInstalling op = false := by
  cases op with
  | write => exact absurd skill.1 (by decide)
  | rename source target move =>
    cases move with
    | place => exact absurd (skill.1 rfl) (by decide)
    | setAside | restore => rfl
  | «exists» | isFile | createDirAll | removeDirAll | readClient | backupClient | writeClient
  | removeClient | download | commandAvailable | loadSecrets | writeDefinition | save => rfl

section Tasks

variable {home : Location} {sha256 : List UInt8 → String} {pid : Nat} {item : DesiredItem}
  {listed : List String} {targetKey : String} {state : ManagedState} {disk : Disk}

theorem fromSource_of_quiet (slug : String) (areas folders : List Location) {α : Type}
    {ends : α → Prop} {program : Tool α}
    (uses : Uses (SkillOp true slug areas folders) ends program) (task : Task) (disk : Disk) :
    Through perform (fun _ => True) (fun _ _ _ => True)
      (fun op _ disk => FromSource sha256 task op disk) (fun result _ => ends result) program disk :=
  uses.through (fun _ _ _ quiet _ _ => ⟨fun installing => absurd installing
    (by rw [quiet.not_installing]; decide), trivial⟩) trivial

theorem fromSource_installSkill (payload : item.manifest.payload = .skill listed targetKey)
    (normal : ∀ path ∈ listed, isNormal path = true) (disk : Disk) :
    Through perform (fun _ => True) (fun _ _ _ => True)
      (fun op _ disk => FromSource sha256 (.apply item) op disk) (fun _ _ => True)
      (installSkill home sha256 pid item state listed targetKey) disk := by
  refine through_bind (fromSource_of_quiet "" [] [] (uses_fetchSource sha256 item.manifest.source
    listed) _ disk) (fun files disk _ isSource => ?_) fun _ _ _ _ => trivial
  have isFiles : FilesOf sha256 (.apply item) files :=
    ⟨item, listed, targetKey, rfl, payload, isSource⟩
  refine through_bind (fromSource_of_quiet "" [] [] (uses_refuseUnmanaged _ _) _ disk)
    (fun _ disk _ _ => ?_) fun _ _ _ _ => trivial
  let targets := skillTargets home item.manifest.clients targetKey
  have inAreas : ∀ target ∈ targets, workAreas pid stagePurposes target.path ⊆ areasOf pid stagePurposes targets :=
    fun target among _ inside => List.mem_flatMap_of_mem among inside
  have inFolders : ∀ target ∈ targets, parentFolder target.path ⊆ foldersOf targets :=
    fun target among _ inside => List.mem_flatMap_of_mem among inside
  have nothing : ∀ one ∈ ([] : List (Path × Option Path)), KeepsWithin (areasOf pid stagePurposes targets) one :=
    fun _ among => absurd among List.not_mem_nil
  have keeps : Uses (SkillOp false item.slug (areasOf pid stagePurposes targets) (foldersOf targets))
      (Gives fun all => ∀ one ∈ all, KeepsWithin (areasOf pid stagePurposes targets) one)
      (stageTargets item.slug pid files targets []) :=
    uses_stageTargets isSource.inner inAreas inFolders nothing
  have staged := (keeps.along (through_stageTargets isSource.inner (isSource.distinct normal)
    inAreas nothing disk)).imp fun op _ disk sound => (fun _ => ⟨files, isFiles, sound.2⟩ :
      FromSource sha256 (.apply item) op disk)
  refine through_bind staged (fun applied disk _ ended => ?_) fun _ _ _ _ => trivial
  have within : ∀ one ∈ applied, KeepsWithin (areasOf pid stagePurposes targets) one := ended.1
  refine through_bind (fromSource_of_quiet item.slug (areasOf pid stagePurposes targets) []
    (uses_removeBackups fun one among => within one (List.mem_reverse.mp among)) _ disk)
    (fun _ _ _ _ => ⟨trivial, trivial⟩) fun _ _ _ _ => trivial

end Tasks

/-! ### Plain states -/

section Plain

variable {home : Location} {state : ManagedState}

theorem plainState_empty : PlainState home OrderedMap.empty := by
  intro slug item recorded
  cases recorded

theorem PlainState.delete (plain : PlainState home state) (slug : String) :
    PlainState home (state.delete slug) := by
  intro other item recorded
  rw [OrderedMap.get_delete] at recorded
  split at recorded
  case isTrue => cases recorded
  case isFalse => exact plain other item recorded

theorem PlainState.set (plain : PlainState home state) (slug : String) {item : ManagedItem}
    (targets : ∀ target ∈ item.managedPaths, PlainTarget home target) :
    PlainState home (state.set slug item) := by
  intro other found recorded
  rw [OrderedMap.get_set] at recorded
  split at recorded
  case isTrue =>
    cases recorded
    exact targets
  case isFalse => exact plain other found recorded

theorem plain_skillTargets {targetKey : String} (plain : isPlain targetKey = true)
    (clients : List String) : ∀ target ∈ skillTargets home clients targetKey,
      PlainTarget home target := by
  intro target among
  obtain ⟨client, -, isTarget⟩ := List.mem_filterMap.mp among
  obtain ⟨client, -, rfl⟩ := Option.map_eq_some_iff.mp isTarget
  have relative : isAbsolute targetKey = false := by
    simp only [isPlain, Bool.and_eq_true, Bool.not_eq_true'] at plain
    exact plain.1.1
  refine ⟨⟨client, ?_⟩, plain⟩
  rw [targetPath, relative]
  rfl

end Plain

/-! ### The operations of the tasks -/

section Operations

variable {home : Location} {pid : Nat}

theorem confined_of_clientOp {op : ToolOp} (isClient : ClientOp op) : IsConfined home pid op := by
  cases op with
  | readClient | backupClient => exact ⟨nofun, nofun⟩
  | writeClient client file =>
    constructor
    · intro location isTouched
      obtain rfl | isTouched := List.mem_cons.mp isTouched
      · exact .inl (.inr ⟨client, rfl⟩)
      · exact .inr ⟨client, List.mem_singleton.mp isTouched⟩
    · intro location on
      have isPrefix : location <+: (home ++ configFile client).dropLast := (List.mem_inits _ _).mp on
      refine .inr ⟨home ++ skillsDirectory client, .inr ⟨client, rfl⟩, isPrefix.trans ?_⟩
      cases client with
      | claudeCode =>
        rw [configFile, List.dropLast_concat]
        exact List.prefix_append home _
      | codex =>
        rw [configFile, List.dropLast_append_of_ne_nil (List.cons_ne_nil _ _)]
        exact (List.prefix_append_right_inj home).mpr ⟨["skills"], rfl⟩
  | removeClient client =>
    refine ⟨fun location isTouched => ?_, nofun⟩
    rw [List.mem_singleton.mp isTouched]
    exact .inl (.inr ⟨client, rfl⟩)
  | «exists» | isFile | createDirAll | write | removeDirAll | rename | download
  | commandAvailable | loadSecrets | writeDefinition | save => exact absurd isClient id

theorem inside_toolsFile (home : Location) (pid : Nat) (names : List String) (name : String) :
    (Inside home (home ++ toolsDirectory ++ names ++ [name]) ∧
      Inside home (temporaryBeside pid (home ++ toolsDirectory ++ names ++ [name]))) ∧
      ∀ location ∈ (home ++ toolsDirectory ++ names).inits,
        Inside home location ∨ Above home location := by
  have below (name : String) : Inside home (home ++ toolsDirectory ++ names ++ [name]) := by
    rw [List.append_assoc]
    exact Inside.below (.inl rfl) (List.append_ne_nil_of_right_ne_nil _ (List.cons_ne_nil _ _))
  refine ⟨⟨below name, ?_⟩, fun location on => inits_confined (.inl rfl) names on⟩
  rw [temporaryBeside, List.dropLast_concat]
  exact below _

theorem confined_writeDefinition {slug : String} (plain : isPlain (slug ++ ".json") = true) :
    IsConfined home pid (.writeDefinition (definitionPath home slug)) := by
  obtain ⟨names, nonempty, same⟩ :=
    join_of_plain plain (pathOf (home ++ [".toard", "tools", "deployments"]))
  obtain ⟨outer, name, rfl⟩ := (names.eq_nil_or_concat').resolve_left nonempty
  have path : locate (definitionPath home slug)
      = home ++ toolsDirectory ++ ("deployments" :: outer) ++ [name] := by
    rw [definitionPath, same, locate_append_names, locate_pathOf]
    simp [toolsDirectory]
  obtain ⟨⟨file, temporary⟩, above⟩ := inside_toolsFile home pid ("deployments" :: outer) name
  constructor
  · intro location isTouched
    rw [touched, path] at isTouched
    obtain rfl | isTouched := List.mem_cons.mp isTouched
    · exact .inl file
    · rw [List.mem_singleton.mp isTouched]
      exact .inl temporary
  · intro location on
    rw [madeDirectories, path, List.dropLast_concat] at on
    exact above location on

theorem confined_save (state : ManagedState) : IsConfined home pid (.save state) := by
  obtain ⟨⟨file, temporary⟩, above⟩ := inside_toolsFile home pid [] "state.json"
  rw [List.append_nil] at file temporary above
  constructor
  · intro location isTouched
    obtain rfl | isTouched := List.mem_cons.mp isTouched
    · exact .inl file
    · rw [List.mem_singleton.mp isTouched]
      exact .inl temporary
  · exact above

def IsSave : ToolOp → Prop
  | .save _ => True
  | _ => False

theorem saved_perform {op : ToolOp} (other : ¬ IsSave op) (fails : Bool) (disk : Disk) :
    (perform op fails disk).2.saved = disk.saved := by
  cases op with
  | save => exact absurd trivial other
  | «exists» | isFile | readClient | backupClient | download | commandAvailable | loadSecrets
  | writeDefinition => rfl
  | createDirAll | write | removeDirAll | rename | writeClient | removeClient =>
    rw [perform]
    split <;> rfl

theorem SkillOp.not_save {quiet : Bool} {slug : String} {areas folders : List Location}
    {op : ToolOp} (skill : SkillOp quiet slug areas folders op) : ¬ IsSave op := by
  cases op with
  | save => exact absurd skill id
  | _ => exact id

theorem ClientOp.not_save {op : ToolOp} (isClient : ClientOp op) : ¬ IsSave op := by
  cases op with
  | save => exact absurd isClient id
  | _ => exact id

theorem ClientOp.not_installing {op : ToolOp} (isClient : ClientOp op) :
    isInstalling op = false := by
  cases op with
  | write | rename => exact absurd isClient id
  | _ => rfl

def WorkOp (home : Location) (pid : Nat) (op : ToolOp) : Prop :=
  IsConfined home pid op ∧ ¬ IsSave op

def SetupOp (home : Location) (pid : Nat) (op : ToolOp) : Prop :=
  WorkOp home pid op ∧ isInstalling op = false

theorem ClientOp.setup {op : ToolOp} (isClient : ClientOp op) : SetupOp home pid op :=
  ⟨⟨confined_of_clientOp isClient, isClient.not_save⟩, isClient.not_installing⟩

theorem ServerOp.setup {slug : String} (plain : isPlain (slug ++ ".json") = true) {op : ToolOp}
    (isServer : ServerOp (definitionPath home slug) op) : SetupOp home pid op := by
  cases op with
  | commandAvailable | loadSecrets => exact ⟨⟨⟨nofun, nofun⟩, id⟩, rfl⟩
  | writeDefinition path =>
    obtain rfl : path = definitionPath home slug := isServer
    exact ⟨⟨confined_writeDefinition plain, id⟩, rfl⟩
  | readClient | backupClient | writeClient | removeClient => exact ClientOp.setup trivial
  | «exists» | isFile | createDirAll | write | removeDirAll | rename | download | save =>
    exact absurd isServer id

end Operations

/-! ### The tasks -/

def IsProper (home : Location) (sha256 : List UInt8 → String) : Soundness :=
  fun pid _ task op _ disk => IsConfined home pid op ∧ FromSource sha256 task op disk

section Tasks

variable {home : Location} {sha256 : List UInt8 → String} {pid : Nat} {memory : ManagedState}
  {task : Task} {item : DesiredItem} {state : ManagedState} {disk : Disk}

theorem proper_of_uses {α : Type} {ends : α → Prop} {program : Tool α}
    (uses : Uses (SetupOp home pid) ends program) (saved : PlainState home disk.saved) :
    Through perform (fun disk => PlainState home disk.saved) (fun _ _ _ => True)
      (IsProper home sha256 pid memory task) (fun result _ => ends result) program disk := by
  refine uses.through (fun op fails disk setup saved _ => ?_) saved
  rw [saved_perform setup.1.2]
  exact ⟨⟨setup.1.1, fun installing => absurd installing (by rw [setup.2]; decide)⟩, saved⟩

theorem uses_removeTask (slug : String) (plain : PlainState home state) :
    Uses (SetupOp home pid) (PlainState home) (taskProgram home sha256 pid state (.remove slug)) := by
  have removal : Uses (SetupOp home pid) (Gives (PlainState home))
      (removeManagedItem pid slug state) := by
    unfold removeManagedItem
    split
    case h_1 => exact plain
    case h_2 managed recorded =>
      have isPlain : ∀ target ∈ managed.managedPaths, PlainTarget home target :=
        plain slug managed recorded
      have quiet {op : ToolOp} (skill : SkillOp true slug (areasOf pid removePurposes managed.managedPaths)
          (foldersOf managed.managedPaths) op) : SetupOp home pid op :=
        ⟨⟨confined_of_skillOp isPlain skill, skill.not_save⟩, skill.not_installing⟩
      refine uses_bind ((uses_moveAside (fun target among _ inside =>
        List.mem_flatMap_of_mem among inside) fun _ among => absurd among List.not_mem_nil).mono
        (fun _ => quiet) fun _ => id) fun moved within => ?_
      refine uses_bind ((uses_removalReplacements state managed.managedKeys).mono
        (fun _ read => ClientOp.setup read.client) fun _ => id) fun replacements _ => ?_
      refine uses_bind (uses_tried ((uses_applyFileReplacements replacements).mono
        (fun _ => ClientOp.setup) fun _ => id)) fun result _ => ?_
      cases result with
      | error code =>
        exact uses_bind ((uses_restoreMoved within).mono (fun _ => quiet) fun _ => id)
          fun _ _ => uses_giveUp code
      | ok =>
        refine uses_bind ((uses_dropMoved fun one among => within one
          (List.mem_reverse.mp among)).mono (fun _ => quiet) fun _ => id) fun _ _ => ?_
        exact uses_pure (plain.delete slug)
  have result : Uses (SetupOp home pid) (fun result => PlainState home result.1)
      (removeItem pid slug state) := by
    refine Uses.bind removal ?_
    rintro (_ | next) ended
    · exact plain
    · exact ended
  exact Uses.bind result fun _ => id

theorem uses_recheck {current : ManagedItem} (recorded : state.get item.slug = some current)
    (plain : PlainState home state) : Uses (SetupOp home pid)
      (fun applied => PlainState home applied.state) (recheck item current state) := by
  have read {op : ToolOp} (isRead : (∃ command, op = .commandAvailable command) ∨
      ∃ slug names, op = .loadSecrets slug names) : SetupOp home pid op := by
    obtain ⟨command, rfl⟩ | ⟨slug, names, rfl⟩ := isRead <;> exact ⟨⟨⟨nofun, nofun⟩, id⟩, rfl⟩
  unfold recheck
  split
  case isTrue =>
    split
    case h_1 =>
      refine ⟨read (.inr ⟨_, _, rfl⟩), fun secrets => ⟨read (.inl ⟨_, rfl⟩), fun available => ?_⟩⟩
      dsimp only [Program.bind]
      split
      case isTrue => exact plain.set item.slug (plain item.slug current recorded)
      case isFalse => exact plain
    case h_2 => exact plain
  case isFalse => exact plain

theorem proper_installSkill {listed : List String} {targetKey : String}
    (payload : item.manifest.payload = .skill listed targetKey) (isPlain : isPlain targetKey = true)
    (normal : ∀ path ∈ listed, isNormal path = true) (saved : PlainState home disk.saved) :
    Through perform (fun disk => PlainState home disk.saved) (fun _ _ _ => True)
      (IsProper home sha256 pid memory (.apply item))
      (fun result _ => Gives (fun managed => ∀ target ∈ managed.managedPaths,
        PlainTarget home target) result)
      (installSkill home sha256 pid item state listed targetKey) disk := by
  have targets : ∀ target ∈ skillTargets home item.manifest.clients targetKey,
      PlainTarget home target := plain_skillTargets isPlain item.manifest.clients
  have keeps : Uses (SkillOp false item.slug
      (areasOf pid stagePurposes (skillTargets home item.manifest.clients targetKey))
      (foldersOf (skillTargets home item.manifest.clients targetKey)))
      (Gives fun managed => managed
        = managedItem item [] (skillTargets home item.manifest.clients targetKey) false)
      (installSkill home sha256 pid item state listed targetKey) := uses_installSkill state
  have proper : Through perform (fun disk => PlainState home disk.saved) (fun _ _ _ => True)
      (IsProper home sha256 pid memory (.apply item)) _
      (installSkill home sha256 pid item state listed targetKey) disk :=
    (keeps.along (fromSource_installSkill payload normal disk)).strengthen saved
      fun op fails disk _ saved _ sound => by
        rw [saved_perform sound.1.not_save]
        exact ⟨⟨confined_of_skillOp targets sound.1, sound.2⟩, saved⟩
  refine proper.mono fun result _ _ ended => ?_
  cases result with
  | error => trivial
  | ok managed =>
    obtain rfl := ended.1
    exact targets

theorem proper_installItem (isPlain : PlainItem item) (saved : PlainState home disk.saved) :
    Through perform (fun disk => PlainState home disk.saved) (fun _ _ _ => True)
      (IsProper home sha256 pid memory (.apply item))
      (fun result _ => Gives (fun managed => ∀ target ∈ managed.1.managedPaths,
        PlainTarget home target) result)
      (installItem home sha256 pid item state) disk := by
  unfold PlainItem at isPlain
  unfold installItem
  split
  case h_1 files targetKey payload =>
    rw [payload] at isPlain
    refine through_bind (proper_installSkill payload isPlain.1 isPlain.2 saved)
      (fun managed _ saved targets => ⟨saved, targets⟩) fun _ _ _ _ => trivial
  case h_2 command args names key payload =>
    rw [payload] at isPlain
    refine (proper_of_uses ((uses_installMcpStdio state command names key).mono
      (fun _ => ServerOp.setup isPlain) fun _ => id) saved).mono fun result _ _ ended => ?_
    cases result with
    | error => trivial
    | ok managed =>
      obtain ⟨settings, same⟩ := ended
      rw [Gives, same]
      exact fun _ among => absurd among List.not_mem_nil
  case h_3 => split <;> exact ⟨saved, trivial⟩
  case h_4 => exact ⟨saved, trivial⟩

theorem proper_applyItem (isPlain : PlainItem item) (plain : PlainState home state)
    (saved : PlainState home disk.saved) :
    Through perform (fun disk => PlainState home disk.saved) (fun _ _ _ => True)
      (IsProper home sha256 pid memory (.apply item))
      (fun applied _ => PlainState home applied.state)
      (applyItem home sha256 pid item state) disk := by
  unfold applyItem
  split
  case h_1 current found =>
    have recorded : state.get item.slug = some current := (Option.filter_eq_some_iff.mp found).1
    exact proper_of_uses (uses_recheck recorded plain) saved
  case h_2 =>
    refine Through.bind (proper_installItem isPlain saved) fun result _ saved targets => ⟨saved, ?_⟩
    cases result with
    | ok managed => exact plain.set item.slug targets
    | error code =>
      unfold installed
      dsimp only
      split_ifs <;> exact plain

end Tasks

/-! ### All runs -/

/-- Every manifest is plain; anything may fail, and the process may end anywhere. -/
def plainTerms : Terms where
  begins := fun _ _ desired => ∀ item ∈ desired, PlainItem item
  starts := fun _ _ => True
  admits := fun _ _ _ => True
  crashes := fun _ => True

structure RestsPlain (home : Location) (reconciler : Reconciler) : Prop where
  saved : PlainState home reconciler.disk.saved
  memory : reconciler.todo ≠ [] → PlainState home reconciler.memory
  todo : ∀ item, .apply item ∈ reconciler.todo → PlainItem item

section Runs

variable {home : Location} {sha256 : List UInt8 → String} {reconciler : Reconciler} {task : Task}
  {rest : List Task} {op : ToolOp}

theorem proper_task (rests : RestsPlain home reconciler)
    (left : reconciler.todo = task :: rest) :
    Through perform (fun disk => PlainState home disk.saved) plainTerms.admits
      (IsProper home sha256 reconciler.pid reconciler.memory task)
      (fun memory disk => RestsPlain home { reconciler with memory, disk, todo := rest })
      (taskProgram home sha256 reconciler.pid reconciler.memory task) reconciler.disk := by
  have plainMemory := rests.memory (by rw [left]; exact List.cons_ne_nil _ _)
  have todo (item : DesiredItem) (among : .apply item ∈ rest) : PlainItem item :=
    rests.todo item (by rw [left]; exact List.mem_cons_of_mem _ among)
  cases task with
  | remove slug =>
    exact (proper_of_uses (uses_removeTask slug plainMemory) rests.saved).mono
      fun _ _ saved plain => ⟨saved, fun _ => plain, todo⟩
  | apply item =>
    have isPlain := rests.todo item (by rw [left]; exact List.mem_cons_self)
    exact Through.bind (proper_applyItem isPlain plainMemory rests.saved)
      fun applied disk saved plain => ⟨saved, saved, fun _ => plain, todo⟩
  | save =>
    refine ⟨rests.saved, fun fails _ => ⟨⟨confined_save _, nofun⟩, ?_⟩⟩
    have saved : PlainState home (perform (.save reconciler.memory) fails reconciler.disk).2.saved := by
      cases fails with
      | true => exact rests.saved
      | false => exact plainMemory
    exact ⟨saved, saved, fun _ => plainMemory, todo⟩

end Runs

def plainServer : DesiredItem :=
  personalItem "search" "mcp" ["codex"] "servers/search" "" (.mcpStdio "node" [] [] "search")

def skillArchive (files : List (String × UInt8)) : SourceArchive where
  length := 200
  entries := some (files.map fun file => some {
    path := some ("tools-main/skills/review/" ++ file.1), kind := .file, bytes := [file.2] })

def escapingSkill : DesiredItem :=
  personalItem "review" "skill" ["codex"] "skills/review"
    "sha256:168aabc68f462391557549636c8ed64159d3c562ec5da6d76a65d5da85a3b7a1"
    (.skill ["SKILL.md"] "../../review")

def escapingServer : DesiredItem :=
  personalItem "../../../review" "mcp" ["codex"] "servers/review" ""
    (.mcpStdio "node" [] [] "review")

def doubledSkill : DesiredItem :=
  personalItem "review" "skill" ["codex"] "skills/review"
    "sha256:6f091617fb8c750f43e3edb0b7fed1054b050ff782b00e0d7522cb1398d9639c"
    (.skill ["SKILL.md", "./SKILL.md"] "review")

def placedFrom : ToolOp → Option Path
  | .rename source _ .place => some source
  | _ => none

end Toard.Reconcile
