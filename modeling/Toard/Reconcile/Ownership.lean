/-
**Whose entries and directories the reconciler changes.**

A task is about one item. What it may change is what was made for that item: its entries in the
files of the clients, and the directories that were put there for it. The reconciler looks at keys
and paths, not at who made what, so this holds only where both agree.

* **`foreign_kept`**: in runs whose tasks start so, no operation changes what is not its item's.
-/

import Toard.Reconcile.Confinement

namespace Toard.Reconcile

open Toard.Library
open Toard.Library.Fallible hiding ask
open Toard.Library.Program (Uses Through)

/-! ### What belongs to an item -/

/-- A file or directory was made for an item, or is below one that was. -/
def MadeFor (disk : Disk) (slug : String) (location : Location) : Prop :=
  ∃ top, top <+: location ∧ ∃ node, disk.nodes top = some node ∧ node.maker = some slug

/-- A node is an item's: made for it, or put below what was by the user. -/
structure IsOwn (disk : Disk) (slug : String) (location : Location) (node : Node) : Prop where
  maker : ∀ other, node.maker = some other → other = slug
  below : MadeFor disk slug location

def OwnsArea (disk : Disk) (slug : String) (area : Location) : Prop :=
  ∀ location node, area <+: location → disk.nodes location = some node →
    IsOwn disk slug location node

/-- A step changes nothing that is not the item's; without an item, it changes nothing. -/
structure KeepsForeign (changes : Option String) (before after : Disk) : Prop where
  nodes : ∀ location node, before.nodes location = some node →
    (∀ slug ∈ changes, ¬ IsOwn before slug location node) → after.nodes location = some node
  entries : ∀ client key entry, before.entry client key = some entry →
    (∀ slug ∈ changes, entry.maker ≠ some slug) → after.entry client key = some entry

theorem KeepsForeign.refl (changes : Option String) (disk : Disk) :
    KeepsForeign changes disk disk := ⟨fun _ _ there _ => there, fun _ _ _ there _ => there⟩

/-! ### The operations on skills -/

section Skills

variable {slug : String} {areas folders : List Location} {disk : Disk}

theorem MadeFor.mono {after : Disk} {location : Location} (made : MadeFor disk slug location)
    (kept : ∀ top node, top <+: location → disk.nodes top = some node → node.maker = some slug →
      ∃ node, after.nodes top = some node ∧ node.maker = some slug) :
    MadeFor after slug location := by
  obtain ⟨top, above, node, there, maker⟩ := made
  exact ⟨top, above, kept top node above there maker⟩

theorem createNodes_of_some {nodes : Location → Option Node} {maker : Option String}
    {directory location : Location} {node : Node} (there : nodes location = some node) :
    createNodes nodes maker directory location = some node := by
  rw [createNodes, there]
  simp

theorem createNodes_of_none {nodes : Location → Option Node} {maker : Option String}
    {directory location : Location} {node : Node} (new : nodes location = none)
    (made : createNodes nodes maker directory location = some node) :
    location <+: directory ∧ node.maker = maker := by
  rw [createNodes, new] at made
  split at made
  case isTrue on =>
    simp only [Option.isNone_none, Bool.and_true] at on
    cases made
    exact ⟨isBelow_iff.mp on, rfl⟩
  case isFalse => cases made

theorem OwnsArea.createDirAll {area directory : Location} {maker : Option String}
    (owns : OwnsArea disk slug area) (isMaker : maker = some slug ∨ ¬ area <+: directory) :
    OwnsArea { disk with nodes := createNodes disk.nodes maker directory } slug area := by
  intro location node inside there
  dsimp only at there
  cases before : disk.nodes location with
  | some known =>
    rw [createNodes_of_some before] at there
    cases there
    obtain ⟨made, below⟩ := owns location _ inside before
    exact ⟨made, below.mono fun top node _ there maker => ⟨node, createNodes_of_some there, maker⟩⟩
  | none =>
    have new := there
    obtain ⟨above, rfl⟩ := createNodes_of_none before there
    obtain same | apart := isMaker
    · refine ⟨fun other isOther => ?_, location, List.prefix_rfl, node, new, same⟩
      rw [same] at isOther
      exact (Option.some_inj.mp isOther).symm
    · exact absurd (inside.trans above) apart

theorem OwnsArea.write {area location : Location} {node : Node} (owns : OwnsArea disk slug area)
    (made : node.maker = some slug) :
    OwnsArea { disk with nodes := Function.update disk.nodes location (some node) } slug area := by
  intro other found inside there
  dsimp only at there
  by_cases same : other = location
  · subst same
    rw [Function.update_self] at there
    cases there
    refine ⟨fun maker isMaker => ?_, other, List.prefix_rfl, node, Function.update_self .., made⟩
    rw [made] at isMaker
    exact (Option.some_inj.mp isMaker).symm
  · rw [Function.update_of_ne same] at there
    obtain ⟨maker, below⟩ := owns other found inside there
    refine ⟨maker, below.mono fun top above _ there isMaker => ?_⟩
    by_cases here : top = location
    · subst here
      exact ⟨node, Function.update_self .., made⟩
    · exact ⟨above, by dsimp only; rw [Function.update_of_ne here]; exact there, isMaker⟩

theorem OwnsArea.removeDirAll {area directory : Location} (owns : OwnsArea disk slug area) :
    OwnsArea { disk with nodes := removeNodes disk.nodes directory } slug area := by
  intro location node inside there
  dsimp only [removeNodes] at there
  split at there
  case isTrue => cases there
  case isFalse outside =>
    obtain ⟨maker, below⟩ := owns location node inside there
    refine ⟨maker, below.mono fun top node above there isMaker => ⟨node, ?_, isMaker⟩⟩
    dsimp only [removeNodes]
    rw [if_neg fun within => outside (isBelow_iff.mpr ((isBelow_iff.mp within).trans above))]
    exact there

theorem Move.remark_maker (move : Move) (node : Node) : (move.remark node).maker = node.maker := by
  unfold Move.remark
  split <;> rfl

theorem moveNodes_of_below {nodes : Location → Option Node} {source rest : Location} {node : Node}
    (target : Location) (move : Move) (there : nodes (source ++ rest) = some node) :
    ∃ moved, moveNodes nodes source target move (target ++ rest) = some moved ∧
      moved.maker = node.maker := by
  rw [moveNodes, if_pos (isBelow_iff.mpr (List.prefix_append _ _)), List.drop_left, there]
  refine ⟨_, rfl, ?_⟩
  dsimp only
  split
  case isTrue => exact move.remark_maker node
  case isFalse => rfl

theorem exists_of_moveNodes {nodes : Location → Option Node} {source target : Location} {move : Move}
    {rest : Location} {moved : Node}
    (there : moveNodes nodes source target move (target ++ rest) = some moved) :
    ∃ node, nodes (source ++ rest) = some node ∧ moved.maker = node.maker := by
  rw [moveNodes, if_pos (isBelow_iff.mpr (List.prefix_append _ _)), List.drop_left] at there
  obtain ⟨node, before, rfl⟩ := Option.map_eq_some_iff.mp there
  refine ⟨node, before, ?_⟩
  split
  case isTrue => exact move.remark_maker node
  case isFalse => rfl

theorem OwnsArea.rename {area folder : Location} {name name' : String} {move : Move}
    (owns : OwnsArea disk slug area) (isSource : OwnsArea disk slug (folder ++ [name])) :
    OwnsArea { disk with
      nodes := moveNodes disk.nodes (folder ++ [name]) (folder ++ [name']) move } slug area := by
  have kept {top : Location} (apart : ¬ folder ++ [name] <+: top)
      (apart' : ¬ folder ++ [name'] <+: top) :
      moveNodes disk.nodes (folder ++ [name]) (folder ++ [name']) move top = disk.nodes top :=
    moveNodes_of_apart move apart apart'
  intro location node inside there
  dsimp only at there
  by_cases within : folder ++ [name'] <+: location
  · obtain ⟨rest, rfl⟩ := within
    obtain ⟨original, before, maker⟩ := exists_of_moveNodes there
    obtain ⟨made, top, above, root, isRoot, rootMaker⟩ :=
      isSource _ original (List.prefix_append _ rest) before
    refine ⟨fun other isOther => made other (by rw [← maker]; exact isOther), ?_⟩
    obtain above | ⟨middle, rfl⟩ :=
      List.prefix_or_prefix_of_prefix above (List.prefix_append (folder ++ [name]) rest)
    · obtain rfl | above := List.prefix_concat_iff.mp above
      · rw [← List.append_nil (folder ++ [name])] at isRoot
        obtain ⟨moved, there, isMaker⟩ := moveNodes_of_below (folder ++ [name']) move isRoot
        rw [List.append_nil] at there
        exact ⟨folder ++ [name'], List.prefix_append _ _, moved, there, isMaker.trans rootMaker⟩
      · have shorter (last : String) : ¬ folder ++ [last] <+: top := fun below => by
          have lengths := (below.trans above).length_le
          simp at lengths
        refine ⟨top, (above.trans (List.prefix_append _ _)).trans (List.prefix_append _ _), root, ?_,
          rootMaker⟩
        exact (kept (shorter name) (shorter name')).trans isRoot
    · obtain ⟨moved, there, isMaker⟩ := moveNodes_of_below (folder ++ [name']) move isRoot
      exact ⟨folder ++ [name'] ++ middle, (List.prefix_append_right_inj _).mpr
        ((List.prefix_append_right_inj _).mp above), moved, there, isMaker.trans rootMaker⟩
  · by_cases gone : folder ++ [name] <+: location
    · rw [moveNodes, if_neg (mt isBelow_iff.mp within), if_pos (isBelow_iff.mpr gone)] at there
      cases there
    · rw [kept gone within] at there
      obtain ⟨maker, below⟩ := owns location node inside there
      refine ⟨maker, below.mono fun top node above there isMaker => ⟨node, ?_, isMaker⟩⟩
      exact (kept (fun below => gone (below.trans above)) fun below =>
        within (below.trans above)).trans there

theorem KeepsForeign.of_nodes {after : Disk} (same : after.clients = disk.clients)
    (nodes : ∀ location node, disk.nodes location = some node → ¬ IsOwn disk slug location node →
      after.nodes location = some node) : KeepsForeign (some slug) disk after where
  nodes location node there foreign := nodes location node there (foreign slug rfl)
  entries client key entry there _ := by
    rw [Disk.entry, same]
    exact there

/-- **An operation on skills changes what is in the areas**, and all of that is the item's. -/
theorem keepsForeign_of_skillOp {quiet : Bool} {op : ToolOp}
    (skill : SkillOp quiet slug areas folders op) (owns : ∀ area ∈ areas, OwnsArea disk slug area)
    (apart : ∀ area ∈ areas, ∀ folder ∈ folders, ¬ area <+: folder) (fails : Bool) :
    KeepsForeign (some slug) disk (perform op fails disk).2 ∧
      ∀ area ∈ areas, OwnsArea (perform op fails disk).2 slug area := by
  cases op with
  | «exists» | isFile | download => exact ⟨.refl _ _, owns⟩
  | readClient | backupClient | writeClient | removeClient | commandAvailable | loadSecrets
  | writeDefinition | save => exact absurd skill id
  | createDirAll maker path =>
    obtain failed | made := perform_createDirAll disk fails maker path
    · rw [failed]
      exact ⟨.refl _ _, owns⟩
    · rw [made]
      refine ⟨.of_nodes rfl fun _ _ there _ => createNodes_of_some there,
        fun area isArea => (owns area isArea).createDirAll ?_⟩
      obtain ⟨isMaker, -⟩ | ⟨-, isFolder⟩ := skill
      · exact .inl isMaker
      · exact .inr (apart area isArea _ isFolder)
  | write maker path bytes =>
    obtain ⟨-, rfl, area, isArea, within⟩ := skill
    obtain failed | went := perform_write disk fails maker path bytes
    · rw [failed]
      exact ⟨.refl _ _, owns⟩
    · rw [went]
      refine ⟨.of_nodes rfl fun location node there foreign => ?_,
        fun area isArea => (owns area isArea).write rfl⟩
      by_cases same : location = locate path
      · rw [← same] at within
        exact absurd (owns area isArea location node within there) foreign
      · exact (Function.update_of_ne same _ _).trans there
  | removeDirAll path =>
    obtain ⟨area, isArea, within⟩ := skill
    obtain failed | went := perform_removeDirAll disk fails path
    · rw [failed]
      exact ⟨.refl _ _, owns⟩
    · rw [went]
      refine ⟨.of_nodes rfl fun location node there foreign => ?_,
        fun area isArea => (owns area isArea).removeDirAll⟩
      dsimp only [removeNodes]
      rw [if_neg fun inside => foreign (owns area isArea location node
        (within.trans (isBelow_iff.mp inside)) there)]
      exact there
  | rename source target move =>
    obtain ⟨-, isSource, isTarget, folder, name, name', same, same'⟩ := skill
    obtain failed | ⟨-, -, went⟩ := perform_rename disk fails source target move
    · rw [failed]
      exact ⟨.refl _ _, owns⟩
    · rw [went]
      refine ⟨.of_nodes rfl fun location node there foreign => ?_, fun area isArea => ?_⟩
      · exact (moveNodes_of_apart move
          (fun inside => foreign (owns _ isSource location node inside there))
          (fun inside => foreign (owns _ isTarget location node inside there))).trans there
      · have ownsSource := owns _ isSource
        rw [same] at ownsSource ⊢
        rw [same']
        exact (owns area isArea).rename ownsSource

end Skills

/-! ### The areas of one key -/

theorem length_locate_congr {path other : Path}
    (same : path.map (· == .parent) = other.map (· == .parent)) :
    (locate path).length = (locate other).length := by
  have depth (path : Path) (location : Location) : (path.foldl go location).length
      = (path.map (· == .parent)).foldl (fun depth up => if up then depth - 1 else depth + 1)
        location.length := by
    induction path generalizing location with
    | nil => rfl
    | cons component rest ih =>
      rw [List.foldl_cons, ih, List.map_cons, List.foldl_cons]
      cases component with
      | parent => simp [go]
      | normal name => simp [go]
  rw [locate, locate, depth, depth, same]

theorem steps_skillTargets {home : Location} {clients : List String} {targetKey : String}
    {target other : TargetPath} (among : target ∈ skillTargets home clients targetKey)
    (among' : other ∈ skillTargets home clients targetKey) :
    target.path.map (· == .parent) = other.path.map (· == .parent) := by
  have steps {target : TargetPath} (among : target ∈ skillTargets home clients targetKey) :
      target.path.map (· == .parent) = if isAbsolute targetKey then
          (components targetKey).map (· == .parent)
        else List.replicate (home.length + 2) false ++ (components targetKey).map (· == .parent) := by
    obtain ⟨client, -, isTarget⟩ := List.mem_filterMap.mp among
    obtain ⟨client, -, rfl⟩ := Option.map_eq_some_iff.mp isTarget
    rw [TargetPath.path, targetPath, join]
    split
    case isTrue => rfl
    case isFalse =>
      rw [List.map_append, pathOf, List.map_map, List.append_left_inj]
      have names : (fun name : String => Component.normal name == .parent) = fun _ => false := by
        funext name
        rfl
      have two : List.replicate (home.length + 2) false
          = List.replicate home.length false ++ [false, false] := List.replicate_add home.length 2 false
      cases client <;> simp [Function.comp_def, names, skillsDirectory, two]
  rw [steps among, steps among']

theorem apart_skillTargets {home : Location} {clients : List String} {targetKey : String}
    (pid : Nat) (purposes : List String) :
    ∀ area ∈ areasOf pid purposes (skillTargets home clients targetKey),
      ∀ folder ∈ foldersOf (skillTargets home clients targetKey), ¬ area <+: folder := by
  intro area isArea folder isFolder within
  obtain ⟨target, among, isArea⟩ := List.mem_flatMap.mp isArea
  obtain ⟨other, among', isFolder⟩ := List.mem_flatMap.mp isFolder
  have steps := steps_skillTargets among among'
  rw [workAreas] at isArea
  split at isArea
  case h_2 => cases isArea
  case h_1 parent name above named =>
    have deeper : area.length = (locate parent).length + 1 := by
      obtain ⟨parent', path⟩ := fileName_eq_some.mp named
      rw [path, parentPath_concat] at above
      cases above
      obtain rfl | isArea := List.mem_cons.mp isArea
      · rw [path, locate_concat, List.length_append, List.length_singleton]
      · obtain ⟨purpose, -, rfl⟩ := List.mem_map.mp isArea
        rw [workingPath, locate_concat, List.length_append, List.length_singleton]
    have parents {path parent : Path} (above : parentPath path = some parent) :
        parent = path.dropLast := by
      unfold parentPath at above
      split at above
      case isTrue => cases above
      case isFalse => exact (Option.some_inj.mp above).symm
    rw [parentFolder, Option.mem_toList, Option.map_eq_some_iff] at isFolder
    obtain ⟨folder, above', rfl⟩ := isFolder
    have equal : (locate parent).length = (locate folder).length := by
      rw [parents above, parents above']
      exact length_locate_congr (by rw [List.map_dropLast, List.map_dropLast, steps])
    have lengths := within.length_le
    omega

/-! ### The files of the clients -/

def foreignEntries (slug : String) (file : Option ClientFile) : String → Option ServerEntry :=
  fun key => (file.bind fun file => file.entries key).filter fun entry => entry.maker != some slug

/-- A new file that leaves the entries of others as they are, in a client whose file either was read
or has no such entries. -/
structure IsGood (slug : String) (disk : Disk) (client : Client) (file : ClientFile) : Prop where
  same : foreignEntries slug (some file) = foreignEntries slug (disk.clients client)
  unread : readText (disk.clients client) = none →
    foreignEntries slug (disk.clients client) = foreignEntries slug none

section Clients

variable {slug key : String} {state : ManagedState} {disk : Disk} {client : Client}

theorem foreignEntries_eq_some {file : Option ClientFile} {entry : ServerEntry} :
    foreignEntries slug file key = some entry ↔
      (file.bind fun file => file.entries key) = some entry ∧ entry.maker ≠ some slug := by
  rw [foreignEntries, Option.filter_eq_some_iff, bne_iff_ne]

theorem foreignEntries_eq_none {file : Option ClientFile} :
    foreignEntries slug file key = none ↔
      ∀ entry, (file.bind fun file => file.entries key) = some entry → entry.maker = some slug := by
  rw [foreignEntries, Option.filter_eq_none_iff]
  simp only [bne_iff_ne, ne_eq, not_not]

theorem foreignEntries_update {file : ClientFile} {entries : String → Option ServerEntry}
    {document : Document} {entry : Option ServerEntry} (before : file.entries = entries)
    (after : document.servers = .table (Function.update entries key entry))
    (own : ∀ made ∈ entry, made.maker = some slug)
    (free : foreignEntries slug (some file) key = none) :
    foreignEntries slug (some (writtenFile document)) = foreignEntries slug (some file) := by
  subst before
  funext other
  by_cases here : other = key
  · subst here
    rw [free, foreignEntries_eq_none]
    intro made there
    rw [Option.bind_some, ClientFile.entries, writtenFile, after] at there
    dsimp only at there
    rw [Function.update_self] at there
    exact own made there
  · rw [foreignEntries, foreignEntries, Option.bind_some, Option.bind_some]
    have same : (writtenFile document).entries other = file.entries other := by
      rw [ClientFile.entries, writtenFile, after]
      exact Function.update_of_ne here _ _
    rw [same]

theorem foreignEntries_mergeEntry {file : ClientFile} {merged : Document}
    (goes : mergeEntry file.document state key (launchEntry slug) = .ok merged)
    (free : foreignEntries slug (some file) key = none) :
    foreignEntries slug (some (writtenFile merged)) = foreignEntries slug (some file) := by
  have own : ∀ made ∈ some (launchEntry slug), made.maker = some slug := by
    rintro made ⟨⟩
    rfl
  unfold mergeEntry at goes
  split at goes
  case isTrue => cases goes
  case isFalse =>
    split at goes
    case h_1 missing =>
      cases goes
      refine foreignEntries_update ?_ rfl own free
      rw [ClientFile.entries, missing]
    case h_2 => cases goes
    case h_3 entries table =>
      split at goes
      case isTrue => cases goes
      case isFalse =>
        cases goes
        refine foreignEntries_update ?_ rfl own free
        rw [ClientFile.entries, table]

theorem foreignEntries_removeKeys {file : ClientFile} {keys : List String} {next : Document}
    (goes : removeKeys file.document state keys = .ok next)
    (free : file.document.object = true → ∀ key ∈ keys, foreignEntries slug (some file) key = none) :
    foreignEntries slug (some (writtenFile next)) = foreignEntries slug (some file) := by
  induction keys generalizing file with
  | nil =>
    cases goes
    rfl
  | cons key rest ih =>
    obtain ⟨changed, first, goes⟩ := Toard.Shim.bind_eq_ok.mp goes
    have isWritten : (writtenFile changed).document = changed := rfl
    rw [← isWritten] at goes
    unfold removeEntry at first
    split at first
    case isTrue => cases first
    case isFalse =>
      split at first
      case h_1 entries object table =>
        cases first
        have same : foreignEntries slug (some (writtenFile { file.document with
            servers := .table (Function.update entries key none) })) = foreignEntries slug (some file) :=
          foreignEntries_update (by rw [ClientFile.entries, table] : file.entries = entries) rfl nofun
            (free object key List.mem_cons_self)
        rw [ih goes fun _ other among => by
          rw [same]; exact free object other (List.mem_cons_of_mem _ among), same]
      case h_2 =>
        cases first
        exact ih goes fun object other among => free object other (List.mem_cons_of_mem _ among)

theorem of_readText {file : Option ClientFile} {document : Document}
    (read : readText file = some (some document)) :
    ∃ known, file = some known ∧ known.document = document ∧ known.access = .text := by
  obtain ⟨known, rfl, isDocument⟩ := Option.bind_eq_some_iff.mp read
  refine ⟨known, rfl, ?_⟩
  by_cases isText : known.access = .text
  · rw [if_pos isText] at isDocument
    by_cases parses : known.parses = true
    · rw [if_pos parses] at isDocument
      exact ⟨Option.some_inj.mp (Option.some_inj.mp isDocument), isText⟩
    · rw [if_neg parses] at isDocument
      cases isDocument
  · rw [if_neg isText] at isDocument
    cases isDocument

def replacedFile (state : ManagedState) (slug key : String) (file : Option ClientFile) :
    Except String ClientFile :=
  match (readText file).getD (some emptyDocument) with
  | some root => (mergeEntry root state key (launchEntry slug)).map writtenFile
  | none => .error "invalid_client_config"

/-- A new file keeps the entries of others, if the one before it was read or has none of them, and
none of them is under the key. -/
theorem IsGood.replaced {file : ClientFile}
    (goes : replacedFile state slug key (disk.clients client) = .ok file)
    (free : ∀ other entry, disk.entry client other = some entry → entry.maker ≠ some slug →
      (readText (disk.clients client)).isSome = true ∧ other ≠ key) :
    IsGood slug disk client file := by
  have unread (missing : readText (disk.clients client) = none) :
      foreignEntries slug (disk.clients client) = foreignEntries slug none := by
    funext other
    refine foreignEntries_eq_none.mpr fun entry there => ?_
    by_contra foreign
    have read := (free other entry there foreign).1
    rw [missing] at read
    cases read
  refine ⟨?_, unread⟩
  unfold replacedFile at goes
  split at goes
  case h_2 => cases goes
  case h_1 root isRoot =>
    cases merge : mergeEntry root state key (launchEntry slug) with
    | error code =>
      rw [merge] at goes
      cases goes
    | ok merged =>
      rw [merge] at goes
      cases goes
      cases read : readText (disk.clients client) with
      | none =>
        rw [read] at isRoot
        cases isRoot
        rw [unread read]
        have isWritten : (writtenFile emptyDocument).document = emptyDocument := rfl
        rw [← isWritten] at merge
        exact foreignEntries_mergeEntry merge rfl
      | some content =>
        rw [read] at isRoot
        obtain rfl : content = some root := isRoot
        obtain ⟨known, there, rfl, -⟩ := of_readText read
        rw [there]
        refine foreignEntries_mergeEntry merge (foreignEntries_eq_none.mpr fun entry found => ?_)
        by_contra foreign
        rw [← there] at found
        exact (free key entry found foreign).2 rfl

def replacementFor (state : ManagedState) (slug key : String) (disk : Disk) (name : String) :
    Except String (Client × ClientFile) :=
  match clientOf name with
  | some client => (replacedFile state slug key (disk.clients client)).map fun file => (client, file)
  | none => .error "unsupported_client"

theorem run_clientReplacement (name : String) :
    Program.run perform (clientReplacement state slug key name) disk
      = (replacementFor state slug key disk name, disk) := by
  have one (client : Client) (content : Option Document) :
      Program.run perform (do
        let root ← orGiveUp "invalid_client_config" content
        let merged ← ofExcept (mergeEntry root state key (launchEntry slug))
        return (client, writtenFile merged) : Deploy (Client × ClientFile)) disk
      = ((match content with
        | some root => (mergeEntry root state key (launchEntry slug)).map writtenFile
        | none => .error "invalid_client_config").map fun file => (client, file), disk) := by
    cases content with
    | none => rfl
    | some root =>
      change Program.run perform (ofExcept (mergeEntry root state key (launchEntry slug))
        >>= fun merged => pure (client, writtenFile merged) : Deploy (Client × ClientFile)) disk
          = (((mergeEntry root state key (launchEntry slug)).map writtenFile).map
            fun file => (client, file), disk)
      cases mergeEntry root state key (launchEntry slug) with
      | error code => rfl
      | ok merged => rfl
  unfold clientReplacement replacementFor
  split
  case h_1 isClient =>
    rw [isClient]
    exact one .claudeCode ((readText (disk.clients .claudeCode)).getD (some emptyDocument))
  case h_2 isClient =>
    rw [isClient]
    exact one .codex ((readText (disk.clients .codex)).getD (some emptyDocument))
  case h_3 noClient =>
    rw [noClient]
    rfl

theorem of_clientReplacements {names : List String} {replacements : List (Client × ClientFile)}
    {after : Disk} (goes : Program.run perform (clientReplacements state slug key names) disk
      = (.ok replacements, after)) :
    ∀ replacement ∈ replacements, ∃ name ∈ names, clientOf name = some replacement.1 ∧
      replacedFile state slug key (disk.clients replacement.1) = .ok replacement.2 := by
  induction names generalizing replacements after with
  | nil =>
    cases goes
    exact fun _ among => absurd among List.not_mem_nil
  | cons name rest ih =>
    obtain ⟨first, between, goes₁, goes⟩ := run_bind_eq_ok.mp goes
    rw [run_clientReplacement] at goes₁
    obtain ⟨isFirst, rfl⟩ := Prod.mk.inj goes₁
    obtain ⟨later, _, goes₂, goes⟩ := run_bind_eq_ok.mp goes
    cases goes
    intro replacement among
    obtain rfl | among := List.mem_cons.mp among
    · refine ⟨name, List.mem_cons_self, ?_⟩
      unfold replacementFor at isFirst
      split at isFirst
      case h_1 client isClient =>
        cases new : replacedFile state slug key (disk.clients client) with
        | error => rw [new] at isFirst; cases isFirst
        | ok file =>
          rw [new] at isFirst
          cases isFirst
          exact ⟨isClient, new⟩
      case h_2 => cases isFirst
    · obtain ⟨other, isName, found⟩ := ih goes₂ replacement among
      exact ⟨other, List.mem_cons_of_mem _ isName, found⟩

def isEditable (file : Option ClientFile) : Bool :=
  (readText file).any fun content => content.any Document.object

theorem IsGood.removed {keys : List String} {root next : Document}
    (read : readText (disk.clients client) = some (some root))
    (goes : removeKeys root state keys = .ok next)
    (free : isEditable (disk.clients client) = true → ∀ key ∈ keys,
      foreignEntries slug (disk.clients client) key = none) :
    IsGood slug disk client (writtenFile next) := by
  obtain ⟨known, there, rfl, -⟩ := of_readText read
  refine ⟨?_, fun missing => by rw [read] at missing; cases missing⟩
  rw [there]
  refine foreignEntries_removeKeys goes fun object key among => ?_
  rw [← there]
  refine free ?_ key among
  rw [isEditable, read]
  exact object

theorem of_removalReplacements {keys : List String} {replacements : List (Client × ClientFile)}
    {after : Disk} (goes : Program.run perform (removalReplacements state keys) disk
      = (.ok replacements, after))
    (free : ∀ client, isEditable (disk.clients client) = true → ∀ key ∈ keys,
      foreignEntries slug (disk.clients client) key = none) :
    ∀ replacement ∈ replacements, IsGood slug disk replacement.1 replacement.2 := by
  have edited (client : Client) (root : Document)
      (read : readText (disk.clients client) = some (some root)) {between after : Disk}
      {replaced : List (Client × ClientFile)}
      (goes : Program.run perform (ofExcept (removeKeys root state keys)
        >>= fun next => pure [(client, writtenFile next)] : Deploy (List (Client × ClientFile))) between
          = (.ok replaced, after)) :
      between = after ∧ ∀ replacement ∈ replaced, IsGood slug disk replacement.1 replacement.2 := by
    obtain ⟨next, _, goes₁, goes₂⟩ := run_bind_eq_ok.mp goes
    obtain ⟨removed, rfl⟩ := Prod.mk.inj goes₁
    cases goes₂
    refine ⟨rfl, fun replacement among => ?_⟩
    rw [List.mem_singleton.mp among]
    exact .removed read removed (free client)
  obtain ⟨claude, between, goes₁, goes⟩ := run_bind_eq_ok.mp goes
  obtain ⟨codex, _, goes₂, goes⟩ := run_bind_eq_ok.mp goes
  cases goes
  have claudeGood : disk = between ∧
      ∀ replacement ∈ claude, IsGood slug disk replacement.1 replacement.2 := by
    unfold claudeRemoval at goes₁
    obtain ⟨content, middle, asked, goes₁⟩ := run_bind_eq_ok.mp goes₁
    have answered : (Except.ok (readText (disk.clients .claudeCode)), disk)
      = ((Except.ok content : Except String _), middle) := asked
    cases answered
    rcases read : readText (disk.clients .claudeCode) with _ | _ | root
    · rw [read] at goes₁
      cases goes₁
      exact ⟨rfl, fun _ among => absurd among List.not_mem_nil⟩
    · rw [read] at goes₁
      cases goes₁
      exact ⟨rfl, fun _ among => absurd among List.not_mem_nil⟩
    · rw [read] at goes₁
      exact edited .claudeCode root read goes₁
  obtain ⟨rfl, claudeGood⟩ := claudeGood
  have codexGood : ∀ replacement ∈ codex, IsGood slug disk replacement.1 replacement.2 := by
    unfold codexRemoval at goes₂
    obtain ⟨content, middle, asked, goes₂⟩ := run_bind_eq_ok.mp goes₂
    have answered : (Except.ok (readText (disk.clients .codex)), disk)
      = ((Except.ok content : Except String _), middle) := asked
    cases answered
    split at goes₂
    case h_1 =>
      cases goes₂
      exact fun _ among => absurd among List.not_mem_nil
    case h_2 root read => exact (edited .codex root read goes₂).2
    case h_3 read =>
      split at goes₂
      case isTrue =>
        cases goes₂
        intro replacement among
        obtain ⟨file, same, rfl⟩ := Option.map_eq_some_iff.mp (Option.mem_toList.mp among)
        have there : disk.clients .codex = some file := (Option.filter_eq_some_iff.mp same).1
        exact ⟨by rw [there], fun missing => by rw [read] at missing; cases missing⟩
      case isFalse => cases goes₂
  exact fun replacement among =>
    (List.mem_append.mp among).elim (claudeGood replacement) (codexGood replacement)

/-! ### The writes -/

def KeepsClients (slug : String) (disk : Disk) : ToolOp → Prop
  | .writeClient client file =>
    foreignEntries slug (some file) = foreignEntries slug (disk.clients client)
  | .removeClient client => foreignEntries slug none = foreignEntries slug (disk.clients client)
  | .readClient _ | .backupClient _ => True
  | _ => False

def SameForeign (slug : String) (disk after : Disk) : Prop :=
  ∀ client, foreignEntries slug (after.clients client) = foreignEntries slug (disk.clients client)

theorem keepsForeign_of_clients {before after : Disk} (nodes : after.nodes = before.nodes)
    (same : ∀ client, foreignEntries slug (after.clients client)
      = foreignEntries slug (before.clients client)) : KeepsForeign (some slug) before after where
  nodes location node there _ := by
    rw [nodes]
    exact there
  entries client key entry there foreign := by
    have isForeign := foreignEntries_eq_some.mpr ⟨there, foreign slug rfl⟩
    rw [← same client] at isForeign
    exact (foreignEntries_eq_some.mp isForeign).1

/-- **A write of the entries of others as they were keeps them.** -/
theorem keepsForeign_of_keepsClients {op : ToolOp} (keeps : KeepsClients slug disk op)
    {now : Disk} (before : SameForeign slug disk now) (fails : Bool) :
    KeepsForeign (some slug) now (perform op fails now).2 ∧
      SameForeign slug disk (perform op fails now).2 := by
  have replaced (client : Client) (file : Option ClientFile)
      (good : foreignEntries slug file = foreignEntries slug (disk.clients client)) :
      SameForeign slug disk { now with clients := Function.update now.clients client file } := by
    intro other
    dsimp only
    by_cases same : other = client
    · subst same
      rw [Function.update_self, good]
    · rw [Function.update_of_ne same]
      exact before other
  cases op with
  | readClient | backupClient => exact ⟨.refl _ _, before⟩
  | writeClient client file =>
    obtain failed | went := perform_writeClient now fails client file
    · rw [failed]
      exact ⟨.refl _ _, before⟩
    · rw [went]
      have after := replaced client (some file) keeps
      exact ⟨keepsForeign_of_clients rfl fun other => (after other).trans (before other).symm, after⟩
  | removeClient client =>
    obtain failed | went := perform_removeClient now fails client
    · rw [failed]
      exact ⟨.refl _ _, before⟩
    · rw [went]
      have after := replaced client none keeps
      exact ⟨keepsForeign_of_clients rfl fun other => (after other).trans (before other).symm, after⟩
  | «exists» | isFile | createDirAll | write | removeDirAll | rename | download
  | commandAvailable | loadSecrets | writeDefinition | save => exact absurd keeps id

theorem keeps_rollBackFiles {written : List (Client × Option ClientFile)}
    (good : ∀ one ∈ written, foreignEntries slug one.2 = foreignEntries slug (disk.clients one.1)) :
    Uses (KeepsClients slug disk) (Gives fun _ => True) (rollBackFiles written) := by
  induction written with
  | nil => exact uses_pure trivial
  | cons one rest ih =>
    obtain ⟨client, previous⟩ := one
    have later := ih fun other among => good other (List.mem_cons_of_mem _ among)
    have isGood := good _ List.mem_cons_self
    cases previous with
    | none => exact uses_ask_bind isGood fun _ => later
    | some file => exact uses_ask_bind isGood fun _ => later

theorem keeps_replaceFiles {replacements : List ((Client × ClientFile) × Option ClientFile)}
    {written : List (Client × Option ClientFile)}
    (good : ∀ one ∈ replacements,
      foreignEntries slug (some one.1.2) = foreignEntries slug (disk.clients one.1.1) ∧
        foreignEntries slug one.2 = foreignEntries slug (disk.clients one.1.1))
    (undone : ∀ one ∈ written, foreignEntries slug one.2 = foreignEntries slug (disk.clients one.1)) :
    Uses (KeepsClients slug disk) (Gives fun _ => True) (replaceFiles replacements written) := by
  induction replacements generalizing written with
  | nil => exact uses_pure trivial
  | cons one rest ih =>
    obtain ⟨⟨client, file⟩, previous⟩ := one
    obtain ⟨isGood, wasGood⟩ := good _ List.mem_cons_self
    refine uses_ask_bind isGood fun went => ?_
    cases went with
    | false => exact uses_bind (keeps_rollBackFiles undone) fun _ _ => uses_giveUp _
    | true =>
      refine ih (fun other among => good other (List.mem_cons_of_mem _ among)) fun other among => ?_
      obtain rfl | among := List.mem_cons.mp among
      · exact wasGood
      · exact undone other among

theorem of_backUpFiles {replacements : List (Client × ClientFile)}
    {previous : List (Option ClientFile)} {after : Disk}
    (goes : Program.run perform (backUpFiles replacements) disk = (.ok previous, after)) :
    previous = replacements.map fun replacement =>
      (disk.clients replacement.1).filter fun file => file.access != .denied := by
  induction replacements generalizing previous after with
  | nil =>
    cases goes
    rfl
  | cons replacement rest ih =>
    obtain ⟨first, between, goes₁, goes⟩ := run_bind_eq_ok.mp goes
    cases goes₁
    obtain ⟨later, _, goes₂, goes⟩ := run_bind_eq_ok.mp goes
    cases goes
    rw [ih goes₂]
    rfl

/-- **Good replacements keep the entries of others**, also where they are rolled back. -/
theorem through_applyFileReplacements {replacements : List (Client × ClientFile)}
    (good : ∀ replacement ∈ replacements, IsGood slug disk replacement.1 replacement.2) :
    Through perform (fun _ => True) (fun _ _ _ => True)
      (fun op fails now => KeepsForeign (some slug) now (perform op fails now).2) (fun _ _ => True)
      (applyFileReplacements replacements) disk := by
  have backs : Through perform (fun _ => True) (fun _ _ _ => True)
      (fun op fails now => KeepsForeign (some slug) now (perform op fails now).2)
      (fun result after => Gives (fun _ => True) result ∧
        Program.run perform (backUpFiles replacements) disk = (result, disk) ∧ after = disk)
      (backUpFiles replacements) disk :=
    Program.through_of_reads ((uses_backUpFiles replacements).mono (fun _ => ClientRead.reads)
      fun _ => id) trivial fun op fails reads => by rw [reads fails disk]; exact .refl _ _
  refine through_bind backs (fun previous after _ ended => ?_) fun _ _ _ _ => trivial
  obtain ⟨-, goes, same⟩ := ended
  rw [same]
  obtain rfl := of_backUpFiles goes
  have writes : Uses (KeepsClients slug disk) (Gives fun _ => True) (replaceFiles (replacements.zip
      (replacements.map fun replacement =>
        (disk.clients replacement.1).filter fun file => file.access != .denied)) []) := by
    refine keeps_replaceFiles (fun one among => ?_) fun _ among => absurd among List.not_mem_nil
    rw [← List.map_prod_left_eq_zip] at among
    obtain ⟨replacement, isReplacement, rfl⟩ := List.mem_map.mp among
    have isGood := good replacement isReplacement
    refine ⟨isGood.same, ?_⟩
    dsimp only
    cases there : disk.clients replacement.1 with
    | none => rfl
    | some file =>
      by_cases denied : file.access = .denied
      · rw [Option.filter_some, if_neg (by simp [denied]), ← there]
        refine (isGood.unread ?_).symm
        rw [there, readText, Option.bind_some, denied]
        rfl
      · rw [Option.filter_some, if_pos (by simpa using denied)]
  have before : SameForeign slug disk disk := fun _ => rfl
  have kept : Through perform (SameForeign slug disk) (fun _ _ _ => True)
      (fun op fails now => KeepsForeign (some slug) now (perform op fails now).2)
      (fun result _ => Gives (fun _ => True) result) _ disk :=
    writes.through (fun op fails now keeps same _ => keepsForeign_of_keepsClients keeps same fails)
      before
  exact (kept.relax fun _ _ => trivial).mono fun _ _ _ _ => trivial

end Clients

/-! ### The conditions -/

/-- The item that a task may change: none, where the item is at its version already. -/
def Task.changes (memory : ManagedState) : Task → Option String
  | .remove slug => some slug
  | .apply item =>
    if ((memory.get item.slug).filter fun current => current.versionId == item.versionId).isSome then
      none
    else some item.slug
  | .save => none

def checkedSource (sha256 : List UInt8 → String) (source : ManifestSource) (listed : List String)
    (reply : Except String SourceArchive) : Except String (List SourceFile) := do
  let archive ← reply
  let files ← readTarGzFiles sha256 archive source.path listed
  let digest ← canonicalTreeDigest sha256 files
  if digest == source.treeDigest then return files else throw "digest_mismatch"

/-- An area holds nothing but what is the item's, and no configuration file. -/
def IsFree (home : Location) (disk : Disk) (slug : String) (area : Location) : Prop :=
  OwnsArea disk slug area ∧ ∀ client, ¬ area <+: home ++ configFile client

section Conditions

variable (home : Location) (sha256 : List UInt8 → String) (pid : Nat) (memory : ManagedState)
  (disk : Disk)

/-- Where the files of a skill can be had and none of its targets is refused, these and the
directories beside them are the item's. -/
def SkillHarmless (item : DesiredItem) (listed : List String) (targetKey : String) : Prop :=
  (∃ files, checkedSource sha256 item.manifest.source listed
    (disk.downloads item.manifest.source.downloadUrl) = .ok files) →
  (∀ target ∈ skillTargets home item.manifest.clients targetKey,
    (disk.nodes (locate target.path)).isSome = true → target ∈ recordedPaths memory item.slug) →
  ∀ area ∈ areasOf pid stagePurposes (skillTargets home item.manifest.clients targetKey),
    IsFree home disk item.slug area

/-- Where a server can be merged into the files of its clients, the entries of others are in files
that can be read, and under other keys. -/
def ServerHarmless (item : DesiredItem) (command key : String) : Prop :=
  disk.commands command = true →
  (∃ replacements, Program.run perform (clientReplacements memory item.slug key
    item.manifest.clients) disk = (.ok replacements, disk)) →
  ∀ name ∈ item.manifest.clients, ∀ client ∈ clientOf name, ∀ other entry,
    disk.entry client other = some entry → entry.maker ≠ some item.slug →
      (readText (disk.clients client)).isSome = true ∧ other ≠ key

/-- The recorded paths are the item's, and so are the entries under its keys, in whichever client
they are. -/
def RemovalHarmless (slug : String) (item : ManagedItem) : Prop :=
  (∀ area ∈ areasOf pid removePurposes item.managedPaths, IsFree home disk slug area) ∧
  ((∃ replacements, Program.run perform (removalReplacements memory item.managedKeys) disk
    = (.ok replacements, disk)) →
  ∀ client, isEditable (disk.clients client) = true → ∀ key ∈ item.managedKeys, ∀ entry,
    disk.entry client key = some entry → entry.maker = some slug)

end Conditions

/-- **The condition on the state in which a task starts.** -/
def IsHarmless (home : Location) (sha256 : List UInt8 → String) (reconciler : Reconciler) :
    Task → Prop
  | .remove slug => ∀ item, reconciler.memory.get slug = some item →
    RemovalHarmless home reconciler.pid reconciler.memory reconciler.disk slug item
  | .apply item => (Task.apply item).changes reconciler.memory = some item.slug →
    match item.manifest.payload with
    | .skill listed targetKey => SkillHarmless home sha256 reconciler.pid reconciler.memory
        reconciler.disk item listed targetKey
    | .mcpStdio command _ _ key =>
      ServerHarmless reconciler.memory reconciler.disk item command key
    | _ => True
  | .save => True

/-! ### The tasks -/

/-- What is shown of every call: nothing but what is the item's is changed. -/
def KeepsOthers : Soundness := fun _ memory task op fails disk =>
  KeepsForeign (task.changes memory) disk (perform op fails disk).2

section Tasks

variable {home : Location} {sha256 : List UInt8 → String} {pid : Nat} {memory : ManagedState}
  {disk : Disk} {item : DesiredItem}

theorem fetchSource_eq (source : ManifestSource) (listed : List String) :
    fetchSource sha256 source listed = .call (.download source.downloadUrl) fun reply =>
      .done (checkedSource sha256 source listed reply) := by
  have check (files : List SourceFile) (digest : String) : (do
      ensure "digest_mismatch" (digest == source.treeDigest)
      return files : Deploy (List SourceFile)) = ofExcept
        (if digest == source.treeDigest then pure files else throw "digest_mismatch") := by
    cases digest == source.treeDigest with
    | true => rfl
    | false => rfl
  unfold fetchSource
  simp only [check, ofExcept_bind]
  rfl

theorem of_refuseUnmanaged {recorded targets : List TargetPath} {after : Disk}
    (goes : Program.run perform (refuseUnmanaged recorded targets) disk = (.ok (), after)) :
    ∀ target ∈ targets, (disk.nodes (locate target.path)).isSome = true → target ∈ recorded := by
  induction targets with
  | nil => exact fun _ among => absurd among List.not_mem_nil
  | cons target rest ih =>
    obtain ⟨there, between, goes₁, goes⟩ := run_bind_eq_ok.mp goes
    cases goes₁
    split at goes
    case isTrue => cases goes
    case isFalse passes =>
      intro other among exist
      obtain rfl | among := List.mem_cons.mp among
      · have isThere : (perform (.exists other.path) false disk).1 = true := exist
        simpa [isThere] using passes
      · exact ih goes other among exist

theorem reads_refuseUnmanaged (recorded targets : List TargetPath) :
    Uses (Program.Reads perform) (Gives fun _ => True) (refuseUnmanaged recorded targets) := by
  induction targets with
  | nil => exact uses_pure trivial
  | cons target rest ih =>
    refine uses_ask_bind (fun _ _ => rfl) fun there => ?_
    split
    case isTrue => exact uses_giveUp _
    case isFalse => exact ih

theorem keepsForeign_of_reads {α : Type} {ends : α → Prop} {program : Tool α}
    (uses : Uses (Program.Reads perform) ends program) (changes : Option String)
    {during : Disk → Prop} (now : during disk) : Through perform during (fun _ _ _ => True)
      (fun op fails now => KeepsForeign changes now (perform op fails now).2)
      (fun result after => ends result ∧
        Program.run perform program disk = (result, disk) ∧ after = disk) program disk :=
  Program.through_of_reads uses now fun op fails reads => by
    rw [reads fails disk]
    exact .refl _ _

theorem keepsForeign_of_uses {quiet : Bool} {slug : String} {areas folders : List Location}
    {α : Type} {ends : α → Prop} {program : Tool α}
    (uses : Uses (SkillOp quiet slug areas folders) ends program)
    (owns : ∀ area ∈ areas, OwnsArea disk slug area)
    (apart : ∀ area ∈ areas, ∀ folder ∈ folders, ¬ area <+: folder) :
    Through perform (fun _ => True) (fun _ _ _ => True)
      (fun op fails now => KeepsForeign (some slug) now (perform op fails now).2)
      (fun result _ => ends result) program disk := by
  have kept : Through perform (fun now => ∀ area ∈ areas, OwnsArea now slug area)
      (fun _ _ _ => True)
      (fun op fails now => KeepsForeign (some slug) now (perform op fails now).2)
      (fun result _ => ends result) program disk :=
    uses.through (fun op fails now skill owns _ => keepsForeign_of_skillOp skill owns apart fails) owns
  exact kept.relax fun _ _ => trivial

/-- **The installation of a skill.** -/
theorem others_installSkill {listed : List String} {targetKey : String}
    (harmless : SkillHarmless home sha256 pid memory disk item listed targetKey) :
    Through perform (fun _ => True) (fun _ _ _ => True)
      (fun op fails now => KeepsForeign (some item.slug) now (perform op fails now).2)
      (fun _ _ => True) (installSkill home sha256 pid item memory listed targetKey) disk := by
  have isSource : Uses (SkillOp true "" [] []) (Gives (IsSource sha256 item.manifest.source listed))
      (fetchSource sha256 item.manifest.source listed) := uses_fetchSource _ _ _
  have fetched : Through perform (fun _ => True) (fun _ _ _ => True)
      (fun op fails now => KeepsForeign (some item.slug) now (perform op fails now).2)
      (fun result after => after = disk ∧ ∀ files, result = .ok files → checkedSource sha256
        item.manifest.source listed (disk.downloads item.manifest.source.downloadUrl) = .ok files)
      (fetchSource sha256 item.manifest.source listed) disk := by
    rw [fetchSource_eq]
    refine ⟨trivial, fun fails _ => ⟨.refl _ _, trivial, rfl, fun files same => ?_⟩⟩
    cases fails with
    | true => cases same
    | false => exact same
  refine through_bind (isSource.along fetched |>.imp fun _ _ _ => And.right)
    (fun files after _ ended => ?_) fun _ _ _ _ => trivial
  obtain ⟨isSource, rfl, checked⟩ := ended
  refine through_bind (keepsForeign_of_reads (reads_refuseUnmanaged _ _) _ trivial)
    (fun _ between _ ended => ?_) fun _ _ _ _ => trivial
  obtain ⟨-, passes, same⟩ := ended
  rw [same]
  have free := harmless ⟨files, checked files rfl⟩ (of_refuseUnmanaged passes)
  have tail : Uses (SkillOp false item.slug
      (areasOf pid stagePurposes (skillTargets home item.manifest.clients targetKey))
      (foldersOf (skillTargets home item.manifest.clients targetKey))) (Gives fun _ => True) (do
        let applied ← stageTargets item.slug pid files
          (skillTargets home item.manifest.clients targetKey) []
        removeBackups applied.reverse
        return managedItem item [] (skillTargets home item.manifest.clients targetKey) false
          : Deploy ManagedItem) := by
    refine uses_bind (uses_stageTargets isSource.inner
      (fun target among _ inside => List.mem_flatMap_of_mem among inside)
      (fun target among _ inside => List.mem_flatMap_of_mem among inside)
      fun _ among => absurd among List.not_mem_nil) fun applied within => ?_
    exact uses_bind (uses_removeBackups fun one among => within one (List.mem_reverse.mp among))
      fun _ _ => uses_pure trivial
  exact (keepsForeign_of_uses tail (fun area isArea => (free area isArea).1)
    (apart_skillTargets pid stagePurposes)).mono fun _ _ _ _ => trivial

/-- **The installation of a server.** -/
theorem others_installMcpStdio {command key : String} {names : List String}
    (harmless : ServerHarmless memory disk item command key) :
    Through perform (fun _ => True) (fun _ _ _ => True)
      (fun op fails now => KeepsForeign (some item.slug) now (perform op fails now).2)
      (fun _ _ => True) (installMcpStdio home item memory command names key) disk := by
  refine through_ask_bind trivial fun _ _ => ⟨.refl _ _, ?_⟩
  refine through_ensure_bind trivial (fun _ => trivial) fun available => ?_
  refine through_ask_bind trivial fun _ _ => ⟨.refl _ _, ?_⟩
  refine through_ensure_bind trivial (fun _ => trivial) fun _ => ?_
  refine through_ask_bind trivial fun _ _ => ⟨.refl _ _, ?_⟩
  have writing : Through perform (fun _ => True) (fun _ _ _ => True)
      (fun op fails now => KeepsForeign (some item.slug) now (perform op fails now).2)
      (fun _ _ => True) (writeMcpConfigs memory item.slug item.manifest.clients key) disk := by
    refine through_bind (keepsForeign_of_reads ((uses_clientReplacements memory item.slug key
      item.manifest.clients).mono (fun _ => ClientRead.reads) fun _ => id) _ trivial)
      (fun replacements after _ ended => ?_) fun _ _ _ _ => trivial
    obtain ⟨-, goes, same⟩ := ended
    rw [same]
    have free := harmless available ⟨replacements, goes⟩
    refine through_bind (through_applyFileReplacements fun replacement among => ?_)
      (fun _ _ _ _ => ⟨trivial, trivial⟩) fun _ _ _ _ => trivial
    obtain ⟨name, isName, isClient, new⟩ := of_clientReplacements goes replacement among
    exact .replaced new (free name isName replacement.1 isClient)
  exact through_bind writing (fun _ _ _ _ => ⟨trivial, trivial⟩) fun _ _ _ _ => trivial

theorem run_of_clientRead {α : Type} {ends : α → Prop} {program : Tool α} {other : Disk}
    (uses : Uses ClientRead ends program) (same : other.clients = disk.clients) {result : α}
    (goes : Program.run perform program other = (result, other)) :
    Program.run perform program disk = (result, disk) := by
  induction program with
  | done known =>
    cases goes
    rfl
  | call op rest ih =>
    have read := uses.1
    cases op with
    | readClient client =>
      have reply : (perform (.readClient client) false disk).1
          = (perform (.readClient client) false other).1 := by
        change readText (disk.clients client) = readText (other.clients client)
        rw [same]
      have later := ih _ (uses.2 _) goes
      rw [← reply] at later
      exact later
    | backupClient client =>
      have reply : (perform (.backupClient client) false disk).1
          = (perform (.backupClient client) false other).1 := by
        change (disk.clients client).filter _ = (other.clients client).filter _
        rw [same]
      have later := ih _ (uses.2 _) goes
      rw [← reply] at later
      exact later
    | _ => exact absurd read id

theorem clients_of_skillOp {quiet : Bool} {slug : String} {areas folders : List Location}
    {op : ToolOp} (skill : SkillOp quiet slug areas folders op) (fails : Bool) :
    (perform op fails disk).2.clients = disk.clients := by
  cases op with
  | readClient | backupClient | writeClient | removeClient | commandAvailable | loadSecrets
  | writeDefinition | save => exact absurd skill id
  | «exists» | isFile | download => rfl
  | createDirAll | write | removeDirAll | rename =>
    rw [perform]
    split <;> rfl

theorem nodes_of_clientOp {op : ToolOp} (isClient : ClientOp op) (fails : Bool) :
    (perform op fails disk).2.nodes = disk.nodes := by
  cases op with
  | readClient | backupClient => rfl
  | writeClient | removeClient =>
    rw [perform]
    split <;> rfl
  | _ => exact absurd isClient id

theorem IsGood.of_same {slug : String} {other : Disk} {client : Client} {file : ClientFile}
    (good : IsGood slug disk client file) (same : other.clients = disk.clients) :
    IsGood slug other client file := by
  refine ⟨by rw [same]; exact good.same, ?_⟩
  rw [same]
  exact good.unread

/-- **The removal of an item.** -/
theorem others_removeManagedItem {slug : String} {managed : ManagedItem}
    (recorded : memory.get slug = some managed)
    (harmless : RemovalHarmless home pid memory disk slug managed) :
    Through perform (fun _ => True) (fun _ _ _ => True)
      (fun op fails now => KeepsForeign (some slug) now (perform op fails now).2)
      (fun _ _ => True) (removeManagedItem pid slug memory) disk := by
  let areas := areasOf pid removePurposes managed.managedPaths
  have owns : ∀ area ∈ areas, OwnsArea disk slug area := fun area isArea =>
    (harmless.1 area isArea).1
  have step {quiet : Bool} {α : Type} {ends : α → Prop} {program : Tool α} {now : Disk}
      (uses : Uses (SkillOp quiet slug areas []) ends program)
      (owns : ∀ area ∈ areas, OwnsArea now slug area) (same : now.clients = disk.clients) :
      Through perform (fun now => ∀ area ∈ areas, OwnsArea now slug area) (fun _ _ _ => True)
        (fun op fails now => KeepsForeign (some slug) now (perform op fails now).2)
        (fun result after => ends result ∧ after.clients = disk.clients) program now := by
    have kept : Through perform (fun now => (∀ area ∈ areas, OwnsArea now slug area) ∧
        now.clients = disk.clients) (fun _ _ _ => True)
        (fun op fails now => KeepsForeign (some slug) now (perform op fails now).2)
        (fun result _ => ends result) program now := by
      refine uses.through (fun op fails now skill here _ => ?_) ⟨owns, same⟩
      obtain ⟨keeps, owns⟩ := keepsForeign_of_skillOp skill here.1
        (fun _ _ _ isFolder => absurd isFolder List.not_mem_nil) fails
      exact ⟨keeps, owns, (clients_of_skillOp skill fails).trans here.2⟩
    exact (kept.mono fun _ _ here ended => ⟨ended, here.2⟩).relax fun _ here => here.1
  have applies {replacements : List (Client × ClientFile)} {now : Disk}
      (owns : ∀ area ∈ areas, OwnsArea now slug area)
      (good : ∀ replacement ∈ replacements, IsGood slug now replacement.1 replacement.2) :
      Through perform (fun now => ∀ area ∈ areas, OwnsArea now slug area) (fun _ _ _ => True)
        (fun op fails now => KeepsForeign (some slug) now (perform op fails now).2)
        (fun _ _ => True) (applyFileReplacements replacements) now := by
    have along := (uses_applyFileReplacements replacements).along (through_applyFileReplacements good)
    refine (along.strengthen owns fun op fails now _ owns _ sound => ⟨sound.2, ?_⟩).mono
      fun _ _ _ _ => trivial
    intro area isArea location node inside there
    rw [nodes_of_clientOp sound.1] at there
    obtain ⟨maker, below⟩ := owns area isArea location node inside there
    refine ⟨maker, below.mono fun top node _ there isMaker => ⟨node, ?_, isMaker⟩⟩
    rw [nodes_of_clientOp sound.1]
    exact there
  have moves : Uses (SkillOp true slug areas []) (Gives (MovedWithin areas))
      (moveAside pid managed.managedPaths []) :=
    uses_moveAside (fun target among _ inside => List.mem_flatMap_of_mem among inside)
      fun _ among => absurd among List.not_mem_nil
  rw [removeManagedItem, recorded]
  suffices whole : Through perform (fun now => ∀ area ∈ areas, OwnsArea now slug area)
      (fun _ _ _ => True) (fun op fails now => KeepsForeign (some slug) now (perform op fails now).2)
      (fun _ _ => True) _ disk from whole.relax fun _ _ => trivial
  refine through_bind (step moves owns rfl) (fun moved after owns ended => ?_) fun _ _ _ _ => trivial
  obtain ⟨within, same⟩ := ended
  refine through_bind (keepsForeign_of_reads ((uses_removalReplacements memory
    managed.managedKeys).mono (fun _ => ClientRead.reads) fun _ => id) _ owns)
    (fun replacements between _ ended => ?_) fun _ _ _ _ => trivial
  obtain ⟨-, goes, rfl⟩ := ended
  have goes := run_of_clientRead (uses_removalReplacements memory managed.managedKeys) same goes
  have good := of_removalReplacements goes fun client editable key among =>
    foreignEntries_eq_none.mpr (harmless.2 ⟨replacements, goes⟩ client editable key among)
  refine through_bind (through_tried (applies owns fun replacement among =>
    (good replacement among).of_same same)) (fun result now owns _ => ?_) fun _ _ _ _ => trivial
  have tidies {program : Deploy Unit} (uses : Uses (SkillOp true slug areas [])
      (Gives fun _ => True) program) :
      Through perform (fun now => ∀ area ∈ areas, OwnsArea now slug area) (fun _ _ _ => True)
        (fun op fails now => KeepsForeign (some slug) now (perform op fails now).2)
        (fun result _ => Gives (fun _ => True) result) program now :=
    uses.through (fun op fails now skill owns _ => keepsForeign_of_skillOp skill owns
      (fun _ _ _ isFolder => absurd isFolder List.not_mem_nil) fails) owns
  cases result with
  | error code =>
    exact through_bind (tidies (uses_restoreMoved within)) (fun _ _ owns _ => ⟨owns, trivial⟩)
      fun _ _ _ _ => trivial
  | ok =>
    exact through_bind (tidies (uses_dropMoved fun one among =>
      within one (List.mem_reverse.mp among))) (fun _ _ owns _ => ⟨owns, trivial⟩)
      fun _ _ _ _ => trivial

/-- **Each task keeps what is not its item's.** -/
theorem keepsOthers_task {home : Location} {sha256 : List UInt8 → String} {reconciler : Reconciler}
    {task : Task} (harmless : IsHarmless home sha256 reconciler task) :
    Through perform (fun _ => True) (fun _ _ _ => True)
      (KeepsOthers reconciler.pid reconciler.memory task) (fun _ _ => True)
      (taskProgram home sha256 reconciler.pid reconciler.memory task) reconciler.disk := by
  cases task with
  | remove slug =>
    have removal : Through perform (fun _ => True) (fun _ _ _ => True)
        (KeepsOthers reconciler.pid reconciler.memory (.remove slug)) (fun _ _ => True)
        (removeManagedItem reconciler.pid slug reconciler.memory) reconciler.disk := by
      cases recorded : reconciler.memory.get slug with
      | none =>
        rw [removeManagedItem, recorded]
        exact ⟨trivial, trivial⟩
      | some managed => exact others_removeManagedItem recorded (harmless managed recorded)
    have removed : Through perform (fun _ => True) (fun _ _ _ => True)
        (KeepsOthers reconciler.pid reconciler.memory (.remove slug)) (fun _ _ => True)
        (removeItem reconciler.pid slug reconciler.memory) reconciler.disk := by
      refine Through.bind removal fun result _ _ _ => ?_
      cases result with
      | ok => exact ⟨trivial, trivial⟩
      | error => exact ⟨trivial, trivial⟩
    exact Through.bind removed fun _ _ _ _ => ⟨trivial, trivial⟩
  | apply item =>
    have applied : Through perform (fun _ => True) (fun _ _ _ => True)
        (KeepsOthers reconciler.pid reconciler.memory (.apply item)) (fun _ _ => True)
        (applyItem home sha256 reconciler.pid item reconciler.memory) reconciler.disk := by
      unfold applyItem
      split
      case h_1 current found =>
        unfold recheck
        split
        case isTrue =>
          split
          case h_1 =>
            refine ⟨trivial, fun _ _ => ⟨.refl _ _, trivial, fun _ _ => ⟨.refl _ _, ?_⟩⟩⟩
            dsimp only [Program.bind]
            split
            case isTrue => exact ⟨trivial, trivial⟩
            case isFalse => exact ⟨trivial, trivial⟩
          case h_2 => exact ⟨trivial, trivial⟩
        case isFalse => exact ⟨trivial, trivial⟩
      case h_2 missing =>
        have changes : (Task.apply item).changes reconciler.memory = some item.slug := by
          rw [Task.changes, missing]
          rfl
        have harmless := harmless changes
        have sound : KeepsOthers reconciler.pid reconciler.memory (.apply item)
            = fun op fails now => KeepsForeign (some item.slug) now (perform op fails now).2 := by
          unfold KeepsOthers
          rw [changes]
        rw [sound]
        have install : Through perform (fun _ => True) (fun _ _ _ => True)
            (fun op fails now => KeepsForeign (some item.slug) now (perform op fails now).2)
            (fun _ _ => True)
            (installItem home sha256 reconciler.pid item reconciler.memory) reconciler.disk := by
          unfold installItem
          split
          case h_1 listed targetKey payload =>
            rw [payload] at harmless
            exact through_bind (others_installSkill harmless)
              (fun _ _ _ _ => ⟨trivial, trivial⟩) fun _ _ _ _ => trivial
          case h_2 command args names key payload =>
            rw [payload] at harmless
            exact others_installMcpStdio harmless
          case h_3 => split <;> exact ⟨trivial, trivial⟩
          case h_4 => exact ⟨trivial, trivial⟩
        exact Through.bind install fun _ _ _ _ => ⟨trivial, trivial⟩
    exact Through.bind applied fun _ _ _ _ => ⟨trivial, trivial⟩
  | save =>
    refine ⟨trivial, fun fails _ => ⟨?_, trivial, trivial⟩⟩
    cases fails with
    | true => exact .refl _ _
    | false => exact ⟨fun _ _ there _ => there, fun _ _ _ there _ => there⟩

end Tasks

/-! ### All runs -/

/-- Each task starts in a state in which it is harmless; anything may fail, and the process may end
anywhere. -/
def harmlessTerms (home : Location) (sha256 : List UInt8 → String) : Terms where
  begins := fun _ _ _ => True
  starts := IsHarmless home sha256
  admits := fun _ _ _ => True
  crashes := fun _ => True

def fileWith (key : String) : ClientFile where
  access := .text
  parses := true
  document :=
    { object := true
      servers := .table fun other =>
        if other = key then some { value := .other "mine", maker := none } else none
      rest := "" }

def diskWith (key : String) : Disk :=
  { freshDisk (fun _ => .error "source_download_failed") with
    clients := fun client => if client = .codex then some (fileWith key) else none }

def writtenClient : ToolOp → Option Client
  | .writeClient client _ => some client
  | _ => none

def addsEntry (key : String) : Change where
  nodes := fun _ => .keep
  clients := fun
    | .claudeCode => .put
      { access := .text
        parses := true
        object := true
        isTable := true
        rest := ""
        entries := fun other => if other = key then .put "mine" else .keep }
    | .codex => .keep
  downloads := fun _ => .error "source_download_failed"
  commands := fun _ => true
  secrets := fun _ _ => true

end Toard.Reconcile
