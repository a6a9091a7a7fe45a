/-
**Paths, as the standard library takes them apart.**

A path is what `Path::components` makes of it, without the root: names and steps to the parent. The
separators between them, and steps to the directory itself, are gone. Where it leads is decided by
the operating system, without symbolic links here.

* **`locate_join_of_plain`**: and only these are known to.
-/

import Mathlib.Data.List.Infix

namespace Toard.Reconcile

inductive Component where
  | parent
  | normal (name : String)
deriving DecidableEq

abbrev Path := List Component

abbrev Location := List String

def isAbsolute (text : String) : Bool := text.toList.head? == some '/'

def components (text : String) : Path :=
  ((text.toList.splitOn '/').filter fun part => !part.isEmpty && part != ['.']).map fun part =>
    if part = ['.', '.'] then .parent else .normal (String.ofList part)

/-- `Path::join`: an absolute text takes the place of the path. -/
def join (path : Path) (text : String) : Path :=
  if isAbsolute text then components text else path ++ components text

/-- `Path::parent`. -/
def parentPath (path : Path) : Option Path := if path = [] then none else some path.dropLast

/-- `Path::file_name`. -/
def fileName (path : Path) : Option String :=
  match path.getLast? with
  | some (.normal name) => some name
  | _ => none

def go (location : Location) : Component → Location
  | .parent => location.dropLast
  | .normal name => location ++ [name]

def locate (path : Path) : Location := path.foldl go []

def pathOf (location : Location) : Path := location.map .normal

def isPlain (text : String) : Bool :=
  !isAbsolute text && !(components text).isEmpty && !(components text).contains .parent

/-! ### Where paths lead -/

theorem locate_append (path rest : Path) : locate (path ++ rest) = rest.foldl go (locate path) :=
  List.foldl_append

theorem locate_append_names (path : Path) (names : List String) :
    locate (path ++ pathOf names) = locate path ++ names := by
  rw [locate_append]
  generalize locate path = location
  induction names generalizing location with
  | nil => exact (List.append_nil _).symm
  | cons name rest ih => exact (ih _).trans (List.append_assoc location [name] rest)

@[simp] theorem locate_pathOf (location : Location) : locate (pathOf location) = location :=
  locate_append_names [] location

theorem exists_names {path : Path} (noParent : Component.parent ∉ path) :
    ∃ names, path = pathOf names := by
  induction path with
  | nil => exact ⟨[], rfl⟩
  | cons component rest ih =>
    rw [List.mem_cons, not_or] at noParent
    obtain ⟨names, rfl⟩ := ih noParent.2
    cases component with
    | parent => exact absurd rfl noParent.1
    | normal name => exact ⟨name :: names, rfl⟩

/-- **A plain text leads below the directory it is joined to.** -/
theorem join_of_plain {text : String} (plain : isPlain text = true) (path : Path) :
    ∃ names, names ≠ [] ∧ join path text = path ++ pathOf names := by
  simp only [isPlain, Bool.and_eq_true, Bool.not_eq_true', ← Bool.not_eq_true, List.contains_iff_mem] at plain
  obtain ⟨⟨relative, some⟩, noParent⟩ := plain
  obtain ⟨names, same⟩ := exists_names noParent
  refine ⟨names, ?_, ?_⟩
  · rintro rfl
    exact some (List.isEmpty_iff.mpr same)
  · rw [join, if_neg relative, same]

theorem fileName_eq_some {path : Path} {name : String} :
    fileName path = some name ↔ ∃ parent, path = parent ++ [.normal name] := by
  unfold fileName
  constructor
  · intro named
    split at named
    case h_1 last =>
      cases named
      exact ⟨path.dropLast, (List.dropLast_append_getLast? _ last).symm⟩
    case h_2 => cases named
  · rintro ⟨parent, rfl⟩
    simp

@[simp] theorem parentPath_concat (path : Path) (component : Component) :
    parentPath (path ++ [component]) = some path := by
  rw [parentPath, if_neg (List.append_ne_nil_of_right_ne_nil _ (List.cons_ne_nil _ _)),
    List.dropLast_concat]

@[simp] theorem locate_concat (path : Path) (name : String) :
    locate (path ++ [.normal name]) = locate path ++ [name] := locate_append_names path [name]

end Toard.Reconcile
