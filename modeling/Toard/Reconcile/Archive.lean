/-
**The files of a skill, out of the archive of its repository.**

* **`readTarGzFiles_eq_ok`**: what it returns are the listed files, each of them plain.
-/

import Mathlib.Data.List.Sort
import Toard.Shim.UsageEvent
import Toard.Reconcile.Paths
import Toard.Deployment.Desired

namespace Toard.Reconcile

open Toard.Deployment (utf8)
open Toard.Shim (bind_eq_ok)

def maxArchiveBytes : Nat := 50 * 1024 * 1024

def maxFileBytes : Nat := 5 * 1024 * 1024

def maxFileCount : Nat := 2000

inductive EntryKind where
  | file
  | directory
  | symlink
  | hardlink
  | device
deriving DecidableEq

structure SourceFile where
  path : String
  bytes : List UInt8
deriving DecidableEq

/-- An entry of a tar archive. A name that is not text has none here. -/
structure ArchiveEntry where
  path : Option String
  kind : EntryKind
  bytes : List UInt8
deriving DecidableEq

/-- A downloaded archive: its length, and its entries up to the first that cannot be read. -/
structure SourceArchive where
  length : Nat
  entries : Option (List (Option ArchiveEntry))
deriving DecidableEq

def hasDoubleSlash : List Char → Bool
  | '/' :: '/' :: _ => true
  | _ :: rest => hasDoubleSlash rest
  | [] => false

def validateArchiveEntry (path : String) (kind : EntryKind) (size : Nat) : Except String String :=
  if size > maxFileBytes || path.isEmpty || path.toList.contains '\x00' || path.toList.contains '\\' ||
      hasDoubleSlash path.toList || kind == .symlink || kind == .hardlink || kind == .device then
    .error "unsafe_archive"
  else if isAbsolute path || (components path).contains .parent then .error "unsafe_archive"
  else .ok path

/-- `update_length_framed`: a value behind its length. -/
def lengthFramed (value : List UInt8) : List UInt8 :=
  utf8 (toString value.length) ++ utf8 ":" ++ value ++ utf8 ":"

def sortedByPath (files : List SourceFile) : List SourceFile :=
  files.insertionSort fun left right => left.path ≤ right.path

section Digest

variable (sha256 : List UInt8 → String)

/-- The bytes that are hashed, if every file may be there and none is there twice. -/
def treeBytes : List SourceFile → List String → Nat → Except String (List UInt8)
  | [], _, _ => .ok []
  | file :: rest, seen, total => do
    let _ ← validateArchiveEntry file.path .file file.bytes.length
    if seen.contains file.path then throw "duplicate_archive_path"
    if total + file.bytes.length > maxArchiveBytes then throw "archive_size_limit"
    let later ← treeBytes rest (file.path :: seen) (total + file.bytes.length)
    return lengthFramed (utf8 file.path) ++ lengthFramed file.bytes ++ later

def canonicalTreeDigest (files : List SourceFile) : Except String String :=
  if files.length > maxFileCount then .error "archive_file_limit"
  else do
    let bytes ← treeBytes (sortedByPath files) [] 0
    return "sha256:" ++ sha256 bytes

def allowedFiles (listed : List String) : Except String (List String) :=
  listed.mapM fun path => validateArchiveEntry path .file 0

/-- The name of an entry below the source directory, where it is a file there. -/
def relativeName (sourceComponents : List String) (rawPath : String) : Option String :=
  let parts := (rawPath.toList.splitOn '/').map String.ofList
  if parts.length ≤ 1 + sourceComponents.length ||
      (parts.drop 1).take sourceComponents.length != sourceComponents then none
  else some ("/".intercalate (parts.drop (1 + sourceComponents.length)))

def readEntry (sourceComponents allowed : List String) (entry : Option ArchiveEntry) :
    Except String (Option SourceFile) := do
  let some entry := entry | throw "invalid_archive"
  let some rawPath := entry.path | throw "unsafe_archive"
  let _ ← validateArchiveEntry rawPath entry.kind entry.bytes.length
  if entry.kind == .directory then return none
  match relativeName sourceComponents rawPath with
  | none => return none
  | some relative =>
    if !allowed.contains relative then return none
    return some { path := relative, bytes := entry.bytes }

def readTarGzFiles (archive : SourceArchive) (sourcePath : String) (listed : List String) :
    Except String (List SourceFile) :=
  if archive.length > maxArchiveBytes then .error "archive_size_limit"
  else do
    let allowed ← allowedFiles listed
    let sourceComponents := ((sourcePath.toList.splitOn '/').filter (!·.isEmpty)).map String.ofList
    let some entries := archive.entries | throw "invalid_archive"
    let read ← entries.mapM (readEntry sourceComponents allowed)
    let files := sortedByPath (read.filterMap id)
    let found := files.map SourceFile.path
    if !(found.all allowed.contains && allowed.all found.contains) then throw "archive_file_missing"
    let _ ← canonicalTreeDigest sha256 files
    return files

end Digest

/-! ### What is hashed -/

theorem nodup_of_treeBytes {files : List SourceFile} {seen : List String} {total : Nat}
    {bytes : List UInt8} (made : treeBytes files seen total = .ok bytes) :
    (files.map SourceFile.path).Nodup ∧ ∀ file ∈ files, file.path ∉ seen := by
  induction files generalizing seen total bytes with
  | nil => exact ⟨List.nodup_nil, nofun⟩
  | cons file rest ih =>
    rw [treeBytes] at made
    obtain ⟨-, -, checked⟩ := bind_eq_ok.mp made
    dsimp only at checked
    split at checked
    case isTrue => cases checked
    case isFalse new =>
      split at checked
      case isTrue => cases checked
      case isFalse =>
        obtain ⟨later, hashed, -⟩ := bind_eq_ok.mp checked
        obtain ⟨nodup, unseen⟩ := ih hashed
        rw [Bool.not_eq_true, ← Bool.not_eq_true, List.contains_iff_mem] at new
        refine ⟨List.nodup_cons.mpr ⟨fun again => ?_, nodup⟩, fun other among => ?_⟩
        · obtain ⟨other, among, same⟩ := List.mem_map.mp again
          exact unseen other among (by rw [same]; exact List.mem_cons_self)
        · obtain rfl | among := List.mem_cons.mp among
          · exact new
          · exact fun inside => unseen other among (List.mem_cons_of_mem _ inside)

/-! ### What is read -/

structure IsInner (path : String) : Prop where
  relative : isAbsolute path = false
  inner : Component.parent ∉ components path

theorem of_validateArchiveEntry {path safe : String} {kind : EntryKind} {size : Nat}
    (valid : validateArchiveEntry path kind size = .ok safe) : safe = path ∧ IsInner path := by
  unfold validateArchiveEntry at valid
  split at valid
  case isTrue => cases valid
  case isFalse =>
    split at valid
    case isTrue => cases valid
    case isFalse outside =>
      cases valid
      simp only [Bool.or_eq_true, not_or, Bool.not_eq_true] at outside
      exact ⟨rfl, outside.1, fun inside => by simp [inside] at outside⟩

theorem of_allowedFiles {listed allowed : List String} (valid : allowedFiles listed = .ok allowed) :
    allowed = listed ∧ ∀ path ∈ listed, IsInner path := by
  induction listed generalizing allowed with
  | nil =>
    cases valid
    exact ⟨rfl, nofun⟩
  | cons path rest ih =>
    rw [allowedFiles, List.mapM_cons] at valid
    cases first : validateArchiveEntry path .file 0 with
    | error => rw [first] at valid; cases valid
    | ok safe =>
      obtain ⟨rfl, inner⟩ := of_validateArchiveEntry first
      cases others : allowedFiles rest with
      | error =>
        rw [allowedFiles] at others
        rw [first, others] at valid
        cases valid
      | ok allowed =>
        obtain ⟨rfl, innerRest⟩ := ih others
        rw [allowedFiles] at others
        rw [first, others] at valid
        cases valid
        exact ⟨rfl, fun other among => (List.mem_cons.mp among).elim (· ▸ inner) (innerRest other)⟩

/-- Files that have exactly the listed names, each of which is let in. -/
structure AreListed (listed : List String) (files : List SourceFile) : Prop where
  only : ∀ file ∈ files, file.path ∈ listed
  all : ∀ path ∈ listed, ∃ file ∈ files, file.path = path
  inner : ∀ path ∈ listed, IsInner path

/-- **What is read of an archive are the listed files.** -/
theorem of_readTarGzFiles {sha256 : List UInt8 → String} {archive : SourceArchive}
    {sourcePath : String} {listed : List String} {files : List SourceFile}
    (read : readTarGzFiles sha256 archive sourcePath listed = .ok files) :
    AreListed listed files := by
  unfold readTarGzFiles at read
  split at read
  case isTrue => cases read
  case isFalse =>
    obtain ⟨allowed, valid, rest⟩ := bind_eq_ok.mp read
    obtain ⟨rfl, inner⟩ := of_allowedFiles valid
    cases entries : archive.entries with
    | none =>
      rw [entries] at rest
      cases rest
    | some entries' =>
      rw [entries] at rest
      obtain ⟨found, -, checked⟩ := bind_eq_ok.mp rest
      dsimp only at checked
      split at checked
      case isTrue => cases checked
      case isFalse same =>
        obtain ⟨-, -, returned⟩ := bind_eq_ok.mp checked
        cases returned
        simp only [Bool.not_eq_true', Bool.not_eq_false, Bool.and_eq_true, List.all_eq_true,
          List.contains_iff_mem] at same
        refine ⟨fun file among => same.1 _ (List.mem_map_of_mem among), fun path among => ?_, inner⟩
        obtain ⟨file, isFile, rfl⟩ := List.mem_map.mp (same.2 path among)
        exact ⟨file, isFile, rfl⟩

end Toard.Reconcile
