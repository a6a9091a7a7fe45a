/-
**The tree digest, on the server and on the device.**

Both hash the files of a source in the order of their names, each name and each content behind its
length. The device orders names by their bytes, the server by `localeCompare`, which belongs to the
JavaScript engine.

* **`digest_agrees_iff`**: the digests are the same exactly if the two orders put every two files of
  the source the same way; and a digest tells the files, on either side.
-/

import Toard.Library.Canonical
import Toard.Reconcile.Archive

namespace Toard.Deployment

open Toard.Reconcile (SourceFile)

/-! ### The server -/

def updateLengthFramed (value : List UInt8) : List UInt8 :=
  utf8 (toString value.length) ++ utf8 ":" ++ value ++ utf8 ":"

def hasTwins : List SourceFile → Bool
  | first :: second :: rest => first.path == second.path || hasTwins (second :: rest)
  | _ => false

section Digest

variable (sha256 : List UInt8 → String) (localeCompare : String → String → Ordering)

def localeLe (left right : SourceFile) : Prop := localeCompare left.path right.path ≠ .gt

instance : DecidableRel (localeLe localeCompare) := fun left right =>
  inferInstanceAs (Decidable (localeCompare left.path right.path ≠ .gt))

def canonicalTreeDigest (files : List SourceFile) : Except String String := do
  let normalized ← files.mapM fun file => do
    let path ← normalizeSafeRelativePath file.path
    return { file with path }
  let sorted := normalized.insertionSort (localeLe localeCompare)
  if hasTwins sorted then throw "duplicate source path"
  return "sha256:" ++ sha256 (sorted.flatMap fun file =>
    updateLengthFramed (utf8 file.path) ++ updateLengthFramed file.bytes)

end Digest

/-- `localeCompare` is a comparison that a sort can use. -/
structure IsCollation (localeCompare : String → String → Ordering) : Prop where
  total : ∀ left right, localeCompare left right = .gt → localeCompare right left ≠ .gt
  trans : ∀ first second third, localeCompare first second ≠ .gt →
    localeCompare second third ≠ .gt → localeCompare first third ≠ .gt

end Toard.Deployment

namespace Toard.Reconcile

open Toard.Library
open Toard.Deployment (utf8 normalizeSafeRelativePath localeLe IsCollation updateLengthFramed hasTwins)
open Toard.Shim (bind_eq_ok)

/-! ### The frames -/

def lengthText (length : Nat) : List UInt8 := utf8 (toString length)

theorem utf8_injective : Function.Injective utf8 := by
  intro left right same
  have bytes : left.toList.utf8Encode = right.toList.utf8Encode := by
    rw [List.utf8Encode, List.utf8Encode]
    exact congrArg List.toByteArray same
  rw [String.utf8Encode_toList, String.utf8Encode_toList] at bytes
  exact String.toByteArray_inj.mp bytes

theorem colon_notMem_digit {digit : Char} (isDigit : digit.isDigit = true) :
    (58 : UInt8) ∉ String.utf8EncodeChar digit := by
  rw [Char.isDigit, Bool.and_eq_true, decide_eq_true_iff, decide_eq_true_iff] at isDigit
  have low : 48 ≤ digit.val.toNat := isDigit.1
  have high : digit.val.toNat ≤ 57 := isDigit.2
  have single : digit.utf8Size = 1 := by
    rw [Char.utf8Size_eq_one_iff]
    exact UInt32.le_iff_toNat_le.mpr (by change digit.val.toNat ≤ 127; omega)
  rw [String.utf8EncodeChar_eq_singleton single, List.mem_singleton]
  intro same
  have value := congrArg UInt8.toNat same
  rw [UInt32.toNat_toUInt8] at value
  change 58 = digit.val.toNat % 256 at value
  omega

theorem lengthTexts : LengthTexts lengthText 58 where
  injective := by
    intro left right same
    have digits := congrArg String.toList (utf8_injective same)
    rw [Nat.toString_eq_repr, Nat.toString_eq_repr, Nat.toList_repr, Nat.toList_repr] at digits
    have values := congrArg (fun digits => Nat.ofDigitChars 10 digits 0) digits
    simpa using values
  plain := by
    intro length among
    obtain ⟨digit, isDigit, isByte⟩ := List.mem_flatMap.mp among
    rw [Nat.toString_eq_repr, Nat.toList_repr] at isDigit
    exact colon_notMem_digit (Nat.isDigit_of_mem_toDigits (by decide) (by decide) isDigit) isByte

def fileBytes (file : SourceFile) : List UInt8 :=
  framed lengthText 58 (utf8 file.path) ++ framed lengthText 58 file.bytes

theorem lengthFramed_eq (value : List UInt8) : lengthFramed value = framed lengthText 58 value := by
  rw [lengthFramed, framed, lengthText, List.append_assoc, List.append_assoc]
  rfl

/-- **The digest's bytes tell the files.** -/
theorem fileBytes_inj {files files' : List SourceFile}
    (same : files.flatMap fileBytes = files'.flatMap fileBytes) : files = files' :=
  flatMap_framed_inj lengthTexts (fun file file' names contents => by
    obtain ⟨path, bytes⟩ := file
    obtain ⟨path', bytes'⟩ := file'
    rw [SourceFile.mk.injEq]
    exact ⟨utf8_injective names, contents⟩) same

/-! ### What the device accepts -/

theorem empty_mem_splitOn {text : List Char} (double : hasDoubleSlash text = true) :
    [] ∈ (text.splitOn '/').tail := by
  induction text using hasDoubleSlash.induct with
  | case1 rest =>
    rw [List.splitOn_cons_eq_if_modifyHead, if_pos (beq_self_eq_true _), List.tail_cons,
      List.splitOn_cons_eq_if_modifyHead, if_pos (beq_self_eq_true _)]
    exact List.mem_cons_self
  | case2 first rest other ih =>
    have later : hasDoubleSlash rest = true := by
      rw [hasDoubleSlash] at double
      · exact double
      · exact other
    rw [List.splitOn_cons_eq_if_modifyHead]
    split
    case isTrue => exact List.mem_of_mem_tail (ih later)
    case isFalse => rw [List.tail_modifyHead]; exact ih later
  | case3 => cases double

/-- **The device lets in the names that the server does**, up to its limit of a file's size. -/
theorem validateArchiveEntry_of_normalize {path safe : String} {size : Nat}
    (normal : normalizeSafeRelativePath path = .ok safe) (small : size ≤ maxFileBytes) :
    safe = path ∧ validateArchiveEntry path .file size = .ok path := by
  unfold normalizeSafeRelativePath at normal
  dsimp only at normal
  split at normal
  case isTrue => cases normal
  case isFalse plain =>
    split at normal
    case isTrue => cases normal
    case isFalse segments =>
      cases normal
      simp only [Bool.or_eq_true, not_or, Bool.not_eq_true] at plain
      obtain ⟨⟨nonempty, noNul⟩, noBackslash⟩ := plain
      simp only [List.any_eq_true, Bool.or_eq_true, not_exists, not_and, not_or,
        List.isEmpty_iff, beq_iff_eq] at segments
      have single : hasDoubleSlash path.toList = false := by
        by_contra double
        rw [Bool.not_eq_false] at double
        exact (segments _ (List.mem_of_mem_tail (empty_mem_splitOn double))).1.1 rfl
      have relative : isAbsolute path = false := by
        by_contra absolute
        rw [Bool.not_eq_false, isAbsolute, beq_iff_eq] at absolute
        obtain ⟨rest, same⟩ := List.head?_eq_some_iff.mp absolute
        refine (segments [] ?_).1.1 rfl
        rw [same, List.splitOn_cons_eq_if_modifyHead, if_pos (beq_self_eq_true _)]
        exact List.mem_cons_self
      have inner : (components path).contains .parent = false := by
        rw [← Bool.not_eq_true, List.contains_iff_mem]
        intro among
        obtain ⟨part, isPart, up⟩ := List.mem_map.mp among
        split at up
        case isTrue dots => exact (segments part (List.mem_filter.mp isPart).1).2 dots
        case isFalse => cases up
      refine ⟨rfl, ?_⟩
      have isNonempty : path.isEmpty = false := by
        rw [← Bool.not_eq_true, String.isEmpty_iff]
        rintro rfl
        exact absurd nonempty (by decide)
      rw [validateArchiveEntry, isNonempty, noNul, noBackslash, single, relative, inner]
      simp [Nat.not_lt.mpr small]

/-! ### What the device hashes -/

structure WithinLimits (files : List SourceFile) : Prop where
  count : files.length ≤ maxFileCount
  file : ∀ file ∈ files, file.bytes.length ≤ maxFileBytes
  total : (files.map fun file => file.bytes.length).sum ≤ maxArchiveBytes

theorem treeBytes_eq {files : List SourceFile} {seen : List String} {total : Nat}
    (valid : ∀ file ∈ files, validateArchiveEntry file.path .file file.bytes.length = .ok file.path)
    (nodup : (files.map SourceFile.path).Nodup) (new : ∀ file ∈ files, file.path ∉ seen)
    (fits : total + (files.map fun file => file.bytes.length).sum ≤ maxArchiveBytes) :
    treeBytes files seen total = .ok (files.flatMap fileBytes) := by
  induction files generalizing seen total with
  | nil => rfl
  | cons file rest ih =>
    rw [List.map_cons, List.nodup_cons] at nodup
    rw [List.map_cons, List.sum_cons] at fits
    have later : treeBytes rest (file.path :: seen) (total + file.bytes.length)
        = .ok (rest.flatMap fileBytes) := by
      refine ih (fun other among => valid other (List.mem_cons_of_mem _ among)) nodup.2
        (fun other among inside => ?_) (by omega)
      obtain same | inside := List.mem_cons.mp inside
      · exact nodup.1 (by rw [← same]; exact List.mem_map_of_mem among)
      · exact new other (List.mem_cons_of_mem _ among) inside
    have unseen : seen.contains file.path = false := by
      rw [← Bool.not_eq_true, List.contains_iff_mem]
      exact new file List.mem_cons_self
    rw [treeBytes, valid file List.mem_cons_self, unseen, later]
    have small : ¬ total + file.bytes.length > maxArchiveBytes := by omega
    simp only [Bool.false_eq_true, if_false, small, List.flatMap_cons, lengthFramed_eq]
    rfl

theorem of_treeBytes {files : List SourceFile} {seen : List String} {total : Nat}
    {bytes : List UInt8} (made : treeBytes files seen total = .ok bytes) :
    bytes = files.flatMap fileBytes := by
  induction files generalizing seen total bytes with
  | nil => cases made; rfl
  | cons file rest ih =>
    rw [treeBytes] at made
    obtain ⟨-, -, checked⟩ := bind_eq_ok.mp made
    dsimp only at checked
    split at checked
    case isTrue => cases checked
    case isFalse =>
      split at checked
      case isTrue => cases checked
      case isFalse =>
        obtain ⟨later, hashed, same⟩ := bind_eq_ok.mp checked
        cases same
        rw [List.flatMap_cons, ← ih hashed, lengthFramed_eq, lengthFramed_eq, fileBytes]

/-! ### The digests -/

section Digests

variable {sha256 : List UInt8 → String} {localeCompare : String → String → Ordering}

def nameLt (left right : SourceFile) : Prop := left.path < right.path

instance : DecidableRel nameLt := fun left right =>
  inferInstanceAs (Decidable (left.path < right.path))

theorem sortedByPath_perm (files : List SourceFile) : (sortedByPath files).Perm files :=
  List.perm_insertionSort _ files

theorem sortedByPath_pairwise {files : List SourceFile}
    (nodup : (files.map SourceFile.path).Nodup) : (sortedByPath files).Pairwise nameLt := by
  have : Std.Total fun left right : SourceFile => left.path ≤ right.path :=
    ⟨fun left right => le_total left.path right.path⟩
  have : IsTrans SourceFile fun left right => left.path ≤ right.path :=
    ⟨fun _ _ _ => le_trans⟩
  have sorted : (sortedByPath files).Pairwise fun left right => left.path ≤ right.path :=
    List.pairwise_insertionSort _ files
  have distinct : (sortedByPath files).Pairwise fun left right => left.path ≠ right.path :=
    List.pairwise_map.mp (((sortedByPath_perm files).map SourceFile.path).nodup_iff.mpr nodup)
  exact sorted.imp₂ (fun _ _ before other => lt_of_le_of_ne before other) distinct

/-- **There is one strictly sorted list of the files.** -/
theorem eq_of_sorted {files files' : List SourceFile} (same : files.Perm files')
    (sorted : files.Pairwise nameLt) (sorted' : files'.Pairwise nameLt) : files = files' :=
  same.eq_of_pairwise (fun _ _ _ _ before after => absurd (before.trans after) (lt_irrefl _))
    sorted sorted'

theorem nodup_of_sorted {files : List SourceFile} (sorted : files.Pairwise nameLt) :
    (files.map SourceFile.path).Nodup :=
  List.pairwise_map.mpr (sorted.imp fun before => ne_of_lt before)

theorem of_canonicalTreeDigest {files : List SourceFile} {digest : String}
    (made : canonicalTreeDigest sha256 files = .ok digest) :
    (files.map SourceFile.path).Nodup ∧
      digest = "sha256:" ++ sha256 ((sortedByPath files).flatMap fileBytes) := by
  unfold canonicalTreeDigest at made
  split at made
  case isTrue => cases made
  case isFalse =>
    obtain ⟨bytes, hashed, same⟩ := bind_eq_ok.mp made
    cases same
    have nodup := (nodup_of_treeBytes hashed).1
    rw [((sortedByPath_perm files).map SourceFile.path).nodup_iff] at nodup
    exact ⟨nodup, by rw [of_treeBytes hashed]⟩

/-- **The device's digest of files that it lets in.** -/
theorem canonicalTreeDigest_eq {files : List SourceFile}
    (normal : ∀ file ∈ files, normalizeSafeRelativePath file.path = .ok file.path)
    (limits : WithinLimits files) (nodup : (files.map SourceFile.path).Nodup) :
    canonicalTreeDigest sha256 files
      = .ok ("sha256:" ++ sha256 ((sortedByPath files).flatMap fileBytes)) := by
  have perm := sortedByPath_perm files
  have hashed : treeBytes (sortedByPath files) [] 0 = .ok ((sortedByPath files).flatMap fileBytes) := by
    refine treeBytes_eq (fun file among => ?_) ((perm.map _).nodup_iff.mpr nodup)
      (fun _ _ => List.not_mem_nil) ?_
    · have among := perm.mem_iff.mp among
      exact (validateArchiveEntry_of_normalize (normal file among) (limits.file file among)).2
    · rw [Nat.zero_add, (perm.map _).sum_eq]
      exact limits.total
  rw [canonicalTreeDigest, if_neg (Nat.not_lt.mpr limits.count), hashed]
  rfl

theorem of_normalizeSafeRelativePath {path safe : String}
    (normal : normalizeSafeRelativePath path = .ok safe) : safe = path :=
  (validateArchiveEntry_of_normalize normal (Nat.zero_le _)).1

theorem of_normalized {files normalized : List SourceFile}
    (made : files.mapM (fun file => do
      let path ← normalizeSafeRelativePath file.path
      return { file with path }) = Except.ok normalized) :
    normalized = files ∧ ∀ file ∈ files, normalizeSafeRelativePath file.path = .ok file.path := by
  induction files generalizing normalized with
  | nil =>
    cases made
    exact ⟨rfl, nofun⟩
  | cons file rest ih =>
    rw [List.mapM_cons] at made
    obtain ⟨first, named, later⟩ := bind_eq_ok.mp made
    obtain ⟨others, made, same⟩ := bind_eq_ok.mp later
    obtain ⟨path, normal, record⟩ := bind_eq_ok.mp named
    obtain ⟨rfl, normalRest⟩ := ih made
    cases of_normalizeSafeRelativePath normal
    cases record
    cases same
    exact ⟨rfl, List.forall_mem_cons.mpr ⟨normal, normalRest⟩⟩

theorem of_serverDigest {files : List SourceFile} {digest : String}
    (made : Deployment.canonicalTreeDigest sha256 localeCompare files = .ok digest) :
    (∀ file ∈ files, normalizeSafeRelativePath file.path = .ok file.path) ∧
      digest = "sha256:" ++
        sha256 ((files.insertionSort (localeLe localeCompare)).flatMap fileBytes) := by
  obtain ⟨normalized, renamed, hashed⟩ := bind_eq_ok.mp made
  obtain ⟨rfl, normal⟩ := of_normalized renamed
  dsimp only at hashed
  split at hashed
  case isTrue => cases hashed
  case isFalse =>
    cases hashed
    refine ⟨normal, ?_⟩
    have frames : ∀ file : SourceFile, updateLengthFramed (utf8 file.path) ++
        updateLengthFramed file.bytes = fileBytes file := fun file => by
      rw [fileBytes, ← lengthFramed_eq, ← lengthFramed_eq]
      rfl
    simp only [frames]

theorem eq_of_digest {files files' : List SourceFile} (free : Function.Injective sha256)
    (same : "sha256:" ++ sha256 (files.flatMap fileBytes)
      = "sha256:" ++ sha256 (files'.flatMap fileBytes)) : files = files' :=
  fileBytes_inj (free ((String.append_right_inj _).mp same))

/-- **The device has the digest of the server** for a source within its limits, in whatever order
its files come, exactly if the two orders agree on every two of the files. A digest tells the files,
on either side. -/
theorem digest_agrees_iff (collation : IsCollation localeCompare) (free : Function.Injective sha256)
    {files : List SourceFile} {digest : String}
    (accepted : Deployment.canonicalTreeDigest sha256 localeCompare files = .ok digest)
    (limits : WithinLimits files) :
    ((∀ reordered : List SourceFile, reordered.Perm files →
        canonicalTreeDigest sha256 reordered = .ok digest) ↔
      files.Pairwise (AgreeOn (localeLe localeCompare) nameLt)) ∧
    (∀ others, canonicalTreeDigest sha256 others = .ok digest → others.Perm files) ∧
    ∀ others, Deployment.canonicalTreeDigest sha256 localeCompare others = .ok digest →
      others.Perm files := by
  obtain ⟨normal, rfl⟩ := of_serverDigest accepted
  have perm : (files.insertionSort (localeLe localeCompare)).Perm files :=
    List.perm_insertionSort _ files
  have sorted_iff : (files.insertionSort (localeLe localeCompare)).Pairwise nameLt ↔
      files.Pairwise (AgreeOn (localeLe localeCompare) nameLt) := by
    have total (left right : SourceFile) :
        localeLe localeCompare left right ∨ localeLe localeCompare right left :=
      or_iff_not_imp_left.mpr fun after => collation.total _ _ (not_not.mp after)
    have le_trans (a b c : SourceFile) (before : localeLe localeCompare a b)
        (after : localeLe localeCompare b c) : localeLe localeCompare a c :=
      collation.trans _ _ _ before after
    have lt_trans (a b c : SourceFile) (before : nameLt a b) (after : nameLt b c) : nameLt a c :=
      String.lt_trans before after
    exact insertionSort_pairwise_iff total le_trans lt_trans
  refine ⟨⟨fun same => ?_, fun agree reordered again => ?_⟩, fun others made => ?_,
    fun others made => ?_⟩
  · obtain ⟨nodup, equal⟩ := of_canonicalTreeDigest (same files (.refl files))
    rw [← sorted_iff, eq_of_digest free equal]
    exact sortedByPath_pairwise nodup
  · have strict := sorted_iff.mpr agree
    have nodup : (reordered.map SourceFile.path).Nodup :=
      ((again.trans perm.symm).map _).nodup_iff.mpr (nodup_of_sorted strict)
    have one : sortedByPath reordered = files.insertionSort (localeLe localeCompare) :=
      eq_of_sorted ((sortedByPath_perm reordered).trans (again.trans perm.symm))
        (sortedByPath_pairwise nodup) strict
    rw [← one]
    refine canonicalTreeDigest_eq (fun file among => normal file (again.mem_iff.mp among))
      ⟨?_, fun file among => limits.file file (again.mem_iff.mp among), ?_⟩ nodup
    · rw [again.length_eq]
      exact limits.count
    · rw [(again.map _).sum_eq]
      exact limits.total
  · obtain ⟨-, equal⟩ := of_canonicalTreeDigest made
    exact (sortedByPath_perm others).symm.trans (by rw [← eq_of_digest free equal]; exact perm)
  · obtain ⟨-, equal⟩ := of_serverDigest made
    exact (List.perm_insertionSort _ others).symm.trans
      (by rw [← eq_of_digest free equal]; exact perm)

end Digests

/-! ### Two sources -/

def caseless (name : String) : List Char := name.toList.map Char.toLower

/-- `localeCompare` where names differ in more than their case. -/
def caselessCompare (left right : String) : Ordering :=
  if caseless left ≤ caseless right then
    if caseless right ≤ caseless left then .eq else .lt
  else .gt

theorem caselessCompare_ne_gt {left right : String} :
    caselessCompare left right ≠ .gt ↔ caseless left ≤ caseless right := by
  rw [caselessCompare]
  by_cases before : caseless left ≤ caseless right
  · rw [if_pos before]
    exact iff_of_true (by split <;> nofun) before
  · rw [if_neg before]
    exact iff_of_false (fun other => other rfl) before

theorem isCollation_caselessCompare : IsCollation caselessCompare where
  total left right after := by
    rw [caselessCompare_ne_gt]
    have later : ¬ caseless left ≤ caseless right := fun before =>
      caselessCompare_ne_gt.mpr before after
    exact (le_total _ _).resolve_left later
  trans first second third before later := by
    rw [caselessCompare_ne_gt] at before later ⊢
    exact before.trans later

def knownHashes : List (List UInt8 × String) :=
  [(utf8 "8:SKILL.md:1:a:14:templates/x.md:1:b:",
      "bfe87657f96162db863d1953a824d2155247c02750e6d265a5055e88d6a50d8b"),
    (utf8 "8:SKILL.md:1:a:9:refs/x.md:1:b:",
      "f1a27a53046b5ba7c65fa43af841624610f7b1b79e27ee605bd99abc81a78010"),
    (utf8 "9:refs/x.md:1:b:8:SKILL.md:1:a:",
      "9d9de85f42b886ec736a00cb668bbfad4dacd5b5309922e58aeceda3c50be2e5")]

def tellingHash (bytes : List UInt8) : String :=
  (knownHashes.lookup bytes).getD (String.ofList ('x' :: bytes.map fun byte => Char.ofNat byte.toNat))

theorem byteChars_injective :
    Function.Injective fun bytes : List UInt8 => bytes.map fun byte => Char.ofNat byte.toNat :=
  List.map_injective_iff.mpr fun left right same => by
    have values := congrArg Char.toNat same
    have small : ∀ byte : UInt8, (Char.ofNat byte.toNat).toNat = byte.toNat := fun byte => by
      have isScalar : byte.toNat.isValidChar := .inl (by have := byte.toNat_lt; omega)
      rw [Char.ofNat, dif_pos isScalar]
      rfl
    rw [small, small] at values
    exact UInt8.toNat_inj.mp values

theorem tellingHash_injective : Function.Injective tellingHash := by
  have heads : ∀ known ∈ knownHashes, known.2.toList.head? ≠ some 'x' := by decide
  have distinct : ∀ known ∈ knownHashes, ∀ known' ∈ knownHashes, known.2 = known'.2 →
      known = known' := by decide
  refine injective_patched (fun left right same => ?_) distinct fun known among bytes same => ?_
  · exact byteChars_injective (List.cons.inj (String.ofList_injective same)).2
  · refine heads known among ?_
    rw [same, String.toList_ofList, List.head?_cons]

def plainSource : List SourceFile :=
  [⟨"SKILL.md", utf8 "a"⟩, ⟨"templates/x.md", utf8 "b"⟩]

def mixedSource : List SourceFile :=
  [⟨"SKILL.md", utf8 "a"⟩, ⟨"refs/x.md", utf8 "b"⟩]

theorem digest_agrees_iff_plainSource :
    ∃ digest, ∀ reordered : List SourceFile, reordered.Perm plainSource →
      canonicalTreeDigest tellingHash reordered = .ok digest := by
  have accepted : Deployment.canonicalTreeDigest tellingHash caselessCompare plainSource = .ok
      "sha256:bfe87657f96162db863d1953a824d2155247c02750e6d265a5055e88d6a50d8b" := by
    decide
  exact ⟨_, (digest_agrees_iff isCollation_caselessCompare tellingHash_injective accepted
    ⟨by decide, by decide, by decide⟩).1.mpr (by decide)⟩

/-- **A manifest file in upper case before a directory in lower case**: `localeCompare` puts the
directory first, and the device the manifest file. -/
theorem digest_differs :
    ∃ server device, IsCollation caselessCompare ∧ Function.Injective tellingHash ∧
      WithinLimits mixedSource ∧
      Deployment.canonicalTreeDigest tellingHash caselessCompare mixedSource = .ok server ∧
      canonicalTreeDigest tellingHash mixedSource = .ok device ∧ server ≠ device :=
  ⟨"sha256:9d9de85f42b886ec736a00cb668bbfad4dacd5b5309922e58aeceda3c50be2e5",
    "sha256:f1a27a53046b5ba7c65fa43af841624610f7b1b79e27ee605bd99abc81a78010",
    isCollation_caselessCompare, tellingHash_injective, ⟨by decide, by decide, by decide⟩,
    by decide, by decide, by decide⟩

end Toard.Reconcile
