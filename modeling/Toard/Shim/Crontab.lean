/-
**The entries in the user's crontab (`daemon.rs`).**

Without systemd the collector is started by cron. The crontab is the user's, and it can only be
replaced as a whole: the shim reads it with `crontab -l`, takes out the lines that end with one of its
markers, puts its own lines behind the others, and writes the result with `crontab -`.

* **`survives_iff`**: when the lines of the user survive an install, an uninstall, and both.
-/

import Toard.Library.Lines
import Toard.Shim.CodexConfig

namespace Toard.Shim.Daemon

open Toard.Library
open Toard.Shim.Codex (stripReturn strLines)

/-! ### The code -/

/-- `CRON_MARKER` -/
def cronMarker : List Char := "# toard-collect".toList

/-- `CRON_LOCAL_MARKER` -/
def cronLocalMarker : List Char := "# toard-local-bridge".toList

def cronLine (exe : List Char) (interval : Nat) : List Char :=
  let mins := max 1 (min ((interval + 59) / 60) 59)
  "*/".toList ++ (toString mins).toList ++ " * * * * \"".toList ++ exe ++
    "\" collect --quiet >/dev/null 2>&1 ".toList ++ cronMarker

def cronLocalLine (exe : List Char) : List Char :=
  "@reboot \"".toList ++ exe ++ "\" local start >/dev/null 2>&1 ".toList ++ cronLocalMarker

/-- The condition on a line that `cron_merged` and `cron_uninstall` have. -/
def isOwn (l : List Char) : Bool :=
  let line := l.rdropWhile isWhiteSpace
  cronMarker.isSuffixOf line || cronLocalMarker.isSuffixOf line

/-- What `crontab -l` prints; nothing if there is no table, or if it fails for another reason. -/
def cronCurrent (listed : Bool) (table : Option (List Char)) : List Char :=
  if listed then table.getD [] else []

def cronMerged (existing : List Char) (newLines : List (List Char)) : List Char :=
  let lines := (strLines existing).filter (!isOwn ·) ++ newLines
  let out := ['\n'].intercalate lines
  if out ≠ [] then out ++ ['\n'] else out

/-- The table after an install; `stored` says whether `crontab -` took the new one. -/
def cronInstall (exe : List Char) (interval : Nat) (listed stored : Bool)
    (table : Option (List Char)) : Option (List Char) :=
  let merged := cronMerged (cronCurrent listed table) [cronLine exe interval, cronLocalLine exe]
  if stored then some merged else table

def cronUninstall (listed stored : Bool) (table : Option (List Char)) : Option (List Char) :=
  let current := cronCurrent listed table
  if !(strLines current).any isOwn then table
  else if stored then some (cronMerged current [])
  else table

/-! ### The lines of a table -/

def tableLines (table : Option (List Char)) : List (List Char) := linesOf '\n' (table.getD [])

inductive Author where
  | user
  | toard
deriving DecidableEq

structure Crontab where
  table : Option (List Char)
  authors : List Author
  complete : authors.length = (tableLines table).length
  marked : ∀ entry ∈ (tableLines table).zip authors, entry.2 = .toard → isOwn entry.1 = true

def Crontab.userLines (crontab : Crontab) : List (List Char) :=
  (((tableLines crontab.table).zip crontab.authors).filter (·.2 == .user)).map Prod.fst

def ownLines (exe : List Char) (interval : Nat) : List (List Char) :=
  [cronLine exe interval, cronLocalLine exe].flatMap (·.splitOn '\n')

/-- The user's lines survive, if `crontab -l` has this outcome in the first step and prints the
table afterwards. -/
structure Survives (exe : List Char) (interval : Nat) (listed : Bool) (crontab : Crontab) : Prop where
  install : ∀ stored,
    crontab.userLines.Sublist (tableLines (cronInstall exe interval listed stored crontab.table))
  uninstall : ∀ stored,
    crontab.userLines.Sublist (tableLines (cronUninstall listed stored crontab.table))
  again : cronInstall exe interval true true (cronInstall exe interval listed true crontab.table)
    = cronInstall exe interval listed true crontab.table
  restored : tableLines (cronUninstall true true (cronInstall exe interval listed true crontab.table))
    = crontab.userLines

/-! ### Lines without a marker -/

theorem isOwn_stripReturn (line : List Char) : isOwn (stripReturn line) = isOwn line := by
  rw [stripReturn]
  split
  case isFalse => rfl
  case isTrue ends =>
    obtain ⟨start, rfl⟩ : ∃ start, line = start ++ ['\r'] :=
      ⟨line.dropLast, (List.dropLast_append_getLast? '\r' ends).symm⟩
    have blank : (start ++ ['\r']).rdropWhile isWhiteSpace = start.rdropWhile isWhiteSpace :=
      List.rdropWhile_concat_pos _ _ _ (by decide)
    rw [List.dropLast_concat, isOwn, isOwn, blank]

theorem stripReturn_eq_self {line : List Char} :
    stripReturn line = line ↔ line.getLast? ≠ some '\r' := by
  rw [stripReturn]
  split
  case isFalse plain => exact iff_of_true rfl plain
  case isTrue ends =>
    refine iff_of_false (fun same => ?_) (fun plain => plain ends)
    have nonempty : line ≠ [] := by
      rintro rfl
      exact absurd ends (by simp)
    have shorter := congrArg List.length same
    rw [List.length_dropLast] at shorter
    have positive := List.length_pos_iff.mpr nonempty
    omega

def kept (existing : List Char) : List (List Char) := (strLines existing).filter (!isOwn ·)

theorem exists_lines (text : List Char) : ∃ ended last : List (List Char),
    linesOf '\n' text = ended ++ last ∧ strLines text = ended.map stripReturn ++ last :=
  ⟨(text.splitOn '\n').dropLast, _, rfl, rfl⟩

theorem filter_map_stripReturn (lines : List (List Char)) :
    (lines.map stripReturn).filter (!isOwn ·) = (lines.filter (!isOwn ·)).map stripReturn := by
  rw [List.filter_map]
  congr 2
  funext line
  exact congrArg (!·) (isOwn_stripReturn line)

theorem length_kept (text : List Char) :
    (kept text).length = ((linesOf '\n' text).filter (!isOwn ·)).length := by
  obtain ⟨ended, last, isLines, isRead⟩ := exists_lines text
  rw [kept, isLines, isRead, List.filter_append, List.filter_append, filter_map_stripReturn,
    List.length_append, List.length_append, List.length_map]

theorem kept_eq {text : List Char}
    (plain : ∀ line ∈ (linesOf '\n' text).filter (!isOwn ·), line.getLast? ≠ some '\r') :
    kept text = (linesOf '\n' text).filter (!isOwn ·) := by
  obtain ⟨ended, last, isLines, isRead⟩ := exists_lines text
  rw [isLines, List.filter_append] at plain ⊢
  rw [kept, isRead, List.filter_append, filter_map_stripReturn]
  congr 1
  refine (List.map_congr_left fun line among => ?_).trans (List.map_id _)
  exact stripReturn_eq_self.mpr (plain line (List.mem_append_left _ among))

theorem isOwn_of_mem_kept {text line : List Char} (among : line ∈ kept text) : isOwn line = false := by
  simpa using (List.mem_filter.mp among).2

theorem newline_notMem_kept {text line : List Char} (among : line ∈ kept text) : '\n' ∉ line := by
  obtain ⟨ended, last, isLines, isRead⟩ := exists_lines text
  have isLine : ∀ other ∈ ended ++ last, '\n' ∉ other := fun other among =>
    of_mem_linesOf (isLines ▸ among)
  have read := (List.mem_filter.mp among).1
  rw [isRead] at read
  rcases List.mem_append.mp read with stripped | isLast
  · obtain ⟨raw, isEnded, rfl⟩ := List.mem_map.mp stripped
    have whole := isLine raw (List.mem_append_left _ isEnded)
    rw [stripReturn]
    split
    case isTrue => exact fun inside => whole ((List.dropLast_sublist _).subset inside)
    case isFalse => exact whole
  · exact isLine line (List.mem_append_right _ isLast)

/-! ### What a merge writes -/

theorem cronMerged_eq (existing : List Char) (newLines : List (List Char)) :
    cronMerged existing newLines
      = if kept existing ++ newLines = [[]] then [] else closed '\n' (kept existing ++ newLines) := by
  have shape : cronMerged existing newLines
      = if ['\n'].intercalate (kept existing ++ newLines) ≠ [] then
          ['\n'].intercalate (kept existing ++ newLines) ++ ['\n']
        else ['\n'].intercalate (kept existing ++ newLines) := rfl
  rw [shape]
  split
  case isTrue full =>
    rw [Ne, intercalate_eq_nil, not_or] at full
    rw [if_neg full.2, intercalate_closed full.1]
  case isFalse empty =>
    rw [not_not] at empty
    rw [empty]
    rcases intercalate_eq_nil.mp empty with none | blank
    · rw [none]
      rfl
    · rw [if_pos blank]

theorem linesOf_cronMerged (existing : List Char) (newLines : List (List Char)) :
    linesOf '\n' (cronMerged existing newLines)
      = if kept existing ++ newLines = [[]] then []
        else kept existing ++ newLines.flatMap (·.splitOn '\n') := by
  rw [cronMerged_eq]
  split
  case isTrue => rfl
  case isFalse =>
    rw [linesOf_closed, List.flatMap_append, flatMap_splitOn fun _ => newline_notMem_kept]

theorem strLines_closed (lines : List (List Char)) :
    strLines (closed '\n' lines) = (lines.flatMap (·.splitOn '\n')).map stripReturn := by
  rw [strLines, splitOn_closed]
  simp

/-! ### After an install -/

section Installed

variable (exe : List Char) (interval : Nat) (current : List Char)

def installed : List Char := cronMerged current [cronLine exe interval, cronLocalLine exe]

theorem installed_eq : installed exe interval current
    = closed '\n' (kept current ++ [cronLine exe interval, cronLocalLine exe]) := by
  rw [installed, cronMerged_eq, if_neg]
  intro blank
  have lengths := congrArg List.length blank
  rw [List.length_append] at lengths
  simp at lengths

theorem linesOf_installed :
    linesOf '\n' (installed exe interval current) = kept current ++ ownLines exe interval := by
  rw [installed_eq, linesOf_closed, List.flatMap_append, flatMap_splitOn fun _ => newline_notMem_kept,
    ownLines]

theorem strLines_installed : strLines (installed exe interval current)
    = (kept current).map stripReturn ++ (ownLines exe interval).map stripReturn := by
  rw [installed_eq, strLines_closed, List.flatMap_append,
    flatMap_splitOn fun _ => newline_notMem_kept, List.map_append, ownLines]

/-- What the next merge keeps: the lines that this one kept, without a return at the end, and the
parts of toard's lines that have no marker. -/
theorem kept_installed : kept (installed exe interval current)
    = (kept current).map stripReturn
      ++ ((ownLines exe interval).filter (!isOwn ·)).map stripReturn := by
  rw [kept, strLines_installed, List.filter_append, filter_map_stripReturn, filter_map_stripReturn,
    List.filter_eq_self.mpr fun line among => by rw [isOwn_of_mem_kept among, Bool.not_false]]

theorem cronInstall_stored (listed : Bool) (table : Option (List Char)) :
    cronInstall exe interval listed true table
      = some (installed exe interval (cronCurrent listed table)) := by
  rw [cronInstall, if_pos rfl, installed]

theorem cronCurrent_some (table : List Char) : cronCurrent true (some table) = table := rfl

theorem installed_installed_iff :
    installed exe interval (installed exe interval current) = installed exe interval current ↔
      kept (installed exe interval current) = kept current := by
  constructor
  · intro same
    have lines := congrArg (linesOf '\n') same
    rw [linesOf_installed, linesOf_installed exe interval current] at lines
    exact List.append_cancel_right lines
  · intro same
    rw [installed_eq exe interval (installed exe interval current), same, ← installed_eq]

def OwnMarked : Prop := ∀ line ∈ ownLines exe interval, isOwn line = true

variable {exe interval current}

theorem kept_installed_iff : kept (installed exe interval current) = kept current ↔
    OwnMarked exe interval ∧ ∀ line ∈ kept current, line.getLast? ≠ some '\r' := by
  rw [kept_installed]
  constructor
  · intro same
    have lengths := congrArg List.length same
    rw [List.length_append, List.length_map, Nat.add_eq_left, List.length_map,
      List.length_eq_zero_iff] at lengths
    rw [lengths, List.map_nil, List.append_nil] at same
    refine ⟨fun line among => ?_, fun line among => ?_⟩
    · simpa using List.filter_eq_nil_iff.mp lengths line among
    · have unchanged := List.map_eq_map_iff.mp (same.trans (List.map_id _).symm) line among
      exact stripReturn_eq_self.mp unchanged
  · rintro ⟨marked, plain⟩
    have none : (ownLines exe interval).filter (!isOwn ·) = [] :=
      List.filter_eq_nil_iff.mpr fun line among => by simp [marked line among]
    rw [none, List.map_nil, List.append_nil]
    exact (List.map_congr_left fun line among => stripReturn_eq_self.mpr (plain line among)).trans
      (List.map_id _)

theorem ownLines_ne_nil (exe : List Char) (interval : Nat) : ownLines exe interval ≠ [] := by
  intro none
  rw [ownLines, List.flatMap_cons, List.append_eq_nil_iff] at none
  exact List.splitOn_ne_nil _ _ none.1

theorem rdropWhile_of_getLast? {line : List Char} {c : Char} (ends : line.getLast? = some c)
    (visible : isWhiteSpace c = false) : line.rdropWhile isWhiteSpace = line := by
  rw [List.rdropWhile_eq_self_iff]
  intro nonempty
  rw [List.getLast?_eq_some_getLast nonempty, Option.some_inj] at ends
  rw [ends, visible]
  exact Bool.false_ne_true

theorem isOwn_marked (start : List Char) :
    isOwn (start ++ cronMarker) = true ∧ isOwn (start ++ cronLocalMarker) = true := by
  have ends : ∀ marker : List Char, marker ≠ [] →
      (start ++ marker).getLast? = marker.getLast? := fun marker nonempty =>
    List.getLast?_append_of_ne_nil _ nonempty
  constructor
  · rw [isOwn, rdropWhile_of_getLast? (c := 't') (by rw [ends _ (by decide)]; rfl) (by decide)]
    rw [List.isSuffixOf_iff_suffix.mpr (List.suffix_append _ _), Bool.true_or]
  · rw [isOwn, rdropWhile_of_getLast? (c := 'e') (by rw [ends _ (by decide)]; rfl) (by decide)]
    rw [List.isSuffixOf_iff_suffix.mpr (List.suffix_append _ _), Bool.or_true]

theorem newline_notMem_toString (n : Nat) : '\n' ∉ (toString n).toList := by
  rw [Nat.toString_eq_repr, Nat.toList_repr]
  intro among
  exact absurd (Nat.isDigit_of_mem_toDigits (by decide) (by decide) among) (by decide)

theorem newline_notMem_cronLine (plain : '\n' ∉ exe) : '\n' ∉ cronLine exe interval := by
  unfold cronLine
  simp only [List.mem_append, not_or]
  exact ⟨⟨⟨⟨⟨by decide, newline_notMem_toString _⟩, by decide⟩, plain⟩, by decide⟩, by decide⟩

theorem newline_notMem_cronLocalLine (plain : '\n' ∉ exe) : '\n' ∉ cronLocalLine exe := by
  unfold cronLocalLine
  simp only [List.mem_append, not_or]
  exact ⟨⟨⟨by decide, plain⟩, by decide⟩, by decide⟩

theorem ownMarked_of_plain (plain : '\n' ∉ exe) : OwnMarked exe interval := by
  have isLine := @newline_notMem_cronLine exe interval plain
  have isLocalLine := @newline_notMem_cronLocalLine exe plain
  have isOwnLines : ownLines exe interval = [cronLine exe interval, cronLocalLine exe] := by
    rw [ownLines, List.flatMap_cons, List.flatMap_cons, List.splitOn_eq_singleton isLine,
      List.splitOn_eq_singleton isLocalLine]
    rfl
  intro line among
  rw [isOwnLines] at among
  rcases List.mem_cons.mp among with rfl | among
  · unfold cronLine
    exact (isOwn_marked _).1
  · rw [List.mem_singleton.mp among]
    unfold cronLocalLine
    exact (isOwn_marked _).2

theorem cronUninstall_installed (marked : OwnMarked exe interval) (stored : Bool) :
    cronUninstall true stored (some (installed exe interval current))
      = if stored then some (cronMerged (installed exe interval current) [])
        else some (installed exe interval current) := by
  have found : (strLines (installed exe interval current)).any isOwn = true := by
    obtain ⟨line, rest, isLine⟩ := List.exists_cons_of_ne_nil (ownLines_ne_nil exe interval)
    have among : line ∈ ownLines exe interval := isLine ▸ List.mem_cons_self
    rw [strLines_installed, List.any_eq_true]
    refine ⟨stripReturn line, List.mem_append_right _ (List.mem_map_of_mem among), ?_⟩
    rw [isOwn_stripReturn, marked line among]
  rw [cronUninstall, cronCurrent_some, found, Bool.not_true, if_neg Bool.false_ne_true]

end Installed

/-! ### The user's lines -/

namespace Crontab

theorem map_fst_entries (crontab : Crontab) :
    ((tableLines crontab.table).zip crontab.authors).map Prod.fst = tableLines crontab.table :=
  List.map_fst_zip crontab.complete.ge

theorem userLines_sublist (crontab : Crontab) :
    crontab.userLines.Sublist (tableLines crontab.table) := by
  have among := (List.filter_sublist (p := fun entry : List Char × Author => entry.2 == .user)
    (l := (tableLines crontab.table).zip crontab.authors)).map Prod.fst
  rwa [map_fst_entries] at among

/-- **Without a marker on them, the user's lines are those without one.** -/
theorem userLines_eq {crontab : Crontab} (plain : ∀ line ∈ crontab.userLines, isOwn line = false) :
    crontab.userLines = (tableLines crontab.table).filter (!isOwn ·) := by
  rw [← crontab.map_fst_entries, List.filter_map, userLines]
  congr 1
  refine List.filter_congr fun entry among => ?_
  rw [Function.comp_apply]
  cases author : entry.2 with
  | user =>
    have isLine : entry.1 ∈ crontab.userLines :=
      List.mem_map_of_mem (List.mem_filter.mpr ⟨among, by rw [author]; rfl⟩)
    rw [plain _ isLine]
    rfl
  | toard =>
    rw [crontab.marked entry among author]
    rfl

end Crontab

theorem kept_current_of_not_listed (table : Option (List Char)) :
    kept (cronCurrent false table) = [] := rfl

/-- **When the user's lines survive**: all parts of toard's lines have a marker, and if there are
lines of the user, the table was read, none of them has a marker or a return at its end, and they are
more than a single empty line. -/
def Spared (exe : List Char) (interval : Nat) (listed : Bool) (crontab : Crontab) : Prop :=
  OwnMarked exe interval ∧
    (crontab.userLines = [] ∨ listed = true ∧ crontab.userLines ≠ [[]] ∧
      ∀ line ∈ crontab.userLines, isOwn line = false ∧ line.getLast? ≠ some '\r')

section Survival

variable {exe : List Char} {interval : Nat} {listed : Bool} {crontab : Crontab}

theorem kept_of_spared (spared : Spared exe interval listed crontab) :
    kept (cronCurrent listed crontab.table) = crontab.userLines := by
  obtain ⟨-, none | ⟨rfl, -, each⟩⟩ := spared
  · rw [none]
    cases listed with
    | false => rfl
    | true =>
      have lines := @Crontab.userLines_eq crontab (by simp [none])
      rw [none] at lines
      refine List.length_eq_zero_iff.mp ((length_kept _).trans ?_)
      exact List.length_eq_zero_iff.mpr lines.symm
  · have lines := Crontab.userLines_eq fun line among => (each line among).1
    rw [lines]
    refine kept_eq fun line among => (each line ?_).2
    rw [lines]
    exact among

theorem kept_ne_of_spared (spared : Spared exe interval listed crontab) :
    crontab.userLines ≠ [[]] := by
  obtain ⟨-, none | ⟨-, more, -⟩⟩ := spared
  · rw [none]
    exact (List.cons_ne_nil _ _).symm
  · exact more

theorem survives_of_spared (spared : Spared exe interval listed crontab) :
    Survives exe interval listed crontab := by
  have isKept := kept_of_spared spared
  have plain : ∀ line ∈ kept (cronCurrent listed crontab.table), line.getLast? ≠ some '\r' := by
    intro line among
    obtain ⟨-, none | ⟨-, -, each⟩⟩ := spared
    · rw [isKept, none] at among
      exact absurd among List.not_mem_nil
    · exact (each line (isKept ▸ among)).2
  have again := kept_installed_iff.mpr ⟨spared.1, plain⟩
  refine ⟨fun stored => ?_, fun stored => ?_, ?_, ?_⟩
  · cases stored with
    | false => exact crontab.userLines_sublist
    | true =>
      rw [cronInstall_stored, tableLines, Option.getD_some, linesOf_installed, isKept]
      exact List.sublist_append_left _ _
  · simp only [cronUninstall]
    split
    case isTrue => exact crontab.userLines_sublist
    case isFalse =>
      split
      case isTrue =>
        rw [tableLines, Option.getD_some, linesOf_cronMerged, List.append_nil, List.flatMap_nil, List.append_nil, isKept,
          if_neg (kept_ne_of_spared spared)]
      case isFalse => exact crontab.userLines_sublist
  · rw [cronInstall_stored, cronInstall_stored, cronCurrent_some,
      (installed_installed_iff exe interval _).mpr again]
  · rw [cronInstall_stored, cronUninstall_installed spared.1, if_pos rfl, tableLines,
      Option.getD_some, linesOf_cronMerged, List.append_nil, List.flatMap_nil, List.append_nil, again, isKept,
      if_neg (kept_ne_of_spared spared)]

theorem spared_of_survives (survives : Survives exe interval listed crontab) :
    Spared exe interval listed crontab := by
  have again := survives.again
  rw [cronInstall_stored, cronInstall_stored, cronCurrent_some, Option.some_inj,
    installed_installed_iff] at again
  obtain ⟨marked, plain⟩ := kept_installed_iff.mp again
  have restored := survives.restored
  rw [cronInstall_stored, cronUninstall_installed marked, if_pos rfl, tableLines, Option.getD_some,
    linesOf_cronMerged, List.append_nil, List.flatMap_nil, List.append_nil, again] at restored
  refine ⟨marked, ?_⟩
  by_cases none : crontab.userLines = []
  · exact .inl none
  · split at restored
    case isTrue => exact absurd restored.symm none
    case isFalse more =>
      refine .inr ⟨?_, restored ▸ more, fun line among => ?_⟩
      · by_contra failed
        rw [Bool.eq_false_of_not_eq_true failed, kept_current_of_not_listed] at restored
        exact none restored.symm
      · rw [← restored] at among
        exact ⟨isOwn_of_mem_kept among, plain line among⟩

/-- **The user's lines survive exactly if they are spared.** -/
theorem survives_iff (exe : List Char) (interval : Nat) (listed : Bool) (crontab : Crontab) :
    Survives exe interval listed crontab ↔ Spared exe interval listed crontab :=
  ⟨spared_of_survives, survives_of_spared⟩

end Survival

def greeting : Crontab where
  table := some "0 9 * * * echo hi\n".toList
  authors := [.user]
  complete := by decide
  marked := by decide

/-- The table cannot be read at the moment, and the install writes one without the job. -/
theorem unread_job_lost : ¬ Survives "/x/toard-shim".toList 60 false greeting := by
  intro survives
  obtain ⟨-, none | ⟨listed, -⟩⟩ := spared_of_survives survives
  · exact absurd none (by decide)
  · exact Bool.false_ne_true listed

example : Spared "/x/toard-shim".toList 60 true greeting := by
  refine ⟨ownMarked_of_plain (by decide), .inr ⟨rfl, by decide, ?_⟩⟩
  decide

end Toard.Shim.Daemon
