/-
**The project of a working directory (`collection_scope.rs`).**

A record is counted for the project of its working directory, which is named by a digest of the
normalised path. The path is never looked up: its spelling is all that counts.
-/

import Toard.Library.Lines
import Toard.Shim.ToolEvent

namespace Toard.Shim.LocalProject

/-! ### The source -/

/-- `replace('\\', "/")` on one character. -/
def slash (c : Char) : Char := if c = '\\' then '/' else c

def isAbsolute (s : List Char) : Bool :=
  s.head? = some '/' ∨ (s.head?.any Char.isAlpha ∧ (s.drop 1).take 2 = [':', '/'])

/-- One segment of a path, with the segments kept so far, the last one first. -/
def pushPart (parts : List (List Char)) (part : List Char) : Option (List (List Char)) :=
  if part = ['.'] then some parts
  else if part = ['.', '.'] then
    if parts.head?.any fun last => last ≠ [] ∧ last.getLast? ≠ some ':' then some parts.tail
    else none
  else some (part :: parts)

def walk (s : List Char) : Option (List (List Char)) := (s.splitOn '/').foldlM pushPart []

/-- The trailing separators of a text, which is given from its end. The last character stays, and so
does a separator behind a colon. -/
def popSeparators : List Char → List Char
  | [] => []
  | c :: rest =>
    if c = '/' ∧ rest ≠ [] ∧ rest.head? ≠ some ':' then popSeparators rest else c :: rest

def trimEnd (s : List Char) : List Char := (popSeparators s.reverse).reverse

def joined (parts : List (List Char)) : List Char := ['/'].intercalate parts.reverse

/-- `LocalProject::make` -/
def make (sha256Hex : String → String) (provider kind value : String) : LocalProject where
  id := sha256Hex (provider ++ "\x00" ++ kind ++ "\x00" ++ value)
  label := value
  kind := kind

def isPlain (value : String) : Bool :=
  value ≠ "" ∧ value.utf8ByteSize ≤ 4096 ∧ value.toList.any isControl = false

/-- `LocalProject::cwd` -/
def cwd (sha256Hex : String → String) (provider value : String) : Option LocalProject :=
  if isPlain value then
    let normalized := value.toList.map slash
    if isAbsolute normalized then
      (walk normalized).map fun parts =>
        make sha256Hex provider "cwd" (String.ofList (trimEnd (joined parts)))
    else none
  else none

/-- `LocalProject::group` -/
def group (sha256Hex : String → String) (provider value : String) : Option LocalProject :=
  if isPlain value then some (make sha256Hex provider "group" value) else none

/-- What `remember` asks of a project before it keeps the label. -/
def isRemembered (sha256Hex : String → String) (provider : String) (p : LocalProject) : Bool :=
  let expected :=
    if p.kind = "cwd" then cwd sha256Hex provider p.label
    else if p.kind = "group" then group sha256Hex provider p.label
    else none
  PROVIDERS.contains provider && expected = some p

example : (cwd (fun text => text) "codex" "C:\\work\\.\\toard\\").map LocalProject.label
    = some "C:/work/toard" := by decide

/-! ### The walk over the segments -/

def IsName (part : List Char) : Prop := part ≠ ['.'] ∧ part ≠ ['.', '.']

theorem pushPart_name {part : List Char} (name : IsName part) (parts : List (List Char)) :
    pushPart parts part = some (part :: parts) := by
  rw [pushPart, if_neg name.1, if_neg name.2]

/-- **What one segment does**: it is skipped, takes the last one back, or is kept. -/
theorem pushPart_cases {parts kept : List (List Char)} {part : List Char}
    (pushed : pushPart parts part = some kept) :
    kept = parts ∨ (∃ last, parts = last :: kept ∧ last ≠ [] ∧ last.getLast? ≠ some ':') ∨
      IsName part ∧ kept = part :: parts := by
  rw [pushPart] at pushed
  by_cases dot : part = ['.']
  · rw [if_pos dot] at pushed
    exact .inl (Option.some.inj pushed).symm
  rw [if_neg dot] at pushed
  by_cases dots : part = ['.', '.']
  · rw [if_pos dots] at pushed
    obtain ⟨named, isKept⟩ := Option.ite_none_right_eq_some.mp pushed
    cases parts with
    | nil => simp at named
    | cons last parts =>
      obtain ⟨nonempty, open_⟩ : last ≠ [] ∧ last.getLast? ≠ some ':' := by simpa using named
      exact .inr (.inl ⟨last, by rw [← Option.some.inj isKept, List.tail_cons], nonempty, open_⟩)
  · rw [if_neg dots] at pushed
    exact .inr (.inr ⟨⟨dot, dots⟩, (Option.some.inj pushed).symm⟩)

theorem walk_induction (Keeps : List (List Char) → List (List Char) → Prop)
    (step : ∀ parts part rest kept, pushPart parts part = some kept →
      Keeps parts (part :: rest) → Keeps kept rest)
    {segments parts kept : List (List Char)} (start : Keeps parts segments)
    (walked : segments.foldlM pushPart parts = some kept) : Keeps kept [] := by
  induction segments generalizing parts with
  | nil => exact Option.some.inj walked ▸ start
  | cons part rest ih =>
    rw [List.foldlM_cons] at walked
    obtain ⟨next, pushed, walked⟩ := Option.bind_eq_some_iff.mp walked
    exact ih (step parts part rest next pushed start) walked

theorem foldlM_names {segments : List (List Char)} (names : ∀ part ∈ segments, IsName part)
    (parts : List (List Char)) :
    segments.foldlM pushPart parts = some (segments.reverse ++ parts) := by
  induction segments generalizing parts with
  | nil => rfl
  | cons part rest ih =>
    rw [List.foldlM_cons, pushPart_name (names part List.mem_cons_self), Option.bind_eq_bind,
      Option.bind_some, ih fun part among => names part (List.mem_cons_of_mem _ among)]
    simp

theorem foldlM_filter (segments parts : List (List Char)) :
    (segments.filter (· ≠ ['.'])).foldlM pushPart parts = segments.foldlM pushPart parts := by
  induction segments generalizing parts with
  | nil => rfl
  | cons part rest ih =>
    by_cases dot : part = ['.']
    · have skipped : pushPart parts part = some parts := if_pos dot
      rw [List.filter_cons_of_neg (by simpa using dot), List.foldlM_cons, skipped, ih]
      rfl
    · rw [List.filter_cons_of_pos (by simpa using dot), List.foldlM_cons, List.foldlM_cons]
      congr 1
      funext next
      exact ih next

theorem foldlM_mem {segments kept : List (List Char)}
    (walked : segments.foldlM pushPart [] = some kept) :
    ∀ part ∈ kept, IsName part ∧ part ∈ segments := by
  refine (walk_induction (fun parts rest =>
    (∀ part ∈ parts, IsName part ∧ part ∈ segments) ∧ ∀ part ∈ rest, part ∈ segments)
    ?_ ⟨by simp, fun part among => among⟩ walked).1
  rintro parts part rest kept pushed ⟨known, ahead⟩
  refine ⟨?_, fun part among => ahead part (List.mem_cons_of_mem _ among)⟩
  rcases pushPart_cases pushed with rfl | ⟨last, rfl, -⟩ | ⟨name, rfl⟩
  · exact known
  · exact fun part among => known part (List.mem_cons_of_mem _ among)
  · exact List.forall_mem_cons.mpr ⟨⟨name, ahead part List.mem_cons_self⟩, known⟩

def bytes (parts : List (List Char)) : Nat := (parts.map fun part => String.utf8Len part + 1).sum

theorem bytes_foldlM {segments kept : List (List Char)}
    (walked : segments.foldlM pushPart [] = some kept) : bytes kept ≤ bytes segments := by
  have bound := walk_induction (fun parts rest => bytes parts + bytes rest ≤ bytes segments)
    (by
      intro parts part rest kept pushed bound
      simp only [bytes, List.map_cons, List.sum_cons] at bound
      rcases pushPart_cases pushed with rfl | ⟨last, rfl, -⟩ | ⟨-, rfl⟩
      all_goals
        simp only [bytes, List.map_cons, List.sum_cons] at bound ⊢
        omega)
    (by simp [bytes]) walked
  simpa [bytes] using bound

theorem foldlM_root {root : List Char} (isRoot : root = [] ∨ root.getLast? = some ':')
    {segments kept : List (List Char)} (walked : segments.foldlM pushPart [root] = some kept) :
    ∃ front, kept = front ++ [root] := by
  refine walk_induction (fun parts _ => ∃ front, parts = front ++ [root]) ?_ ⟨[], rfl⟩
    walked
  rintro parts part rest kept pushed ⟨front, rfl⟩
  rcases pushPart_cases pushed with rfl | ⟨last, isLast, nonempty, open_⟩ | ⟨-, rfl⟩
  · exact ⟨front, rfl⟩
  · cases front with
    | nil =>
      obtain rfl : root = last := (List.cons.inj isLast).1
      rcases isRoot with empty | colon
      · exact absurd empty nonempty
      · exact absurd colon open_
    | cons first front => exact ⟨front, (List.cons.inj isLast).2.symm⟩
  · exact ⟨part :: front, rfl⟩

/-! ### Trailing separators -/

theorem popSeparators_spec (s : List Char) :
    ∃ n, s = List.replicate n '/' ++ popSeparators s := by
  induction s with
  | nil => exact ⟨0, rfl⟩
  | cons c rest ih =>
    rw [popSeparators]
    split
    · next pops =>
      obtain ⟨n, isRest⟩ := ih
      refine ⟨n + 1, ?_⟩
      rw [List.replicate_succ, List.cons_append, ← isRest, pops.1]
    · exact ⟨0, rfl⟩

theorem popSeparators_idem (s : List Char) : popSeparators (popSeparators s) = popSeparators s := by
  induction s with
  | nil => rfl
  | cons c rest ih =>
    by_cases pops : c = '/' ∧ rest ≠ [] ∧ rest.head? ≠ some ':'
    · rw [popSeparators, if_pos pops, ih]
    · rw [popSeparators, if_neg pops, popSeparators, if_neg pops]

theorem popSeparators_append {stable : List Char} (kept : popSeparators stable = stable)
    (s : List Char) : ∃ front, popSeparators (s ++ stable) = front ++ stable := by
  induction s with
  | nil => exact ⟨[], kept⟩
  | cons c rest ih =>
    rw [List.cons_append, popSeparators]
    split
    · exact ih
    · exact ⟨c :: rest, rfl⟩

theorem trimEnd_spec (s : List Char) : ∃ n, s = trimEnd s ++ List.replicate n '/' := by
  obtain ⟨n, isReverse⟩ := popSeparators_spec s.reverse
  refine ⟨n, ?_⟩
  calc s = s.reverse.reverse := s.reverse_reverse.symm
    _ = _ := by rw [trimEnd, ← List.reverse_replicate, ← List.reverse_append, ← isReverse]

theorem trimEnd_idem (s : List Char) : trimEnd (trimEnd s) = trimEnd s := by
  rw [trimEnd, trimEnd, List.reverse_reverse, popSeparators_idem]

theorem trimEnd_append (stable : List Char) (kept : trimEnd stable = stable) (s : List Char) :
    ∃ back, trimEnd (stable ++ s) = stable ++ back := by
  have below : popSeparators stable.reverse = stable.reverse := by
    rw [← List.reverse_reverse (popSeparators stable.reverse)]
    exact congrArg List.reverse kept
  obtain ⟨front, isFront⟩ := popSeparators_append below s.reverse
  exact ⟨front.reverse, by rw [trimEnd, List.reverse_append, isFront]; simp⟩

theorem trimEnd_separator {s : List Char} (nonempty : s ≠ []) (open_ : s.getLast? ≠ some ':') :
    trimEnd (s ++ ['/']) = trimEnd s := by
  rw [trimEnd, trimEnd, List.reverse_append, List.reverse_singleton, List.singleton_append,
    popSeparators, if_pos ⟨rfl, by simpa using nonempty, by simpa using open_⟩]

theorem trimEnd_separators (s : List Char) (n : Nat) :
    trimEnd (s ++ List.replicate (n + 1) '/') = trimEnd (s ++ ['/']) := by
  induction n with
  | zero => rfl
  | succ n ih =>
    have last : s ++ List.replicate (n + 1 + 1) '/' = (s ++ List.replicate (n + 1) '/') ++ ['/'] := by
      rw [List.replicate_succ', List.append_assoc]
    rw [last, trimEnd_separator (by simp) (by simp [List.replicate_succ']), ih]

/-! ### Segments and their text -/

theorem mem_splitOn {s part : List Char} (among : part ∈ s.splitOn '/') :
    '/' ∉ part ∧ ∀ c ∈ part, c ∈ s :=
  Library.of_mem_splitOn among

theorem splitOn_separators (s : List Char) (n : Nat) :
    (s ++ List.replicate n '/').splitOn '/' = s.splitOn '/' ++ List.replicate n [] := by
  induction n generalizing s with
  | zero => simp
  | succ n ih =>
    have empty := ih []
    rw [List.nil_append, List.splitOn_nil] at empty
    rw [List.replicate_succ, List.splitOn_append_cons_self, empty, List.replicate_succ,
      List.singleton_append]

theorem utf8Len_intercalate {parts : List (List Char)} (nonempty : parts ≠ []) :
    String.utf8Len (['/'].intercalate parts) + 1 = bytes parts := by
  induction parts with
  | nil => exact absurd rfl nonempty
  | cons part rest ih =>
    cases rest with
    | nil => simp [bytes]
    | cons next others =>
      have separator : Char.utf8Size '/' = 1 := by decide
      have below := ih (by simp)
      simp only [bytes, List.map_cons, List.sum_cons] at below ⊢
      rw [List.intercalate_cons_cons, String.utf8Len_append, String.utf8Len_append,
        String.utf8Len_cons, String.utf8Len_nil, separator]
      omega

theorem mem_intercalate {parts : List (List Char)} {c : Char}
    (among : c ∈ ['/'].intercalate parts) : c = '/' ∨ ∃ part ∈ parts, c ∈ part := by
  induction parts with
  | nil => cases among
  | cons part rest ih =>
    cases rest with
    | nil => exact .inr ⟨part, List.mem_cons_self, by simpa using among⟩
    | cons next others =>
      rw [List.intercalate_cons_cons, List.mem_append, List.mem_append, List.mem_singleton] at among
      rcases among with (inside | rfl) | among
      · exact .inr ⟨part, List.mem_cons_self, inside⟩
      · exact .inl rfl
      · exact (ih among).imp_right fun ⟨part, at_, inside⟩ =>
          ⟨part, List.mem_cons_of_mem _ at_, inside⟩

theorem intercalate_separators (part : List Char) (n : Nat) :
    ['/'].intercalate (part :: List.replicate n []) = part ++ List.replicate n '/' := by
  induction n generalizing part with
  | zero => simp
  | succ n ih =>
    rw [List.replicate_succ, List.intercalate_cons_cons, ih]
    simp [List.replicate_succ]

theorem intercalate_append {parts : List (List Char)} (nonempty : parts ≠ []) (n : Nat) :
    ['/'].intercalate (parts ++ List.replicate n [])
      = ['/'].intercalate parts ++ List.replicate n '/' := by
  induction parts with
  | nil => exact absurd rfl nonempty
  | cons part rest ih =>
    cases rest with
    | nil => rw [List.singleton_append, intercalate_separators, List.intercalate_singleton]
    | cons next others =>
      rw [List.cons_append, List.cons_append, List.intercalate_cons_cons, ← List.cons_append,
        ih (by simp), List.intercalate_cons_cons]
      simp only [List.append_assoc]

theorem intercalate_concat {parts : List (List Char)} (nonempty : parts ≠ []) (part : List Char) :
    ['/'].intercalate (parts ++ [part]) = ['/'].intercalate parts ++ '/' :: part := by
  induction parts with
  | nil => exact absurd rfl nonempty
  | cons first rest ih =>
    cases rest with
    | nil => simp
    | cons next others =>
      rw [List.cons_append, List.cons_append, List.intercalate_cons_cons, ← List.cons_append,
        ih (by simp), List.intercalate_cons_cons]
      simp only [List.append_assoc]

/-! ### The label is a path of its own -/

theorem slash_of_ne {c : Char} (other : c ≠ '\\') : slash c = c := if_neg other

theorem slash_ne (c : Char) : slash c ≠ '\\' := by
  unfold slash
  split
  · decide
  · next other => exact other

theorem utf8Size_slash (c : Char) : (slash c).utf8Size = c.utf8Size := by
  unfold slash
  split
  · next back =>
    subst back
    decide
  · rfl

theorem utf8Len_slash (s : List Char) : String.utf8Len (s.map slash) = String.utf8Len s := by
  induction s with
  | nil => rfl
  | cons c rest ih => simp [ih, utf8Size_slash]

theorem isControl_slash {c : Char} (printed : isControl c = false) : isControl (slash c) = false := by
  unfold slash
  split
  · decide
  · exact printed

theorem root_of_isAbsolute {s : List Char} (absolute : isAbsolute s = true) :
    ∃ root names, s.splitOn '/' = root :: names ∧ IsName root ∧
      (root = [] ∨ ∃ c, c.isAlpha ∧ root = [c, ':']) := by
  simp only [isAbsolute, decide_eq_true_eq] at absolute
  rcases absolute with slashFirst | ⟨letter, colon⟩
  · obtain ⟨rest, rfl⟩ : ∃ rest, s = '/' :: rest := by
      cases s with
      | nil => cases slashFirst
      | cons c rest => exact ⟨rest, by rw [Option.some.inj slashFirst]⟩
    refine ⟨[], rest.splitOn '/', ?_, ⟨by decide, by decide⟩, .inl rfl⟩
    rw [List.splitOn_cons_eq_if_modifyHead, if_pos (by rfl)]
  · obtain ⟨c, rest, rfl, alpha⟩ : ∃ c rest, s = c :: ':' :: '/' :: rest ∧ c.isAlpha := by
      cases s with
      | nil => simp at letter
      | cons c s =>
        rw [List.drop_succ_cons, List.drop_zero] at colon
        refine ⟨c, s.drop 2, ?_, by simpa using letter⟩
        conv => lhs; rw [← List.take_append_drop 2 s, colon]
        rfl
    have other : c ≠ '/' := by rintro rfl; cases alpha
    refine ⟨[c, ':'], rest.splitOn '/', ?_, ⟨by simp, by simp⟩, .inr ⟨c, alpha, rfl⟩⟩
    have isDrive : '/' ∉ [c, ':'] := by simp [Ne.symm other]
    exact List.splitOn_append_cons_self_of_not_mem isDrive rest

def normalized (value : String) : List Char := value.toList.map slash

def labelOf (parts : List (List Char)) : String := String.ofList (trimEnd (joined parts))

theorem cwd_eq_some {sha256Hex : String → String} {provider value : String} {p : LocalProject} :
    cwd sha256Hex provider value = some p ↔ isPlain value ∧ isAbsolute (normalized value) ∧
      ∃ parts, walk (normalized value) = some parts ∧
        make sha256Hex provider "cwd" (labelOf parts) = p := by
  simp only [cwd, Option.ite_none_right_eq_some, Option.map_eq_some_iff]
  rfl

def BareRoot (value : String) : Prop := ∃ root, walk (normalized value) = some [root]

theorem walk_root {s : List Char} (absolute : isAbsolute s = true) {parts : List (List Char)}
    (walked : walk s = some parts) : ∃ root names, s.splitOn '/' = root :: names ∧
      (root = [] ∨ ∃ c, c.isAlpha ∧ root = [c, ':']) ∧
      (names.foldlM pushPart [root] = some parts) ∧ ∃ front, parts = front ++ [root] := by
  obtain ⟨root, names, isSplit, name, shape⟩ := root_of_isAbsolute absolute
  have behind : names.foldlM pushPart [root] = some parts := by
    rw [walk, isSplit, List.foldlM_cons, pushPart_name name] at walked
    exact walked
  refine ⟨root, names, isSplit, shape, behind, foldlM_root ?_ behind⟩
  rcases shape with rfl | ⟨c, -, rfl⟩
  · exact .inl rfl
  · exact .inr rfl

/-- **A label is read as it is**: its segments are those of the path it was made of. -/
theorem walk_label {s : List Char} {parts : List (List Char)} (walked : walk s = some parts)
    (nonempty : parts ≠ []) : ∃ left, walk (trimEnd (joined parts)) = some left ∧
      joined left = trimEnd (joined parts) := by
  have names := foldlM_mem walked
  have segments : (joined parts).splitOn '/' = parts.reverse :=
    List.splitOn_intercalate '/' (fun part among =>
      (mem_splitOn (names part (List.mem_reverse.mp among)).2).1) (by simpa using nonempty)
  obtain ⟨n, cut⟩ := trimEnd_spec (joined parts)
  rw [cut, splitOn_separators] at segments
  have own : ∀ part ∈ (trimEnd (joined parts)).splitOn '/', IsName part := by
    intro part among
    refine (names part (List.mem_reverse.mp ?_)).1
    rw [← segments]
    exact List.mem_append_left _ among
  refine ⟨_, foldlM_names own [], ?_⟩
  rw [joined, List.append_nil, List.reverse_reverse, List.intercalate_splitOn]

theorem isAbsolute_label {root : List Char} (shape : root = [] ∨ ∃ c, c.isAlpha ∧ root = [c, ':'])
    {front : List (List Char)} (below : front ≠ []) :
    isAbsolute (trimEnd (joined (front ++ [root]))) = true := by
  obtain ⟨next, others, isNext⟩ := List.exists_cons_of_ne_nil (List.reverse_ne_nil_iff.mpr below)
  have text : joined (front ++ [root])
      = (root ++ ['/']) ++ ['/'].intercalate (next :: others) := by
    rw [joined, List.reverse_append, isNext]
    exact List.intercalate_cons_cons
  rw [text]
  rcases shape with rfl | ⟨c, alpha, rfl⟩
  · obtain ⟨back, isBack⟩ := trimEnd_append ['/'] (by decide)
      (['/'].intercalate (next :: others))
    rw [List.nil_append, isBack]
    rfl
  · obtain ⟨back, isBack⟩ := trimEnd_append [c, ':', '/'] (by simp [trimEnd, popSeparators])
      (['/'].intercalate (next :: others))
    rw [show [c, ':'] ++ ['/'] = [c, ':', '/'] from rfl, isBack]
    simp [isAbsolute, alpha]

theorem mem_label {s : List Char} {parts : List (List Char)} (walked : walk s = some parts) {c : Char}
    (among : c ∈ trimEnd (joined parts)) : c = '/' ∨ c ∈ s := by
  obtain ⟨n, cut⟩ := trimEnd_spec (joined parts)
  have inside : c ∈ joined parts := by
    rw [cut]
    exact List.mem_append_left _ among
  refine (mem_intercalate inside).imp_right fun ⟨part, at_, inPart⟩ => ?_
  exact (mem_splitOn (foldlM_mem walked part (List.mem_reverse.mp at_)).2).2 c inPart

theorem utf8Len_label {s : List Char} {parts : List (List Char)} (walked : walk s = some parts)
    (nonempty : parts ≠ []) : String.utf8Len (trimEnd (joined parts)) ≤ String.utf8Len s := by
  obtain ⟨n, cut⟩ := trimEnd_spec (joined parts)
  have whole := utf8Len_intercalate (List.splitOn_ne_nil '/' s)
  have left : String.utf8Len (['/'].intercalate parts.reverse) + 1 = bytes parts.reverse :=
    utf8Len_intercalate (by simpa using nonempty)
  have trimmed : String.utf8Len (trimEnd (joined parts)) ≤ String.utf8Len (joined parts) := by
    conv => rhs; rw [cut, String.utf8Len_append]
    exact Nat.le_add_right _ _
  have kept : bytes parts.reverse ≤ bytes (s.splitOn '/') := by
    refine le_of_eq_of_le ?_ (bytes_foldlM walked)
    simp [bytes, List.sum_reverse]
  rw [List.intercalate_splitOn] at whole
  change String.utf8Len (joined parts) + 1 = _ at left
  omega

theorem normalized_label {value : String} {parts : List (List Char)}
    (walked : walk (normalized value) = some parts) :
    normalized (labelOf parts) = trimEnd (joined parts) := by
  rw [normalized, labelOf, String.toList_ofList]
  refine (List.map_congr_left fun c among => ?_).trans (List.map_id _)
  refine slash_of_ne ?_
  rcases mem_label walked among with rfl | inside
  · decide
  · obtain ⟨d, -, rfl⟩ := List.mem_map.mp inside
    exact slash_ne d

theorem isPlain_label {value : String} (plain : isPlain value) {parts : List (List Char)}
    (walked : walk (normalized value) = some parts) (nonempty : parts ≠ [])
    (text : trimEnd (joined parts) ≠ []) : isPlain (labelOf parts) := by
  simp only [isPlain, decide_eq_true_eq] at plain ⊢
  obtain ⟨-, short, printed⟩ := plain
  refine ⟨?_, ?_, ?_⟩
  · intro empty
    exact text (by simpa [labelOf] using congrArg String.toList empty)
  · have bound := utf8Len_label walked nonempty
    have size := String.utf8ByteSize_ofList value.toList
    rw [String.ofList_toList] at size
    rw [normalized, utf8Len_slash] at bound
    rw [labelOf, String.utf8ByteSize_ofList]
    omega
  · rw [labelOf, String.toList_ofList, List.any_eq_false]
    intro c among
    rcases mem_label walked among with rfl | inside
    · decide
    · obtain ⟨d, at_, rfl⟩ := List.mem_map.mp inside
      simpa using isControl_slash (by simpa using List.any_eq_false.mp printed d at_)

section
variable {sha256Hex : String → String} {provider : String}

/-- **A label stands for its own project.** -/
theorem cwd_label {value : String} {p : LocalProject} (named : cwd sha256Hex provider value = some p)
    (rooted : ¬ BareRoot value) : p.label ≠ "" ∧ isAbsolute (normalized p.label) ∧
      cwd sha256Hex provider p.label = some p := by
  obtain ⟨plain, absolute, parts, walked, rfl⟩ := cwd_eq_some.mp named
  obtain ⟨root, names, -, shape, -, front, rfl⟩ := walk_root absolute walked
  have below : front ≠ [] := by
    rintro rfl
    exact rooted ⟨root, walked⟩
  have stays := isAbsolute_label shape below
  have text : trimEnd (joined (front ++ [root])) ≠ [] := by
    intro empty
    rw [empty] at stays
    cases stays
  obtain ⟨left, again, same⟩ := walk_label walked (by simp)
  have printed := isPlain_label plain walked (by simp) text
  have isText := normalized_label walked
  have isLabel : labelOf left = labelOf (front ++ [root]) := by
    rw [labelOf, labelOf, same, trimEnd_idem]
  refine ⟨?_, ?_, cwd_eq_some.mpr ⟨printed, ?_, left, ?_, ?_⟩⟩
  · intro empty
    exact text (by simpa [make, labelOf] using congrArg String.toList empty)
  · change isAbsolute (normalized (labelOf (front ++ [root]))) = true
    rwa [isText]
  · change isAbsolute (normalized (labelOf (front ++ [root]))) = true
    rwa [isText]
  · change walk (normalized (labelOf (front ++ [root]))) = some left
    rwa [isText]
  · rw [isLabel]

/-- **A project is remembered** unless its path climbs to a bare root. -/
theorem isRemembered_cwd {value : String} {p : LocalProject} (known : provider ∈ PROVIDERS)
    (named : cwd sha256Hex provider value = some p) :
    isRemembered sha256Hex provider p = true ↔ ¬ BareRoot value := by
  obtain ⟨-, absolute, parts, walked, made⟩ := cwd_eq_some.mp named
  have kind : p.kind = "cwd" := made ▸ rfl
  have asks : isRemembered sha256Hex provider p = true
      ↔ cwd sha256Hex provider p.label = some p := by simp [isRemembered, kind, known]
  rw [asks]
  constructor
  · rintro again ⟨root, bare⟩
    obtain rfl := Option.some.inj (walked.symm.trans bare)
    obtain ⟨first, names, -, shape, -, front, ends⟩ := walk_root absolute walked
    obtain ⟨-, isLast⟩ := List.append_inj' (show [] ++ [root] = front ++ [first] from ends) rfl
    obtain rfl := List.singleton_inj.mp isLast
    have stays := (cwd_eq_some.mp again).2.1
    rw [← made, make, normalized_label walked] at stays
    rcases shape with rfl | ⟨c, letter, rfl⟩
    · exact absurd stays (by decide)
    · have plain : c ≠ '/' := by
        rintro rfl
        exact absurd letter (by decide)
      simp [joined, trimEnd, popSeparators, isAbsolute, plain] at stays
  · exact fun rooted => (cwd_label named rooted).2.2

theorem isRemembered_cwd_root : ∃ p, cwd (fun text => text) "codex" "/work/.." = some p ∧
    isRemembered (fun text => text) "codex" p = false := by
  have named : cwd (fun text => text) "codex" "/work/.."
      = some (make (fun text => text) "codex" "cwd" "") := by decide
  refine ⟨_, named, Bool.eq_false_iff.mpr fun remembered => ?_⟩
  exact (isRemembered_cwd (by decide) named).mp remembered ⟨[], by decide⟩

/-! ### Spellings of one path -/

/-- A path the source names a project for, unless it climbs above its root. -/
def Accepted (value : String) : Prop := isPlain value ∧ isAbsolute (normalized value)

/-- The segments of a path, without `.` and without the separators at its end. -/
def spelling (value : String) : List (List Char) :=
  let segments := (normalized value).splitOn '/'
  segments.take 1 ++ (segments.tail.filter (· ≠ ['.'])).rdropWhile (· = [])

/-- What is left of a path ends in a colon, or is the bare POSIX root. -/
def OpenEnded (value : String) : Prop := ∃ parts, walk (normalized value) = some parts ∧
  (parts = [[]] ∨ ∃ last, parts.head? = some last ∧ last.getLast? = some ':')

theorem rdropWhile_empties (segments : List (List Char)) :
    ∃ n, segments = segments.rdropWhile (· = []) ++ List.replicate n [] := by
  induction segments using List.reverseRecOn with
  | nil => exact ⟨0, rfl⟩
  | append_singleton rest last ih =>
    by_cases empty : last = []
    · obtain ⟨n, isRest⟩ := ih
      refine ⟨n + 1, ?_⟩
      rw [List.rdropWhile_concat_pos _ _ _ (by simpa using empty), List.replicate_succ',
        ← List.append_assoc, ← isRest, empty]
    · rw [List.rdropWhile_concat_neg _ _ _ (by simpa using empty)]
      exact ⟨0, (List.append_nil _).symm⟩

theorem label_separators {parts : List (List Char)} (nonempty : parts ≠ []) (n : Nat)
    (closed : n = 0 → ¬ (parts = [[]] ∨ ∃ last, parts.head? = some last ∧ last.getLast? = some ':')) :
    trimEnd (joined (List.replicate n [] ++ parts)) = trimEnd (joined parts ++ ['/']) := by
  have text : joined (List.replicate n [] ++ parts) = joined parts ++ List.replicate n '/' := by
    rw [joined, List.reverse_append, List.reverse_replicate]
    exact intercalate_append (by simpa using nonempty) n
  cases n with
  | succ n => rw [text, trimEnd_separators]
  | zero =>
    obtain ⟨last, rest, rfl⟩ := List.exists_cons_of_ne_nil nonempty
    simp only [List.head?_cons, Option.some.injEq, exists_eq_left', true_imp_iff, not_or] at closed
    obtain ⟨named, open_⟩ := closed
    rw [text, List.replicate_zero, List.append_nil]
    cases rest with
    | nil =>
      have alone : joined [last] = last := List.intercalate_singleton
      rw [alone, trimEnd_separator (by simpa using named) open_]
    | cons next others =>
      have behind : joined (last :: next :: others) = joined (next :: others) ++ '/' :: last := by
        rw [joined, List.reverse_cons, intercalate_concat (by simp)]
        rfl
      rw [behind, trimEnd_separator (by simp)]
      cases last with
      | nil => simp
      | cons c last => simpa using open_

theorem spelling_nonempty {value : String} (absolute : isAbsolute (normalized value) = true)
    {parts : List (List Char)} (left : (spelling value).foldlM pushPart [] = some parts) :
    parts ≠ [] := by
  obtain ⟨root, names, isSplit, name, shape⟩ := root_of_isAbsolute absolute
  simp only [spelling, isSplit, List.take_succ_cons, List.take_zero, List.cons_append,
    List.foldlM_cons, pushPart_name name] at left
  obtain ⟨front, rfl⟩ := foldlM_root (by
    rcases shape with rfl | ⟨c, -, rfl⟩
    · exact .inl rfl
    · exact .inr rfl) left
  simp

theorem walk_spelling {value : String} (absolute : isAbsolute (normalized value) = true) : ∃ n,
    walk (normalized value)
      = ((spelling value).foldlM pushPart []).map (List.replicate n [] ++ ·) := by
  obtain ⟨root, names, isSplit, name, -⟩ := root_of_isAbsolute absolute
  obtain ⟨n, ends⟩ := rdropWhile_empties (names.filter (· ≠ ['.']))
  refine ⟨n, ?_⟩
  have empties : ∀ part ∈ List.replicate n ([] : List Char), IsName part := by
    intro part among
    rw [List.eq_of_mem_replicate among]
    exact ⟨by decide, by decide⟩
  have isSpelling : spelling value = root :: (names.filter (· ≠ ['.'])).rdropWhile (· = []) := by
    rw [spelling, isSplit]
    rfl
  generalize (names.filter (· ≠ ['.'])).rdropWhile (· = []) = core at ends isSpelling
  have walked : walk (normalized value) = names.foldlM pushPart [root] := by
    rw [walk, isSplit, List.foldlM_cons, pushPart_name name]
    rfl
  rw [walked, isSpelling, List.foldlM_cons, pushPart_name name, ← foldlM_filter, ends,
    List.foldlM_append, Option.bind_eq_bind, Option.bind_some]
  cases core.foldlM pushPart [root] with
  | none => rfl
  | some parts =>
    rw [Option.bind_some, foldlM_names empties, List.reverse_replicate]
    rfl

/-- **Spellings that differ only in the sort of the separators, in `.` segments or in trailing
separators name one project.** -/
theorem cwd_eq_of_spelling {first last : String} (accepted : Accepted first)
    (accepted' : Accepted last) (same : spelling first = spelling last)
    (closed : ¬ OpenEnded first) (closed' : ¬ OpenEnded last) :
    cwd sha256Hex provider first = cwd sha256Hex provider last := by
  obtain ⟨n, walked⟩ := walk_spelling accepted.2
  obtain ⟨m, walked'⟩ := walk_spelling accepted'.2
  rw [← same] at walked'
  have unfolded (value : String) (accepted : Accepted value) : cwd sha256Hex provider value
      = (walk (normalized value)).map fun parts => make sha256Hex provider "cwd" (labelOf parts) := by
    rw [cwd, if_pos accepted.1]
    exact if_pos accepted.2
  rw [unfolded first accepted, unfolded last accepted']
  cases kept : (spelling first).foldlM pushPart [] with
  | none => rw [walked, walked', kept]; rfl
  | some parts =>
    rw [kept, Option.map_some] at walked walked'
    have nonempty := spelling_nonempty accepted.2 kept
    have label (n : Nat) (value : String) (closed : ¬ OpenEnded value)
        (walked : walk (normalized value) = some (List.replicate n [] ++ parts)) :
        labelOf (List.replicate n [] ++ parts)
          = String.ofList (trimEnd (joined parts ++ ['/'])) := by
      refine congrArg String.ofList (label_separators nonempty n fun none open_ => closed ?_)
      subst none
      exact ⟨parts, walked, open_⟩
    rw [walked, walked', Option.map_some, Option.map_some, label n first closed walked,
      label m last closed' walked']

/-- **What names a project**: the label of a project is an absolute path and stands for the same
project, and spellings of one path name one project, wherever more than a bare root is left. -/
theorem cwd_canonical (sha256Hex : String → String) (provider : String) :
    (∀ value p, cwd sha256Hex provider value = some p → ¬ BareRoot value →
      p.label ≠ "" ∧ isAbsolute (normalized p.label) ∧ cwd sha256Hex provider p.label = some p) ∧
    ∀ first last, Accepted first → Accepted last → spelling first = spelling last →
      ¬ OpenEnded first → ¬ OpenEnded last →
      cwd sha256Hex provider first = cwd sha256Hex provider last :=
  ⟨fun _ _ => cwd_label, fun _ _ => cwd_eq_of_spelling⟩

theorem cwd_canonical_windows : cwd (fun text => text) "codex" "C:\\work\\"
    = cwd (fun text => text) "codex" "C:/./work" := by
  have left : walk (normalized "C:\\work\\") = some [[], ['w', 'o', 'r', 'k'], ['C', ':']] := by
    decide
  have left' : walk (normalized "C:/./work") = some [['w', 'o', 'r', 'k'], ['C', ':']] := by
    decide
  refine (cwd_canonical (fun text => text) "codex").2 _ _ ⟨by decide, by decide⟩
    ⟨by decide, by decide⟩ (by decide) ?_ ?_
  · rintro ⟨parts, walked, open_⟩
    obtain rfl := Option.some.inj (left.symm.trans walked)
    simp at open_
  · rintro ⟨parts, walked, open_⟩
    obtain rfl := Option.some.inj (left'.symm.trans walked)
    simp at open_

/-- The case of a drive letter is kept. -/
theorem drive_letters_differ : ¬ ∀ (sha256Hex : String → String) (provider : String) (c d : Char)
    (rest : List Char), c.toLower = d.toLower →
      cwd sha256Hex provider (String.ofList (c :: ':' :: rest))
        = cwd sha256Hex provider (String.ofList (d :: ':' :: rest)) := by
  intro all
  have same := congrArg (Option.map LocalProject.label)
    (all (fun _ => "") "codex" 'c' 'C' ['/', 'w'] rfl)
  exact absurd same (by decide)

end

end Toard.Shim.LocalProject
