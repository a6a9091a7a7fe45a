/-
**What the loops of a history search do.**

* **`scans_scanGroup`**: that is what the scan does, wherever its budgets run out.
* **`searchLoop_conserves`**: what was examined and what is left to examine stays the same list
  through a request; so do the sessions.
-/

import Toard.History.Search

namespace Toard.History

open Toard.Library

/-! ### Chunks of rows -/

section Rows

variable {snippetOf : PromptRecord → Option JsString}

theorem firstMatch_of_none {rows : List PromptRecord}
    (without : (firstMatch snippetOf rows).2.isSome = false) :
    firstMatch snippetOf rows = (rows, none) := by
  have whole := @firstMatch_append snippetOf rows []
  rw [List.append_nil, without] at whole
  simpa [firstMatch] using whole

theorem firstMatch_fst_ne_nil {rows : List PromptRecord} (some : rows ≠ []) :
    (firstMatch snippetOf rows).1 ≠ [] := by
  cases rows with
  | nil => exact absurd rfl some
  | cons row rows =>
    cases shown : snippetOf row with
    | some snippet => simp [firstMatch, shown]
    | none => simp [firstMatch, shown]

theorem firstMatch_begins (rows : List PromptRecord) : (firstMatch snippetOf rows).1 <+: rows := by
  induction rows with
  | nil => exact List.prefix_rfl
  | cons row rows ih =>
    cases shown : snippetOf row with
    | some snippet =>
      simp only [firstMatch, shown]
      exact ⟨rows, rfl⟩
    | none =>
      simp only [firstMatch, shown]
      exact List.cons_prefix_cons.mpr ⟨rfl, ih⟩

theorem isSome_firstMatch {rows : List PromptRecord} :
    (firstMatch snippetOf rows).2.isSome ↔ ∃ row ∈ rows, (snippetOf row).isSome := by
  induction rows with
  | nil => simp [firstMatch]
  | cons row rows ih =>
    cases shown : snippetOf row with
    | some snippet => simp [firstMatch, shown]
    | none => simp [firstMatch, shown, ih]

/-- **The records examined** are those with no match before them. -/
theorem mem_firstMatch {rows : List PromptRecord} {row : PromptRecord}
    (ordered : rows.Pairwise fun row later => row.id < later.id) :
    row ∈ (firstMatch snippetOf rows).1 ↔
      row ∈ rows ∧ ∀ earlier ∈ rows, earlier.id < row.id → snippetOf earlier = none := by
  induction rows with
  | nil => simp [firstMatch]
  | cons first rows ih =>
    obtain ⟨before, ordered⟩ := List.pairwise_cons.mp ordered
    cases shown : snippetOf first with
    | some snippet =>
      simp only [firstMatch, shown, List.mem_singleton, List.forall_mem_cons, reduceCtorEq]
      constructor
      · rintro rfl
        refine ⟨List.mem_cons_self, fun less => absurd less (Nat.lt_irrefl _), fun earlier among less =>
          absurd (before earlier among) (Nat.lt_asymm less)⟩
      · rintro ⟨among, first', -⟩
        rcases List.mem_cons.mp among with same | among
        · exact same
        · exact absurd (before row among) first'
    | none =>
      simp only [firstMatch, shown, List.mem_cons, ih ordered, forall_eq_or_imp]
      constructor
      · rintro (rfl | ⟨among, unmatched⟩)
        · exact ⟨.inl rfl, fun _ => trivial, fun earlier among less =>
            absurd (before earlier among) (Nat.lt_asymm less)⟩
        · exact ⟨.inr among, fun _ => trivial, unmatched⟩
      · rintro ⟨rfl | among, -, unmatched⟩
        · exact .inl rfl
        · exact .inr ⟨among, unmatched⟩

theorem selectRows_ne_nil {byteBudget scannedBytes : Nat} {row : PromptRecord}
    {rows : List PromptRecord} (fits : scannedBytes + historySearchCipherBytes row ≤ byteBudget) :
    (selectRows byteBudget scannedBytes (row :: rows)).1 ≠ [] := by
  rw [selectRows, if_neg (by omega)]
  exact List.cons_ne_nil _ _

theorem selectRows_bytes {byteBudget scannedBytes : Nat} {rows : List PromptRecord}
    (nothing : (selectRows byteBudget scannedBytes rows).1 = []) :
    (selectRows byteBudget scannedBytes rows).2 = scannedBytes := by
  cases rows with
  | nil => rfl
  | cons row rows =>
    rw [selectRows] at nothing ⊢
    split
    · rfl
    · next fits =>
      rw [if_neg fits] at nothing
      cases nothing

end Rows

/-! ### One session -/

section Group

variable {history : History} {filter : HistoryFilter} {snippetOf : PromptRecord → Option JsString}
  {clock : Clock}

variable (history filter snippetOf) in
/-- What the scan of a session did: the records that it examined, and what they were. -/
structure Scans (key : String) (scan : GroupScan) (result : HistoryGroupSearchResult)
    (done : List PromptRecord) : Prop where
  examined : result.scan.examined = scan.examined ++ done
  complete : result.complete = true →
    firstMatch snippetOf (rowsFrom history filter key scan.afterRecordId) = (done, result.snippet)
  incomplete : result.complete = false → (firstMatch snippetOf done).2.isSome = false ∧
    rowsFrom history filter key scan.afterRecordId
      = done ++ rowsFrom history filter key result.scan.afterRecordId
  idle : done = [] → result.scan.scannedRows = scan.scannedRows ∧
    result.scan.scannedBytes = scan.scannedBytes
  small : ∀ id ∈ result.scan.afterRecordId, id ∈ scan.afterRecordId ∨ id < 2 ^ 63

theorem mem_rows_of_rowsFrom {key : String} {cursor : Option Nat} {row : PromptRecord}
    (among : row ∈ rowsFrom history filter key cursor) : row ∈ history.rows :=
  List.mem_of_mem_filter (List.mem_of_mem_filter among)

theorem exists_selected {key : String} {cursor : Option Nat} {limit byteBudget scannedBytes : Nat} :
    ∃ others beyond,
      loadHistorySearchRows history filter key cursor limit
        = (selectRows byteBudget scannedBytes
            (loadHistorySearchRows history filter key cursor limit)).1 ++ others ∧
      rowsFrom history filter key cursor
        = (selectRows byteBudget scannedBytes
            (loadHistorySearchRows history filter key cursor limit)).1 ++ (others ++ beyond) ∧
      ((loadHistorySearchRows history filter key cursor limit).length < limit → beyond = []) := by
  obtain ⟨others, selected⟩ := selectRows_begins byteBudget scannedBytes
    (loadHistorySearchRows history filter key cursor limit)
  refine ⟨others, (rowsFrom history filter key cursor).drop limit, selected.symm, ?_, fun short => ?_⟩
  · rw [← List.append_assoc, selected, loadHistorySearchRows, List.take_append_drop]
  · rw [loadHistorySearchRows, List.length_take] at short
    exact List.drop_eq_nil_of_le (by omega)

theorem rowsFrom_getLast? {key : String} {cursor : Option Nat} {selected after : List PromptRecord}
    (some_ : selected ≠ []) (rows : rowsFrom history filter key cursor = selected ++ after) :
    ∃ row ∈ selected, selected.getLast? = some row ∧
      rowsFrom history filter key (some row.id) = after := by
  refine ⟨selected.getLast some_, List.getLast_mem some_, List.getLast?_eq_some_getLast some_, ?_⟩
  rw [← List.dropLast_append_getLast some_, List.append_assoc] at rows
  exact rowsFrom_of_append rows

theorem small_of_examined {examined : List PromptRecord} (rows : ∀ row ∈ examined, row ∈ history.rows)
    {cursor : Option Nat} {id : Nat} (isLast : id ∈ (examined.getLast?.map PromptRecord.id).or cursor) :
    id ∈ cursor ∨ id < 2 ^ 63 := by
  cases last : examined.getLast? with
  | none =>
    rw [last] at isLast
    exact .inl isLast
  | some row =>
    rw [last] at isLast
    obtain rfl : row.id = id := Option.some.inj isLast
    exact .inr (history.small row (rows row (List.mem_of_getLast? last)))

/-- **The scan of a session**, by its turns. -/
theorem scans_scanGroup (key : String) (rowBudget byteBudget : Nat) (turns : Nat)
    (scan : GroupScan) : ∃ done, Scans history filter snippetOf key scan
      (scanGroup history filter snippetOf clock key rowBudget byteBudget turns scan) done := by
  induction turns generalizing scan with
  | zero =>
    exact ⟨[], (List.append_nil _).symm, nofun, fun _ => ⟨rfl, rfl⟩, fun _ => ⟨rfl, rfl⟩,
      fun _ => .inl⟩
  | succ turns ih =>
    rw [scanGroup]
    split
    case isFalse =>
      exact ⟨[], (List.append_nil _).symm, nofun, fun _ => ⟨rfl, rfl⟩, fun _ => ⟨rfl, rfl⟩,
        fun _ => .inl⟩
    case isTrue within =>
      obtain ⟨limit, isLimit⟩ : ∃ limit, limit = min HISTORY_SEARCH_ROW_CHUNK_SIZE
        (rowBudget - scan.scannedRows) := ⟨_, rfl⟩
      have positive : 0 < limit := by
        rw [isLimit, HISTORY_SEARCH_ROW_CHUNK_SIZE]
        simp only [Bool.and_eq_true, decide_eq_true_eq] at within
        omega
      obtain ⟨others, beyond, chunk, rows, last⟩ := @exists_selected history filter key
        scan.afterRecordId limit byteBudget scan.scannedBytes
      have inside : ∀ row ∈ (selectRows byteBudget scan.scannedBytes
          (loadHistorySearchRows history filter key scan.afterRecordId limit)).1,
          row ∈ history.rows := fun row among => @mem_rows_of_rowsFrom history _ _ _ _ (by
        rw [rows]
        exact List.mem_append_left _ among)
      simp only [← isLimit]
      split
      case isTrue none =>
        have empty : rowsFrom history filter key scan.afterRecordId = [] := by
          rw [loadHistorySearchRows, List.take_eq_nil_iff] at none
          exact none.resolve_left (by omega)
        refine ⟨[], (List.append_nil _).symm, fun _ => ?_, nofun, fun _ => ⟨rfl, rfl⟩, fun _ => .inl⟩
        rw [empty]
        rfl
      case isFalse =>
        split
        case isTrue nothing =>
          exact ⟨[], (List.append_nil _).symm, nofun, fun _ => ⟨rfl, rfl⟩,
            fun _ => ⟨rfl, selectRows_bytes nothing⟩, fun _ => .inl⟩
        case isFalse some_ =>
          have progress := @firstMatch_fst_ne_nil snippetOf _ some_
          split
          case isTrue shown =>
            refine ⟨_, rfl, fun _ => ?_, nofun, fun empty => absurd empty progress, fun id isLast =>
              small_of_examined (fun row among => inside row ?_) isLast⟩
            · rw [rows, firstMatch_append, if_pos shown]
            · exact (firstMatch_begins _).subset among
          case isFalse without =>
            have whole := firstMatch_of_none (Bool.eq_false_iff.mpr without)
            simp only [whole]
            obtain ⟨row, -, isLast, behind⟩ := rowsFrom_getLast? some_ rows
            have cursor : ((selectRows byteBudget scan.scannedBytes (loadHistorySearchRows history
                filter key scan.afterRecordId limit)).1.getLast?.map PromptRecord.id).or
                  scan.afterRecordId = some row.id := by
              rw [isLast]
              rfl
            have unmatched : (firstMatch snippetOf (selectRows byteBudget scan.scannedBytes
                (loadHistorySearchRows history filter key scan.afterRecordId limit)).1).2.isSome
                  = false := Bool.eq_false_iff.mpr without
            split
            case isTrue =>
              -- Some rows of the chunk are too long for the bytes left.
              refine ⟨_, rfl, nofun, fun _ => ⟨unmatched, ?_⟩, fun empty => absurd empty some_,
                fun id => small_of_examined inside⟩
              simp only [cursor]
              rw [behind, rows]
            case isFalse all =>
              have none : others = [] := by
                have length := congrArg List.length chunk
                rw [List.length_append] at length
                exact List.length_eq_zero_iff.mp (by omega)
              rw [none, List.nil_append] at rows behind
              split
              case isTrue short =>
                refine ⟨_, rfl, fun _ => ?_, nofun, fun empty => absurd empty some_,
                  fun id => small_of_examined inside⟩
                rw [rows, last short, List.append_nil]
                exact whole
              case isFalse =>
                obtain ⟨done, scans⟩ := ih {
                  afterRecordId := some row.id
                  scannedRows := scan.scannedRows + (selectRows byteBudget scan.scannedBytes
                    (loadHistorySearchRows history filter key scan.afterRecordId limit)).1.length
                  scannedBytes := (selectRows byteBudget scan.scannedBytes
                    (loadHistorySearchRows history filter key scan.afterRecordId limit)).2
                  ticks := scan.ticks + 1
                  examined := scan.examined ++ (selectRows byteBudget scan.scannedBytes
                    (loadHistorySearchRows history filter key scan.afterRecordId limit)).1 }
                simp only [cursor]
                refine ⟨_ ++ done, ?_, fun complete => ?_, fun incomplete => ?_,
                  fun empty => absurd (List.append_eq_nil_iff.mp empty).1 some_, fun id isId => ?_⟩
                · rw [scans.examined, List.append_assoc]
                · rw [rows, firstMatch_append, unmatched, ← behind, scans.complete complete]
                  rfl
                · obtain ⟨none, left⟩ := scans.incomplete incomplete
                  refine ⟨?_, ?_⟩
                  · rw [firstMatch_append, unmatched]
                    exact none
                  · rw [List.append_assoc, ← left, behind, rows]
                · rcases scans.small id isId with isRow | small
                  · obtain rfl := Option.some.inj isRow
                    exact .inr (history.small row (inside row (List.mem_of_getLast? isLast)))
                  · exact .inr small

/-- **A session that is scanned first** is examined if a record of it is left. -/
theorem searchHistoryGroup_examines {group : HistorySearchGroupRow} {cursor : Option Nat}
    {rowBudget byteBudget ticks : Nat} (rows : 0 < rowBudget) (bytes : 0 < byteBudget)
    (fits : ∀ row ∈ history.rows, historySearchCipherBytes row ≤ byteBudget)
    (inTime : ∀ ticks, clock ticks 0 = true)
    (nothing : (searchHistoryGroup history filter snippetOf clock group cursor rowBudget byteBudget
      ticks []).scan.examined = []) : rowsFrom history filter group.gkey cursor = [] := by
  by_contra left
  obtain ⟨turns, rfl⟩ := Nat.exists_eq_add_of_lt rows
  rw [searchHistoryGroup, scanGroup] at nothing
  have within : (decide (0 < 0 + turns + 1) && decide (0 < byteBudget) && clock ticks 0) = true := by
    simp [bytes, inTime]
  simp only [List.length_nil, within, if_true] at nothing
  obtain ⟨limit, isLimit⟩ : ∃ limit, limit = min HISTORY_SEARCH_ROW_CHUNK_SIZE (0 + turns + 1 - 0) :=
    ⟨_, rfl⟩
  have positive : 0 < limit := by
    rw [isLimit, HISTORY_SEARCH_ROW_CHUNK_SIZE]
    omega
  rw [← isLimit] at nothing
  obtain ⟨row, later, first⟩ := List.exists_cons_of_ne_nil left
  obtain ⟨others, chunk⟩ : ∃ others,
      loadHistorySearchRows history filter group.gkey cursor limit = row :: others := by
    obtain ⟨less, rfl⟩ := Nat.exists_eq_add_of_lt positive
    exact ⟨later.take (0 + less), by rw [loadHistorySearchRows, first]; rfl⟩
  have isRow : row ∈ history.rows := @mem_rows_of_rowsFrom history _ _ _ _ (by
    rw [first]
    exact List.mem_cons_self)
  have some_ : (selectRows byteBudget 0 (row :: others)).1 ≠ [] :=
    selectRows_ne_nil (by rw [Nat.zero_add]; exact fits row isRow)
  have progress := @firstMatch_fst_ne_nil snippetOf _ some_
  simp only [chunk, reduceCtorEq, if_false, if_neg some_] at nothing
  split at nothing
  · exact progress nothing
  · split at nothing
    · exact progress nothing
    · split at nothing
      · exact progress nothing
      · obtain ⟨done, scans⟩ := @scans_scanGroup history filter
          snippetOf clock group.gkey (0 + turns + 1) byteBudget
          (0 + turns) _
        rw [scans.examined] at nothing
        exact progress (List.append_eq_nil_iff.mp nothing).1

theorem searchHistoryGroup_complete {group : HistorySearchGroupRow} {cursor : Option Nat}
    {rowBudget byteBudget ticks : Nat} (rows : 0 < rowBudget) (bytes : 0 < byteBudget)
    (inTime : ∀ ticks, clock ticks 0 = true)
    (left : rowsFrom history filter group.gkey cursor = []) :
    (searchHistoryGroup history filter snippetOf clock group cursor rowBudget byteBudget
      ticks []).complete = true := by
  obtain ⟨turns, rfl⟩ := Nat.exists_eq_add_of_lt rows
  simp [searchHistoryGroup, scanGroup, bytes, inTime, loadHistorySearchRows, left]

theorem scans_searchHistoryGroup (group : HistorySearchGroupRow) (cursor : Option Nat)
    (rowBudget byteBudget ticks : Nat) (examined : List PromptRecord) :
    ∃ done, Scans history filter snippetOf group.gkey ⟨cursor, 0, 0, ticks, examined⟩
      (searchHistoryGroup history filter snippetOf clock group cursor rowBudget byteBudget ticks
        examined) done :=
  scans_scanGroup _ _ _ _ _

end Group

/-! ### The list of sessions -/

section Sessions

variable (collation : Collation) (history : History) (filter : HistoryFilter)
  (snippetOf : PromptRecord → Option JsString) (clock : Clock) (pageSize : Nat)

def firstLeft (resume : Option SearchResume) (group : HistorySearchGroupRow) :
    List PromptRecord × Option JsString :=
  firstMatch snippetOf (rowsFrom history filter group.gkey (resumeAfter resume group))

/-- The records that are left to examine, if the first session goes on where it was left. -/
def planOf : Option SearchResume → List HistorySearchGroupRow → List PromptRecord
  | _, [] => []
  | resume, group :: rest =>
    (firstLeft history filter snippetOf resume group).1 ++ planOf none rest

def hitsOf : Option SearchResume → List HistorySearchGroupRow →
    List (HistorySearchGroupRow × JsString)
  | _, [] => []
  | resume, group :: rest =>
    (firstLeft history filter snippetOf resume group).2.toList.map (group, ·) ++ hitsOf none rest

/-- Where the next request would go on: nowhere, at the cursor, or where the search is. -/
def HistorySearch.left (search : HistorySearch) :
    Option SearchResume × List HistorySearchGroupRow :=
  match search.nextState with
  | some state => (state.resume, groupsAfter collation history filter state.afterGroup)
  | none =>
    if search.exhausted then (none, [])
    else (search.resume, groupsAfter collation history filter search.afterGroup)

/-- **What a request does not change**: the records that it examined and those that are left, and so
for the sessions. -/
def HistorySearch.records (search : HistorySearch) : List PromptRecord :=
  search.examined ++ planOf history filter snippetOf (search.left collation history filter).1
    (search.left collation history filter).2

def HistorySearch.sessions (search : HistorySearch) : List (HistorySearchGroupRow × JsString) :=
  search.hits ++ hitsOf history filter snippetOf (search.left collation history filter).1
    (search.left collation history filter).2

/-- A cursor of this search: it holds its range, a place of the list and the id of a record. -/
structure ValidState (state : HistorySearchCursorState) : Prop where
  fromDate : state.fromDate = filter.fromDate
  toDate : state.toDate = filter.toDate
  place : IsPlace collation history filter state.afterGroup
  resume : ∀ resume ∈ state.resume, resume.afterRecordId < 2 ^ 63 ∧
    ∃ group ∈ historyGroups collation history filter, resume.group = searchPosition group

/-- A search in the middle of its loops, which has not examined anything only as long as it came
no further than to the end of one session that had nothing left. -/
structure Running (search : HistorySearch) : Prop where
  place : IsPlace collation history filter search.afterGroup
  resume : ∀ resume ∈ search.resume, resume.afterRecordId < 2 ^ 63
  open_ : search.nextState = none ∧ search.exhausted = false
  fresh : search.examined = [] → search.hits = [] ∧ search.scannedRows = 0 ∧
    search.scannedBytes = 0 ∧ search.scannedGroups ≤ 1 ∧
    (search.scannedGroups = 1 → search.resume = none)

structure Left (search : HistorySearch) : Prop where
  ended : search.nextState = none → search.exhausted = true
  next : ∀ state ∈ search.nextState, ValidState collation history filter state ∧
    search.examined ≠ []

variable {collation history filter snippetOf clock pageSize}

theorem resumeAfter_own (group : HistorySearchGroupRow) (cursor : Option Nat) :
    resumeAfter (cursor.map fun id => ⟨searchPosition group, id⟩) group = cursor := by
  cases cursor with
  | none => rfl
  | some id => simp [resumeAfter, searchPosition]

theorem resumeAfter_mem {resume : Option SearchResume} {group : HistorySearchGroupRow} {id : Nat}
    (isAfter : id ∈ resumeAfter resume group) : ∃ part ∈ resume, part.afterRecordId = id := by
  cases resume with
  | none => cases isAfter
  | some part =>
    rw [resumeAfter] at isAfter
    split at isAfter
    · exact ⟨part, rfl, Option.some.inj isAfter⟩
    · cases isAfter

theorem rowsFrom_ne_nil {group : HistorySearchGroupRow}
    (listed : group ∈ historyGroups collation history filter) :
    rowsFrom history filter group.gkey (resumeAfter none group) ≠ [] := by
  rw [resumeAfter, rowsFrom_none]
  exact groupRows_ne_nil listed

theorem left_unfinished {search : HistorySearch} {group : HistorySearchGroupRow}
    {rest : List HistorySearchGroupRow} {result : HistoryGroupSearchResult}
    {done : List PromptRecord} (running : Running collation history filter search)
    (groups : groupsAfter collation history filter search.afterGroup = group :: rest)
    (scans : Scans history filter snippetOf group.gkey ⟨resumeAfter search.resume group, 0, 0,
      search.ticks, search.examined⟩ result done) (partly : result.complete = false) :
    let next : HistorySearch := { search.scanned group result with
      nextState := some (cursorState filter (search.scanned group result)
        (result.scan.afterRecordId.map fun id => ⟨searchPosition group, id⟩)) }
    next.records collation history filter snippetOf = search.records collation history filter snippetOf
      ∧ next.sessions collation history filter snippetOf
        = search.sessions collation history filter snippetOf := by
  intro next
  obtain ⟨without, split⟩ := scans.incomplete partly
  have first : firstLeft history filter snippetOf search.resume group = (done ++ (firstLeft history
      filter snippetOf (result.scan.afterRecordId.map fun id => ⟨searchPosition group, id⟩) group).1,
      (firstLeft history filter snippetOf
        (result.scan.afterRecordId.map fun id => ⟨searchPosition group, id⟩) group).2) := by
    rw [firstLeft, split, firstMatch_append, without, firstLeft, resumeAfter_own]
    rfl
  have before : search.left collation history filter = (search.resume, group :: rest) := by
    rw [HistorySearch.left, running.open_.1, running.open_.2, groups]
    rfl
  have after : next.left collation history filter
      = (result.scan.afterRecordId.map fun id => ⟨searchPosition group, id⟩, group :: rest) := by
    rw [← groups]
    rfl
  have examined : next.examined = search.examined ++ done := scans.examined
  have hits : next.hits = search.hits := rfl
  constructor
  · rw [HistorySearch.records, HistorySearch.records, before, after, planOf, planOf, first, examined,
      List.append_assoc, List.append_assoc]
  · rw [HistorySearch.sessions, HistorySearch.sessions, before, after, hitsOf, hitsOf, first, hits]

theorem passed_whole {search : HistorySearch} {group : HistorySearchGroupRow}
    {rest : List HistorySearchGroupRow} {result : HistoryGroupSearchResult}
    {done : List PromptRecord} (running : Running collation history filter search)
    (groups : groupsAfter collation history filter search.afterGroup = group :: rest)
    (scans : Scans history filter snippetOf group.gkey ⟨resumeAfter search.resume group, 0, 0,
      search.ticks, search.examined⟩ result done) (complete : result.complete = true) (more : Bool) :
    let next := (search.scanned group result).passed group result.snippet more
    next.records collation history filter snippetOf = search.records collation history filter snippetOf
      ∧ next.sessions collation history filter snippetOf
        = search.sessions collation history filter snippetOf
      ∧ groupsAfter collation history filter next.afterGroup = rest := by
  intro next
  have first : firstLeft history filter snippetOf search.resume group = (done, result.snippet) :=
    scans.complete complete
  have isNext : groupsAfter collation history filter next.afterGroup = rest :=
    (@IsPlace.next _ _ _ _ running.place [] _ _ groups).2
  have before : search.left collation history filter = (search.resume, group :: rest) := by
    rw [HistorySearch.left, running.open_.1, running.open_.2, groups]
    rfl
  have after : next.left collation history filter = (none, rest) := by
    have open_ : next.nextState = none ∧ next.exhausted = false := running.open_
    rw [HistorySearch.left, open_.1, open_.2, isNext]
    rfl
  have examined : next.examined = search.examined ++ done := scans.examined
  have hits : next.hits = search.hits ++ result.snippet.toList.map (group, ·) := rfl
  refine ⟨?_, ?_, isNext⟩
  · rw [HistorySearch.records, HistorySearch.records, before, after, planOf, first, examined,
      List.append_assoc]
  · rw [HistorySearch.sessions, HistorySearch.sessions, before, after, hitsOf, first, hits,
      List.append_assoc]

/-! ### Progress -/

variable (fits : ∀ row ∈ history.rows,
    historySearchCipherBytes row ≤ HISTORY_SEARCH_CIPHERTEXT_BYTE_LIMIT)
  (inTime : ∀ ticks, clock ticks 0 = true) (positive : 0 < pageSize)

def nextResult (history : History) (filter : HistoryFilter)
    (snippetOf : PromptRecord → Option JsString) (clock : Clock) (search : HistorySearch)
    (group : HistorySearchGroupRow) : HistoryGroupSearchResult :=
  searchHistoryGroup history filter snippetOf clock group (resumeAfter search.resume group)
    (HISTORY_SEARCH_ROW_SCAN_LIMIT - search.scannedRows)
    (HISTORY_SEARCH_CIPHERTEXT_BYTE_LIMIT - search.scannedBytes) search.ticks search.examined

include fits inTime in
/-- **A session with records left is examined**, or others were before it. -/
theorem nextResult_idle {search : HistorySearch} {group : HistorySearchGroupRow}
    (running : Running collation history filter search)
    (listed : group ∈ historyGroups collation history filter)
    (nothing : (nextResult history filter snippetOf clock search group).scan.examined = []) :
    search.examined = [] ∧ search.scannedGroups = 0 ∧
      (nextResult history filter snippetOf clock search group).complete = true ∧
      (nextResult history filter snippetOf clock search group).snippet = none ∧
      (nextResult history filter snippetOf clock search group).scan.scannedRows = 0 ∧
      (nextResult history filter snippetOf clock search group).scan.scannedBytes = 0 := by
  obtain ⟨done, scans⟩ := @scans_searchHistoryGroup history filter
    snippetOf clock group (resumeAfter search.resume group)
    (HISTORY_SEARCH_ROW_SCAN_LIMIT - search.scannedRows)
    (HISTORY_SEARCH_CIPHERTEXT_BYTE_LIMIT - search.scannedBytes) search.ticks search.examined
  have parts : search.examined ++ done = [] := scans.examined.symm.trans nothing
  obtain ⟨before, rfl⟩ := List.append_eq_nil_iff.mp parts
  obtain ⟨-, rows, bytes, groups, unresumed⟩ := running.fresh before
  unfold nextResult at nothing ⊢
  have empty : rowsFrom history filter group.gkey (resumeAfter search.resume group) = [] := by
    rw [rows, bytes, before] at nothing
    exact searchHistoryGroup_examines (by decide) (by decide) fits inTime nothing
  have complete : (searchHistoryGroup history filter snippetOf clock group
      (resumeAfter search.resume group) (HISTORY_SEARCH_ROW_SCAN_LIMIT - search.scannedRows)
      (HISTORY_SEARCH_CIPHERTEXT_BYTE_LIMIT - search.scannedBytes) search.ticks
      search.examined).complete = true := by
    rw [rows, bytes, before]
    exact searchHistoryGroup_complete (by decide) (by decide) inTime empty
  refine ⟨before, ?_, complete, ?_, (scans.idle rfl).1, (scans.idle rfl).2⟩
  · by_contra one
    have resume := unresumed (by omega)
    rw [resume] at empty
    exact rowsFrom_ne_nil listed empty
  · have whole := scans.complete complete
    rw [show rowsFrom history filter group.gkey (GroupScan.afterRecordId
      ⟨resumeAfter search.resume group, 0, 0, search.ticks, search.examined⟩) = [] from empty] at whole
    exact (congrArg Prod.snd whole).symm

include fits inTime in
theorem left_of_unfinished {search : HistorySearch} {group : HistorySearchGroupRow}
    (running : Running collation history filter search)
    (listed : group ∈ historyGroups collation history filter)
    (partly : (nextResult history filter snippetOf clock search group).complete = false) :
    Left collation history filter
      { search.scanned group (nextResult history filter snippetOf clock search group) with
        nextState := some (cursorState filter
          (search.scanned group (nextResult history filter snippetOf clock search group))
          ((nextResult history filter snippetOf clock search group).scan.afterRecordId.map
            fun id => ⟨searchPosition group, id⟩)) } := by
  refine ⟨nofun, ?_⟩
  rintro state ⟨⟩
  refine ⟨⟨rfl, rfl, running.place, ?_⟩, fun nothing => ?_⟩
  · intro resume isResume
    obtain ⟨id, isId, rfl⟩ := Option.mem_map.mp isResume
    refine ⟨?_, group, listed, rfl⟩
    obtain ⟨done, scans⟩ := @scans_searchHistoryGroup history filter
      snippetOf clock group (resumeAfter search.resume group)
      (HISTORY_SEARCH_ROW_SCAN_LIMIT - search.scannedRows)
      (HISTORY_SEARCH_CIPHERTEXT_BYTE_LIMIT - search.scannedBytes) search.ticks search.examined
    rcases scans.small id isId with again | small
    · obtain ⟨part, isPart, rfl⟩ := resumeAfter_mem again
      exact running.resume part isPart
    · exact small
  · obtain ⟨-, -, complete, -⟩ := nextResult_idle fits inTime running listed nothing
    rw [complete] at partly
    cases partly

include fits inTime in
theorem running_passed {search : HistorySearch} {group : HistorySearchGroupRow}
    (running : Running collation history filter search)
    (listed : group ∈ historyGroups collation history filter) (more : Bool) :
    Running collation history filter
      ((search.scanned group (nextResult history filter snippetOf clock search group)).passed group
        (nextResult history filter snippetOf clock search group).snippet more) := by
  refine ⟨IsPlace.of_listed listed, fun part isPart => absurd isPart (Option.not_mem_none part),
    running.open_, fun nothing => ?_⟩
  obtain ⟨before, none, -, unmatched, rows, bytes⟩ :=
    nextResult_idle fits inTime running listed nothing
  obtain ⟨noHits, noRows, noBytes, -⟩ := running.fresh before
  refine ⟨?_, ?_, ?_, ?_, fun _ => rfl⟩
  · simp only [HistorySearch.passed, HistorySearch.scanned, noHits, unmatched]
    rfl
  · simp only [HistorySearch.passed, HistorySearch.scanned, noRows, rows]
  · simp only [HistorySearch.passed, HistorySearch.scanned, noBytes, bytes]
  · simp only [HistorySearch.passed, HistorySearch.scanned, none]
    decide

theorem Running.tick {search : HistorySearch} (running : Running collation history filter search)
    (ticks : Nat) : Running collation history filter { search with ticks } :=
  ⟨running.place, running.resume, running.open_, running.fresh⟩

include inTime positive in
theorem examined_of_limit {search : HistorySearch} (running : Running collation history filter search)
    (limit : pageSize ≤ search.hits.length ∨
      (search.overLimit || !clock search.ticks search.examined.length) = true) :
    search.examined ≠ [] := by
  intro nothing
  obtain ⟨hits, rows, bytes, groups, -⟩ := running.fresh nothing
  rcases limit with full | isOver
  · rw [hits, List.length_nil] at full
    omega
  · have within : search.overLimit = false := by
      simp only [HistorySearch.overLimit, rows, bytes, Bool.or_eq_false_iff, decide_eq_false_iff_not]
      refine ⟨⟨?_, by decide⟩, by decide⟩
      rw [HISTORY_SEARCH_GROUP_SCAN_LIMIT]
      omega
    rw [within, nothing, List.length_nil, inTime] at isOver
    cases isOver

theorem finish_spec {search : HistorySearch} (running : Running collation history filter search)
    (unresumed : search.resume = none) (progress : search.examined ≠ [])
    (more : search.moreCandidates = !(groupsAfter collation history filter
      search.afterGroup).isEmpty) :
    (search.finish filter).records collation history filter snippetOf
        = search.records collation history filter snippetOf ∧
      (search.finish filter).sessions collation history filter snippetOf
        = search.sessions collation history filter snippetOf ∧
      Left collation history filter (search.finish filter) := by
  have before : search.left collation history filter
      = (none, groupsAfter collation history filter search.afterGroup) := by
    rw [HistorySearch.left, running.open_.1, running.open_.2, unresumed]
    rfl
  cases isMore : search.moreCandidates with
  | true =>
    have isFinish : search.finish filter
        = { search with nextState := some (cursorState filter search none) } := by
      rw [HistorySearch.finish, isMore]
      rfl
    have after : (search.finish filter).left collation history filter
        = (none, groupsAfter collation history filter search.afterGroup) := by
      rw [isFinish]
      rfl
    refine ⟨?_, ?_, ?_⟩
    · rw [HistorySearch.records, HistorySearch.records, before, after, isFinish]
    · rw [HistorySearch.sessions, HistorySearch.sessions, before, after, isFinish]
    · rw [isFinish]
      refine ⟨nofun, ?_⟩
      rintro state ⟨⟩
      exact ⟨⟨rfl, rfl, running.place, fun part isPart =>
        absurd isPart (Option.not_mem_none part)⟩, progress⟩
  | false =>
    have isFinish : search.finish filter = { search with exhausted := true } := by
      rw [HistorySearch.finish, isMore]
      rfl
    have empty : groupsAfter collation history filter search.afterGroup = [] := by
      rw [isMore, eq_comm, Bool.not_eq_false', List.isEmpty_iff] at more
      exact more
    have after : (search.finish filter).left collation history filter = (none, []) := by
      rw [isFinish, HistorySearch.left, running.open_.1]
      rfl
    refine ⟨?_, ?_, ?_⟩
    · rw [HistorySearch.records, HistorySearch.records, before, after, empty, isFinish]
    · rw [HistorySearch.sessions, HistorySearch.sessions, before, after, empty, isFinish]
    · rw [isFinish]
      refine ⟨fun _ => rfl, fun state isNext => ?_⟩
      rw [show search.nextState = none from running.open_.1] at isNext
      cases isNext

/-! ### The loops -/

include fits inTime positive in
/-- **The sessions of a batch.** -/
theorem searchGroups_spec (hasMore : Bool) (groups later : List HistorySearchGroupRow)
    (search : HistorySearch) (running : Running collation history filter search)
    (isGroups : groupsAfter collation history filter search.afterGroup = groups ++ later)
    (isMore : hasMore = !later.isEmpty) :
    let out := searchGroups history filter snippetOf clock pageSize hasMore groups search
    out.1.records collation history filter snippetOf = search.records collation history filter snippetOf
      ∧ out.1.sessions collation history filter snippetOf
        = search.sessions collation history filter snippetOf
      ∧ (out.2 = true → Left collation history filter out.1)
      ∧ (out.2 = false → Running collation history filter out.1 ∧
        groupsAfter collation history filter out.1.afterGroup = later ∧
        out.1.scannedGroups = search.scannedGroups + groups.length ∧
        (groups ≠ [] → out.1.moreCandidates = hasMore ∧ out.1.resume = none)) := by
  induction groups generalizing search with
  | nil =>
    intro out
    exact ⟨rfl, rfl, nofun, fun _ => ⟨running, isGroups, rfl, fun some => absurd rfl some⟩⟩
  | cons group rest ih =>
    intro out
    have listed : group ∈ historyGroups collation history filter :=
      running.place.suffix.subset (by
        rw [isGroups]
        exact List.mem_cons_self)
    obtain ⟨done, scans⟩ := @scans_searchHistoryGroup history filter
      snippetOf clock group (resumeAfter search.resume group)
      (HISTORY_SEARCH_ROW_SCAN_LIMIT - search.scannedRows)
      (HISTORY_SEARCH_CIPHERTEXT_BYTE_LIMIT - search.scannedBytes) search.ticks search.examined
    obtain ⟨result, isResult⟩ : ∃ result, result = nextResult history filter snippetOf clock search
      group := ⟨_, rfl⟩
    rw [show searchHistoryGroup history filter snippetOf clock group
      (resumeAfter search.resume group) (HISTORY_SEARCH_ROW_SCAN_LIMIT - search.scannedRows)
      (HISTORY_SEARCH_CIPHERTEXT_BYTE_LIMIT - search.scannedBytes) search.ticks search.examined
        = result from isResult.symm] at scans
    have isOut : out = searchGroups history filter snippetOf clock pageSize hasMore (group :: rest)
      search := rfl
    rw [searchGroups, show searchHistoryGroup history filter snippetOf clock group
      (resumeAfter search.resume group) (HISTORY_SEARCH_ROW_SCAN_LIMIT - search.scannedRows)
      (HISTORY_SEARCH_CIPHERTEXT_BYTE_LIMIT - search.scannedBytes) search.ticks search.examined
        = result from isResult.symm] at isOut
    cases complete : result.complete with
    | false =>
      simp only [complete, Bool.not_false, if_true] at isOut
      obtain ⟨records, sessions⟩ := left_unfinished running isGroups scans complete
      rw [isOut]
      refine ⟨records, sessions, fun _ => ?_, nofun⟩
      rw [isResult] at complete ⊢
      exact left_of_unfinished fits inTime running listed complete
    | true =>
      simp only [complete, Bool.not_true, Bool.false_eq_true, if_false] at isOut
      obtain ⟨records, sessions, isNext⟩ :=
        passed_whole running isGroups scans complete (!rest.isEmpty || hasMore)
      have going : Running collation history filter ((search.scanned group result).passed group
          result.snippet (!rest.isEmpty || hasMore)) := by
        rw [isResult]
        exact running_passed fits inTime running listed _
      obtain ⟨next, isNextState⟩ : ∃ next, next = (search.scanned group result).passed group
        result.snippet (!rest.isEmpty || hasMore) := ⟨_, rfl⟩
      have unresumed : next.resume = none := by
        rw [isNextState]
        rfl
      have more : next.moreCandidates = !(groupsAfter collation history filter
          next.afterGroup).isEmpty := by
        rw [isNextState, isNext]
        change (!rest.isEmpty || hasMore) = _
        rw [isMore]
        cases rest with
        | nil => rfl
        | cons => rfl
      have count : next.scannedGroups = search.scannedGroups + 1 := by
        rw [isNextState]
        rfl
      have isMoreNext : next.moreCandidates = (!rest.isEmpty || hasMore) := by
        rw [isNextState]
        rfl
      rw [← isNextState] at isOut records sessions isNext going
      have ticked : ∀ ticks, { next with ticks }.records collation history filter snippetOf
            = next.records collation history filter snippetOf ∧
          { next with ticks }.sessions collation history filter snippetOf
            = next.sessions collation history filter snippetOf := fun ticks => ⟨rfl, rfl⟩
      split at isOut
      case isTrue full =>
        obtain ⟨sameRecords, sameSessions, left⟩ := @finish_spec _ _ _ snippetOf _ going
          unresumed (examined_of_limit inTime positive going (.inl full)) more
        rw [isOut]
        exact ⟨sameRecords.trans records, sameSessions.trans sessions, fun _ => left, nofun⟩
      case isFalse =>
        split at isOut
        case isTrue isOver =>
          have progress := examined_of_limit inTime positive going (.inr isOver)
          obtain ⟨sameRecords, sameSessions, left⟩ := @finish_spec _ _ _ snippetOf _
            (going.tick (next.ticks + 1)) unresumed progress more
          rw [isOut]
          exact ⟨sameRecords.trans records, sameSessions.trans sessions, fun _ => left, nofun⟩
        case isFalse =>
          obtain ⟨sameRecords, sameSessions, left, goesOn⟩ :=
            ih { next with ticks := next.ticks + 1 } (going.tick _) isNext
          rw [isOut]
          refine ⟨sameRecords.trans records, sameSessions.trans sessions, left, fun stays => ?_⟩
          obtain ⟨isRunning, isLater, groups, last⟩ := goesOn stays
          refine ⟨isRunning, isLater, ?_, fun _ => ?_⟩
          · rw [groups, count, List.length_cons]
            omega
          · cases rest with
            | nil =>
              refine ⟨?_, unresumed⟩
              change next.moreCandidates = hasMore
              rw [isMoreNext]
              rfl
            | cons other rest => exact last nofun

include fits inTime positive in
/-- **The batches.** A search that did not end there has passed a session, and there are more. -/
theorem searchLoop_spec (turns : Nat) (search : HistorySearch)
    (running : Running collation history filter search)
    (enough : HISTORY_SEARCH_GROUP_SCAN_LIMIT ≤ turns + search.scannedGroups)
    (entered : search.moreCandidates = true ∧ search.resume = none ∨
      search.examined = [] ∧ search.scannedGroups = 0) :
    let out := searchLoop collation history filter snippetOf clock pageSize turns search
    out.records collation history filter snippetOf = search.records collation history filter snippetOf
      ∧ out.sessions collation history filter snippetOf
        = search.sessions collation history filter snippetOf
      ∧ (Left collation history filter out ∨ Running collation history filter out ∧
        out.moreCandidates = true ∧ out.resume = none ∧ out.examined ≠ []) := by
  induction turns generalizing search with
  | zero =>
    intro out
    rw [Nat.zero_add] at enough
    have progress : search.examined ≠ [] := fun nothing => by
      obtain ⟨-, -, -, groups, -⟩ := running.fresh nothing
      rw [HISTORY_SEARCH_GROUP_SCAN_LIMIT] at enough
      omega
    obtain ⟨more, unresumed⟩ := entered.resolve_right fun none => progress none.1
    exact ⟨rfl, rfl, .inr ⟨running, more, unresumed, progress⟩⟩
  | succ turns ih =>
    intro out
    have isOut : out = searchLoop collation history filter snippetOf clock pageSize (turns + 1) search :=
      rfl
    rw [searchLoop] at isOut
    split at isOut
    case isFalse outside =>
      have progress : search.examined ≠ [] := by
        refine examined_of_limit inTime positive running ?_
        by_cases full : pageSize ≤ search.hits.length
        · exact .inl full
        · refine .inr ?_
          by_contra within
          rw [Bool.not_eq_true, Bool.or_eq_false_iff, Bool.not_eq_false'] at within
          exact outside (by simp [Nat.lt_of_not_le full, within.1, within.2])
      obtain ⟨more, unresumed⟩ := entered.resolve_right fun none => progress none.1
      rw [isOut]
      exact ⟨rfl, rfl, .inr ⟨running.tick _, more, unresumed, progress⟩⟩
    case isTrue within =>
      have room : search.scannedGroups < HISTORY_SEARCH_GROUP_SCAN_LIMIT := by
        simp only [HistorySearch.overLimit, Bool.and_eq_true, Bool.not_eq_true',
          Bool.or_eq_false_iff, decide_eq_false_iff_not, decide_eq_true_eq] at within
        omega
      obtain ⟨size, isSize⟩ : ∃ size, size = min HISTORY_SEARCH_GROUP_BATCH_SIZE
        (HISTORY_SEARCH_GROUP_SCAN_LIMIT - search.scannedGroups) := ⟨_, rfl⟩
      obtain ⟨some_, isSome⟩ : ∃ some_, size = some_ + 1 := by
        rw [HISTORY_SEARCH_GROUP_BATCH_SIZE, HISTORY_SEARCH_GROUP_SCAN_LIMIT] at isSize
        rw [HISTORY_SEARCH_GROUP_SCAN_LIMIT] at room
        exact ⟨size - 1, by omega⟩
      simp only [← isSize, loadHistorySearchGroups_eq] at isOut
      split at isOut
      case isTrue none =>
        have empty : groupsAfter collation history filter search.afterGroup = [] := by
          rw [isSome, List.take_eq_nil_iff] at none
          exact none.resolve_left (by omega)
        have before : search.left collation history filter = (search.resume, []) := by
          rw [HistorySearch.left, running.open_.1, running.open_.2, empty]
          rfl
        have after : HistorySearch.left collation history filter
            { search with ticks := search.ticks + 1, exhausted := true } = (Option.none, []) := by
          rw [HistorySearch.left, running.open_.1]
          rfl
        rw [isOut]
        refine ⟨?_, ?_, .inl ⟨fun _ => rfl, fun state isNext => ?_⟩⟩
        · rw [HistorySearch.records, HistorySearch.records, before, after]
          rfl
        · rw [HistorySearch.sessions, HistorySearch.sessions, before, after]
          rfl
        · rw [show search.nextState = Option.none from running.open_.1] at isNext
          cases isNext
      case isFalse groups =>
        obtain ⟨batch, isBatch⟩ : ∃ batch, batch = { search with
          ticks := search.ticks + 1
          moreCandidates := decide (size < (groupsAfter collation history filter
            search.afterGroup).length) } := ⟨_, rfl⟩
        have isRunning : Running collation history filter batch := by
          rw [isBatch]
          exact ⟨running.place, running.resume, running.open_, running.fresh⟩
        have isMore : decide (size < (groupsAfter collation history filter search.afterGroup).length)
            = !((groupsAfter collation history filter search.afterGroup).drop size).isEmpty := by
          rw [Bool.eq_iff_iff, Bool.not_eq_true', List.isEmpty_eq_false_iff, ne_eq,
            List.drop_eq_nil_iff, decide_eq_true_eq, Nat.not_le]
        obtain ⟨records, sessions, left, goesOn⟩ := searchGroups_spec fits inTime positive _
          ((groupsAfter collation history filter search.afterGroup).take size)
          ((groupsAfter collation history filter search.afterGroup).drop size) batch isRunning
          (by
            rw [isBatch, List.take_append_drop]) isMore
        have sameRecords : batch.records collation history filter snippetOf
            = search.records collation history filter snippetOf := by
          rw [isBatch]
          rfl
        have sameSessions : batch.sessions collation history filter snippetOf
            = search.sessions collation history filter snippetOf := by
          rw [isBatch]
          rfl
        rw [← isBatch] at isOut
        obtain ⟨⟨next, leaves⟩, isNext⟩ : ∃ next, next = searchGroups history filter snippetOf clock
          pageSize (decide (size < (groupsAfter collation history filter search.afterGroup).length))
          ((groupsAfter collation history filter search.afterGroup).take size) batch := ⟨_, rfl⟩
        rw [← isNext] at isOut records sessions left goesOn
        split at isOut
        case isTrue leave =>
          rw [isOut]
          exact ⟨records.trans sameRecords, sessions.trans sameSessions, .inl (left leave)⟩
        case isFalse stay =>
          obtain ⟨goes, isLater, count, last⟩ := goesOn (Bool.eq_false_iff.mpr stay)
          obtain ⟨more, unresumed⟩ := last groups
          split at isOut
          case isTrue none =>
            have empty : groupsAfter collation history filter next.afterGroup = [] := by
              rw [isLater]
              rw [isMore, Bool.not_not, List.isEmpty_iff] at none
              exact none
            have before : next.left collation history filter = (Option.none, []) := by
              rw [HistorySearch.left, goes.open_.1, goes.open_.2, empty, unresumed]
              rfl
            have after : HistorySearch.left collation history filter
                { next with exhausted := true } = (Option.none, []) := by
              rw [HistorySearch.left, goes.open_.1]
              rfl
            rw [isOut]
            refine ⟨Eq.trans ?_ (records.trans sameRecords),
              Eq.trans ?_ (sessions.trans sameSessions), .inl ⟨fun _ => rfl, fun state isNext => ?_⟩⟩
            · rw [HistorySearch.records, HistorySearch.records, before, after]
            · rw [HistorySearch.sessions, HistorySearch.sessions, before, after]
            · rw [show next.nextState = Option.none from goes.open_.1] at isNext
              cases isNext
          case isFalse others =>
            have passed : 0 < ((groupsAfter collation history filter search.afterGroup).take
              size).length := List.length_pos_of_ne_nil groups
            have start : batch.scannedGroups = search.scannedGroups := by
              rw [isBatch]
            obtain ⟨records', sessions', ends⟩ := ih next goes
              (by
                rw [count, start]
                omega)
              (.inl ⟨by
                rw [more]
                simpa using others, unresumed⟩)
            rw [isOut]
            exact ⟨records'.trans (records.trans sameRecords),
              sessions'.trans (sessions.trans sameSessions), ends⟩

include fits inTime positive in
/-- **A request** leaves what it did not do to its cursor. -/
theorem searchHistory_spec (afterGroup : Option HistorySearchPosition)
    (resume : Option SearchResume) (place : IsPlace collation history filter afterGroup)
    (small : ∀ part ∈ resume, part.afterRecordId < 2 ^ 63) :
    let out := searchHistory collation history filter snippetOf clock pageSize afterGroup resume
    out.records collation history filter snippetOf
        = planOf history filter snippetOf resume (groupsAfter collation history filter afterGroup)
      ∧ out.sessions collation history filter snippetOf
        = hitsOf history filter snippetOf resume (groupsAfter collation history filter afterGroup)
      ∧ Left collation history filter out := by
  intro out
  have running : Running collation history filter (.start afterGroup resume) :=
    ⟨place, small, ⟨rfl, rfl⟩, fun _ => ⟨rfl, rfl, rfl, Nat.zero_le _, nofun⟩⟩
  obtain ⟨records, sessions, ends⟩ := @searchLoop_spec _ _ _ snippetOf _ _ fits inTime positive
    HISTORY_SEARCH_GROUP_SCAN_LIMIT _ running (Nat.le_add_right _ _) (.inr ⟨rfl, rfl⟩)
  obtain ⟨search, isSearch⟩ : ∃ search, search = searchLoop collation history filter snippetOf clock
    pageSize HISTORY_SEARCH_GROUP_SCAN_LIMIT (.start afterGroup resume) := ⟨_, rfl⟩
  have isOut : out = if !search.exhausted && search.nextState.isNone && search.moreCandidates then
      { search with nextState := some (cursorState filter search none) } else search := by
    rw [isSearch]
    rfl
  rw [← isSearch] at records sessions ends
  rcases ends with left | ⟨isRunning, more, unresumed, progress⟩
  · have same : out = search := by
      rw [isOut, if_neg]
      intro going
      simp only [Bool.and_eq_true, Bool.not_eq_true', Option.isNone_iff_eq_none] at going
      rw [left.ended going.1.2] at going
      cases going.1.1
    rw [same]
    exact ⟨records, sessions, left⟩
  · have goesOn : out = { search with nextState := some (cursorState filter search none) } := by
      rw [isOut, isRunning.open_.1, isRunning.open_.2, more]
      rfl
    have before : search.left collation history filter
        = (none, groupsAfter collation history filter search.afterGroup) := by
      rw [HistorySearch.left, isRunning.open_.1, isRunning.open_.2, unresumed]
      rfl
    have after : out.left collation history filter
        = (none, groupsAfter collation history filter search.afterGroup) := by
      rw [goesOn]
      rfl
    refine ⟨Eq.trans ?_ records, Eq.trans ?_ sessions, ?_⟩
    · rw [HistorySearch.records, HistorySearch.records, before, after, goesOn]
    · rw [HistorySearch.sessions, HistorySearch.sessions, before, after, goesOn]
    · rw [goesOn]
      refine ⟨nofun, ?_⟩
      rintro state ⟨⟩
      exact ⟨⟨rfl, rfl, isRunning.place, fun part isPart =>
        absurd isPart (Option.not_mem_none part)⟩, progress⟩

end Sessions

end Toard.History
