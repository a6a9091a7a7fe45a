/-
**Following the cursors of a history search to the end.**

* **`historySearch_complete`**: the chain ends, whatever budgets run out; each session with a match
  comes once, each record up to the first match of its session is examined once, and no cursor
  comes twice.
* **`not_examinesAll`**: the records behind the first match of a session are not examined.
-/

import Toard.History.SearchSteps

namespace Toard.History

open Toard.Library Toard.Server
open Toard.Server.PromptWire (unitLength)

variable {Kek Key : Type}

/-! ### What is looked for -/

def Matches (setup : SearchSetup Kek Key) (query : JsString) (row : PromptRecord) : Prop :=
  ∃ plaintext, decryptHistoryRow setup.dependencies row = some plaintext ∧ plaintext ≠ [] ∧
    Contains setup.unicode plaintext query

theorem isSome_rowSnippet {setup : SearchSetup Kek Key} {query : JsString} (asked : query ≠ [])
    {row : PromptRecord} : (rowSnippet setup.unicode setup.dependencies query row).isSome ↔
      Matches setup query row := by
  have shows := fun text => @showsSnippet_iff setup.unicode text _ SNIPPET_LENGTH
    asked
  unfold rowSnippet Matches
  cases decryptHistoryRow setup.dependencies row with
  | none => simp
  | some plaintext =>
    by_cases empty : plaintext = []
    · simp [empty]
    · simp only [Option.some.injEq, exists_eq_left', ne_eq, empty, not_false_eq_true,
        true_and, ← shows]
      cases toHistorySearchSnippet setup.unicode plaintext query SNIPPET_LENGTH with
      | none => simp
      | some snippet =>
        by_cases blank : snippet = []
        · simp [blank]
        · simp [blank]

section Lists

variable {collation : Collation} {history : History} {filter : HistoryFilter}
  {snippetOf : PromptRecord → Option JsString}

theorem mem_groupRows {key : String} {row : PromptRecord} : row ∈ groupRows history filter key ↔
    row ∈ history.rows ∧ filterConds filter row = true ∧ row.gkey = key := by
  rw [groupRows, List.mem_filter, Bool.and_eq_true, beq_iff_eq]

theorem exists_listed {row : PromptRecord} (isRow : row ∈ history.rows)
    (admitted : filterConds filter row = true) :
    ∃ group ∈ historyGroups collation history filter, group.gkey = row.gkey := by
  have among : row ∈ groupRows history filter row.gkey := mem_groupRows.mpr ⟨isRow, admitted, rfl⟩
  cases rows : groupRows history filter row.gkey with
  | nil =>
    rw [rows] at among
    cases among
  | cons first later =>
    have isGroup : groupOfKey collation history filter row.gkey
        = some (groupOf collation first later) := by
      rw [groupOfKey, rows]
    have key := gkey_of_groupOfKey isGroup
    refine ⟨_, mem_historyGroups.mpr ?_, key⟩
    rw [key, isGroup]

theorem planOf_none (groups : List HistorySearchGroupRow) :
    planOf history filter snippetOf none groups
      = groups.flatMap fun group => (firstMatch snippetOf (groupRows history filter group.gkey)).1 := by
  induction groups with
  | nil => rfl
  | cons group rest ih => rw [planOf, ih, List.flatMap_cons, firstLeft, resumeAfter, rowsFrom_none]

theorem hitsOf_none (groups : List HistorySearchGroupRow) :
    hitsOf history filter snippetOf none groups
      = groups.flatMap fun group =>
        (firstMatch snippetOf (groupRows history filter group.gkey)).2.toList.map (group, ·) := by
  induction groups with
  | nil => rfl
  | cons group rest ih => rw [hitsOf, ih, List.flatMap_cons, firstLeft, resumeAfter, rowsFrom_none]

theorem admitted_of_mem_planOf {resume : Option SearchResume} {groups : List HistorySearchGroupRow}
    {row : PromptRecord} (among : row ∈ planOf history filter snippetOf resume groups) :
    filterConds filter row = true := by
  induction groups generalizing resume with
  | nil => cases among
  | cons group rest ih =>
    rcases List.mem_append.mp among with first | later
    · exact (mem_groupRows.mp (List.mem_of_mem_filter
        ((firstMatch_begins _).subset first))).2.1
    · exact ih later

theorem mem_plan {row : PromptRecord} :
    row ∈ planOf history filter snippetOf none (historyGroups collation history filter) ↔
      row ∈ history.rows ∧ filterConds filter row = true ∧
        ∀ earlier ∈ history.rows, filterConds filter earlier = true → earlier.gkey = row.gkey →
          earlier.id < row.id → snippetOf earlier = none := by
  rw [planOf_none, List.mem_flatMap]
  constructor
  · rintro ⟨group, -, among⟩
    obtain ⟨isRow, unmatched⟩ := (mem_firstMatch (groupRows_ordered _)).mp among
    obtain ⟨inHistory, admitted, key⟩ := mem_groupRows.mp isRow
    refine ⟨inHistory, admitted, fun earlier isEarlier admitted' same less => ?_⟩
    exact unmatched earlier (mem_groupRows.mpr ⟨isEarlier, admitted', same.trans key⟩) less
  · rintro ⟨inHistory, admitted, unmatched⟩
    obtain ⟨group, listed, key⟩ := @exists_listed collation _ _ _ inHistory admitted
    refine ⟨group, listed, (mem_firstMatch (groupRows_ordered _)).mpr
      ⟨mem_groupRows.mpr ⟨inHistory, admitted, key.symm⟩, fun earlier isEarlier less => ?_⟩⟩
    obtain ⟨isRow, admitted', key'⟩ := mem_groupRows.mp isEarlier
    exact unmatched earlier isRow admitted' (key'.trans key) less

theorem nodup_plan : (planOf history filter snippetOf none
    (historyGroups collation history filter)).Nodup := by
  rw [planOf_none, List.nodup_flatMap]
  refine ⟨fun group _ => ?_, ?_⟩
  · have distinct : (groupRows history filter group.gkey).Nodup :=
      (groupRows_ordered group.gkey).imp fun less same => by
        rw [same] at less
        exact Nat.lt_irrefl _ less
    exact distinct.sublist (firstMatch_begins _).sublist
  · have keys := List.pairwise_map.mp (@nodup_gkeys collation history filter)
    refine keys.imp fun apart row here there => ?_
    have key := (mem_groupRows.mp ((firstMatch_begins _).subset here)).2.2
    exact apart (key.symm.trans (mem_groupRows.mp ((firstMatch_begins _).subset there)).2.2)

theorem mem_hits {key : String} :
    key ∈ (hitsOf history filter snippetOf none (historyGroups collation history filter)).map
      (fun hit => hit.1.gkey) ↔ ∃ row ∈ history.rows, filterConds filter row = true ∧
        row.gkey = key ∧ (snippetOf row).isSome := by
  rw [hitsOf_none, List.map_flatMap, List.mem_flatMap]
  constructor
  · rintro ⟨group, -, among⟩
    rw [List.map_map] at among
    obtain ⟨snippet, shown, rfl⟩ := List.mem_map.mp among
    have found : (firstMatch snippetOf (groupRows history filter group.gkey)).2.isSome := by
      rw [Option.mem_toList.mp shown]
      rfl
    obtain ⟨row, isRow, matched⟩ := isSome_firstMatch.mp found
    obtain ⟨inHistory, admitted, isKey⟩ := mem_groupRows.mp isRow
    exact ⟨row, inHistory, admitted, isKey, matched⟩
  · rintro ⟨row, inHistory, admitted, rfl, matched⟩
    obtain ⟨group, listed, key⟩ := @exists_listed collation _ _ _ inHistory admitted
    have found := (@isSome_firstMatch snippetOf _).mpr
      ⟨row, mem_groupRows.mpr ⟨inHistory, admitted, key.symm⟩, matched⟩
    obtain ⟨snippet, shown⟩ := Option.isSome_iff_exists.mp found
    refine ⟨group, listed, ?_⟩
    rw [shown, ← key]
    exact List.mem_singleton.mpr rfl

theorem nodup_hits : ((hitsOf history filter snippetOf none (historyGroups collation history
    filter)).map fun hit => hit.1.gkey).Nodup := by
  have keys := @nodup_gkeys collation history filter
  refine keys.sublist ?_
  rw [hitsOf_none]
  induction historyGroups collation history filter with
  | nil => exact List.Sublist.slnil
  | cons group rest ih =>
    rw [List.flatMap_cons, List.map_append, List.map_cons]
    cases (firstMatch snippetOf (groupRows history filter group.gkey)).2 with
    | none => exact ih.cons _
    | some snippet => exact ih.cons_cons _

end Lists

/-! ### Cursors -/

theorem isRecordId_toString {id : Nat} (small : id < 2 ^ 63) : isRecordId (toString id) = true := by
  have chars : (toString id).toList = Nat.toDigits 10 id := by
    rw [Nat.toString_eq_repr, Nat.toList_repr]
  have short := (Nat.length_toDigits_le_iff (b := 10) (n := id) (k := 32) (by decide)
    (by decide)).mpr (by omega)
  have some_ : 0 < (Nat.toDigits 10 id).length := List.length_pos_of_ne_nil Nat.toDigits_ne_nil
  rw [isRecordId, chars]
  simp only [Bool.and_eq_true, List.all_eq_true, decide_eq_true_eq]
  exact ⟨⟨fun c among => Nat.isDigit_of_mem_toDigits (by decide) (by decide) among, some_⟩, short⟩

section Cursors

variable {collation : Collation} {history : History} {filter : HistoryFilter} {hmac : Hmac}
  (keys : ∀ row ∈ history.rows,
    1 ≤ unitLength row.gkey ∧ unitLength row.gkey ≤ MAX_CURSOR_KEY_LENGTH)

include keys in
theorem encodePosition_ok {group : HistorySearchGroupRow}
    (listed : group ∈ historyGroups collation history filter) :
    ∃ value, encodePosition (searchPosition group) = .ok value := by
  obtain ⟨row, isRow⟩ := List.exists_mem_of_ne_nil _ (groupRows_ne_nil listed)
  obtain ⟨inHistory, -, key⟩ := mem_groupRows.mp isRow
  obtain ⟨some_, short⟩ := keys row inHistory
  rw [key] at some_ short
  rw [encodePosition, if_neg]
  · exact ⟨_, rfl⟩
  · have positive : ¬ unitLength group.gkey = 0 := by omega
    have within : ¬ MAX_CURSOR_KEY_LENGTH < unitLength group.gkey := by omega
    rw [searchPosition, decide_eq_false positive, decide_eq_false within]
    decide

include keys in
theorem encode_ok {state : HistorySearchCursorState} {scope secret : String} (named : secret ≠ "")
    (apart : filter.fromDate.time < filter.toDate.time)
    (valid : ValidState collation history filter state) :
    ∃ cursor, encodeHistorySearchCursor hmac state scope secret = .ok cursor := by
  have after : ∃ value, encodeNullable encodePosition state.afterGroup = .ok value := by
    cases isAfter : state.afterGroup with
    | none => exact ⟨_, rfl⟩
    | some position =>
      obtain ⟨group, listed, rfl⟩ := valid.place position isAfter
      exact encodePosition_ok keys listed
  have resumed : ∃ value, encodeNullable encodeResume state.resume = .ok value := by
    cases isResume : state.resume with
    | none => exact ⟨_, rfl⟩
    | some resume =>
      obtain ⟨-, group, listed, same⟩ := valid.resume resume isResume
      obtain ⟨value, encoded⟩ := encodePosition_ok keys listed
      rw [encodeNullable, encodeResume, same, encoded]
      exact ⟨_, rfl⟩
  have isState : (decide (state.toDate.time ≤ state.fromDate.time) ||
      state.resume.any fun resume => !isRecordId (toString resume.afterRecordId)) = false := by
    rw [Bool.or_eq_false_iff, decide_eq_false_iff_not, Option.any_eq_false, valid.fromDate,
      valid.toDate]
    refine ⟨by omega, fun resume isResume => ?_⟩
    rw [isRecordId_toString (valid.resume resume isResume).1]
    decide
  obtain ⟨afterGroup, isAfter⟩ := after
  obtain ⟨resume, isResume⟩ := resumed
  rw [encodeHistorySearchCursor, if_neg named, if_neg (by rw [isState]; decide), isAfter, isResume]
  exact ⟨_, rfl⟩

end Cursors

/-! ### The chain of requests -/

section Chain

variable (setup : SearchSetup Kek Key) (history : History) (filter : HistoryFilter)
  (rawQuery : JsString) (cursorSecret : String) (pageSize : Int) (clocks : Nat → Clock)

def historySearchRequest (number : Nat) (cursor : Option String) :
    Except String (Page String PromptRecord HistorySessionSummary) :=
  (searchMyHistorySessions setup history filter rawQuery cursor cursorSecret pageSize
    (clocks number)).map fun answer => ⟨answer.2, answer.1.sessions, answer.1.nextCursor⟩

def stateOf (cursor : Option String) : Option HistorySearchCursorState :=
  match decodeHistorySearchCursor setup.hmac setup.toUtc cursor (setup.historySearchScope filter
    (normalizeHistorySearchQuery setup.unicode rawQuery) cursorSecret) cursorSecret with
  | .ok state => state
  | .error _ => none

/-- The cursors that a client can have: none, and those of this search. -/
def ValidCursor (cursor : Option String) : Prop :=
  decodeHistorySearchCursor setup.hmac setup.toUtc cursor (setup.historySearchScope filter
      (normalizeHistorySearchQuery setup.unicode rawQuery) cursorSecret) cursorSecret
    = .ok (stateOf setup filter rawQuery cursorSecret cursor) ∧
  ∀ state ∈ stateOf setup filter rawQuery cursorSecret cursor,
    ValidState setup.collation history filter state

def planAt (cursor : Option String) : List PromptRecord :=
  let state := (stateOf setup filter rawQuery cursorSecret cursor).getD
    ⟨filter.fromDate, filter.toDate, none, none⟩
  planOf history filter (rowSnippet setup.unicode setup.dependencies
    (normalizeHistorySearchQuery setup.unicode rawQuery)) state.resume
    (groupsAfter setup.collation history filter state.afterGroup)

def sessionsAt (cursor : Option String) : List HistorySessionSummary :=
  let state := (stateOf setup filter rawQuery cursorSecret cursor).getD
    ⟨filter.fromDate, filter.toDate, none, none⟩
  (hitsOf history filter (rowSnippet setup.unicode setup.dependencies
    (normalizeHistorySearchQuery setup.unicode rawQuery)) state.resume
    (groupsAfter setup.collation history filter state.afterGroup)).map summaryOf

def nextCursorOf (search : HistorySearch) : Except String (Option String) :=
  match search.nextState with
  | none => .ok none
  | some state => (encodeHistorySearchCursor setup.hmac state (setup.historySearchScope filter
      (normalizeHistorySearchQuery setup.unicode rawQuery) cursorSecret) cursorSecret).map some

def searchAt (number : Nat) (cursor : Option String) : HistorySearch :=
  let state := (stateOf setup filter rawQuery cursorSecret cursor).getD
    ⟨filter.fromDate, filter.toDate, none, none⟩
  searchHistory setup.collation history filter (rowSnippet setup.unicode setup.dependencies
    (normalizeHistorySearchQuery setup.unicode rawQuery)) (clocks number)
    (boundedPageSize pageSize) state.afterGroup state.resume

variable {setup history filter rawQuery cursorSecret pageSize clocks}

theorem boundedPageSize_pos (pageSize : Int) : 0 < boundedPageSize pageSize := by
  unfold boundedPageSize HISTORY_PAGE_SIZE_LIMIT
  omega

section Requests

variable (named : cursorSecret ≠ "")
  (asked : normalizeHistorySearchQuery setup.unicode rawQuery ≠ [])
  (enabled : setup.dependencies.runtime.isSome ∨ setup.dependencies.legacyKek.isSome)
  (fits : ∀ row ∈ history.rows,
    historySearchCipherBytes row ≤ HISTORY_SEARCH_CIPHERTEXT_BYTE_LIMIT)
  (keys : ∀ row ∈ history.rows,
    1 ≤ unitLength row.gkey ∧ unitLength row.gkey ≤ MAX_CURSOR_KEY_LENGTH)
  (inTime : ∀ number ticks, clocks number ticks 0 = true)

include named asked enabled in
theorem request_eq {number : Nat} {cursor : Option String}
    (valid : ValidCursor setup history filter rawQuery cursorSecret cursor) :
    historySearchRequest setup history filter rawQuery cursorSecret pageSize clocks number cursor
      = (nextCursorOf setup filter rawQuery cursorSecret (searchAt setup history filter rawQuery
          cursorSecret pageSize clocks number cursor)).map fun next =>
        ⟨(searchAt setup history filter rawQuery cursorSecret pageSize clocks number cursor).examined,
          (searchAt setup history filter rawQuery cursorSecret pageSize clocks number
            cursor).hits.map summaryOf, next⟩ := by
  obtain ⟨state, isState⟩ : ∃ state, state = (stateOf setup filter rawQuery cursorSecret cursor).getD
    ⟨filter.fromDate, filter.toDate, none, none⟩ := ⟨_, rfl⟩
  have dates : state.fromDate = filter.fromDate ∧ state.toDate = filter.toDate := by
    cases given : stateOf setup filter rawQuery cursorSecret cursor with
    | none =>
      rw [given] at isState
      rw [isState]
      exact ⟨rfl, rfl⟩
    | some other =>
      rw [given] at isState
      rw [isState]
      exact ⟨(valid.2 other given).fromDate, (valid.2 other given).toDate⟩
  have on : (setup.dependencies.runtime.isNone && setup.dependencies.legacyKek.isNone) = false := by
    rcases enabled with runtime | kek
    · simp [Option.isNone_eq_false_iff.mpr runtime]
    · simp [Option.isNone_eq_false_iff.mpr kek]
  rw [historySearchRequest, searchMyHistorySessions, if_neg named]
  simp only [on, Bool.false_eq_true, if_false, if_neg asked, valid.1, bind, Except.bind, searchAt,
    ← isState, dates.1, dates.2, nextCursorOf]
  have whole : ({ fromDate := filter.fromDate, toDate := filter.toDate, providerKey :=
      filter.providerKey, agentScope := filter.agentScope, searchRangeKey := filter.searchRangeKey } :
      HistoryFilter) = filter := rfl
  rw [whole]
  generalize searchHistory setup.collation history filter _ (clocks number)
    (boundedPageSize pageSize) state.afterGroup state.resume = search
  cases search.nextState with
  | none => rfl
  | some next =>
    dsimp only
    cases encodeHistorySearchCursor setup.hmac next (setup.historySearchScope filter
      (normalizeHistorySearchQuery setup.unicode rawQuery) cursorSecret) cursorSecret with
    | error error => rfl
    | ok text => rfl

include fits inTime in
theorem searchAt_spec (number : Nat) {cursor : Option String}
    (valid : ValidCursor setup history filter rawQuery cursorSecret cursor) :
    let search := searchAt setup history filter rawQuery cursorSecret pageSize clocks number cursor
    search.records setup.collation history filter (rowSnippet setup.unicode setup.dependencies
        (normalizeHistorySearchQuery setup.unicode rawQuery))
      = planAt setup history filter rawQuery cursorSecret cursor ∧
    (search.sessions setup.collation history filter (rowSnippet setup.unicode setup.dependencies
        (normalizeHistorySearchQuery setup.unicode rawQuery))).map summaryOf
      = sessionsAt setup history filter rawQuery cursorSecret cursor ∧
    Left setup.collation history filter search := by
  intro search
  obtain ⟨state, isState⟩ : ∃ state, state = (stateOf setup filter rawQuery cursorSecret cursor).getD
    ⟨filter.fromDate, filter.toDate, none, none⟩ := ⟨_, rfl⟩
  have isValid : IsPlace setup.collation history filter state.afterGroup ∧
      ∀ part ∈ state.resume, part.afterRecordId < 2 ^ 63 := by
    cases given : stateOf setup filter rawQuery cursorSecret cursor with
    | none =>
      rw [given] at isState
      rw [isState]
      exact ⟨fun position isPosition => absurd isPosition (Option.not_mem_none position),
        fun part isPart => absurd isPart (Option.not_mem_none part)⟩
    | some other =>
      rw [given] at isState
      rw [isState]
      exact ⟨(valid.2 other given).place, fun part isPart =>
        ((valid.2 other given).resume part isPart).1⟩
  obtain ⟨records, sessions, left⟩ := @searchHistory_spec setup.collation history filter
    (rowSnippet setup.unicode setup.dependencies (normalizeHistorySearchQuery setup.unicode rawQuery))
    _ _ fits (inTime number) (boundedPageSize_pos pageSize) state.afterGroup state.resume isValid.1 isValid.2
  have isSearch : search = searchHistory setup.collation history filter (rowSnippet setup.unicode
      setup.dependencies (normalizeHistorySearchQuery setup.unicode rawQuery)) (clocks number)
      (boundedPageSize pageSize) state.afterGroup state.resume := by
    rw [isState]
    rfl
  rw [isSearch]
  refine ⟨records.trans ?_, (congrArg _ sessions).trans ?_, left⟩
  · rw [isState]
    rfl
  · rw [isState]
    rfl

theorem stateOf_encode {state : HistorySearchCursorState} {cursor : String}
    (encoded : encodeHistorySearchCursor setup.hmac state (setup.historySearchScope filter
      (normalizeHistorySearchQuery setup.unicode rawQuery) cursorSecret) cursorSecret = .ok cursor) :
    stateOf setup filter rawQuery cursorSecret (some cursor) = some state := by
  rw [stateOf, decode_encode setup.toUtc encoded]

theorem left_eq {search : HistorySearch} {state : HistorySearchCursorState} {cursor : String}
    (isNext : search.nextState = some state)
    (encoded : encodeHistorySearchCursor setup.hmac state (setup.historySearchScope filter
      (normalizeHistorySearchQuery setup.unicode rawQuery) cursorSecret) cursorSecret = .ok cursor) :
    planOf history filter (rowSnippet setup.unicode setup.dependencies
        (normalizeHistorySearchQuery setup.unicode rawQuery))
        (search.left setup.collation history filter).1 (search.left setup.collation history filter).2
      = planAt setup history filter rawQuery cursorSecret (some cursor) ∧
    (hitsOf history filter (rowSnippet setup.unicode setup.dependencies
        (normalizeHistorySearchQuery setup.unicode rawQuery))
        (search.left setup.collation history filter).1
        (search.left setup.collation history filter).2).map summaryOf
      = sessionsAt setup history filter rawQuery cursorSecret (some cursor) := by
  have isLeft : search.left setup.collation history filter
      = (state.resume, groupsAfter setup.collation history filter state.afterGroup) := by
    rw [HistorySearch.left, isNext]
  rw [isLeft, planAt, sessionsAt, stateOf_encode encoded]
  exact ⟨rfl, rfl⟩

include named asked enabled fits keys inTime in
/-- **The requests are pages** of what is left at their cursors. -/
theorem paged_historySearch : Paged
    (historySearchRequest setup history filter rawQuery cursorSecret pageSize clocks)
    (ValidCursor setup history filter rawQuery cursorSecret)
    (planAt setup history filter rawQuery cursorSecret)
    (sessionsAt setup history filter rawQuery cursorSecret) := by
  have encodes : ∀ number cursor,
      ValidCursor setup history filter rawQuery cursorSecret cursor →
      ∀ state ∈ (searchAt setup history filter rawQuery cursorSecret pageSize clocks number
        cursor).nextState, ∃ text, encodeHistorySearchCursor setup.hmac state
          (setup.historySearchScope filter (normalizeHistorySearchQuery setup.unicode rawQuery)
            cursorSecret) cursorSecret = .ok text := by
    intro number cursor valid state isNext
    obtain ⟨records, -, left⟩ := @searchAt_spec _ _ _ _ _ _ _ pageSize _ fits inTime number _ valid
    obtain ⟨isValid, progress⟩ := left.next state isNext
    obtain ⟨row, examined⟩ := List.exists_mem_of_ne_nil _ progress
    have admitted : filterConds filter row = true := by
      have among : row ∈ planAt setup history filter rawQuery cursorSecret cursor := by
        rw [← records]
        exact List.mem_append_left _ examined
      exact admitted_of_mem_planOf among
    refine encode_ok keys named ?_ isValid
    simp only [filterConds, Bool.and_eq_true, decide_eq_true_eq] at admitted
    omega
  refine ⟨fun number cursor valid => ?_, fun number cursor page valid answered ended => ?_,
    fun number cursor page next valid answered given => ?_⟩
  · rw [request_eq named asked enabled valid, nextCursorOf]
    cases isNext : (searchAt setup history filter rawQuery cursorSecret pageSize clocks number
        cursor).nextState with
    | none => exact ⟨_, rfl⟩
    | some state =>
      obtain ⟨text, encoded⟩ := encodes number cursor valid state isNext
      dsimp only
      rw [encoded]
      exact ⟨_, rfl⟩
  · obtain ⟨records, sessions, left⟩ := @searchAt_spec _ _ _ _ _ _ _ pageSize _ fits inTime number _ valid
    rw [request_eq named asked enabled valid, nextCursorOf] at answered
    cases isNext : (searchAt setup history filter rawQuery cursorSecret pageSize clocks number
        cursor).nextState with
    | none =>
      simp only [isNext] at answered
      cases answered
      have nothing : (searchAt setup history filter rawQuery cursorSecret pageSize clocks number
          cursor).left setup.collation history filter = (none, []) := by
        rw [HistorySearch.left, isNext, left.ended isNext]
        rfl
      rw [← records, ← sessions, HistorySearch.records, HistorySearch.sessions, nothing]
      exact ⟨(List.append_nil _).symm, by rw [hitsOf, List.append_nil]⟩
    | some state =>
      obtain ⟨text, encoded⟩ := encodes number cursor valid state isNext
      simp only [isNext, encoded] at answered
      cases answered
      cases ended
  · obtain ⟨records, sessions, left⟩ := @searchAt_spec _ _ _ _ _ _ _ pageSize _ fits inTime number _ valid
    rw [request_eq named asked enabled valid, nextCursorOf] at answered
    cases isNext : (searchAt setup history filter rawQuery cursorSecret pageSize clocks number
        cursor).nextState with
    | none =>
      simp only [isNext] at answered
      cases answered
      cases given
    | some state =>
      obtain ⟨text, encoded⟩ := encodes number cursor valid state isNext
      simp only [isNext, encoded] at answered
      cases answered
      obtain rfl : text = next := Option.some.inj given
      obtain ⟨isValid, progress⟩ := left.next state isNext
      obtain ⟨plan, found⟩ := @left_eq _ _ _ history _ _ _ _ _ _ isNext encoded
      refine ⟨⟨?_, fun other isState => ?_⟩, progress, ?_, ?_⟩
      · rw [stateOf_encode encoded, decode_encode setup.toUtc encoded]
      · rw [stateOf_encode encoded] at isState
        obtain rfl : state = other := Option.some.inj isState
        exact isValid
      · rw [← plan, ← records]
        rfl
      · rw [← found, ← sessions, HistorySearch.sessions, List.map_append]

end Requests

/-- **The search is complete.** Following the cursors from the first request comes to an end,
however the requests run out of their budgets, as long as each examines a record before its
deadline. Each session with a match comes once, each record up to the first match of its session is
examined once, and no cursor comes twice. -/
theorem historySearch_complete (setup : SearchSetup Kek Key) (history : History)
    (filter : HistoryFilter) (rawQuery : JsString) (cursorSecret : String) (pageSize : Int)
    (clocks : Nat → Clock) (named : cursorSecret ≠ "")
    (asked : normalizeHistorySearchQuery setup.unicode rawQuery ≠ [])
    (enabled : setup.dependencies.runtime.isSome ∨ setup.dependencies.legacyKek.isSome)
    (fits : ∀ row ∈ history.rows,
      historySearchCipherBytes row ≤ HISTORY_SEARCH_CIPHERTEXT_BYTE_LIMIT)
    (keys : ∀ row ∈ history.rows,
      1 ≤ unitLength row.gkey ∧ unitLength row.gkey ≤ MAX_CURSOR_KEY_LENGTH)
    (inTime : ∀ number ticks, clocks number ticks 0 = true) :
    ∃ pages, Follows (historySearchRequest setup history filter rawQuery cursorSecret pageSize clocks)
        0 none pages ∧
      (∀ others, Follows (historySearchRequest setup history filter rawQuery cursorSecret pageSize
        clocks) 0 none others → others = pages) ∧
      ((pages.flatMap Page.reported).map HistorySessionSummary.key).Nodup ∧
      (∀ key, key ∈ (pages.flatMap Page.reported).map HistorySessionSummary.key ↔
        ∃ row ∈ history.rows, filterConds filter row = true ∧ row.gkey = key ∧
          Matches setup (normalizeHistorySearchQuery setup.unicode rawQuery) row) ∧
      (pages.flatMap Page.examined).Nodup ∧
      (∀ row, row ∈ pages.flatMap Page.examined ↔
        row ∈ history.rows ∧ filterConds filter row = true ∧
          ∀ earlier ∈ history.rows, filterConds filter earlier = true → earlier.gkey = row.gkey →
            earlier.id < row.id →
            ¬ Matches setup (normalizeHistorySearchQuery setup.unicode rawQuery) earlier) ∧
      (pages.filterMap Page.next).Nodup := by
  have first : stateOf setup filter rawQuery cursorSecret none = none := rfl
  have valid : ValidCursor setup history filter rawQuery cursorSecret none :=
    ⟨rfl, fun state isState => by
      rw [first] at isState
      cases isState⟩
  obtain ⟨pages, follows, examined, reported, distinct, -⟩ :=
    (@paged_historySearch _ _ _ _ _ _ _ pageSize _ named asked enabled fits keys
      inTime).exists_follows 0 none valid
  have plan : planAt setup history filter rawQuery cursorSecret none
      = planOf history filter (rowSnippet setup.unicode setup.dependencies
          (normalizeHistorySearchQuery setup.unicode rawQuery)) none
        (historyGroups setup.collation history filter) := by
    rw [planAt, first, ← groupsAfter_none]
    rfl
  have found : (sessionsAt setup history filter rawQuery cursorSecret none).map
      HistorySessionSummary.key
        = (hitsOf history filter (rowSnippet setup.unicode setup.dependencies
          (normalizeHistorySearchQuery setup.unicode rawQuery)) none
          (historyGroups setup.collation history filter)).map fun hit => hit.1.gkey := by
    rw [sessionsAt, first, ← groupsAfter_none, List.map_map]
    rfl
  have unmatched : ∀ row, rowSnippet setup.unicode setup.dependencies
      (normalizeHistorySearchQuery setup.unicode rawQuery) row = none ↔
        ¬ Matches setup (normalizeHistorySearchQuery setup.unicode rawQuery) row := fun row => by
    rw [← isSome_rowSnippet asked, Option.not_isSome_iff_eq_none]
  refine ⟨pages, follows, fun others other => other.unique follows, ?_, fun key => ?_, ?_,
    fun row => ?_, distinct⟩
  · rw [reported, found]
    exact nodup_hits
  · rw [reported, found, mem_hits]
    simp only [isSome_rowSnippet asked]
  · rw [examined, plan]
    exact nodup_plan
  · rw [examined, plan, mem_plan]
    simp only [unmatched]

end Chain

/-! ### A session of two turns -/

def textCollation : Collation where
  le a b := decide (a ≤ b)
  total a b := by simpa using le_total a b
  trans a b c ab bc := by
    rw [decide_eq_true_eq] at *
    exact ab.trans bc
  antisymm a b ab ba := by
    rw [decide_eq_true_eq] at *
    exact ab.antisymm ba

def plainSetup : SearchSetup Unit Unit where
  collation := textCollation
  unicode := ⟨id, id, rfl⟩
  hmac := ⟨fun _ _ => List.replicate 32 0, fun _ _ => rfl⟩
  toUtc := id
  dependencies := ⟨some (), fun row _ => some (row.ciphertext.map UInt8.toUInt16), none⟩
  historySearchScope := fun _ _ _ => "scope"

def plainRow (id : Nat) (text : List UInt8) : PromptRecord where
  id := id
  dedupKey := toString id
  sessionId := some "s"
  providerKey := "codex"
  turnRole := .user
  ts := ⟨500, by decide⟩
  agentId := none
  encryptionScheme := .serverV1
  keyVersion := 1
  contentKeyVersion := none
  aadVersion := none
  wrappedDek := []
  dekWrapIv := none
  dekWrapAuthTag := none
  iv := []
  ciphertext := text
  authTag := []

/-- Two turns, of which the first contains the letter `a`. -/
def twoTurns : History where
  rows := [plainRow 1 [97], plainRow 2 [98]]
  ordered := by decide
  small := by decide

def firstSecond : HistoryFilter where
  fromDate := ⟨0, by decide⟩
  toDate := ⟨1000, by decide⟩
  providerKey := none
  agentScope := none
  searchRangeKey := none

theorem historySearch_complete_twoTurns : ∃ pages,
    Follows (historySearchRequest plainSetup twoTurns firstSecond [97] "secret" 20
      fun _ _ examined => examined < 1) 0 none pages ∧
    "s" ∈ (pages.flatMap Page.reported).map HistorySessionSummary.key ∧
    (pages.filterMap Page.next).Nodup := by
  obtain ⟨pages, follows, -, -, found, -, -, distinct⟩ := historySearch_complete plainSetup twoTurns
    firstSecond [97] "secret" 20 (fun _ _ examined => examined < 1) (by decide) (by decide)
    (.inr rfl) (by decide) (by decide) (fun _ _ => rfl)
  refine ⟨pages, follows, (found "s").mpr ⟨plainRow 1 [97], List.mem_cons_self, by decide, rfl, ?_⟩,
    distinct⟩
  exact ⟨[97], rfl, by decide, by decide⟩

/-- **Not every record is examined**: the session is left at its first match. -/
theorem not_examinesAll : ∃ pages,
    Follows (historySearchRequest plainSetup twoTurns firstSecond [97] "secret" 20
      fun _ _ _ => true) 0 none pages ∧
    ∃ row ∈ twoTurns.rows, filterConds firstSecond row = true ∧
      row ∉ pages.flatMap Page.examined := by
  have answered : historySearchRequest plainSetup twoTurns firstSecond [97] "secret" 20
      (fun _ _ _ => true) 0 none = .ok ⟨[plainRow 1 [97]],
        [⟨"s", true, "codex", [97], 2, ⟨500, by decide⟩, ⟨500, by decide⟩, 0⟩], none⟩ := by
    decide
  refine ⟨_, .last answered rfl, plainRow 2 [98], ?_, by decide, by decide⟩
  exact List.mem_cons_of_mem _ List.mem_cons_self

end Toard.History
