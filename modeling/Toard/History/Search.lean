/-
**Searching the history of a user (`searchMyHistorySessions`).**

A request goes down the list of sessions and decrypts the records of each, in chunks, up to the
first one that contains the query. It ends when its page is full or one of its budgets is used up:
sessions, records, bytes and time. Then the cursor says behind which session the next request goes
on, and in a session that was left unfinished behind which record.
-/

import Toard.History.Cursor
import Toard.History.Snippet

namespace Toard.History

open Toard.Library Toard.Server

def HISTORY_PAGE_SIZE_LIMIT : Nat := 20
def HISTORY_SEARCH_GROUP_BATCH_SIZE : Nat := 20
def HISTORY_SEARCH_GROUP_SCAN_LIMIT : Nat := 20
def HISTORY_SEARCH_ROW_CHUNK_SIZE : Nat := 25
def HISTORY_SEARCH_ROW_SCAN_LIMIT : Nat := 500
def HISTORY_SEARCH_CIPHERTEXT_BYTE_LIMIT : Nat := 16 * 1024 * 1024

def SNIPPET_LENGTH : Nat := 220

/-! ### Decrypting -/

structure ManagedContentRuntime (Key : Type) where
  withUserKeyVersion : Int → Option Key
  decryptManagedContent : PromptRecord → Key → Option JsString

structure HistoryDependencies (Kek Key : Type) where
  legacyKek : Option Kek
  decryptContent : PromptRecord → Kek → Option JsString
  runtime : Option (ManagedContentRuntime Key)

variable {Kek Key : Type}

/-- What `decryptHistoryRows` makes of a record. -/
def decryptHistoryRow (dependencies : HistoryDependencies Kek Key) (row : PromptRecord) :
    Option JsString :=
  match row.encryptionScheme with
  | .serverV1 => dependencies.legacyKek.bind (dependencies.decryptContent row)
  | .managedV1 =>
    match dependencies.runtime, row.contentKeyVersion with
    | some runtime, some keyVersion =>
      if keyVersion < 1 || Shim.maxSafeInteger < keyVersion || row.aadVersion != some 2 ||
          row.dekWrapIv.isNone || row.dekWrapAuthTag.isNone then none
      else (runtime.withUserKeyVersion keyVersion).bind (runtime.decryptManagedContent row)
    | _, _ => none
  | .e2eeV1 => none

def historySearchCipherBytes (row : PromptRecord) : Nat :=
  row.ciphertext.length + row.wrappedDek.length + row.iv.length + row.authTag.length
    + (row.dekWrapIv.map List.length).getD 0 + (row.dekWrapAuthTag.map List.length).getD 0

def rowSnippet (unicode : Unicode) (dependencies : HistoryDependencies Kek Key) (query : JsString)
    (row : PromptRecord) : Option JsString :=
  match decryptHistoryRow dependencies row with
  | none => none
  | some plaintext =>
    if plaintext = [] then none
    else
      match toHistorySearchSnippet unicode plaintext query SNIPPET_LENGTH with
      | none => none
      | some snippet => if snippet = [] then none else some snippet

/-! ### One session -/

/-- Whether there is time left, at a reading of the clock and with so many records examined. -/
abbrev Clock := Nat → Nat → Bool

def selectRows (byteBudget : Nat) : Nat → List PromptRecord → List PromptRecord × Nat
  | scannedBytes, [] => ([], scannedBytes)
  | scannedBytes, row :: rest =>
    if byteBudget < scannedBytes + historySearchCipherBytes row then ([], scannedBytes)
    else
      let (selected, bytes) := selectRows byteBudget (scannedBytes + historySearchCipherBytes row) rest
      (row :: selected, bytes)

theorem selectRows_begins (byteBudget scannedBytes : Nat) (rows : List PromptRecord) :
    (selectRows byteBudget scannedBytes rows).1 <+: rows := by
  induction rows generalizing scannedBytes with
  | nil => exact List.prefix_rfl
  | cons row rows ih =>
    rw [selectRows]
    split
    · exact List.nil_prefix
    · exact List.cons_prefix_cons.mpr ⟨rfl, ih _⟩

def firstMatch (snippetOf : PromptRecord → Option JsString) :
    List PromptRecord → List PromptRecord × Option JsString
  | [] => ([], none)
  | row :: rest =>
    match snippetOf row with
    | some snippet => ([row], some snippet)
    | none =>
      let (examined, snippet) := firstMatch snippetOf rest
      (row :: examined, snippet)

theorem firstMatch_append {snippetOf : PromptRecord → Option JsString}
    (rows later : List PromptRecord) :
    firstMatch snippetOf (rows ++ later)
      = if (firstMatch snippetOf rows).2.isSome then firstMatch snippetOf rows
        else (rows ++ (firstMatch snippetOf later).1, (firstMatch snippetOf later).2) := by
  induction rows with
  | nil => rfl
  | cons row rows ih =>
    cases shown : snippetOf row with
    | some snippet => simp [firstMatch, shown]
    | none =>
      simp only [List.cons_append, firstMatch, shown, ih]
      split <;> rfl

/-- Where the scan of a session is: its variables, the readings of the clock so far, and all
records that the request examined. -/
structure GroupScan where
  afterRecordId : Option Nat
  scannedRows : Nat
  scannedBytes : Nat
  ticks : Nat
  examined : List PromptRecord

structure HistoryGroupSearchResult where
  snippet : Option JsString
  complete : Bool
  scan : GroupScan

section Group

variable (history : History) (filter : HistoryFilter) (snippetOf : PromptRecord → Option JsString)
  (clock : Clock)

/-- The loop over the chunks of a session. Each turn scans a row, so that the row budget bounds the
turns: without any left, it is used up. -/
def scanGroup (key : String) (rowBudget byteBudget : Nat) : Nat → GroupScan →
    HistoryGroupSearchResult
  | 0, scan => ⟨none, false, scan⟩
  | turns + 1, scan =>
    if scan.scannedRows < rowBudget && scan.scannedBytes < byteBudget &&
        clock scan.ticks scan.examined.length then
      let chunkLimit := min HISTORY_SEARCH_ROW_CHUNK_SIZE (rowBudget - scan.scannedRows)
      let rows := loadHistorySearchRows history filter key scan.afterRecordId chunkLimit
      if rows = [] then ⟨none, true, { scan with ticks := scan.ticks + 1 }⟩
      else
        let (selected, scannedBytes) := selectRows byteBudget scan.scannedBytes rows
        if selected = [] then ⟨none, false, { scan with scannedBytes, ticks := scan.ticks + 1 }⟩
        else
          let (examined, snippet) := firstMatch snippetOf selected
          let scan := {
            afterRecordId := (examined.getLast?.map PromptRecord.id).or scan.afterRecordId
            scannedRows := scan.scannedRows + selected.length
            scannedBytes
            ticks := scan.ticks + 1
            examined := scan.examined ++ examined }
          if snippet.isSome then ⟨snippet, true, scan⟩
          else if selected.length < rows.length then ⟨none, false, scan⟩
          else if rows.length < chunkLimit then ⟨none, true, scan⟩
          else scanGroup key rowBudget byteBudget turns scan
    else ⟨none, false, { scan with ticks := scan.ticks + 1 }⟩

def searchHistoryGroup (group : HistorySearchGroupRow) (initialAfterRecordId : Option Nat)
    (rowBudget byteBudget : Nat) (ticks : Nat) (examined : List PromptRecord) :
    HistoryGroupSearchResult :=
  scanGroup history filter snippetOf clock group.gkey rowBudget byteBudget rowBudget
    ⟨initialAfterRecordId, 0, 0, ticks, examined⟩

end Group

/-! ### The list of sessions -/

structure HistorySearch where
  afterGroup : Option HistorySearchPosition
  resume : Option SearchResume
  nextState : Option HistorySearchCursorState
  exhausted : Bool
  moreCandidates : Bool
  scannedGroups : Nat
  scannedRows : Nat
  scannedBytes : Nat
  hasManagedContent : Bool
  hasLegacyContent : Bool
  hits : List (HistorySearchGroupRow × JsString)
  ticks : Nat
  examined : List PromptRecord

def HistorySearch.start (afterGroup : Option HistorySearchPosition) (resume : Option SearchResume) :
    HistorySearch :=
  ⟨afterGroup, resume, none, false, false, 0, 0, 0, false, false, [], 0, []⟩

def resumeAfter (resume : Option SearchResume) (group : HistorySearchGroupRow) : Option Nat :=
  match resume with
  | some resume =>
    if resume.group.key == group.gkey && resume.group.latestTs.time == group.latestTs.time then
      some resume.afterRecordId
    else none
  | none => none

section Sessions

variable (collation : Collation) (history : History) (filter : HistoryFilter)
  (snippetOf : PromptRecord → Option JsString) (clock : Clock) (pageSize : Nat)

def cursorState (search : HistorySearch) (resume : Option SearchResume) :
    HistorySearchCursorState where
  fromDate := filter.fromDate
  toDate := filter.toDate
  afterGroup := search.afterGroup
  resume := resume

def HistorySearch.finish (search : HistorySearch) : HistorySearch :=
  if search.moreCandidates then { search with nextState := some (cursorState filter search none) }
  else { search with exhausted := true }

def HistorySearch.overLimit (search : HistorySearch) : Bool :=
  decide (HISTORY_SEARCH_GROUP_SCAN_LIMIT ≤ search.scannedGroups) ||
    decide (HISTORY_SEARCH_ROW_SCAN_LIMIT ≤ search.scannedRows) ||
    decide (HISTORY_SEARCH_CIPHERTEXT_BYTE_LIMIT ≤ search.scannedBytes)

def HistorySearch.scanned (search : HistorySearch) (group : HistorySearchGroupRow)
    (result : HistoryGroupSearchResult) : HistorySearch :=
  { search with
    resume := none
    scannedRows := search.scannedRows + result.scan.scannedRows
    scannedBytes := search.scannedBytes + result.scan.scannedBytes
    hasManagedContent := search.hasManagedContent || group.hasManagedContent
    hasLegacyContent := search.hasLegacyContent || group.hasLegacyContent
    ticks := result.scan.ticks
    examined := result.scan.examined }

def HistorySearch.passed (search : HistorySearch) (group : HistorySearchGroupRow)
    (snippet : Option JsString) (moreCandidates : Bool) : HistorySearch :=
  { search with
    afterGroup := some (searchPosition group)
    scannedGroups := search.scannedGroups + 1
    hits := search.hits ++ snippet.toList.map (group, ·)
    moreCandidates }

/-- The sessions of a batch; the flag says that the loop around it is left. -/
def searchGroups (hasMore : Bool) : List HistorySearchGroupRow → HistorySearch → HistorySearch × Bool
  | [], search => (search, false)
  | group :: rest, search =>
    let result := searchHistoryGroup history filter snippetOf clock group
      (resumeAfter search.resume group) (HISTORY_SEARCH_ROW_SCAN_LIMIT - search.scannedRows)
      (HISTORY_SEARCH_CIPHERTEXT_BYTE_LIMIT - search.scannedBytes) search.ticks search.examined
    let search := search.scanned group result
    if !result.complete then
      ({ search with nextState := some (cursorState filter search
          (result.scan.afterRecordId.map fun id => ⟨searchPosition group, id⟩)) }, true)
    else
      let search := search.passed group result.snippet (!rest.isEmpty || hasMore)
      if pageSize ≤ search.hits.length then (search.finish filter, true)
      else if search.overLimit || !clock search.ticks search.examined.length then
        ({ search with ticks := search.ticks + 1 }.finish filter, true)
      else searchGroups hasMore rest { search with ticks := search.ticks + 1 }

/-- The loop over the batches. Each turn passes a session, so that the group limit bounds the
turns: without any left, it is reached. -/
def searchLoop : Nat → HistorySearch → HistorySearch
  | 0, search => search
  | turns + 1, search =>
    if search.hits.length < pageSize && !search.overLimit &&
        clock search.ticks search.examined.length then
      let search := { search with ticks := search.ticks + 1 }
      let batchSize := min HISTORY_SEARCH_GROUP_BATCH_SIZE
        (HISTORY_SEARCH_GROUP_SCAN_LIMIT - search.scannedGroups)
      let (groups, hasMore) :=
        loadHistorySearchGroups collation history filter search.afterGroup batchSize
      if groups = [] then { search with exhausted := true }
      else
        let (search, left) := searchGroups history filter snippetOf clock pageSize hasMore groups
          { search with moreCandidates := hasMore }
        if left then search
        else if !hasMore then { search with exhausted := true }
        else searchLoop turns search
    else { search with ticks := search.ticks + 1 }

/-- A request from a session on, and its cursor at the end of the loop. -/
def searchHistory (afterGroup : Option HistorySearchPosition) (resume : Option SearchResume) :
    HistorySearch :=
  let search := searchLoop collation history filter snippetOf clock pageSize
    HISTORY_SEARCH_GROUP_SCAN_LIMIT (.start afterGroup resume)
  if !search.exhausted && search.nextState.isNone && search.moreCandidates then
    { search with nextState := some (cursorState filter search none) }
  else search

end Sessions

/-! ### The request -/

structure HistorySessionSummary where
  key : String
  isSession : Bool
  providerKey : String
  preview : JsString
  turnCount : Nat
  firstTs : Date
  latestTs : Date
  subagentCount : Nat
deriving DecidableEq

structure HistorySearchPage where
  enabled : Bool
  hasManagedContent : Bool
  hasLegacyContent : Bool
  sessions : List HistorySessionSummary
  nextCursor : Option String
deriving DecidableEq

def summaryOf (hit : HistorySearchGroupRow × JsString) : HistorySessionSummary where
  key := hit.1.gkey
  isSession := hit.1.isSession
  providerKey := hit.1.providerKey
  preview := hit.2
  turnCount := hit.1.turnCount
  firstTs := hit.1.firstTs
  latestTs := hit.1.latestTs
  subagentCount := hit.1.subagentCount

/-- `boundedPageSize`; a page size of zero is none. -/
def boundedPageSize (pageSize : Int) : Nat :=
  min HISTORY_PAGE_SIZE_LIMIT
    (max 1 (if pageSize = 0 then (HISTORY_PAGE_SIZE_LIMIT : Int) else pageSize).toNat)

/-- What the search of one user is run with. The scope binds a cursor to the user, the filter and the
query; it is an HMAC of them. -/
structure SearchSetup (Kek Key : Type) where
  collation : Collation
  unicode : Unicode
  hmac : Hmac
  toUtc : Int → Int
  dependencies : HistoryDependencies Kek Key
  historySearchScope : HistoryFilter → JsString → String → String

variable (setup : SearchSetup Kek Key)

def searchMyHistorySessions (history : History) (filter : HistoryFilter) (rawQuery : JsString)
    (cursor : Option String) (cursorSecret : String) (pageSize : Int) (clock : Clock) :
    Except String (HistorySearchPage × List PromptRecord) :=
  if cursorSecret = "" then .error "HISTORY_SEARCH_CURSOR_SECRET_MISSING"
  else
    let query := normalizeHistorySearchQuery setup.unicode rawQuery
    if setup.dependencies.runtime.isNone && setup.dependencies.legacyKek.isNone then
      .ok (⟨false, false, false, [], none⟩, [])
    else if query = [] then .ok (⟨true, false, false, [], none⟩, [])
    else do
      let scope := setup.historySearchScope filter query cursorSecret
      let decodedCursor ←
        decodeHistorySearchCursor setup.hmac setup.toUtc cursor scope cursorSecret
      let initialState := decodedCursor.getD ⟨filter.fromDate, filter.toDate, none, none⟩
      let effectiveFilter :=
        { filter with fromDate := initialState.fromDate, toDate := initialState.toDate }
      let search := searchHistory setup.collation history effectiveFilter
        (rowSnippet setup.unicode setup.dependencies query) clock (boundedPageSize pageSize)
        initialState.afterGroup initialState.resume
      let nextCursor ← match search.nextState with
        | none => .ok none
        | some state => (encodeHistorySearchCursor setup.hmac state scope cursorSecret).map some
      return ({ enabled := true
                hasManagedContent := search.hasManagedContent
                hasLegacyContent := search.hasLegacyContent
                sessions := search.hits.map summaryOf
                nextCursor }, search.examined)

end Toard.History
