/-
**The prompt records of a user, and the sessions that a history search looks through
(`prompt-history.ts`).**

A session is the records under one session id; a record without one is a session of its own. The
sessions are listed by the time of their latest record and then by their key, both downwards.

* **`loadHistorySearchGroups_eq`**: behind a session of the list the query finds the sessions that
  follow it.
-/

import Toard.Library.Paging
import Toard.Server.IsoString
import Toard.Shim.PromptRecord

namespace Toard.History

open Toard.Library Toard.Server
open Toard.Shim (TurnRole)

/-! ### Records -/

/-- `encryption_scheme` -/
inductive EncryptionScheme where
  | serverV1
  | managedV1
  | e2eeV1
deriving DecidableEq

structure PromptRecord where
  id : Nat
  dedupKey : String
  sessionId : Option String
  providerKey : String
  turnRole : TurnRole
  ts : Date
  agentId : Option String
  encryptionScheme : EncryptionScheme
  keyVersion : Int
  contentKeyVersion : Option Int
  aadVersion : Option Int
  wrappedDek : List UInt8
  dekWrapIv : Option (List UInt8)
  dekWrapAuthTag : Option (List UInt8)
  iv : List UInt8
  ciphertext : List UInt8
  authTag : List UInt8
deriving DecidableEq

structure History where
  rows : List PromptRecord
  ordered : rows.Pairwise fun row later => row.id < later.id
  /-- The column is a `BIGINT`. -/
  small : ∀ row ∈ rows, row.id < 2 ^ 63

inductive AgentScope where
  | main
  | subagent
deriving DecidableEq

structure HistoryFilter where
  fromDate : Date
  toDate : Date
  providerKey : Option String
  agentScope : Option AgentScope
  searchRangeKey : Option String
deriving DecidableEq

/-- `COALESCE(session_id, dedup_key)` -/
def PromptRecord.gkey (row : PromptRecord) : String := row.sessionId.getD row.dedupKey

/-- `filterConds`; an empty provider is no condition. -/
def filterConds (filter : HistoryFilter) (row : PromptRecord) : Bool :=
  row.encryptionScheme != .e2eeV1 && decide (filter.fromDate.time ≤ row.ts.time) &&
    decide (row.ts.time < filter.toDate.time) &&
    (match filter.providerKey with
      | some key => key == "" || row.providerKey == key
      | none => true) &&
    (match filter.agentScope with
      | some .main => row.agentId.isNone
      | some .subagent => row.agentId.isSome
      | none => true)

/-! ### Sessions -/

structure Collation where
  le : String → String → Bool
  total : ∀ a b, le a b || le b a
  trans : ∀ a b c, le a b → le b c → le a c
  antisymm : ∀ a b, le a b → le b a → a = b

structure HistorySearchPosition where
  latestTs : Date
  key : String
deriving DecidableEq

structure HistorySearchGroupRow where
  gkey : String
  isSession : Bool
  providerKey : String
  turnCount : Nat
  firstTs : Date
  latestTs : Date
  subagentCount : Nat
  hasManagedContent : Bool
  hasLegacyContent : Bool
deriving DecidableEq

def searchPosition (group : HistorySearchGroupRow) : HistorySearchPosition where
  latestTs := group.latestTs
  key := group.gkey

variable (collation : Collation) (history : History) (filter : HistoryFilter)

def groupRows (key : String) : List PromptRecord :=
  history.rows.filter fun row => filterConds filter row && row.gkey == key

def groupOf (row : PromptRecord) (later : List PromptRecord) : HistorySearchGroupRow where
  gkey := row.gkey
  isSession := (row :: later).any fun row => row.sessionId.isSome
  providerKey := later.foldl (fun least row =>
    if collation.le least row.providerKey then least else row.providerKey) row.providerKey
  turnCount := (row :: later).length
  firstTs := later.foldl (fun first row => if row.ts.time < first.time then row.ts else first) row.ts
  latestTs := later.foldl (fun latest row =>
    if latest.time < row.ts.time then row.ts else latest) row.ts
  subagentCount := ((row :: later).filterMap PromptRecord.agentId).dedup.length
  hasManagedContent := (row :: later).any fun row => row.encryptionScheme == .managedV1
  hasLegacyContent := (row :: later).any fun row => row.encryptionScheme == .serverV1

def groupOfKey (key : String) : Option HistorySearchGroupRow :=
  match groupRows history filter key with
  | [] => none
  | row :: later => some (groupOf collation row later)

/-- Whether a position is reached, going down the list, no later than another. -/
def reaches (position other : HistorySearchPosition) : Bool :=
  decide (other.latestTs.time < position.latestTs.time) ||
    (other.latestTs == position.latestTs && collation.le other.key position.key)

/-- The sessions by `latest_ts DESC, gkey DESC`. -/
def historyGroups : List HistorySearchGroupRow :=
  (((history.rows.filter (filterConds filter)).map PromptRecord.gkey).dedup.filterMap
    (groupOfKey collation history filter)).insertionSort fun group other =>
      reaches collation (searchPosition group) (searchPosition other) = true

def afterCursor (cursor : HistorySearchPosition) (group : HistorySearchGroupRow) : Bool :=
  decide (group.latestTs.time < cursor.latestTs.time) ||
    (group.latestTs == cursor.latestTs && !collation.le cursor.key group.gkey)

def groupsAfter (cursor : Option HistorySearchPosition) : List HistorySearchGroupRow :=
  (historyGroups collation history filter).filter fun group =>
    match cursor with
    | none => true
    | some cursor => afterCursor collation cursor group

def loadHistorySearchGroups (cursor : Option HistorySearchPosition) (limit : Nat) :
    List HistorySearchGroupRow × Bool :=
  let rows := (groupsAfter collation history filter cursor).take (limit + 1)
  (rows.take limit, limit < rows.length)

def rowsFrom (key : String) (afterRecordId : Option Nat) : List PromptRecord :=
  (groupRows history filter key).filter fun row => afterRecordId.all fun id => id < row.id

def loadHistorySearchRows (key : String) (afterRecordId : Option Nat) (limit : Nat) :
    List PromptRecord :=
  (rowsFrom history filter key afterRecordId).take limit

/-! ### The order of the list -/

variable {collation history filter}

theorem reaches_trans {a b c : HistorySearchPosition} (ab : reaches collation a b = true)
    (bc : reaches collation b c = true) : reaches collation a c = true := by
  simp only [reaches, Bool.or_eq_true, Bool.and_eq_true, decide_eq_true_eq, beq_iff_eq] at *
  rcases ab with earlier | ⟨same, below⟩
  · rcases bc with earlier' | ⟨same', -⟩
    · exact .inl (by omega)
    · exact .inl (by rw [same']; exact earlier)
  · rcases bc with earlier' | ⟨same', below'⟩
    · exact .inl (by rw [← same]; exact earlier')
    · exact .inr ⟨same'.trans same, collation.trans _ _ _ below' below⟩

theorem reaches_total (a b : HistorySearchPosition) :
    (reaches collation a b || reaches collation b a) = true := by
  simp only [reaches, Bool.or_eq_true, Bool.and_eq_true, decide_eq_true_eq, beq_iff_eq]
  by_cases same : a.latestTs = b.latestTs
  · rcases Bool.or_eq_true _ _ ▸ collation.total a.key b.key with below | above
    · exact .inr (.inr ⟨same, below⟩)
    · exact .inl (.inr ⟨same.symm, above⟩)
  · have apart : a.latestTs.time ≠ b.latestTs.time := fun time => same (Date.ext time)
    rcases Int.lt_or_lt_of_ne apart with less | more
    · exact .inr (.inl less)
    · exact .inl (.inl more)

theorem reaches_self (a : HistorySearchPosition) : reaches collation a a = true := by
  have either := @reaches_total collation a a
  rwa [Bool.or_self] at either

theorem reaches_antisymm {a b : HistorySearchPosition} (ab : reaches collation a b = true)
    (ba : reaches collation b a = true) : a = b := by
  simp only [reaches, Bool.or_eq_true, Bool.and_eq_true, decide_eq_true_eq, beq_iff_eq] at ab ba
  rcases ab with earlier | ⟨same, below⟩
  · rcases ba with earlier' | ⟨same', -⟩
    · omega
    · rw [same'] at earlier
      omega
  · rcases ba with earlier' | ⟨-, below'⟩
    · rw [same] at earlier'
      omega
    · have keys := collation.antisymm _ _ below' below
      cases a
      cases b
      simp_all

theorem afterCursor_eq (cursor : HistorySearchPosition) (group : HistorySearchGroupRow) :
    afterCursor collation cursor group = !reaches collation (searchPosition group) cursor := by
  simp only [afterCursor, reaches, searchPosition]
  by_cases same : group.latestTs = cursor.latestTs
  · simp [same]
  · have apart : group.latestTs.time ≠ cursor.latestTs.time := fun time => same (Date.ext time)
    have other : (cursor.latestTs == group.latestTs) = false := by
      simpa using fun again => same again.symm
    rw [beq_eq_false_iff_ne.mpr same, other]
    simp only [Bool.false_and, Bool.or_false]
    by_cases less : group.latestTs.time < cursor.latestTs.time
    · simp [less, Int.lt_asymm less]
    · have more : cursor.latestTs.time < group.latestTs.time := by omega
      simp [less, more]

theorem gkey_of_groupOfKey {key : String} {group : HistorySearchGroupRow}
    (isGroup : groupOfKey collation history filter key = some group) : group.gkey = key := by
  unfold groupOfKey at isGroup
  split at isGroup
  · cases isGroup
  · next row later rows =>
    cases isGroup
    have among : row ∈ groupRows history filter key := by
      rw [rows]
      exact List.mem_cons_self
    have isKey := (List.mem_filter.mp among).2
    rw [Bool.and_eq_true, beq_iff_eq] at isKey
    exact isKey.2

theorem mem_historyGroups {group : HistorySearchGroupRow} :
    group ∈ historyGroups collation history filter ↔
      groupOfKey collation history filter group.gkey = some group := by
  rw [historyGroups, List.mem_insertionSort, List.mem_filterMap]
  constructor
  · rintro ⟨key, -, isGroup⟩
    rwa [gkey_of_groupOfKey isGroup]
  · intro isGroup
    refine ⟨group.gkey, ?_, isGroup⟩
    unfold groupOfKey at isGroup
    split at isGroup
    · cases isGroup
    · next row later rows =>
      have among : row ∈ groupRows history filter group.gkey := by
        rw [rows]
        exact List.mem_cons_self
      obtain ⟨isRow, isKey⟩ := List.mem_filter.mp among
      rw [Bool.and_eq_true, beq_iff_eq] at isKey
      rw [List.mem_dedup, ← isKey.2]
      exact List.mem_map_of_mem (List.mem_filter.mpr ⟨isRow, isKey.1⟩)

theorem groupRows_ne_nil {group : HistorySearchGroupRow}
    (listed : group ∈ historyGroups collation history filter) :
    groupRows history filter group.gkey ≠ [] := by
  intro empty
  have isGroup := mem_historyGroups.mp listed
  rw [groupOfKey, empty] at isGroup
  cases isGroup

/-- **A key is listed once.** -/
theorem nodup_gkeys : ((historyGroups collation history filter).map
    HistorySearchGroupRow.gkey).Nodup := by
  have distinct := List.nodup_dedup ((history.rows.filter (filterConds filter)).map
    PromptRecord.gkey)
  have groups : (((history.rows.filter (filterConds filter)).map PromptRecord.gkey).dedup.filterMap
      (groupOfKey collation history filter)).Nodup :=
    distinct.filterMap fun key other group isGroup isGroup' =>
      (gkey_of_groupOfKey isGroup).symm.trans (gkey_of_groupOfKey isGroup')
  have sorted : (historyGroups collation history filter).Nodup :=
    (List.perm_insertionSort _ _).nodup_iff.mpr groups
  refine sorted.map_on fun group listed other listed' same => ?_
  have isGroup := mem_historyGroups.mp listed
  rw [same, mem_historyGroups.mp listed'] at isGroup
  exact (Option.some.inj isGroup).symm

theorem historyGroups_sorted : (historyGroups collation history filter).Pairwise fun group other =>
    reaches collation (searchPosition group) (searchPosition other) = true :=
  haveI : Std.Total fun group other : HistorySearchGroupRow =>
      reaches collation (searchPosition group) (searchPosition other) = true :=
    ⟨fun _ _ => by simpa using reaches_total _ _⟩
  haveI : IsTrans HistorySearchGroupRow fun group other =>
      reaches collation (searchPosition group) (searchPosition other) = true :=
    ⟨fun _ _ _ => reaches_trans⟩
  List.pairwise_insertionSort _ _

/-! ### Cursors of the list -/

variable (collation history filter) in
/-- A cursor that is at the start of the list or at one of its sessions. -/
def IsPlace (cursor : Option HistorySearchPosition) : Prop :=
  ∀ position ∈ cursor, ∃ group ∈ historyGroups collation history filter,
    position = searchPosition group

theorem groupsAfter_none :
    groupsAfter collation history filter none = historyGroups collation history filter :=
  List.filter_eq_self.mpr fun _ _ => rfl

theorem groupsAfter_of_listed {before after : List HistorySearchGroupRow}
    {group : HistorySearchGroupRow}
    (listed : historyGroups collation history filter = before ++ group :: after) :
    groupsAfter collation history filter (some (searchPosition group)) = after := by
  have sorted := @historyGroups_sorted collation history filter
  have distinct := @nodup_gkeys collation history filter
  rw [listed] at sorted distinct
  have condition : ∀ other, afterCursor collation (searchPosition group) other
      = !reaches collation (searchPosition other) (searchPosition group) := afterCursor_eq _
  rw [groupsAfter, listed]
  simp only [condition]
  refine @filter_beyond _ (fun other group =>
    reaches collation (searchPosition other) (searchPosition group)) _ _ _ (reaches_self _) ?_ sorted
  intro other among reached back
  rw [List.map_append, List.map_cons] at distinct
  have apart := (List.nodup_cons.mp (List.nodup_append.mp distinct).2.1).1
  have same : group.gkey = other.gkey :=
    congrArg HistorySearchPosition.key (reaches_antisymm reached back)
  rw [same] at apart
  exact apart (List.mem_map_of_mem among)

theorem IsPlace.suffix {cursor : Option HistorySearchPosition}
    (isPlace : IsPlace collation history filter cursor) :
    groupsAfter collation history filter cursor <:+ historyGroups collation history filter := by
  cases cursor with
  | none =>
    rw [groupsAfter_none]
  | some position =>
    obtain ⟨group, among, rfl⟩ := isPlace position rfl
    obtain ⟨before, after, listed⟩ := List.append_of_mem among
    rw [groupsAfter_of_listed listed, listed]
    exact ⟨before ++ [group], by rw [List.append_assoc]; rfl⟩

theorem IsPlace.of_listed {group : HistorySearchGroupRow}
    (listed : group ∈ historyGroups collation history filter) :
    IsPlace collation history filter (some (searchPosition group)) := by
  rintro position ⟨⟩
  exact ⟨group, listed, rfl⟩

/-- **Going on behind a session**: the cursor of a session finds those that follow it. -/
theorem IsPlace.next {cursor : Option HistorySearchPosition}
    (isPlace : IsPlace collation history filter cursor) {before after : List HistorySearchGroupRow}
    {group : HistorySearchGroupRow}
    (isAfter : groupsAfter collation history filter cursor = before ++ group :: after) :
    IsPlace collation history filter (some (searchPosition group)) ∧
      groupsAfter collation history filter (some (searchPosition group)) = after := by
  obtain ⟨passed, listed⟩ := isPlace.suffix
  rw [isAfter, ← List.append_assoc] at listed
  refine ⟨IsPlace.of_listed ?_, groupsAfter_of_listed listed.symm⟩
  rw [← listed]
  exact List.mem_append_right _ List.mem_cons_self

theorem loadHistorySearchGroups_eq (cursor : Option HistorySearchPosition) (limit : Nat) :
    loadHistorySearchGroups collation history filter cursor limit
      = ((groupsAfter collation history filter cursor).take limit,
        decide (limit < (groupsAfter collation history filter cursor).length)) := by
  have first : (limit ⊓ (limit + 1)) = limit := by omega
  rw [loadHistorySearchGroups]
  simp only [List.take_take, first, List.length_take, Prod.mk.injEq, true_and, decide_eq_decide]
  omega

/-! ### Records behind an id -/

theorem groupRows_ordered (key : String) :
    (groupRows history filter key).Pairwise fun row later => row.id < later.id :=
  history.ordered.filter _

theorem rowsFrom_none (key : String) :
    rowsFrom history filter key none = groupRows history filter key :=
  List.filter_eq_self.mpr fun _ _ => rfl

theorem rowsFrom_of_append {key : String} {cursor : Option Nat} {before after : List PromptRecord}
    {row : PromptRecord} (rows : rowsFrom history filter key cursor = before ++ row :: after) :
    rowsFrom history filter key (some row.id) = after := by
  have ordered := (@groupRows_ordered history filter key).filter
    fun row => cursor.all fun id => id < row.id
  have beyond : rowsFrom history filter key (some row.id)
      = (rowsFrom history filter key cursor).filter fun later => decide (row.id < later.id) := by
    have among : row ∈ rowsFrom history filter key cursor := by
      rw [rows]
      exact List.mem_append_right _ List.mem_cons_self
    have isBehind := (List.mem_filter.mp among).2
    rw [rowsFrom, rowsFrom, List.filter_filter]
    refine List.filter_congr fun later _ => ?_
    cases cursor with
    | none => simp
    | some id =>
      simp only [Option.all_some, decide_eq_true_eq] at isBehind ⊢
      by_cases behind : row.id < later.id
      · simp [behind, isBehind.trans behind]
      · simp [behind]
  have flipped : ∀ later : PromptRecord, decide (row.id < later.id) = !decide (later.id ≤ row.id) :=
    fun later => by simp [← decide_not]
  rw [beyond, rows]
  simp only [flipped]
  rw [show (groupRows history filter key).filter (fun row => cursor.all fun id => id < row.id)
    = before ++ row :: after from rows] at ordered
  refine @filter_beyond _ (fun later row => decide (later.id ≤ row.id)) _ _ _ (by simp) ?_
    (ordered.imp fun less => by simpa using Nat.le_of_lt less)
  intro later among below above
  have less := (List.pairwise_cons.mp (List.pairwise_append.mp ordered).2.1).1 later among
  simp only [decide_eq_true_eq] at below above
  omega

end Toard.History
