/-
**Tables under transactions that read what is committed.**

A row has its committed version, and at most one transaction that holds it (it has written the row,
or selected it for update) together with the version that its commit will leave. Nobody else
writes a row that is held, a transaction sees its own versions and what is committed, and a commit
or a rollback lets all its rows go at once.

* `Table` with `insert`, `write`, `commit` and `rollback`, each for one transaction.
* `Kept`: what a transaction relies on: no other one touches a row that it holds.
* `Entry`, `Unique`: the entries of a unique index, those of uncommitted rows included.
-/

import Mathlib.Data.List.Basic

namespace Toard.Library

/-- The rows of a table, by the number of their insertion. -/
structure Table (Row : Type) where
  count : Nat
  rows : Nat → Option Row
  /-- Who holds a row, and what its commit leaves of it. -/
  draft : Nat → Option (Nat × Option Row)
  beyond : ∀ id, count ≤ id → rows id = none ∧ draft id = none

namespace Table

variable {Row : Type}

def empty : Table Row := ⟨0, fun _ => none, fun _ => none, fun _ _ => ⟨rfl, rfl⟩⟩

/-- A row as a transaction sees it. -/
def seen (table : Table Row) (process id : Nat) : Option Row :=
  match table.draft id with
  | some (holder, row) => if holder = process then row else table.rows id
  | none => table.rows id

/-- Somebody else holds the row. -/
def heldByOther (table : Table Row) (process id : Nat) : Bool :=
  match table.draft id with
  | some (holder, _) => holder != process
  | none => false

/-- The rows that a transaction sees and a condition selects. -/
def select (table : Table Row) (process : Nat) (condition : Row → Bool) : List (Nat × Row) :=
  (List.range table.count).filterMap fun id =>
    (table.seen process id).bind fun row => if condition row then some (id, row) else none

def insert (table : Table Row) (process : Nat) (row : Row) : Table Row where
  count := table.count + 1
  rows := table.rows
  draft id := if id = table.count then some (process, some row) else table.draft id
  beyond id large := by
    have least : table.count ≤ id := by omega
    have other : id ≠ table.count := by omega
    exact ⟨(table.beyond id least).1, by rw [if_neg other]; exact (table.beyond id least).2⟩

/-- Takes the selected rows, and leaves of each what `change` says. -/
def write (table : Table Row) (process : Nat) (selected : Nat → Bool)
    (change : Row → Option Row) : Table Row where
  count := table.count
  rows := table.rows
  draft id := if selected id then
      match table.seen process id with
      | some row => some (process, change row)
      | none => table.draft id
    else table.draft id
  beyond id large := by
    obtain ⟨noRow, noDraft⟩ := table.beyond id large
    have unseen : table.seen process id = none := by rw [seen, noDraft, noRow]
    refine ⟨noRow, ?_⟩
    rw [unseen, noDraft, ite_self]

def commit (table : Table Row) (process : Nat) : Table Row where
  count := table.count
  rows id := table.seen process id
  draft id := if table.heldByOther process id then table.draft id else none
  beyond id large := by
    obtain ⟨noRow, noDraft⟩ := table.beyond id large
    exact ⟨by rw [seen, noDraft, noRow], by rw [noDraft, ite_self]⟩

def rollback (table : Table Row) (process : Nat) : Table Row where
  count := table.count
  rows := table.rows
  draft id := if table.heldByOther process id then table.draft id else none
  beyond id large := by
    obtain ⟨noRow, noDraft⟩ := table.beyond id large
    exact ⟨noRow, by rw [noDraft, ite_self]⟩

variable {table : Table Row} {process id : Nat} {row : Row}

/-! ### What the operations leave -/

@[simp] theorem rows_write {selected : Nat → Bool} {change : Row → Option Row} :
    (table.write process selected change).rows = table.rows := rfl

@[simp] theorem count_write {selected : Nat → Bool} {change : Row → Option Row} :
    (table.write process selected change).count = table.count := rfl

theorem lt_count_of_rows (present : table.rows id = some row) : id < table.count := by
  by_contra large
  rw [(table.beyond id (Nat.not_lt.mp large)).1] at present
  cases present

theorem lt_count_of_draft {held : Nat × Option Row} (present : table.draft id = some held) :
    id < table.count := by
  by_contra large
  rw [(table.beyond id (Nat.not_lt.mp large)).2] at present
  cases present

theorem draft_insert_self : (table.insert process row).draft table.count
    = some (process, some row) := if_pos rfl

theorem draft_insert_of_ne (other : id ≠ table.count) :
    (table.insert process row).draft id = table.draft id := if_neg other

theorem seen_of_held {version : Option Row} (held : table.draft id = some (process, version)) :
    table.seen process id = version := by
  rw [seen, held]
  exact if_pos rfl

theorem seen_of_free (free : table.draft id = none) : table.seen process id = table.rows id := by
  rw [seen, free]

theorem seen_of_heldByOther (held : table.heldByOther process id = true) :
    table.seen process id = table.rows id := by
  rw [heldByOther] at held
  rw [seen]
  split
  case h_2 => rfl
  case h_1 holder version drafted =>
    rw [drafted, bne_iff_ne] at held
    exact if_neg held

theorem heldByOther_of_held {holder : Nat} {version : Option Row}
    (held : table.draft id = some (holder, version)) :
    table.heldByOther process id = (holder != process) := by
  rw [heldByOther, held]

theorem seen_cases (table : Table Row) (process id : Nat) :
    (∃ version, table.draft id = some (process, version) ∧ table.seen process id = version) ∨
      table.seen process id = table.rows id := by
  cases drafted : table.draft id with
  | none => exact .inr (seen_of_free drafted)
  | some held =>
    obtain ⟨holder, version⟩ := held
    by_cases own : holder = process
    · subst own
      exact .inl ⟨version, rfl, seen_of_held drafted⟩
    · refine .inr (seen_of_heldByOther ?_)
      rw [heldByOther_of_held drafted, bne_iff_ne]
      exact own

theorem mem_select {condition : Row → Bool} :
    (id, row) ∈ table.select process condition ↔
      table.seen process id = some row ∧ condition row = true := by
  rw [select, List.mem_filterMap]
  constructor
  · rintro ⟨other, _, found⟩
    obtain ⟨version, sees, chosen⟩ := Option.bind_eq_some_iff.mp found
    split at chosen
    case isFalse => cases chosen
    case isTrue meets =>
      cases chosen
      exact ⟨sees, meets⟩
  · rintro ⟨sees, meets⟩
    refine ⟨id, List.mem_range.mpr ?_, ?_⟩
    · rcases seen_cases table process id with ⟨version, drafted, _⟩ | committed
      · exact lt_count_of_draft drafted
      · exact lt_count_of_rows (committed ▸ sees)
    · rw [sees, Option.bind_some, if_pos meets]

theorem draft_commit (table : Table Row) (process id : Nat) :
    (table.commit process).draft id =
      if table.heldByOther process id then table.draft id else none := rfl

theorem draft_rollback (table : Table Row) (process id : Nat) :
    (table.rollback process).draft id =
      if table.heldByOther process id then table.draft id else none := rfl

theorem rows_commit (table : Table Row) (process id : Nat) :
    (table.commit process).rows id = table.seen process id := rfl

theorem released_eq_some {held : Nat × Option Row} :
    (if table.heldByOther process id then table.draft id else none) = some held ↔
      table.draft id = some held ∧ held.1 ≠ process := by
  cases drafted : table.draft id with
  | none => simp [heldByOther, drafted]
  | some version =>
    rw [heldByOther_of_held (drafted.trans rfl)]
    by_cases own : version.1 = process
    · rw [own, bne_self_eq_false, if_neg Bool.false_ne_true]
      refine ⟨nofun, ?_⟩
      rintro ⟨⟨⟩, other⟩
      exact absurd own other
    · rw [if_pos (bne_iff_ne.mpr own)]
      constructor
      · rintro ⟨⟩
        exact ⟨rfl, own⟩
      · exact And.left

/-- What a write leaves of a row: its own version of a selected row, else what was there. -/
theorem draft_write {selected : Nat → Bool} {change : Row → Option Row} :
    (table.write process selected change).draft id =
      if selected id then
        match table.seen process id with
        | some row => some (process, change row)
        | none => table.draft id
      else table.draft id := rfl

theorem draft_write_of_seen {selected : Nat → Bool} {change : Row → Option Row}
    (chosen : selected id = true) (sees : table.seen process id = some row) :
    (table.write process selected change).draft id = some (process, change row) := by
  rw [draft_write, if_pos chosen, sees]

theorem draft_write_of_not {selected : Nat → Bool} {change : Row → Option Row}
    (left : ¬selected id = true) :
    (table.write process selected change).draft id = table.draft id := if_neg left

theorem draft_write_cases (table : Table Row) (process id : Nat) (selected : Nat → Bool)
    (change : Row → Option Row) :
    (∃ row, selected id = true ∧ table.seen process id = some row ∧
      (table.write process selected change).draft id = some (process, change row)) ∨
    (table.write process selected change).draft id = table.draft id := by
  rw [draft_write]
  by_cases chosen : selected id = true
  · rw [if_pos chosen]
    cases sees : table.seen process id with
    | none => exact .inr rfl
    | some row => exact .inl ⟨row, chosen, rfl, rfl⟩
  · rw [if_neg chosen]
    exact .inr rfl

/-! ### What a transaction relies on -/

/-- No other transaction touches what `process` holds. -/
structure Kept (process : Nat) (before after : Table Row) : Prop where
  count : before.count ≤ after.count
  draft : ∀ id version, after.draft id = some (process, version) ↔
    before.draft id = some (process, version)
  rows : ∀ id version, before.draft id = some (process, version) → after.rows id = before.rows id

theorem Kept.refl (process : Nat) (table : Table Row) : Kept process table table :=
  ⟨Nat.le_refl _, fun _ _ => Iff.rfl, fun _ _ _ => rfl⟩

variable {other : Nat}

theorem kept_insert (different : other ≠ process) : Kept other table (table.insert process row) := by
  refine ⟨Nat.le_succ _, fun id version => ?_, fun _ _ _ => rfl⟩
  by_cases new : id = table.count
  · subst new
    rw [draft_insert_self, (table.beyond _ (Nat.le_refl _)).2]
    refine ⟨?_, nofun⟩
    rintro ⟨⟩
    exact absurd rfl different
  · rw [draft_insert_of_ne new]

theorem kept_write (different : other ≠ process) {selected : Nat → Bool}
    {change : Row → Option Row}
    (free : ∀ id, selected id = true → table.heldByOther process id = false) :
    Kept other table (table.write process selected change) := by
  refine ⟨Nat.le_refl _, fun id version => ?_, fun _ _ _ => rfl⟩
  rcases draft_write_cases table process id selected change with ⟨row, chosen, _, written⟩ | same
  · rw [written]
    constructor
    · rintro ⟨⟩
      exact absurd rfl different
    · intro held
      have available := free id chosen
      rw [heldByOther_of_held held, bne_eq_false_iff_eq] at available
      exact absurd available different
  · rw [same]

theorem kept_commit (different : other ≠ process) : Kept other table (table.commit process) := by
  refine ⟨Nat.le_refl _, fun id version => ?_, fun id version held => ?_⟩
  · rw [draft_commit, released_eq_some]
    exact ⟨And.left, fun held => ⟨held, different⟩⟩
  · refine seen_of_heldByOther ?_
    rw [heldByOther_of_held held, bne_iff_ne]
    exact different

theorem kept_rollback (different : other ≠ process) :
    Kept other table (table.rollback process) := by
  refine ⟨Nat.le_refl _, fun id version => ?_, fun _ _ _ => rfl⟩
  rw [draft_rollback, released_eq_some]
  exact ⟨And.left, fun held => ⟨held, different⟩⟩

/-- What a transaction holds, row by row. -/
def Holds (table : Table Row) (process : Nat) (held : List (Nat × Option Row)) : Prop :=
  ∀ id version, table.draft id = some (process, version) ↔ (id, version) ∈ held

theorem Holds.kept {held : List (Nat × Option Row)} {before after : Table Row}
    (holds : before.Holds process held) (kept : Kept process before after) :
    after.Holds process held :=
  fun id version => (kept.draft id version).trans (holds id version)

theorem holds_insert {held : List (Nat × Option Row)} (holds : table.Holds process held) :
    (table.insert process row).Holds process ((table.count, some row) :: held) := by
  intro id version
  rw [List.mem_cons, ← holds id version]
  by_cases new : id = table.count
  · subst new
    rw [draft_insert_self, (table.beyond _ (Nat.le_refl _)).2]
    simp [eq_comm]
  · rw [draft_insert_of_ne new]
    simp [new]

theorem holds_commit (table : Table Row) (process : Nat) :
    (table.commit process).Holds process [] := by
  intro id version
  rw [draft_commit, released_eq_some]
  simp

theorem holds_rollback (table : Table Row) (process : Nat) :
    (table.rollback process).Holds process [] := by
  intro id version
  rw [draft_rollback, released_eq_some]
  simp

theorem holds_write_one {change : Row → Option Row} (holds : table.Holds process [])
    (sees : table.seen process id = some row) :
    (table.write process (fun other => decide (other = id)) change).Holds process
      [(id, change row)] := by
  intro candidate version
  rw [List.mem_singleton, Prod.mk.injEq]
  by_cases same : candidate = id
  · subst same
    rw [draft_write_of_seen (decide_eq_true rfl) sees]
    simp [eq_comm]
  · rw [draft_write_of_not (by simpa using same), holds candidate version]
    simp [same]

theorem holds_write_held {change : Row → Option Row}
    (holds : table.Holds process [(id, some row)]) :
    (table.write process (fun other => decide (other = id)) change).Holds process
      [(id, change row)] := by
  intro candidate version
  rw [List.mem_singleton, Prod.mk.injEq]
  have sees : table.seen process id = some row :=
    seen_of_held ((holds id (some row)).mpr (List.mem_singleton_self _))
  by_cases same : candidate = id
  · subst same
    rw [draft_write_of_seen (decide_eq_true rfl) sees]
    simp [eq_comm]
  · rw [draft_write_of_not (by simpa using same), holds candidate version, List.mem_singleton,
      Prod.mk.injEq]
    simp [same]

theorem rows_commit_of_holds {held : List (Nat × Option Row)} (holds : table.Holds process held)
    (absent : ∀ version, (id, version) ∉ held) :
    (table.commit process).rows id = table.rows id := by
  rcases seen_cases table process id with ⟨version, drafted, _⟩ | committed
  · exact absurd ((holds id version).mp drafted) (absent version)
  · exact committed

theorem rows_commit_of_mem {held : List (Nat × Option Row)} {version : Option Row}
    (holds : table.Holds process held) (among : (id, version) ∈ held) :
    (table.commit process).rows id = version :=
  seen_of_held ((holds id version).mpr among)

theorem seen_of_holds_nil (nothing : table.Holds process []) (id : Nat) :
    table.seen process id = table.rows id := by
  rcases seen_cases table process id with ⟨version, drafted, _⟩ | committed
  · exact absurd ((nothing id version).mp drafted) List.not_mem_nil
  · exact committed

theorem holds_delete {selected : Nat → Bool} (nothing : table.Holds process []) :
    (table.write process selected fun _ => none).Holds process
      (((List.range table.count).filter fun id => selected id && (table.rows id).isSome).map
        fun id => (id, none)) := by
  intro id version
  have none_of : table.draft id ≠ some (process, version) := fun drafted =>
    List.not_mem_nil ((nothing id version).mp drafted)
  rw [List.mem_map]
  constructor
  · intro drafted
    rcases draft_write_cases table process id selected fun _ => none with
      ⟨row, chosen, sees, written⟩ | same
    · rw [written] at drafted
      cases drafted
      rw [seen_of_holds_nil nothing] at sees
      refine ⟨id, List.mem_filter.mpr ⟨List.mem_range.mpr (lt_count_of_rows sees), ?_⟩, rfl⟩
      rw [chosen, sees]
      rfl
    · exact absurd (same ▸ drafted) none_of
  · rintro ⟨other, among, ⟨⟩⟩
    obtain ⟨_, chosen⟩ := List.mem_filter.mp among
    rw [Bool.and_eq_true, Option.isSome_iff_exists] at chosen
    obtain ⟨chosen, row, present⟩ := chosen
    rw [← seen_of_holds_nil nothing] at present
    rw [draft_write_of_seen chosen present]

theorem rows_commit_of_holds_nil (nothing : table.Holds process []) :
    (table.commit process).rows = table.rows :=
  funext (seen_of_holds_nil nothing)

theorem rows_commit_of_new (new : ∀ id version, table.draft id = some (process, version) →
    table.rows id = none) (present : table.rows id = some row) :
    (table.commit process).rows id = some row := by
  rcases seen_cases table process id with ⟨version, drafted, _⟩ | committed
  · rw [new id version drafted] at present
    cases present
  · rw [rows_commit, committed, present]

theorem of_rows_commit {held : List (Nat × Option Row)} (holds : table.Holds process held)
    (present : (table.commit process).rows id = some row) :
    (id, some row) ∈ held ∨ table.rows id = some row := by
  rcases seen_cases table process id with ⟨version, drafted, sees⟩ | committed
  · rw [rows_commit, sees] at present
    subst present
    exact .inl ((holds id (some row)).mp drafted)
  · rw [rows_commit, committed] at present
    exact .inr present

/-- What is held after a commit is a row that somebody else held, and it is not touched. -/
theorem of_draft_commit {holder : Nat} {version : Option Row}
    (drafted : (table.commit process).draft id = some (holder, version)) :
    holder ≠ process ∧ table.draft id = some (holder, version) ∧
      (table.commit process).rows id = table.rows id := by
  rw [draft_commit, released_eq_some] at drafted
  refine ⟨drafted.2, drafted.1, seen_of_heldByOther ?_⟩
  rw [heldByOther_of_held drafted.1, bne_iff_ne]
  exact drafted.2

/-! ### Unique indexes -/

/-- A row that is committed, or that somebody's commit would leave. -/
def Entry (table : Table Row) (id : Nat) (row : Row) : Prop :=
  table.rows id = some row ∨ ∃ process, table.draft id = some (process, some row)

/-- No two rows share a key, whoever commits. -/
def Unique {Key : Type} (key : Row → Key) (table : Table Row) : Prop :=
  ∀ id id' row row', table.Entry id row → table.Entry id' row' → key row = key row' → id = id'

section Unique

variable {Key : Type} {key : Row → Key}

/-- A row of a kind that the transaction sees: the index refuses another one. -/
def conflicts (table : Table Row) (process : Nat) (like : Row → Bool) : Bool :=
  (List.range table.count).any fun id => (table.seen process id).any like

/-- A row of a kind that somebody else holds: the insertion of another one waits. -/
def contested (table : Table Row) (process : Nat) (like : Row → Bool) : Bool :=
  (List.range table.count).any fun id => table.heldByOther process id &&
    ((table.rows id).any like || ((table.draft id).bind Prod.snd).any like)

theorem Entry.lt_count (entry : table.Entry id row) : id < table.count := by
  rcases entry with committed | ⟨holder, drafted⟩
  · exact lt_count_of_rows committed
  · exact lt_count_of_draft drafted

theorem not_like_of_free {like : Row → Bool} (accepted : table.conflicts process like = false)
    (free : table.contested process like = false) (nothing : table.Holds process [])
    (entry : table.Entry id row) : like row = false := by
  rw [← Bool.not_eq_true]
  intro matching
  have inRange := List.mem_range.mpr entry.lt_count
  have unlike := List.any_eq_false.mp accepted id inRange
  have unheld := List.any_eq_false.mp free id inRange
  have notOwn : ∀ version, table.draft id ≠ some (process, version) := fun version drafted =>
    List.not_mem_nil ((nothing id version).mp drafted)
  rcases entry with committed | ⟨holder, drafted⟩
  · rcases seen_cases table process id with ⟨version, drafted, _⟩ | sees
    · exact notOwn version drafted
    · rw [sees, committed] at unlike
      exact unlike matching
  · have other : holder ≠ process := fun own => notOwn _ (own ▸ drafted)
    rw [heldByOther_of_held drafted, bne_iff_ne.mpr other, drafted, Bool.true_and] at unheld
    simp [matching] at unheld

theorem Unique.of_entries {before after : Table Row} (unique : before.Unique key)
    (entries : ∀ id row, after.Entry id row →
      ∃ old, before.Entry id old ∧ key old = key row) : after.Unique key := by
  intro id id' row row' entry entry' same
  obtain ⟨old, present, sameKey⟩ := entries id row entry
  obtain ⟨old', present', sameKey'⟩ := entries id' row' entry'
  exact unique id id' old old' present present' (by rw [sameKey, same, sameKey'])

theorem unique_insert (unique : table.Unique key)
    (new : ∀ id old, table.Entry id old → key old ≠ key row) :
    (table.insert process row).Unique key := by
  have entries : ∀ id version, (table.insert process row).Entry id version →
      table.Entry id version ∨ (id = table.count ∧ version = row) := by
    rintro id version (committed | ⟨holder, drafted⟩)
    · exact .inl (.inl committed)
    · by_cases isNew : id = table.count
      · subst isNew
        rw [draft_insert_self] at drafted
        cases drafted
        exact .inr ⟨rfl, rfl⟩
      · rw [draft_insert_of_ne isNew] at drafted
        exact .inl (.inr ⟨holder, drafted⟩)
  intro id id' version version' entry entry' same
  rcases entries id version entry with old | ⟨rfl, rfl⟩ <;>
    rcases entries id' version' entry' with old' | ⟨rfl, rfl⟩
  · exact unique id id' version version' old old' same
  · exact absurd same (new id version old)
  · exact absurd same.symm (new id' version' old')
  · rfl

theorem entry_commit {id : Nat} {row : Row} (entry : (table.commit process).Entry id row) :
    table.Entry id row := by
  rcases entry with committed | ⟨holder, drafted⟩
  · rcases seen_cases table process id with ⟨version, held, sees⟩ | sees
    · rw [rows_commit, sees] at committed
      subst committed
      exact .inr ⟨process, held⟩
    · rw [rows_commit, sees] at committed
      exact .inl committed
  · rw [draft_commit, released_eq_some] at drafted
    exact .inr ⟨holder, drafted.1⟩

theorem entry_rollback {id : Nat} {row : Row} (entry : (table.rollback process).Entry id row) :
    table.Entry id row := by
  rcases entry with committed | ⟨holder, drafted⟩
  · exact .inl committed
  · rw [draft_rollback, released_eq_some] at drafted
    exact .inr ⟨holder, drafted.1⟩

theorem unique_commit (unique : table.Unique key) : (table.commit process).Unique key :=
  unique.of_entries fun _ row entry => ⟨row, entry_commit entry, rfl⟩

theorem unique_rollback (unique : table.Unique key) : (table.rollback process).Unique key :=
  unique.of_entries fun _ row entry => ⟨row, entry_rollback entry, rfl⟩

end Unique

end Table

end Toard.Library
