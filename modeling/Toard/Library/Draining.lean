/-
**Draining a list of rows in order.**

Rows wait in order, each in a class. A pass looks at the rows of the active classes, takes the first
few of them, and takes away those that can be served; which classes are active is asked anew of what
is left. A row that cannot be served stays, and is among the first again.

* `Service`: what is asked of the notion of an active class.
* `Orderly`: from the first row of a class on that cannot be served, the class is not active, and no
  row that counts could be served.
* **`Orderly.pass`**: a pass keeps this. **`Orderly.exists_served`**: it serves a row, as long as
  there are rows of an active class. **`Orderly.active_of_served`**: the rows that count and can be
  served are of active classes.
* **`Orderly.of_pass`**: passes that take one row at a time find the rows orderly only if they were.
-/

import Mathlib.Data.List.Nodup
import Mathlib.Data.List.TakeWhile

namespace Toard.Library

variable {Row Class : Type*} [DecidableEq Class]

/-- Classes of rows, which rows can be served, and which classes are active among some rows. -/
structure Service (Row Class : Type*) [DecidableEq Class] where
  classOf : Row → Option Class
  before : Row → Row → Prop
  served : Row → Bool
  active : List Row → Class → Bool
  /-- Serving rows activates no class. -/
  active_of_subset : ∀ {rows rest : List Row} {c : Class}, rest ⊆ rows →
    (∀ row ∈ rows, row ∉ rest → served row = true) → active rest c = true → active rows c = true
  /-- A class is active by its own rows, -/
  active_own : ∀ (rows : List Row) (c : Class),
    active (rows.filter fun row => classOf row = some c) c = active rows c
  /-- is active if its first row can be served, -/
  active_of_first : ∀ {rows rest : List Row} {first : Row} {c : Class}, rows.Pairwise before →
    (rows.filter fun row => classOf row = some c) = first :: rest → served first = true →
    active rows c = true
  /-- and only if it has rows. -/
  exists_of_active : ∀ {rows : List Row} {c : Class}, active rows c = true →
    ∃ row ∈ rows, classOf row = some c

theorem dropWhile_filter {α : Type*} {drops keep : α → Bool} {l : List α}
    (dropped : ∀ a ∈ l, keep a = false → drops a = true) :
    (l.filter keep).dropWhile drops = (l.dropWhile drops).filter keep := by
  induction l with
  | nil => rfl
  | cons a rest ih =>
    have later := ih fun b among => dropped b (List.mem_cons_of_mem a among)
    cases first : drops a with
    | true =>
      rw [List.dropWhile_cons_of_pos first, ← later]
      cases kept : keep a with
      | true => rw [List.filter_cons_of_pos kept, List.dropWhile_cons_of_pos first]
      | false => rw [List.filter_cons_of_neg (by simp [kept])]
    | false =>
      have kept : keep a = true := by
        by_contra absent
        have drop := dropped a List.mem_cons_self (Bool.eq_false_iff.mpr absent)
        rw [first] at drop
        cases drop
      rw [List.dropWhile_cons_of_neg (by simp [first]), List.filter_cons_of_pos kept,
        List.dropWhile_cons_of_neg (by simp [first])]

namespace Service

variable (service : Service Row Class)

/-! ### Passes -/

def ofClass (rows : List Row) (c : Class) : List Row :=
  rows.filter fun row => service.classOf row = some c

/-- The rows of a class from the first one on that cannot be served. -/
def tail (rows : List Row) (c : Class) : List Row := (service.ofClass rows c).dropWhile service.served

/-- The rows of active classes. -/
def eligible (rows : List Row) : List Row :=
  rows.filter fun row => (service.classOf row).any (service.active rows)

def batch (rows : List Row) (limit : Nat) : List Row := (service.eligible rows).take limit

structure Orderly (counts : Row → Bool) (rows : List Row) : Prop where
  inactive : ∀ c, service.active (service.tail rows c) c = false
  unserved : ∀ c, ∀ row ∈ service.tail rows c, counts row = true → service.served row = false

variable {service} {counts : Row → Bool} {rows : List Row} {limit : Nat}

theorem mem_eligible {row : Row} : row ∈ service.eligible rows ↔
    row ∈ rows ∧ ∃ c, service.classOf row = some c ∧ service.active rows c = true := by
  rw [eligible, List.mem_filter, Option.any_eq_true]

theorem mem_of_mem_batch {row : Row} (among : row ∈ service.batch rows limit) :
    row ∈ service.eligible rows :=
  List.mem_of_mem_take among

theorem eligible_ofClass {c : Class} (active : service.active rows c = true) :
    service.ofClass (service.eligible rows) c = service.ofClass rows c := by
  rw [ofClass, ofClass, eligible, List.filter_filter]
  refine List.filter_congr fun row _ => ?_
  by_cases own : service.classOf row = some c
  · simp [own, active]
  · simp [own]

theorem ofClass_of_eligible {first : Row} {rest : List Row} {c : Class}
    (isFirst : service.eligible rows = first :: rest) (own : service.classOf first = some c) :
    service.active rows c = true ∧
      service.ofClass rows c = first :: service.ofClass rest c := by
  have among : first ∈ service.eligible rows := by
    rw [isFirst]
    exact List.mem_cons_self
  obtain ⟨-, other, isOther, active⟩ := mem_eligible.mp among
  obtain rfl : other = c := Option.some.inj (isOther.symm.trans own)
  refine ⟨active, ?_⟩
  rw [← eligible_ofClass active, isFirst]
  exact List.filter_cons_of_pos (decide_eq_true own)

theorem classOf_of_eligible {first : Row} {rest : List Row}
    (isFirst : service.eligible rows = first :: rest) : ∃ c, service.classOf first = some c := by
  have among : first ∈ service.eligible rows := by
    rw [isFirst]
    exact List.mem_cons_self
  obtain ⟨-, c, own, -⟩ := mem_eligible.mp among
  exact ⟨c, own⟩

/-! ### What a pass keeps -/

/-- A class is active among its rows from the first unserved one on only if it is among all. -/
theorem active_of_tail {c : Class} (active : service.active (service.tail rows c) c = true) :
    service.active rows c = true := by
  rw [← service.active_own]
  refine service.active_of_subset (List.dropWhile_sublist _).subset (fun row among absent => ?_) active
  have split := List.takeWhile_append_dropWhile (p := service.served) (l := service.ofClass rows c)
  have whole : row ∈ (service.ofClass rows c).takeWhile service.served ++ service.tail rows c := by
    rw [tail, split]
    exact among
  exact List.mem_takeWhile_imp ((List.mem_append.mp whole).resolve_right absent)

theorem tail_filter {keep : Row → Bool}
    (gone : ∀ row ∈ rows, keep row = false → service.served row = true) (c : Class) :
    service.tail (rows.filter keep) c = (service.tail rows c).filter keep := by
  have comm : service.ofClass (rows.filter keep) c = (service.ofClass rows c).filter keep := by
    rw [ofClass, ofClass, List.filter_filter, List.filter_filter]
    exact List.filter_congr fun row _ => Bool.and_comm _ _
  rw [tail, comm]
  exact dropWhile_filter fun row among absent => gone row (List.mem_filter.mp among).1 absent

theorem Orderly.filter (orderly : service.Orderly counts rows) {keep : Row → Bool}
    (gone : ∀ row ∈ rows, keep row = false → service.served row = true) :
    service.Orderly counts (rows.filter keep) := by
  refine ⟨fun c => Bool.eq_false_iff.mpr fun active => ?_, fun c row among => ?_⟩
  · rw [tail_filter gone] at active
    refine Bool.eq_false_iff.mp (orderly.inactive c) (service.active_of_subset
      List.filter_sublist.subset (fun row among absent => ?_) active)
    have inRows : row ∈ rows :=
      (List.mem_filter.mp ((List.dropWhile_sublist _).subset among)).1
    refine gone row inRows (Bool.eq_false_iff.mpr fun kept => absent ?_)
    exact List.mem_filter.mpr ⟨among, kept⟩
  · rw [tail_filter gone] at among
    exact orderly.unserved c row (List.mem_filter.mp among).1

/-- **Each pass over orderly rows serves one**, as long as a class is active. -/
theorem Orderly.exists_served (orderly : service.Orderly counts rows) (positive : 0 < limit)
    (some_ : service.eligible rows ≠ []) :
    ∃ row ∈ service.batch rows limit, service.served row = true := by
  obtain ⟨first, rest, isFirst⟩ := List.exists_cons_of_ne_nil some_
  obtain ⟨c, own⟩ := classOf_of_eligible isFirst
  obtain ⟨active, whole⟩ := ofClass_of_eligible isFirst own
  refine ⟨first, ?_, ?_⟩
  · rw [batch, isFirst]
    obtain ⟨limit, rfl⟩ := Nat.exists_eq_succ_of_ne_zero (Nat.ne_of_gt positive)
    exact List.mem_cons_self
  · by_contra unserved
    have all : service.tail rows c = service.ofClass rows c := by
      rw [tail, whole, List.dropWhile_cons_of_neg unserved]
    have inactive := orderly.inactive c
    rw [all, ofClass, service.active_own, active] at inactive
    cases inactive

/-- **A row that counts and can be served is of an active class.** -/
theorem Orderly.active_of_served (orderly : service.Orderly counts rows)
    (sorted : rows.Pairwise service.before) {row : Row} (among : row ∈ rows)
    (isCounted : counts row = true) (isServed : service.served row = true) {c : Class}
    (own : service.classOf row = some c) : service.active rows c = true := by
  have inClass : row ∈ service.ofClass rows c := List.mem_filter.mpr ⟨among, decide_eq_true own⟩
  cases whole : service.ofClass rows c with
  | nil =>
    rw [whole] at inClass
    cases inClass
  | cons first rest =>
    cases servedFirst : service.served first with
    | true => exact service.active_of_first sorted whole servedFirst
    | false =>
      have all : service.tail rows c = service.ofClass rows c := by
        rw [tail, whole, List.dropWhile_cons_of_neg (by simp [servedFirst])]
      have unserved := orderly.unserved c row (all ▸ inClass) isCounted
      rw [isServed] at unserved
      cases unserved

variable [DecidableEq Row]

/-- The rows that a pass leaves. -/
def pass (service : Service Row Class) (rows : List Row) (limit : Nat) : List Row :=
  rows.filter fun row => !(decide (row ∈ service.batch rows limit) && service.served row)

/-- **A pass keeps the rows orderly.** -/
theorem Orderly.pass (orderly : service.Orderly counts rows) (limit : Nat) :
    service.Orderly counts (service.pass rows limit) := by
  refine orderly.filter fun row _ absent => ?_
  rw [Bool.not_eq_false', Bool.and_eq_true] at absent
  exact absent.2

/-! ### What orderly rows come from -/

theorem Orderly.of_first {first : Row} {rest : List Row}
    (orderly : service.Orderly counts (rows.filter (· ≠ first))) (distinct : rows.Nodup)
    (isFirst : service.eligible rows = first :: rest) (isServed : service.served first = true) :
    service.Orderly counts rows := by
  have absent : ∀ c, first ∉ service.tail rows c := by
    intro c among
    have inClass := (List.dropWhile_sublist _).subset among
    have own := of_decide_eq_true (List.mem_filter.mp inClass).2
    have whole := (ofClass_of_eligible isFirst own).2
    rw [tail, whole, List.dropWhile_cons_of_pos isServed] at among
    have unique : (first :: service.ofClass rest c).Nodup := whole ▸ distinct.filter _
    exact (List.nodup_cons.mp unique).1 ((List.dropWhile_sublist _).subset among)
  have same : ∀ c, service.tail (rows.filter (· ≠ first)) c = service.tail rows c := by
    intro c
    rw [tail_filter]
    · exact List.filter_eq_self.mpr fun row among => decide_eq_true fun isRow =>
        absent c (isRow ▸ among)
    · intro row _ gone
      rw [not_not.mp (of_decide_eq_false gone)]
      exact isServed
  exact ⟨fun c => same c ▸ orderly.inactive c, fun c row among =>
    orderly.unserved c row (same c ▸ among)⟩

/-- Rows none of which is eligible, or was, are orderly if none that counts could be served. -/
theorem Orderly.of_settled (all : ∀ row ∈ service.eligible rows, service.served row = true)
    (settled : ∀ row ∈ rows, row ∉ service.eligible rows → counts row = true →
      ∀ c, service.classOf row = some c → service.served row = false) :
    service.Orderly counts (rows.filter (· ∉ service.eligible rows)) := by
  have left : ∀ c, ∀ row ∈ service.tail (rows.filter (· ∉ service.eligible rows)) c,
      service.classOf row = some c ∧ row ∈ rows ∧ row ∉ service.eligible rows := by
    intro c row among
    obtain ⟨isLeft, own⟩ := List.mem_filter.mp ((List.dropWhile_sublist _).subset among)
    obtain ⟨inRows, absent⟩ := List.mem_filter.mp isLeft
    exact ⟨of_decide_eq_true own, inRows, of_decide_eq_true absent⟩
  refine ⟨fun c => Bool.eq_false_iff.mpr fun active => ?_, fun c row among isCounted => ?_⟩
  · have activeLeft := active_of_tail active
    have activeAll := service.active_of_subset List.filter_sublist.subset (fun row among absent => by
      by_contra unserved
      refine absent (List.mem_filter.mpr ⟨among, decide_eq_true fun isEligible => ?_⟩)
      exact unserved (all row isEligible)) activeLeft
    obtain ⟨row, among, own⟩ := service.exists_of_active activeLeft
    obtain ⟨inRows, absent⟩ := List.mem_filter.mp among
    exact of_decide_eq_true absent (mem_eligible.mpr ⟨inRows, c, own, activeAll⟩)
  · obtain ⟨own, inRows, absent⟩ := left c row among
    exact settled row inRows absent isCounted c own

/-- **Passes of one row at a time find the rows orderly only if they were.** -/
theorem Orderly.of_pass (orderly : service.Orderly counts (service.pass rows 1))
    (distinct : rows.Nodup) : service.Orderly counts rows := by
  cases isFirst : service.eligible rows with
  | nil =>
    have same : service.pass rows 1 = rows := by
      rw [Service.pass, batch, isFirst]
      simp
    exact same ▸ orderly
  | cons first rest =>
    cases isServed : service.served first with
    | true =>
      have same : service.pass rows 1 = rows.filter (· ≠ first) := by
        rw [Service.pass, batch, isFirst]
        refine List.filter_congr fun row _ => ?_
        by_cases isRow : row = first
        · simp [isRow, isServed]
        · simp [isRow]
      rw [same] at orderly
      exact orderly.of_first distinct isFirst isServed
    | false =>
      have same : service.pass rows 1 = rows := by
        rw [Service.pass, batch, isFirst]
        refine List.filter_eq_self.mpr fun row _ => ?_
        by_cases isRow : row = first
        · simp [isRow, isServed]
        · simp [isRow]
      exact same ▸ orderly

end Service

end Toard.Library
