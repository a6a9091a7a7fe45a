/-
**No slot is lost, and no waiter twice settled, in any order of events.**

A step takes one call out of the books, and enters it again somewhere else: with a lease, in the queue,
or neither. What the books say of all other calls, of the slots, and of the order holds throughout.

* **`controller_sound`**: every run.
-/

import Mathlib.Data.List.Nodup
import Mathlib.Data.List.Range
import Toard.Storage.OperationController

namespace Toard.Storage.Controller

open Toard.Library (Reachable run)

/-! ### The books -/

def unreleased (system : System) : List AdmissionLease :=
  system.leases.filter fun lease => !lease.released

/-- The waiters that were given a lease, in the order in which they were. -/
def grantedIds (system : System) : List Nat :=
  (system.settled.filter fun settled => settled.2 = .granted).map Prod.fst

def queuedIds (system : System) : List Nat := system.queue.map QueueEntry.id

def statusOf (system : System) (call : Nat) : Option Status := (system.calls call).map Call.status

/-- The slots, the leases, the queue and the calls agree; one call may be out of the books. -/
structure Sound (out : Option Nat) (system : System) : Prop where
  counted : system.active = (unreleased system).length
  numbered : system.leases.map AdmissionLease.id = List.range system.leases.length
  held : ∀ lease ∈ system.leases, lease.released = false →
    out ≠ some lease.owner ∧ statusOf system lease.owner = some (.holding lease.id)
  holds : ∀ call id, out ≠ some call → statusOf system call = some (.holding id) →
    ∃ lease ∈ system.leases, lease.id = id ∧ lease.owner = call ∧ lease.released = false
  queued : ∀ entry ∈ system.queue,
    out ≠ some entry.owner ∧ statusOf system entry.owner = some (.waiting entry.id)
  waits : ∀ call id, out ≠ some call → statusOf system call = some (.waiting id) →
    ∃ entry ∈ system.queue, entry.id = id ∧ entry.owner = call
  placed : (system.settled.map Prod.fst ++ queuedIds system).Perm (List.range system.entries)
  inOrder : (grantedIds system ++ queuedIds system).Pairwise (· < ·)
  timed : system.timers.Perm (queuedIds system)
  listened : system.listeners.Nodup ∧ ∀ id ∈ system.listeners, id ∈ queuedIds system
  within : system.active ≤ system.maxConcurrent

theorem statusOf_setCall (system : System) (id : Nat) (call : Call) (other : Nat) :
    statusOf (system.setCall id call) other
      = if other = id then some call.status else statusOf system other := by
  rw [statusOf, System.setCall]
  dsimp only
  rw [Function.update_apply]
  split
  · rfl
  · rfl

namespace Sound

variable {out : Option Nat} {system : System} {id : Nat}

theorem nodup_placed (sound : Sound out system) :
    (system.settled.map Prod.fst ++ queuedIds system).Nodup :=
  sound.placed.nodup_iff.mpr List.nodup_range

theorem nodup_queued (sound : Sound out system) : (queuedIds system).Nodup :=
  (List.nodup_append.mp sound.nodup_placed).2.1

theorem queued_lt (sound : Sound out system) {id : Nat} (among : id ∈ queuedIds system) :
    id < system.entries :=
  List.mem_range.mp (sound.placed.subset (List.mem_append_right _ among))

theorem takeOut (sound : Sound none system)
    (loose : ∀ n, statusOf system id ≠ some (.holding n) ∧ statusOf system id ≠ some (.waiting n)) :
    Sound (some id) system :=
  { sound with
    held := fun lease among open_ => by
      have status := (sound.held lease among open_).2
      exact ⟨fun same => (loose lease.id).1 (by rw [Option.some.inj same]; exact status), status⟩
    holds := fun call n _ => sound.holds call n nofun
    queued := fun entry among => by
      have status := (sound.queued entry among).2
      exact ⟨fun same => (loose entry.id).2 (by rw [Option.some.inj same]; exact status), status⟩
    waits := fun call n _ => sound.waits call n nofun }

theorem setCall (sound : Sound (some id) system) {call : Call}
    (loose : ∀ n, call.status ≠ .holding n ∧ call.status ≠ .waiting n) :
    Sound none (system.setCall id call) :=
  { counted := sound.counted
    numbered := sound.numbered
    placed := sound.placed
    inOrder := sound.inOrder
    timed := sound.timed
    listened := sound.listened
    within := sound.within
    held := fun lease among open_ => by
      obtain ⟨other, status⟩ := sound.held lease among open_
      refine ⟨nofun, ?_⟩
      rw [statusOf_setCall, if_neg fun same => other (congrArg some same.symm), status]
    holds := fun other n _ status => by
      rw [statusOf_setCall] at status
      split at status
      case isTrue => exact absurd (Option.some.inj status) (loose n).1
      case isFalse different =>
        exact sound.holds other n (fun same => different (Option.some.inj same).symm) status
    queued := fun entry among => by
      obtain ⟨other, status⟩ := sound.queued entry among
      refine ⟨nofun, ?_⟩
      rw [statusOf_setCall, if_neg fun same => other (congrArg some same.symm), status]
    waits := fun other n _ status => by
      rw [statusOf_setCall] at status
      split at status
      case isTrue => exact absurd (Option.some.inj status) (loose n).2
      case isFalse different =>
        exact sound.waits other n (fun same => different (Option.some.inj same).symm) status }

theorem createLease (sound : Sound (some id) system) {call : Call} (is : system.calls id = some call)
    (room : system.active < system.maxConcurrent) (enqueuedAt now : Int) :
    Sound none (Controller.createLease system id enqueuedAt now) := by
  have status := statusOf_setCall system id { call with status := .holding system.leases.length }
  rw [Controller.createLease, System.setStatus, is]
  refine
    { counted := ?_
      numbered := ?_
      placed := sound.placed
      inOrder := sound.inOrder
      timed := sound.timed
      listened := sound.listened
      within := Int.add_one_le_of_lt room
      held := fun lease among open_ => ⟨nofun, ?_⟩
      holds := fun other n _ holding => ?_
      queued := fun entry among => ⟨nofun, ?_⟩
      waits := fun other n _ waiting => ?_ }
  · rw [unreleased]
    dsimp only
    rw [List.filter_append, List.length_append, Int.natCast_add, sound.counted]
    rfl
  · dsimp only
    rw [List.map_append, sound.numbered, List.length_append, List.length_singleton, List.range_succ]
    rfl
  · refine (status lease.owner).trans ?_
    obtain old | new := List.mem_append.mp among
    · obtain ⟨other, was⟩ := sound.held lease old open_
      rw [if_neg fun same => other (congrArg some same.symm), was]
    · rw [List.mem_singleton.mp new, if_pos rfl]
  · have holding := (status other).symm.trans holding
    split at holding
    case isTrue same =>
      refine ⟨_, List.mem_append_right _ (List.mem_singleton_self _), ?_, same.symm, rfl⟩
      exact Status.holding.inj (Option.some.inj holding)
    case isFalse different =>
      obtain ⟨lease, among, rest⟩ :=
        sound.holds other n (fun same => different (Option.some.inj same).symm) holding
      exact ⟨lease, List.mem_append_left _ among, rest⟩
  · obtain ⟨other, was⟩ := sound.queued entry among
    refine (status entry.owner).trans ?_
    rw [if_neg fun same => other (congrArg some same.symm), was]
  · have waiting := (status other).symm.trans waiting
    split at waiting
    case isTrue => exact nomatch Option.some.inj waiting
    case isFalse different =>
      exact sound.waits other n (fun same => different (Option.some.inj same).symm) waiting

theorem granted_lt (sound : Sound out system) {id : Nat} (among : id ∈ grantedIds system) :
    id < system.entries := by
  obtain ⟨settled, is, rfl⟩ := List.mem_map.mp among
  have placed := List.mem_map_of_mem (f := Prod.fst) (List.mem_filter.mp is).1
  exact List.mem_range.mp (sound.placed.subset (List.mem_append_left _ placed))

theorem enqueue (sound : Sound (some id) system) (call : Call) (enqueuedAt : Int) (signal : Bool) :
    Sound none { system.setCall id { call with status := .waiting system.entries } with
      queue := system.queue ++ [{ id := system.entries, owner := id, enqueuedAt }]
      timers := system.timers ++ [system.entries]
      listeners := if signal then system.listeners ++ [system.entries] else system.listeners
      entries := system.entries + 1 } := by
  have status := statusOf_setCall system id { call with status := .waiting system.entries }
  have last : (system.queue ++ [({ id := system.entries, owner := id, enqueuedAt } : QueueEntry)]).map
      QueueEntry.id = queuedIds system ++ [system.entries] := List.map_append
  have fresh : system.entries ∉ queuedIds system := fun among =>
    Nat.lt_irrefl _ (sound.queued_lt among)
  refine
    { counted := sound.counted
      numbered := sound.numbered
      placed := ?_
      inOrder := ?_
      timed := ?_
      listened := ?_
      within := sound.within
      held := fun lease among open_ => ⟨nofun, ?_⟩
      holds := fun other n _ holding => ?_
      queued := fun entry among => ⟨nofun, ?_⟩
      waits := fun other n _ waiting => ?_ }
  · obtain ⟨other, was⟩ := sound.held lease among open_
    refine (status lease.owner).trans ?_
    rw [if_neg fun same => other (congrArg some same.symm), was]
  · have holding := (status other).symm.trans holding
    split at holding
    case isTrue => exact nomatch Option.some.inj holding
    case isFalse different =>
      exact sound.holds other n (fun same => different (Option.some.inj same).symm) holding
  · refine (status entry.owner).trans ?_
    obtain old | new := List.mem_append.mp among
    · obtain ⟨other, was⟩ := sound.queued entry old
      rw [if_neg fun same => other (congrArg some same.symm), was]
    · rw [List.mem_singleton.mp new, if_pos rfl]
  · have waiting := (status other).symm.trans waiting
    split at waiting
    case isTrue same =>
      refine ⟨_, List.mem_append_right _ (List.mem_singleton_self _), ?_, same.symm⟩
      exact Status.waiting.inj (Option.some.inj waiting)
    case isFalse different =>
      obtain ⟨entry, among, rest⟩ :=
        sound.waits other n (fun same => different (Option.some.inj same).symm) waiting
      exact ⟨entry, List.mem_append_left _ among, rest⟩
  · rw [queuedIds, last, List.range_succ, ← List.append_assoc]
    exact sound.placed.append_right _
  · rw [queuedIds, last, ← List.append_assoc]
    refine List.pairwise_append.mpr ⟨sound.inOrder, List.pairwise_singleton _ _, ?_⟩
    intro first among later new
    rw [List.mem_singleton.mp new]
    obtain granted | queued := List.mem_append.mp among
    · exact sound.granted_lt granted
    · exact sound.queued_lt queued
  · rw [queuedIds, last]
    exact sound.timed.append_right _
  · obtain ⟨unique, queued⟩ := sound.listened
    rw [queuedIds, last]
    dsimp only
    split
    case isTrue =>
      refine ⟨List.nodup_append.mpr ⟨unique, List.nodup_singleton _, fun first among later new same =>
        ?_⟩, fun n among => ?_⟩
      · rw [same, List.mem_singleton.mp new] at among
        exact fresh (queued _ among)
      · obtain old | new := List.mem_append.mp among
        · exact List.mem_append_left _ (queued n old)
        · exact List.mem_append_right _ new
    case isFalse => exact ⟨unique, fun n among => List.mem_append_left _ (queued n among)⟩

def close (lease : Nat) (other : AdmissionLease) : AdmissionLease :=
  if other.id = lease then { other with released := true } else other

theorem close_id (lease : Nat) (other : AdmissionLease) : (close lease other).id = other.id := by
  rw [close]
  split <;> rfl

theorem close_open {lease : Nat} {other : AdmissionLease} (open_ : (close lease other).released = false) :
    close lease other = other ∧ other.id ≠ lease := by
  rw [close] at open_ ⊢
  split at open_
  case isTrue => cases open_
  case isFalse different => exact ⟨if_neg different, different⟩

theorem length_unreleased (sound : Sound out system) {own : AdmissionLease}
    (among : own ∈ system.leases) (open_ : own.released = false) :
    (((system.leases.map (close own.id)).filter fun lease => !lease.released).length : Int)
      = (unreleased system).length - 1 := by
  have split : (system.leases.map (close own.id)).filter (fun lease => !lease.released)
      = (unreleased system).filter fun lease => lease.id ≠ own.id := by
    rw [unreleased, List.filter_filter]
    induction system.leases with
    | nil => rfl
    | cons lease rest ih =>
      rw [List.map_cons, List.filter_cons, List.filter_cons, ih]
      by_cases same : lease.id = own.id
      · simp [close, same]
      · simp [close, same]
  have unique : ((unreleased system).map AdmissionLease.id).Nodup := by
    refine List.Nodup.sublist (List.Sublist.map _ List.filter_sublist) ?_
    rw [sound.numbered]
    exact List.nodup_range
  have mem : own.id ∈ (unreleased system).map AdmissionLease.id :=
    List.mem_map_of_mem (List.mem_filter.mpr ⟨among, by rw [open_]; rfl⟩)
  have one : ((unreleased system).filter fun lease => lease.id = own.id).length = 1 := by
    have count := List.count_eq_one_of_mem unique mem
    rw [List.count, List.countP_map, List.countP_eq_length_filter] at count
    rw [← count]
    rfl
  have parts := List.length_eq_length_filter_add (l := unreleased system)
    fun lease => decide (lease.id = own.id)
  have rest : ((unreleased system).filter fun lease => lease.id ≠ own.id).length
      = ((unreleased system).filter fun lease => !decide (lease.id = own.id)).length := by
    congr 2
    funext lease
    simp
  rw [split, rest]
  omega

theorem releaseLease (sound : Sound none system) {lease : Nat}
    (holding : statusOf system id = some (.holding lease)) :
    Sound (some id) { system with
      active := system.active - 1
      leases := system.leases.map (close lease) } := by
  obtain ⟨own, among, rfl, owner, open_⟩ := sound.holds id lease nofun holding
  have still : ∀ other ∈ system.leases.map (close own.id), other.released = false →
      other ∈ system.leases ∧ other.id ≠ own.id := by
    intro other mapped free
    obtain ⟨before, was, rfl⟩ := List.mem_map.mp mapped
    obtain ⟨same, different⟩ := close_open free
    rw [same]
    exact ⟨was, different⟩
  refine
    { counted := ?_
      numbered := ?_
      placed := sound.placed
      inOrder := sound.inOrder
      timed := sound.timed
      listened := sound.listened
      within := ?_
      held := fun other mapped free => ?_
      holds := fun call n away status => ?_
      queued := fun entry queued => ?_
      waits := fun call n _ status => sound.waits call n nofun status }
  · rw [unreleased]
    dsimp only
    rw [sound.length_unreleased among open_, sound.counted]
  · dsimp only
    rw [List.map_map, List.length_map, ← sound.numbered]
    exact List.map_congr_left fun other _ => close_id own.id other
  · obtain ⟨was, different⟩ := still other mapped free
    have status := (sound.held other was free).2
    refine ⟨fun same => different ?_, status⟩
    rw [← Option.some.inj same, holding] at status
    exact (Status.holding.inj (Option.some.inj status)).symm
  · obtain ⟨other, was, rfl, rfl, free⟩ := sound.holds call n nofun status
    have different : other.id ≠ own.id := by
      intro same
      refine away ?_
      have one := List.inj_on_of_nodup_map (sound.numbered ▸ List.nodup_range) was among same
      rw [one, owner]
    refine ⟨other, List.mem_map.mpr ⟨other, was, ?_⟩, rfl, rfl, free⟩
    rw [close, if_neg different]
  · have status := (sound.queued entry queued).2
    refine ⟨fun same => ?_, status⟩
    rw [← Option.some.inj same, holding] at status
    cases status
  · have before := sound.within
    dsimp only
    omega

theorem removeEntry (sound : Sound none system) {entry : QueueEntry} (among : entry ∈ system.queue)
    {kept : List QueueEntry} (settlement : Settlement)
    (split : (queuedIds system).Perm (entry.id :: kept.map QueueEntry.id))
    (part : ∀ other ∈ kept, other ∈ system.queue)
    (rest : ∀ other ∈ system.queue, other.id ≠ entry.id → other ∈ kept)
    (order : (grantedIds { system with settled := system.settled ++ [(entry.id, settlement)] }
      ++ kept.map QueueEntry.id).Pairwise (· < ·)) :
    Sound (some entry.owner) { system with
      queue := kept
      timers := system.timers.erase entry.id
      listeners := system.listeners.erase entry.id
      settled := system.settled ++ [(entry.id, settlement)] } := by
  have status := (sound.queued entry among).2
  have unique : (entry.id :: kept.map QueueEntry.id).Nodup := split.nodup_iff.mp sound.nodup_queued
  have out : entry.id ∉ kept.map QueueEntry.id := (List.nodup_cons.mp unique).1
  refine
    { counted := sound.counted
      numbered := sound.numbered
      placed := ?_
      inOrder := order
      timed := ?_
      listened := ?_
      within := sound.within
      held := fun lease given open_ => ?_
      holds := fun call n _ holding => sound.holds call n nofun holding
      queued := fun other still => ?_
      waits := fun call n away waiting => ?_ }
  · have holding := (sound.held lease given open_).2
    refine ⟨fun same => ?_, holding⟩
    rw [← Option.some.inj same, status] at holding
    cases holding
  · have waiting := (sound.queued other (part other still)).2
    refine ⟨fun same => ?_, waiting⟩
    rw [← Option.some.inj same, status] at waiting
    have id := Status.waiting.inj (Option.some.inj waiting)
    exact out (id ▸ List.mem_map_of_mem still)
  · obtain ⟨other, was, rfl, rfl⟩ := sound.waits call n nofun waiting
    refine ⟨other, rest other was fun same => away ?_, rfl, rfl⟩
    have one := List.inj_on_of_nodup_map sound.nodup_queued was among same
    rw [one]
  · have moved : (system.settled ++ [(entry.id, settlement)]).map Prod.fst
        ++ kept.map QueueEntry.id
        = system.settled.map Prod.fst ++ (entry.id :: kept.map QueueEntry.id) := by
      rw [List.map_append, List.append_assoc]
      rfl
    exact (moved ▸ (split.symm.append_left _)).trans sound.placed
  · have erased := (sound.timed.trans split).erase entry.id
    rwa [List.erase_cons_head] at erased
  · obtain ⟨distinct, queued⟩ := sound.listened
    refine ⟨distinct.erase _, fun n left => ?_⟩
    obtain ⟨different, was⟩ := (List.Nodup.mem_erase_iff distinct).mp left
    obtain same | later := List.mem_cons.mp (split.subset (queued n was))
    · exact absurd same different
    · exact later

end Sound

/-! ### Drains and rejections -/

theorem calls_of_status {system : System} {id : Nat} {status : Status}
    (is : statusOf system id = some status) :
    ∃ call, system.calls id = some call ∧ call.status = status :=
  Option.map_eq_some_iff.mp is

def Full (system : System) : Prop := system.queue ≠ [] → system.maxConcurrent ≤ system.active

theorem sound_grant {system : System} {entry : QueueEntry} {rest : List QueueEntry}
    (sound : Sound none system) (first : system.queue = entry :: rest)
    (room : system.active < system.maxConcurrent) (now : Int) :
    Sound none (grant system entry rest now) := by
  have among : entry ∈ system.queue := first ▸ List.mem_cons_self
  have ids : queuedIds system = entry.id :: rest.map QueueEntry.id := by
    rw [queuedIds, first]
    rfl
  have granted : grantedIds
      { system with settled := system.settled ++ [(entry.id, .granted)] }
        = grantedIds system ++ [entry.id] := by
    rw [grantedIds]
    dsimp only
    rw [List.filter_append, List.map_append]
    rfl
  have order : (grantedIds { system with settled := system.settled ++ [(entry.id, .granted)] }
      ++ rest.map QueueEntry.id).Pairwise (· < ·) := by
    have before := sound.inOrder
    rw [ids] at before
    rwa [granted, List.append_assoc]
  have taken := sound.removeEntry among .granted (List.Perm.of_eq ids)
    (fun other still => first ▸ List.mem_cons_of_mem entry still)
    (fun other was different => by
      rw [first] at was
      obtain same | later := List.mem_cons.mp was
      · exact absurd (congrArg QueueEntry.id same) different
      · exact later) order
  obtain ⟨call, is, -⟩ := calls_of_status (sound.queued entry among).2
  exact taken.createLease is room entry.enqueuedAt now

theorem grant_frame (system : System) (entry : QueueEntry) (rest : List QueueEntry) (now : Int) :
    (grant system entry rest now).queue = rest ∧
      (grant system entry rest now).maxConcurrent = system.maxConcurrent := by
  unfold grant createLease System.setStatus
  dsimp only
  split <;> exact ⟨rfl, rfl⟩

/-- **A drain keeps the books, and leaves no waiter while there is a slot.** -/
theorem sound_drain (now : Int) (turns : Nat) {system : System} (sound : Sound none system)
    (enough : system.queue.length ≤ turns) :
    Sound none (drain now turns system) ∧ Full (drain now turns system) := by
  induction turns generalizing system with
  | zero =>
    refine ⟨sound, fun waiters => ?_⟩
    exact absurd (List.length_eq_zero_iff.mp (Nat.le_zero.mp enough)) waiters
  | succ turns ih =>
    rw [drain]
    split
    case isTrue room =>
      split
      case h_1 empty => exact ⟨sound, fun waiters => absurd empty waiters⟩
      case h_2 entry rest first =>
        obtain ⟨queue, -⟩ := grant_frame system entry rest now
        refine ih (sound_grant sound first room now) ?_
        rw [queue]
        rw [first, List.length_cons] at enough
        omega
    case isFalse none_ => exact ⟨sound, fun _ => Int.not_lt.mp none_⟩

theorem sound_ended {system : System} {id lease : Nat} {call : Call} (sound : Sound none system)
    (holding : statusOf system id = some (.holding lease))
    (loose : ∀ n, call.status ≠ .holding n ∧ call.status ≠ .waiting n) (now : Int) :
    Sound none (ended system id call lease now) ∧ Full (ended system id call lease now) := by
  have given : (system.leases.any fun other => other.id == lease && other.released) = false := by
    obtain ⟨own, among, same, -, open_⟩ := sound.holds id lease nofun holding
    rw [List.any_eq_false]
    intro other was both
    rw [Bool.and_eq_true, beq_iff_eq] at both
    have one := List.inj_on_of_nodup_map (sound.numbered ▸ List.nodup_range) was among
      (both.1.trans same.symm)
    rw [one, open_] at both
    exact Bool.false_ne_true both.2
  have open_ : (((system.setCall id call).leases).any fun other => other.id == lease && other.released)
      ≠ true := fun same => Bool.false_ne_true (given.symm.trans same)
  rw [ended, release, if_neg open_]
  exact sound_drain now _ ((sound.releaseLease holding).setCall loose) (Nat.le_refl _)

theorem sound_rejected {system : System} {entry : QueueEntry} (sound : Sound none system)
    (among : entry ∈ system.queue) (settlement : Settlement) (other : settlement ≠ .granted)
    (result : Result) :
    Sound none (System.setStatus { system with
      queue := system.queue.filter fun other => other.id ≠ entry.id
      timers := system.timers.erase entry.id
      listeners := system.listeners.erase entry.id
      settled := system.settled ++ [(entry.id, settlement)] } entry.owner (.finished result)) := by
  obtain ⟨call, is, -⟩ := calls_of_status (sound.queued entry among).2
  have granted : grantedIds { system with settled := system.settled ++ [(entry.id, settlement)] }
      = grantedIds system := by
    rw [grantedIds]
    dsimp only
    rw [List.filter_append, List.filter_cons_of_neg (by simpa using other), List.filter_nil,
      List.append_nil, grantedIds]
  have part : ((system.queue.filter fun other => other.id ≠ entry.id).map QueueEntry.id).Sublist
      (queuedIds system) := List.Sublist.map _ List.filter_sublist
  have split : (queuedIds system).Perm
      (entry.id :: (system.queue.filter fun other => other.id ≠ entry.id).map QueueEntry.id) := by
    have mapped : (system.queue.filter fun other => other.id ≠ entry.id).map QueueEntry.id
        = (queuedIds system).erase entry.id := by
      rw [sound.nodup_queued.erase_eq_filter, queuedIds, List.filter_map]
      congr 2
      funext other
      simp [bne, beq_eq_decide]
    rw [mapped]
    exact List.perm_cons_erase (List.mem_map_of_mem among)
  have taken := sound.removeEntry among settlement split
    (fun other still => (List.mem_filter.mp still).1)
    (fun other was different => List.mem_filter.mpr ⟨was, decide_eq_true different⟩)
    (by
      rw [granted]
      exact sound.inOrder.sublist ((List.Sublist.refl _).append part))
  rw [System.setStatus, is]
  exact taken.setCall fun n => ⟨nofun, nofun⟩

/-! ### Runs -/

theorem caught_loose (call : Call) (failure : Failure) (jitter n : Nat) :
    (caught call failure jitter).status ≠ .holding n ∧
      (caught call failure jitter).status ≠ .waiting n := by
  unfold caught
  dsimp only
  split
  case isTrue =>
    split <;> exact ⟨nofun, nofun⟩
  split
  case isFalse.isTrue =>
    split <;> exact ⟨nofun, nofun⟩
  case isFalse.isFalse => exact ⟨nofun, nofun⟩

theorem sound_acquire {system : System} {id : Nat} {call : Call} (sound : Sound none system)
    (full : Full system)
    (loose : ∀ n, statusOf system id ≠ some (.holding n) ∧ statusOf system id ≠ some (.waiting n))
    (free : ∀ n, call.status ≠ .holding n ∧ call.status ≠ .waiting n) (aborted : Bool) (now : Int) :
    Sound none (acquire system id call aborted now) ∧ Full (acquire system id call aborted now) := by
  have out := sound.takeOut loose
  unfold acquire
  dsimp only
  split
  case isTrue => exact ⟨out.setCall fun n => ⟨nofun, nofun⟩, full⟩
  split
  case isFalse.isTrue room =>
    have entered : Sound none (system.setCall id { call with attempt := call.attempt + 1 }) :=
      out.setCall free
    have status := statusOf_setCall system id { call with attempt := call.attempt + 1 } id
    rw [if_pos rfl] at status
    have again : Sound (some id) (system.setCall id { call with attempt := call.attempt + 1 }) :=
      entered.takeOut fun n => by
        rw [status]
        exact ⟨fun same => (free n).1 (Option.some.inj same),
          fun same => (free n).2 (Option.some.inj same)⟩
    have is : (system.setCall id { call with attempt := call.attempt + 1 }).calls id
        = some { call with attempt := call.attempt + 1 } := Function.update_self ..
    refine ⟨again.createLease is room now now, fun waiters => ?_⟩
    have queue : (createLease (system.setCall id { call with attempt := call.attempt + 1 }) id now
        now).queue = system.queue := by
      rw [createLease, System.setStatus, is]
      rfl
    rw [queue] at waiters
    exact absurd (full waiters) (Int.not_le.mpr room)
  case isFalse.isFalse none_ =>
    exact ⟨out.enqueue { call with attempt := call.attempt + 1 } now call.options.signal,
      fun _ => Int.not_lt.mp none_⟩

theorem finished_loose (result : Result) (n : Nat) :
    Status.finished result ≠ .holding n ∧ Status.finished result ≠ .waiting n := ⟨nofun, nofun⟩

theorem sleeping_loose (ms n : Nat) :
    Status.sleeping ms ≠ .holding n ∧ Status.sleeping ms ≠ .waiting n := ⟨nofun, nofun⟩

theorem removeQueuedEntry_eq {system : System} {entry : QueueEntry} (sound : Sound none system)
    (among : entry ∈ system.queue) {timers listeners : List Nat}
    (timed : timers.erase entry.id = system.timers.erase entry.id)
    (listened : listeners.erase entry.id = system.listeners.erase entry.id) (settlement : Settlement)
    (result : QueueEntry → Result) :
    removeQueuedEntry { system with timers, listeners } entry.id settlement result
      = System.setStatus { system with
          queue := system.queue.filter fun other => other.id ≠ entry.id
          timers := system.timers.erase entry.id
          listeners := system.listeners.erase entry.id
          settled := system.settled ++ [(entry.id, settlement)] }
          entry.owner (.finished (result entry)) := by
  have found : system.queue.find? (fun other => decide (other.id = entry.id)) = some entry := by
    cases is : system.queue.find? fun other => decide (other.id = entry.id) with
    | none =>
      have missed := List.find?_eq_none.mp is entry among
      simp at missed
    | some other =>
      have same : other.id = entry.id := by simpa using List.find?_some is
      rw [List.inj_on_of_nodup_map sound.nodup_queued (List.mem_of_find?_eq_some is) among same]
  rw [removeQueuedEntry]
  dsimp only
  rw [found]
  dsimp only [cleanupEntry]
  rw [timed, listened]

theorem full_rejected {system : System} (full : Full system) {queue : List QueueEntry}
    (part : queue.Sublist system.queue) {timers listeners : List Nat}
    {settled : List (Nat × Settlement)} (owner : Nat) (status : Status) :
    Full (System.setStatus { system with queue, timers, listeners, settled } owner status) := by
  unfold System.setStatus
  dsimp only
  split <;> exact fun waiters => full fun empty => waiters (List.eq_nil_of_sublist_nil (empty ▸ part))

theorem sound_callback {system : System} {id : Nat} (sound : Sound none system) (full : Full system)
    (queued : id ∈ queuedIds system) {timers listeners : List Nat}
    (timed : timers.erase id = system.timers.erase id)
    (listened : listeners.erase id = system.listeners.erase id) (settlement : Settlement)
    (other : settlement ≠ .granted) (result : QueueEntry → Result) :
    Sound none (removeQueuedEntry { system with timers, listeners } id settlement result) ∧
      Full (removeQueuedEntry { system with timers, listeners } id settlement result) := by
  obtain ⟨entry, among, rfl⟩ := List.mem_map.mp queued
  rw [removeQueuedEntry_eq sound among timed listened]
  exact ⟨sound_rejected sound among settlement other (result entry),
    full_rejected full List.filter_sublist entry.owner _⟩

def Loose (status : Option Status) : Prop :=
  ∀ n, status ≠ some (.holding n) ∧ status ≠ some (.waiting n)

theorem next_cases {system after : System} {moment : Int × Event}
    (moved : next system moment = some after) :
    (∃ id call aborted, after = acquire system id call aborted moment.1 ∧
      Loose (statusOf system id) ∧ ∀ n, call.status ≠ .holding n ∧ call.status ≠ .waiting n) ∨
    (∃ id call lease, after = ended system id call lease moment.1 ∧
      statusOf system id = some (.holding lease) ∧
      ∀ n, call.status ≠ .holding n ∧ call.status ≠ .waiting n) ∨
    (∃ id result, id ∈ system.timers ∧ after = removeQueuedEntry
      { system with timers := system.timers.erase id } id .timedOut result) ∨
    ∃ id result, id ∈ system.listeners ∧ after = removeQueuedEntry
      { system with listeners := system.listeners.erase id } id .aborted result := by
  obtain ⟨now, event⟩ := moment
  cases event with
  | run id options aborted =>
    rw [next] at moved
    dsimp only at moved
    split at moved
    case isTrue => cases moved
    case isFalse fresh =>
      cases moved
      have none_ : statusOf system id = none := by
        rw [statusOf, Option.not_isSome_iff_eq_none.mp fresh]
        rfl
      exact .inl ⟨id, _, aborted, rfl, fun n => by rw [none_]; exact ⟨nofun, nofun⟩,
        sleeping_loose 0⟩
  | complete id =>
    rw [next] at moved
    dsimp only at moved
    split at moved
    case h_1 call is =>
      split at moved
      case h_1 lease holding =>
        cases moved
        have status : statusOf system id = some (.holding lease) := by
          rw [statusOf, is]
          exact congrArg some holding
        exact .inr (.inl ⟨id, _, lease, rfl, status, finished_loose .returned⟩)
      case h_2 => cases moved
    case h_2 => cases moved
  | fail id failure jitter =>
    rw [next] at moved
    dsimp only at moved
    split at moved
    case h_1 call is =>
      split at moved
      case h_1 lease holding =>
        cases moved
        have status : statusOf system id = some (.holding lease) := by
          rw [statusOf, is]
          exact congrArg some holding
        exact .inr (.inl ⟨id, _, lease, rfl, status, caught_loose call failure jitter⟩)
      case h_2 => cases moved
    case h_2 => cases moved
  | wake id aborted =>
    rw [next] at moved
    dsimp only at moved
    split at moved
    case h_1 call is =>
      split at moved
      case h_1 ms sleeping =>
        cases moved
        have status : statusOf system id = some (.sleeping ms) := by
          rw [statusOf, is]
          exact congrArg some sleeping
        exact .inl ⟨id, call, aborted, rfl, fun n => by rw [status]; exact ⟨nofun, nofun⟩,
          fun n => by rw [sleeping]; exact ⟨nofun, nofun⟩⟩
      case h_2 => cases moved
    case h_2 => cases moved
  | timeout id =>
    rw [next] at moved
    dsimp only at moved
    split at moved
    case isTrue armed =>
      cases moved
      exact .inr (.inr (.inl ⟨id, _, armed, rfl⟩))
    case isFalse => cases moved
  | abort id =>
    rw [next] at moved
    dsimp only at moved
    split at moved
    case isTrue heard =>
      cases moved
      exact .inr (.inr (.inr ⟨id, _, heard, rfl⟩))
    case isFalse => cases moved

/-- **An event keeps the books.** -/
theorem sound_next {system after : System} {moment : Int × Event} (sound : Sound none system)
    (full : Full system) (moved : next system moment = some after) :
    Sound none after ∧ Full after := by
  obtain ⟨id, call, aborted, rfl, loose, free⟩ | ⟨id, call, lease, rfl, holding, loose⟩
    | ⟨id, result, armed, rfl⟩ | ⟨id, result, heard, rfl⟩ := next_cases moved
  · exact sound_acquire sound full loose free aborted _
  · exact sound_ended sound holding loose _
  · have distinct : system.timers.Nodup := sound.timed.nodup_iff.mpr sound.nodup_queued
    exact sound_callback sound full (sound.timed.subset armed)
      (List.erase_of_not_mem distinct.not_mem_erase) rfl .timedOut nofun result
  · exact sound_callback sound full (sound.listened.2 id heard) rfl
      (List.erase_of_not_mem sound.listened.1.not_mem_erase) .aborted nofun result

theorem sound_start (maxConcurrent : Nat) : Sound none (start maxConcurrent) where
  counted := rfl
  numbered := rfl
  held _ among := absurd among List.not_mem_nil
  holds _ _ _ status := nomatch status
  queued _ among := absurd among List.not_mem_nil
  waits _ _ _ status := nomatch status
  placed := List.Perm.refl []
  inOrder := List.Pairwise.nil
  timed := List.Perm.refl []
  listened := ⟨List.nodup_nil, fun _ among => absurd among List.not_mem_nil⟩
  within := Int.natCast_nonneg maxConcurrent

theorem sound_of_reachable {maxConcurrent : Nat} {system : System}
    (reached : Reachable next (start maxConcurrent) system) : Sound none system ∧ Full system :=
  reached.invariant (fun system => Sound none system ∧ Full system)
    ⟨sound_start maxConcurrent, fun waiters => absurd rfl waiters⟩
    fun _ _ _ holds moved => sound_next holds.1 holds.2 moved

/-! ### The maximum is the controller's own -/

theorem maxConcurrent_setStatus (system : System) (id : Nat) (status : Status) :
    (system.setStatus id status).maxConcurrent = system.maxConcurrent := by
  unfold System.setStatus
  split <;> rfl

theorem maxConcurrent_drain (now : Int) (turns : Nat) (system : System) :
    (drain now turns system).maxConcurrent = system.maxConcurrent := by
  induction turns generalizing system with
  | zero => rfl
  | succ turns ih =>
    rw [drain]
    split
    · split
      · rfl
      · next entry rest _ => rw [ih, (grant_frame system entry rest now).2]
    · rfl

theorem maxConcurrent_ended (system : System) (id : Nat) (call : Call) (lease : Nat) (now : Int) :
    (ended system id call lease now).maxConcurrent = system.maxConcurrent := by
  unfold ended release
  split
  · rfl
  · exact maxConcurrent_drain now _ _

theorem maxConcurrent_acquire (system : System) (id : Nat) (call : Call) (aborted : Bool)
    (now : Int) : (acquire system id call aborted now).maxConcurrent = system.maxConcurrent := by
  unfold acquire
  dsimp only
  split
  · rfl
  split
  · exact maxConcurrent_setStatus _ _ _
  · rfl

theorem maxConcurrent_removeQueuedEntry (system : System) (id : Nat) (settlement : Settlement)
    (result : QueueEntry → Result) :
    (removeQueuedEntry system id settlement result).maxConcurrent = system.maxConcurrent := by
  unfold removeQueuedEntry
  split
  · rfl
  · exact maxConcurrent_setStatus _ _ _

theorem maxConcurrent_next {system after : System} {moment : Int × Event}
    (moved : next system moment = some after) : after.maxConcurrent = system.maxConcurrent := by
  obtain ⟨id, call, aborted, rfl, -⟩ | ⟨id, call, lease, rfl, -⟩ | ⟨id, result, -, rfl⟩
    | ⟨id, result, -, rfl⟩ := next_cases moved
  · exact maxConcurrent_acquire _ _ _ _ _
  · exact maxConcurrent_ended _ _ _ _ _
  · exact maxConcurrent_removeQueuedEntry _ _ _ _
  · exact maxConcurrent_removeQueuedEntry _ _ _ _

theorem maxConcurrent_of_reachable {maxConcurrent : Nat} {system : System}
    (reached : Reachable next (start maxConcurrent) system) : system.maxConcurrent = maxConcurrent :=
  reached.invariant (fun system => system.maxConcurrent = maxConcurrent) rfl
    fun _ _ _ same moved => (maxConcurrent_next moved).trans same

/-! ### Every run -/

theorem timeout_settles {system : System} {id : Nat} (sound : Sound none system)
    (queued : id ∈ queuedIds system) (now : Int) :
    ∃ after, next system (now, .timeout id) = some after ∧ (id, .timedOut) ∈ after.settled := by
  have armed : id ∈ system.timers := sound.timed.symm.subset queued
  have distinct : system.timers.Nodup := sound.timed.nodup_iff.mpr sound.nodup_queued
  obtain ⟨entry, among, rfl⟩ := List.mem_map.mp queued
  obtain ⟨call, is, -⟩ := calls_of_status (sound.queued entry among).2
  rw [next]
  dsimp only
  rw [if_pos armed]
  refine ⟨_, rfl, ?_⟩
  rw [removeQueuedEntry_eq sound among (List.erase_of_not_mem distinct.not_mem_erase) rfl,
    System.setStatus, is]
  exact List.mem_append_right _ (List.mem_singleton_self _)

/-- **The controller.** In every state reached by any order of calls, completions, failures, timers
and signals: the open leases are counted and within the maximum; the queue is empty while there is a
slot; the waiters are given leases in the order in which they came; each is in the queue, with its
timer set, or was settled once; and each open lease is held by one call that will release it. -/
theorem controller_sound {maxConcurrent : Nat} {system : System}
    (reached : Reachable next (start maxConcurrent) system) :
    (system.active = (unreleased system).length ∧ system.active ≤ maxConcurrent) ∧
      (system.queue ≠ [] → system.active = maxConcurrent) ∧
      (grantedIds system ++ queuedIds system).Pairwise (· < ·) ∧
      (system.settled.map Prod.fst ++ queuedIds system).Perm (List.range system.entries) ∧
      (∀ id, id ∈ system.timers ↔ id ∈ queuedIds system) ∧
      (∀ id ∈ queuedIds system, ∀ now, ∃ after, next system (now, .timeout id) = some after ∧
        (id, .timedOut) ∈ after.settled) ∧
      (∀ call id, statusOf system call = some (.waiting id) ↔
        ∃ entry ∈ system.queue, entry.id = id ∧ entry.owner = call) ∧
      ∀ call id, statusOf system call = some (.holding id) ↔
        ∃ lease ∈ unreleased system, lease.id = id ∧ lease.owner = call := by
  obtain ⟨sound, full⟩ := sound_of_reachable reached
  rw [← maxConcurrent_of_reachable reached]
  refine ⟨⟨sound.counted, sound.within⟩, fun waiters => ?_, sound.inOrder, sound.placed,
    fun id => sound.timed.mem_iff, fun id queued now => timeout_settles sound queued now,
    fun call id => ⟨sound.waits call id nofun, ?_⟩, fun call id => ⟨fun holding => ?_, ?_⟩⟩
  · exact Int.le_antisymm sound.within (full waiters)
  · rintro ⟨entry, among, rfl, rfl⟩
    exact (sound.queued entry among).2
  · obtain ⟨lease, among, same, owner, open_⟩ := sound.holds call id nofun holding
    exact ⟨lease, List.mem_filter.mpr ⟨among, by rw [open_]; rfl⟩, same, owner⟩
  · rintro ⟨lease, among, rfl, rfl⟩
    obtain ⟨given, open_⟩ := List.mem_filter.mp among
    exact (sound.held lease given ((Bool.not_eq_true' _).mp open_)).2

/-- One slot: of the three calls behind the first, one is aborted and one times out, and the last
is given the slot. -/
def raced : List (Int × Event) :=
  let patient : OperationOptions := { signal := false, retryTransient := none, retryOverload := none }
  let cancellable : OperationOptions := { patient with signal := true }
  [(0, .run 0 patient false), (1, .run 1 cancellable false), (2, .run 2 patient false),
    (3, .run 3 patient false), (4, .abort 0), (5002, .timeout 1), (5003, .complete 0)]

theorem controller_sound_raced : ∃ system, run next (start 1) raced = some system ∧
    system.settled = [(0, .aborted), (1, .timedOut), (2, .granted)] ∧
    system.active = (unreleased system).length ∧ system.active = 1 := by
  have ends : (run next (start 1) raced).isSome = true := by decide
  have reached := Reachable.of_run raced (Option.some_get ends).symm
  exact ⟨_, (Option.some_get ends).symm, rfl, (controller_sound reached).1.1, rfl⟩

end Toard.Storage.Controller
