/-
**What the statements of the invitation transactions keep.**
-/

import Toard.Accounts.Invites

namespace Toard.Accounts

open Library Table

def pendingAt (db : Database) (id : Nat) : Bool := (db.invites.rows id).any Invite.isPending

theorem pendingAt_iff {db : Database} {id : Nat} : pendingAt db id = true ↔
    ∃ invite, db.invites.rows id = some invite ∧ invite.isPending = true := by
  rw [pendingAt, Option.any_eq_true]

def OneOpen (db : Database) (userId : Nat) : Option String → Prop
  | some teamId => ∃ id row, db.assignments.rows id = some row ∧ row.userId = userId ∧
      row.teamId = teamId ∧ row.effectiveTo = none ∧
      ∀ other row', db.assignments.rows other = some row' → row'.userId = userId → other = id
  | none => ∀ id row, db.assignments.rows id = some row → row.userId ≠ userId

/-- The user has what the invitation says, and the invitation was used in its time. -/
def Admitted (db : Database) (userId : Nat) (user : User) (invitation : Nat) : Prop :=
  ∃ invite, db.invites.rows invitation = some invite ∧
    (∃ time, invite.acceptedAt = some time ∧ time < invite.expiresAt) ∧
    user.email = invite.email ∧ user.role = invite.role ∧ user.teamId = invite.teamId ∧
    OneOpen db userId invite.teamId

/-- No invitation is pending that was issued before another one for its email. -/
def Superseded (db : Database) : Prop :=
  db.issued.Pairwise fun earlier later => earlier.2 = later.2 → pendingAt db earlier.1 = false

structure Consistent (guarded : Prop) (db : Database) : Prop where
  unique : db.users.Unique User.email
  newUser : ∀ id process version, db.users.draft id = some (process, version) →
    db.users.rows id = none
  newAssignment : ∀ id process version, db.assignments.draft id = some (process, version) →
    db.assignments.rows id = none
  assigned : ∀ id row, db.assignments.rows id = some row →
    ∃ user, db.users.rows row.userId = some user
  admitted : ∀ id user invitation, db.users.rows id = some user →
    user.through = some invitation → Admitted db id user invitation
  once : ∀ id id' user user' invitation, db.users.rows id = some user →
    db.users.rows id' = some user' → user.through = some invitation →
    user'.through = some invitation → id = id'
  held : ∀ id process invite old, db.invites.draft id = some (process, some invite) →
    db.invites.rows id = some old → invite = old ∨ invite.isPending = false
  deleted : ∀ id process old, db.invites.draft id = some (process, none) →
    db.invites.rows id = some old → old.isPending = true
  unissued : ∀ id process invite, db.invites.draft id = some (process, some invite) →
    db.invites.rows id = none → ∀ email, (id, email) ∉ db.issued
  listed : ∀ id invite, db.invites.rows id = some invite → (id, invite.email) ∈ db.issued
  named : ∀ id email invite, (id, email) ∈ db.issued → db.invites.rows id = some invite →
    invite.email = email
  counted : ∀ id email, (id, email) ∈ db.issued → id < db.invites.count
  superseded : guarded → Superseded db

structure Relied (process : Nat) (before after : Database) : Prop where
  users : Kept process before.users after.users
  assignments : Kept process before.assignments after.assignments
  invites : Kept process before.invites after.invites
  work : after.work process = before.work process
  clock : before.clock ≤ after.clock
  issued : before.issued <+: after.issued
  stays : ∀ id email invite, (id, email) ∈ before.issued → after.invites.rows id = some invite →
    invite.isPending = true → before.invites.rows id = some invite

theorem Relied.refl (process : Nat) (db : Database) : Relied process db db :=
  ⟨.refl _ _, .refl _ _, .refl _ _, rfl, Nat.le_refl _, List.prefix_refl _,
    fun _ _ _ _ present _ => present⟩

structure Idle (process : Nat) (db : Database) : Prop where
  users : db.users.Holds process []
  assignments : db.assignments.Holds process []
  invites : db.invites.Holds process []

def discipline (guarded : Prop) : Concurrent.Discipline Database where
  holds := Consistent guarded
  rely := Relied
  idle := Idle

/-- The rows that a transaction holds, and the invitation that its commit would issue. -/
structure At (process : Nat) (users : List (Nat × Option User))
    (assignments : List (Nat × Option Assignment)) (invites : List (Nat × Option Invite))
    (issuing : Option (Nat × String)) (db : Database) : Prop where
  users : db.users.Holds process users
  assignments : db.assignments.Holds process assignments
  invites : db.invites.Holds process invites
  issuing : (db.work process).issuing = issuing

variable {guarded : Prop} {process : Nat} {before after db : Database}

theorem Idle.stable : Concurrent.Stable (discipline guarded) process (Idle process) :=
  fun _ _ relied idle => ⟨idle.users.kept relied.users, idle.assignments.kept relied.assignments,
    idle.invites.kept relied.invites⟩

section At

variable {users : List (Nat × Option User)} {assignments : List (Nat × Option Assignment)}
  {invites : List (Nat × Option Invite)} {issuing : Option (Nat × String)}

theorem At.kept (held : At process users assignments invites issuing before)
    (relied : Relied process before after) : At process users assignments invites issuing after :=
  ⟨held.users.kept relied.users, held.assignments.kept relied.assignments,
    held.invites.kept relied.invites, by rw [relied.work]; exact held.issuing⟩

end At

theorem OneOpen.congr {userId : Nat} {teamId : Option String}
    (rows : after.assignments.rows = before.assignments.rows) :
    OneOpen after userId teamId ↔ OneOpen before userId teamId := by
  cases teamId with
  | none => rw [OneOpen, OneOpen, rows]
  | some teamId => rw [OneOpen, OneOpen, rows]

theorem Consistent.of_invites (consistent : Consistent guarded before)
    (users : after.users = before.users) (assignments : after.assignments = before.assignments)
    (rows : after.invites.rows = before.invites.rows)
    (count : before.invites.count ≤ after.invites.count) (issued : after.issued = before.issued)
    (held : ∀ id process invite old, after.invites.draft id = some (process, some invite) →
      before.invites.rows id = some old → invite = old ∨ invite.isPending = false)
    (deleted : ∀ id process old, after.invites.draft id = some (process, none) →
      before.invites.rows id = some old → old.isPending = true)
    (unissued : ∀ id process invite, after.invites.draft id = some (process, some invite) →
      before.invites.rows id = none → ∀ email, (id, email) ∉ before.issued) :
    Consistent guarded after where
  unique := users ▸ consistent.unique
  newUser := users ▸ consistent.newUser
  newAssignment := assignments ▸ consistent.newAssignment
  assigned := by
    rw [users, assignments]
    exact consistent.assigned
  admitted := by
    intro id user invitation present through
    rw [users] at present
    obtain ⟨invite, accepted, time, email, role, team, opened⟩ :=
      consistent.admitted id user invitation present through
    exact ⟨invite, rows ▸ accepted, time, email, role, team,
      (OneOpen.congr (by rw [assignments])).mpr opened⟩
  once := users ▸ consistent.once
  held := by
    rw [rows]
    exact held
  deleted := by
    rw [rows]
    exact deleted
  unissued := by
    rw [rows, issued]
    exact unissued
  listed := by
    rw [rows, issued]
    exact consistent.listed
  named := by
    rw [rows, issued]
    exact consistent.named
  counted id email among :=
    Nat.lt_of_lt_of_le (consistent.counted id email (issued ▸ among)) count
  superseded guard := by
    have before' := consistent.superseded guard
    rw [Superseded] at before' ⊢
    rw [issued]
    refine before'.imp fun {earlier later} replaced same => ?_
    rw [pendingAt, rows]
    exact replaced same

theorem Relied.of_invites {other : Nat} (users : after.users = before.users)
    (assignments : after.assignments = before.assignments)
    (rows : after.invites.rows = before.invites.rows)
    (invites : Kept other before.invites after.invites) (work : after.work other = before.work other)
    (clock : after.clock = before.clock) (issued : after.issued = before.issued) :
    Relied other before after where
  users := users ▸ .refl _ _
  assignments := assignments ▸ .refl _ _
  invites := invites
  work := work
  clock := Nat.le_of_eq clock.symm
  issued := issued ▸ List.prefix_refl _
  stays _ _ _ _ present _ := rows ▸ present

theorem work_note_of_ne {other : Nat} {work : Work} (different : other ≠ process) :
    (db.note process work).work other = db.work other := Function.update_of_ne different _ _

theorem work_note_self {work : Work} : (db.note process work).work process = work :=
  Function.update_self _ _ _

theorem keeps_of_same (consistent : Consistent guarded before) (users : after.users = before.users)
    (assignments : after.assignments = before.assignments) (invites : after.invites = before.invites)
    (clock : after.clock = before.clock) (issued : after.issued = before.issued)
    (work : ∀ other, other ≠ process → after.work other = before.work other) :
    Concurrent.Keeps (discipline guarded) process before after := by
  refine ⟨consistent.of_invites users assignments (by rw [invites])
    (Nat.le_of_eq (by rw [invites])) issued ?_ ?_ ?_, fun other different =>
      .of_invites users assignments (by rw [invites]) (invites ▸ .refl _ _) (work other different)
        clock issued⟩
  · rw [invites]
    exact consistent.held
  · rw [invites]
    exact consistent.deleted
  · rw [invites]
    exact consistent.unissued

/-! ### Statements that read, and those that take invitations -/

theorem keeps_refl (consistent : Consistent guarded db) :
    Concurrent.Keeps (discipline guarded) process db db :=
  ⟨consistent, fun _ _ => .refl _ _⟩

theorem keeps_note (consistent : Consistent guarded db) (work : Work) :
    Concurrent.Keeps (discipline guarded) process db (db.note process work) :=
  keeps_of_same consistent rfl rfl rfl rfl rfl fun _ different => work_note_of_ne different

theorem keeps_lockEmail {email : String} (consistent : Consistent guarded before)
    (locked : lockEmail process email before = some after) :
    Concurrent.Keeps (discipline guarded) process before after := by
  rw [lockEmail] at locked
  split at locked
  case isTrue => cases locked
  case isFalse =>
    cases locked
    exact keeps_of_same consistent rfl rfl rfl rfl rfl fun _ _ => rfl

/-- A transaction writes rows of invitations that nobody else holds: each draft that it leaves is
the committed row, a used one, or none. -/
theorem keeps_write {selected : Nat → Bool} {change : Invite → Option Invite}
    (consistent : Consistent guarded before)
    (free : ∀ id, selected id = true → before.invites.heldByOther process id = false)
    (invites : after.invites = before.invites.write process selected change)
    (users : after.users = before.users) (assignments : after.assignments = before.assignments)
    (clock : after.clock = before.clock) (issued : after.issued = before.issued)
    (work : ∀ other, other ≠ process → after.work other = before.work other)
    (fine : ∀ id row invite, before.invites.seen process id = some row →
      change row = some invite →
      (∀ old, before.invites.rows id = some old → invite = old ∨ invite.isPending = false) ∧
      (before.invites.rows id = none → ∀ email, (id, email) ∉ before.issued))
    (pending : ∀ id row old, selected id = true → before.invites.seen process id = some row →
      change row = none → before.invites.rows id = some old → old.isPending = true) :
    Concurrent.Keeps (discipline guarded) process before after := by
  have drafts : ∀ id holder invite, after.invites.draft id = some (holder, some invite) →
      (∀ old, before.invites.rows id = some old → invite = old ∨ invite.isPending = false) ∧
      (before.invites.rows id = none → ∀ email, (id, email) ∉ before.issued) := by
    intro id holder invite drafted
    rw [invites] at drafted
    rcases draft_write_cases before.invites process id selected change with
      ⟨row, _, sees, written⟩ | same
    · rw [written] at drafted
      obtain ⟨_, changed⟩ := Prod.mk.inj (Option.some.inj drafted)
      exact fine id row invite sees changed
    · rw [same] at drafted
      exact ⟨fun old => consistent.held id holder invite old drafted,
        consistent.unissued id holder invite drafted⟩
  refine ⟨consistent.of_invites users assignments (by rw [invites, rows_write])
    (Nat.le_of_eq (by rw [invites, count_write])) issued
    (fun id holder invite old drafted => (drafts id holder invite drafted).1 old) ?_
    (fun id holder invite drafted => (drafts id holder invite drafted).2),
    fun other different => .of_invites users assignments (by rw [invites, rows_write]) ?_
      (work other different) clock issued⟩
  · intro id holder old drafted present
    rw [invites] at drafted
    rcases draft_write_cases before.invites process id selected change with
      ⟨row, chosen, sees, written⟩ | same
    · rw [written] at drafted
      exact pending id row old chosen sees (Prod.mk.inj (Option.some.inj drafted)).2 present
    · exact consistent.deleted id holder old (same ▸ drafted) present
  · rw [invites]
    exact kept_write different free

theorem keeps_deletePending {email : String} {found : List Nat}
    (consistent : Consistent guarded before)
    (deleted : deletePending process email found before = some after) :
    Concurrent.Keeps (discipline guarded) process before after := by
  rw [deletePending] at deleted
  split at deleted
  case isTrue => cases deleted
  case isFalse free =>
    cases deleted
    refine keeps_write consistent (fun id selected => ?_) rfl rfl rfl rfl rfl (fun _ _ => rfl)
      (fun _ _ _ _ changed => nomatch changed) fun id row old selected sees _ present => ?_
    · rw [Bool.and_eq_true] at selected
      rw [Bool.not_eq_true, List.any_eq_false] at free
      exact Bool.eq_false_iff.mpr (free id (List.contains_iff_mem.mp selected.1))
    · rw [Bool.and_eq_true, sees, Option.any_some, Bool.and_eq_true] at selected
      rcases seen_cases before.invites process id with ⟨version, drafted, same⟩ | committed
      · obtain rfl := same.symm.trans sees
        rcases consistent.held id process row old drafted present with rfl | used
        · exact selected.2.2
        · rw [used] at selected
          cases selected.2.2
      · obtain rfl := Option.some.inj (sees.symm.trans (committed.trans present))
        exact selected.2.2

theorem keeps_holdInvite {id : Nat} (consistent : Consistent guarded db)
    (nothing : db.invites.Holds process [])
    (free : db.invites.heldByOther process id = false) :
    Concurrent.Keeps (discipline guarded) process db (holdInvite process id db) := by
  refine keeps_write consistent (fun other selected => ?_) rfl rfl rfl rfl rfl
    (fun _ different => work_note_of_ne different) (fun other row invite sees changed => ?_)
    fun _ _ _ _ _ changed => nomatch changed
  · rw [of_decide_eq_true selected]
    exact free
  · cases changed
    rw [seen_of_holds_nil nothing] at sees
    exact ⟨fun old present => .inl (Option.some.inj (sees.symm.trans present)),
      fun absent => by rw [absent] at sees; cases sees⟩

theorem keeps_acceptedNow {id : Nat} (consistent : Consistent guarded before)
    (accepted : acceptedNow process id before = some after) :
    Concurrent.Keeps (discipline guarded) process before after := by
  rw [acceptedNow] at accepted
  split at accepted
  case isTrue => cases accepted
  case isFalse free =>
    cases accepted
    refine keeps_write consistent (fun other selected => ?_) rfl rfl rfl rfl rfl (fun _ _ => rfl)
      (fun other row invite sees changed => ?_) fun _ _ _ _ _ changed => nomatch changed
    · rw [of_decide_eq_true selected]
      exact Bool.eq_false_iff.mpr free
    · cases changed
      refine ⟨fun _ _ => .inr rfl, fun absent => ?_⟩
      rcases seen_cases before.invites process other with ⟨version, drafted, same⟩ | committed
      · rw [same] at sees
        subst sees
        exact consistent.unissued other process row drafted absent
      · rw [committed, absent] at sees
        cases sees

theorem keeps_insertInvite {row : Nat → Invite} (consistent : Consistent guarded before)
    (inserted : insertInvite process row before = some after) :
    Concurrent.Keeps (discipline guarded) process before after := by
  rw [insertInvite] at inserted
  split at inserted
  case isTrue => cases inserted
  case isFalse =>
    split at inserted
    case isTrue => cases inserted
    case isFalse =>
      cases inserted
      have isNew : ∀ id holder version,
          (before.invites.insert process (row (before.work process).began)).draft id
              = some (holder, version) → id = before.invites.count ∨
            before.invites.draft id = some (holder, version) := by
        intro id holder version drafted
        by_cases new : id = before.invites.count
        · exact .inl new
        · rw [draft_insert_of_ne new] at drafted
          exact .inr drafted
      have beyond := (before.invites.beyond _ (Nat.le_refl _)).1
      refine ⟨consistent.of_invites rfl rfl rfl (Nat.le_succ _) rfl ?_ ?_ ?_, fun other different =>
        .of_invites rfl rfl rfl (kept_insert different) (work_note_of_ne different) rfl rfl⟩
      · intro id holder invite old drafted present
        rcases isNew id holder _ drafted with rfl | drafted
        · rw [beyond] at present
          cases present
        · exact consistent.held id holder invite old drafted present
      · intro id holder old drafted present
        rcases isNew id holder _ drafted with rfl | drafted
        · rw [beyond] at present
          cases present
        · exact consistent.deleted id holder old drafted present
      · intro id holder invite drafted absent email among
        rcases isNew id holder _ drafted with rfl | drafted
        · exact absurd (consistent.counted _ email among) (Nat.lt_irrefl _)
        · exact consistent.unissued id holder invite drafted absent email among

/-! ### Users and their assignments -/

theorem keeps_insertUser {row : Nat → User} {id : Nat} (consistent : Consistent guarded before)
    (nothing : before.users.Holds process [])
    (inserted : insertUser process row before = some (after, some id)) :
    Concurrent.Keeps (discipline guarded) process before after ∧ id = before.users.count ∧
      after = { before with
        users := before.users.insert process (row (before.work process).began) } := by
  rw [insertUser] at inserted
  split at inserted
  case isTrue => cases inserted
  case isFalse free =>
    split at inserted
    case isTrue => cases inserted
    case isFalse accepted =>
      cases inserted
      rw [Bool.not_eq_true] at free accepted
      have new : ∀ id old, before.users.Entry id old →
          old.email ≠ (row (before.work process).began).email := by
        intro id old entry
        have unlike := not_like_of_free accepted free nothing entry
        exact beq_eq_false_iff_ne.mp unlike
      refine ⟨⟨{ consistent with
        unique := unique_insert consistent.unique new
        newUser := fun id holder version drafted => ?_ }, fun other different =>
          { Relied.refl other before with users := kept_insert different }⟩, rfl, rfl⟩
      by_cases isNew : id = before.users.count
      · exact (before.users.beyond id (Nat.le_of_eq isNew.symm)).1
      · rw [draft_insert_of_ne isNew] at drafted
        exact consistent.newUser id holder version drafted

theorem keeps_insertUser_none {row : Nat → User} (consistent : Consistent guarded before)
    (refused : insertUser process row before = some (after, none)) :
    Concurrent.Keeps (discipline guarded) process before after ∧ after = before := by
  rw [insertUser] at refused
  split at refused
  case isTrue => cases refused
  case isFalse =>
    split at refused
    case isTrue =>
      cases refused
      exact ⟨keeps_refl consistent, rfl⟩
    case isFalse => cases refused

theorem keeps_insertAssignment {row : Nat → Assignment} (consistent : Consistent guarded before)
    (inserted : insertAssignment process row before = some after) :
    Concurrent.Keeps (discipline guarded) process before after ∧
      after = { before with
        assignments := before.assignments.insert process (row (before.work process).began) } := by
  rw [insertAssignment] at inserted
  split at inserted
  case isTrue => cases inserted
  case isFalse =>
    split at inserted
    case isTrue => cases inserted
    case isFalse =>
      cases inserted
      refine ⟨⟨{ consistent with
        newAssignment := fun id holder version drafted => ?_ }, fun other different =>
          { Relied.refl other before with assignments := kept_insert different }⟩, rfl⟩
      by_cases isNew : id = before.assignments.count
      · exact (before.assignments.beyond id (Nat.le_of_eq isNew.symm)).1
      · rw [draft_insert_of_ne isNew] at drafted
        exact consistent.newAssignment id holder version drafted

/-! ### The ends of a transaction -/

theorem keeps_rollback (consistent : Consistent guarded db) :
    Concurrent.Keeps (discipline guarded) process db (rollback process db) ∧
      Idle process (rollback process db) := by
  have sameDraft : ∀ id holder version,
      (db.invites.rollback process).draft id = some (holder, version) →
        db.invites.draft id = some (holder, version) := fun id holder version drafted =>
    (released_eq_some.mp drafted).1
  refine ⟨⟨{ consistent with
    unique := unique_rollback consistent.unique
    newUser := fun id holder version drafted =>
      consistent.newUser id holder version (released_eq_some.mp drafted).1
    newAssignment := fun id holder version drafted =>
      consistent.newAssignment id holder version (released_eq_some.mp drafted).1
    held := fun id holder invite old drafted =>
      consistent.held id holder invite old (sameDraft id holder _ drafted)
    deleted := fun id holder old drafted =>
      consistent.deleted id holder old (sameDraft id holder _ drafted)
    unissued := fun id holder invite drafted =>
      consistent.unissued id holder invite (sameDraft id holder _ drafted) },
    fun other different => { Relied.refl other db with
      users := kept_rollback different
      assignments := kept_rollback different
      invites := kept_rollback different }⟩,
    ⟨holds_rollback _ _, holds_rollback _ _, holds_rollback _ _⟩⟩

end Toard.Accounts
