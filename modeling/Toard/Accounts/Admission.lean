/-
**Whom the invitations admit.**
-/

import Toard.Accounts.InviteRules

namespace Toard.Accounts

open Library Table

variable {guarded : Prop} {process : Nat} {before after db : Database}

/-! ### Making a user -/

/-- An invitation that a transaction found in its time, as it is committed. -/
structure Found (process id : Nat) (invite : Invite) (db : Database) : Prop where
  present : db.invites.rows id = some invite
  pending : invite.isPending = true
  timely : (db.work process).began < invite.expiresAt

/-- What a transaction that makes a user holds: the rows that it has written, and beside them the
invitation that it acts on. -/
structure Admitting (process : Nat) (invitation : Option (Nat × Invite))
    (users : List (Nat × Option User)) (assignments : List (Nat × Option Assignment))
    (invites : List (Nat × Option Invite)) (db : Database) : Prop where
  holds : At process users assignments invites none db
  found : ∀ id invite, invitation = some (id, invite) →
    Found process id invite db ∧ ∃ version, (id, version) ∈ invites

def unused (invitation : Option (Nat × Invite)) : List (Nat × Option Invite) :=
  invitation.toList.map fun taken => (taken.1, some taken.2)

def usedAt (time : Nat) (invitation : Option (Nat × Invite)) : List (Nat × Option Invite) :=
  invitation.toList.map fun taken => (taken.1, some { taken.2 with acceptedAt := some time })

def Names (invitation : Option (Nat × Invite)) (user : User) : Prop :=
  user.through = invitation.map Prod.fst ∧ ∀ id invite, invitation = some (id, invite) →
    user.email = invite.email ∧ user.role = invite.role ∧ user.teamId = invite.teamId

def teamOf (invitation : Option (Nat × Invite)) : Option String := invitation.bind (·.2.teamId)

def Assigns (userId : Nat) (held : List (Nat × Option Assignment)) : Option String → Prop
  | none => held = []
  | some teamId => ∃ id row, held = [(id, some row)] ∧ row.userId = userId ∧
      row.teamId = teamId ∧ row.effectiveTo = none

theorem Admitting.stable {invitation : Option (Nat × Invite)} {users : List (Nat × Option User)}
    {assignments : List (Nat × Option Assignment)} {invites : List (Nat × Option Invite)} :
    Concurrent.Stable (discipline guarded) process
      (Admitting process invitation users assignments invites) := by
  intro before after relied admitting
  refine ⟨admitting.holds.kept relied, fun id invite taken => ?_⟩
  obtain ⟨found, version, among⟩ := admitting.found id invite taken
  have drafted := (admitting.holds.invites id version).mpr among
  refine ⟨⟨?_, found.pending, ?_⟩, version, among⟩
  · rw [relied.invites.rows id version drafted]
    exact found.present
  · rw [relied.work]
    exact found.timely

def Used (process : Nat) (invitation : Option (Nat × Invite)) (userId : Nat) (db : Database) :
    Prop :=
  ∃ user held, Names invitation user ∧ Assigns userId held (teamOf invitation) ∧
    Admitting process invitation [(userId, some user)] held
      (usedAt (db.work process).began invitation) db

section Commit

variable {invitation : Option (Nat × Invite)} {userId : Nat} {user : User}
  {held : List (Nat × Option Assignment)}

theorem rows_commit_usedAt (admitting : Admitting process invitation [(userId, some user)] held
      (usedAt (db.work process).began invitation) db) (id : Nat) :
    (db.invites.commit process).rows id = db.invites.rows id ∨
      ∃ invite, invitation = some (id, invite) ∧ db.invites.rows id = some invite ∧
        invite.isPending = true ∧ (db.invites.commit process).rows id
          = some { invite with acceptedAt := some (db.work process).began } := by
  by_cases taken : ∃ invite, invitation = some (id, invite)
  · obtain ⟨invite, rfl⟩ := taken
    obtain ⟨found, _⟩ := admitting.found id invite rfl
    exact .inr ⟨invite, rfl, found.present, found.pending,
      rows_commit_of_mem admitting.holds.invites (List.mem_singleton_self _)⟩
  · refine .inl (rows_commit_of_holds admitting.holds.invites fun version among => taken ?_)
    obtain ⟨⟨other, invite⟩, named, same⟩ := List.mem_map.mp among
    cases same
    exact ⟨invite, Option.mem_toList.mp named⟩

theorem pendingAt_commit_usedAt (admitting : Admitting process invitation [(userId, some user)] held
      (usedAt (db.work process).began invitation) db) {id : Nat} {invite : Invite}
    (present : (db.invites.commit process).rows id = some invite)
    (pending : invite.isPending = true) : db.invites.rows id = some invite := by
  rcases rows_commit_usedAt admitting id with same | ⟨_, _, _, _, written⟩
  · rw [← same, present]
  · rw [written] at present
    cases present
    cases pending

theorem oneOpen_commit (consistent : Consistent guarded db)
    (admitting : Admitting process invitation [(userId, some user)] held
      (usedAt (db.work process).began invitation) db) {teamId : Option String}
    (assigns : Assigns userId held teamId) : OneOpen (commit process db) userId teamId := by
  have new : db.users.rows userId = none := consistent.newUser userId process (some user)
    ((admitting.holds.users _ _).mpr (List.mem_singleton_self _))
  have old : ∀ id row, db.assignments.rows id = some row → row.userId ≠ userId := by
    intro id row present same
    obtain ⟨_, known⟩ := consistent.assigned id row present
    rw [same, new] at known
    cases known
  cases teamId with
  | none =>
    rw [Assigns] at assigns
    subst assigns
    intro id row present
    rcases of_rows_commit admitting.holds.assignments present with among | present
    · exact absurd among List.not_mem_nil
    · exact old id row present
  | some teamId =>
    obtain ⟨id, row, rfl, ofUser, toTeam, isOpen⟩ := assigns
    refine ⟨id, row, rows_commit_of_mem admitting.holds.assignments (List.mem_singleton_self _),
      ofUser, toTeam, isOpen, fun other row' present same => ?_⟩
    rcases of_rows_commit admitting.holds.assignments present with among | present
    · rw [List.mem_singleton, Prod.mk.injEq] at among
      exact among.1
    · exact absurd same (old other row' present)

theorem oneOpen_commit_of_ne (consistent : Consistent guarded db) {other : Nat}
    (apart : ∀ id row, (id, some row) ∈ held → row.userId ≠ other)
    (holds : db.assignments.Holds process held) {teamId : Option String}
    (opened : OneOpen db other teamId) : OneOpen (commit process db) other teamId := by
  have back : ∀ id row, (db.assignments.commit process).rows id = some row →
      row.userId = other → db.assignments.rows id = some row := by
    intro id row present same
    rcases of_rows_commit holds present with among | present
    · exact absurd same (apart id row among)
    · exact present
  cases teamId with
  | none => exact fun id row present same => opened id row (back id row present same) same
  | some teamId =>
    obtain ⟨id, row, present, ofUser, toTeam, isOpen, only⟩ := opened
    exact ⟨id, row, rows_commit_of_new
      (fun id version => consistent.newAssignment id process version) present, ofUser, toTeam,
      isOpen, fun other' row' present' same =>
        only other' row' (back other' row' present' same) same⟩

theorem Admitted.commit (consistent : Consistent guarded db)
    (admitting : Admitting process invitation [(userId, some user)] held
      (usedAt (db.work process).began invitation) db)
    (apart : ∀ id row, (id, some row) ∈ held → row.userId = userId) {other : Nat} {known : User}
    {through : Nat} (present : db.users.rows other = some known)
    (admitted : Admitted db other known through) :
    Admitted (commit process db) other known through := by
  obtain ⟨invite, accepted, ⟨time, timed, before⟩, email, role, team, opened⟩ := admitted
  have different : userId ≠ other := by
    rintro rfl
    rw [consistent.newUser userId process (some user)
      ((admitting.holds.users _ _).mpr (List.mem_singleton_self _))] at present
    cases present
  refine ⟨invite, ?_, ⟨time, timed, before⟩, email, role, team,
    oneOpen_commit_of_ne consistent (fun id row among => ?_) admitting.holds.assignments opened⟩
  · rcases rows_commit_usedAt admitting through with same | ⟨old, _, same, pending, _⟩
    · exact same.trans accepted
    · rw [accepted] at same
      cases same
      rw [Invite.isPending, timed] at pending
      cases pending
  · rw [apart id row among]
    exact different

theorem Assigns.of_mem {teamId : Option String} (assigns : Assigns userId held teamId) {id : Nat}
    {row : Assignment} (among : (id, some row) ∈ held) : row.userId = userId := by
  cases teamId with
  | none =>
    rw [Assigns] at assigns
    rw [assigns] at among
    exact absurd among List.not_mem_nil
  | some teamId =>
    obtain ⟨_, _, rfl, ofUser, _⟩ := assigns
    rw [List.mem_singleton, Prod.mk.injEq, Option.some.injEq] at among
    rw [among.2]
    exact ofUser

/-- **The commit of an admission.** -/
theorem keeps_commit_of_used (consistent : Consistent guarded db)
    (used : Used process invitation userId db) :
    Concurrent.Keeps (discipline guarded) process db (commit process db) := by
  obtain ⟨user, held, ⟨through, names⟩, assigns, admitting⟩ := used
  have drafted := (admitting.holds.users _ _).mpr (List.mem_singleton_self _)
  have new : db.users.rows userId = none := consistent.newUser userId process (some user) drafted
  have keptUser : ∀ id known, db.users.rows id = some known →
      (db.users.commit process).rows id = some known := fun id known =>
    rows_commit_of_new fun id version => consistent.newUser id process version
  have fromUser : ∀ id known, (db.users.commit process).rows id = some known →
      (id = userId ∧ known = user) ∨ db.users.rows id = some known := by
    intro id known present
    rcases of_rows_commit admitting.holds.users present with among | present
    · rw [List.mem_singleton, Prod.mk.injEq, Option.some.injEq] at among
      exact .inl among
    · exact .inr present
  have issued : (commit process db).issued = db.issued := by
    show db.issued ++ (db.work process).issuing.toList = db.issued
    rw [admitting.holds.issuing, Option.toList_none, List.append_nil]
  -- nobody was admitted through an invitation that is still pending
  have unusedBefore : ∀ id known invitation, db.users.rows id = some known →
      known.through = some invitation → user.through ≠ some invitation := by
    intro id known number present fromThere alsoThere
    obtain ⟨accepted, there, ⟨time, timed, _⟩, _⟩ :=
      consistent.admitted id known number present fromThere
    rw [through] at alsoThere
    obtain ⟨⟨_, invite⟩, taken, rfl⟩ := Option.map_eq_some_iff.mp alsoThere
    obtain ⟨found, _⟩ := admitting.found _ invite taken
    have same := Option.some.inj (there.symm.trans found.present)
    have pending := found.pending
    rw [← same, Invite.isPending, timed] at pending
    cases pending
  refine ⟨{
    unique := unique_commit consistent.unique
    newUser := fun id holder version drafted => by
      obtain ⟨_, drafted, same⟩ := of_draft_commit drafted
      exact same.trans (consistent.newUser id holder version drafted)
    newAssignment := fun id holder version drafted => by
      obtain ⟨_, drafted, same⟩ := of_draft_commit drafted
      exact same.trans (consistent.newAssignment id holder version drafted)
    assigned := fun id row present => ?assigned
    admitted := fun id known number present fromThere => ?admitted
    once := fun id id' known known' number present present' fromThere fromThere' => ?once
    held := fun id holder invite old drafted present => ?held
    deleted := fun id holder old drafted present => by
      obtain ⟨_, drafted, same⟩ := of_draft_commit drafted
      exact consistent.deleted id holder old drafted (same ▸ present)
    unissued := fun id holder invite drafted absent => ?unissued
    listed := fun id invite present => ?listed
    named := fun id email invite among present => ?named
    counted := issued ▸ consistent.counted
    superseded := fun guard => ?superseded }, fun other different => {
      users := kept_commit different
      assignments := kept_commit different
      invites := kept_commit different
      work := rfl
      clock := Nat.le_refl _
      issued := issued ▸ List.prefix_refl _
      stays := fun id email invite _ present pending =>
        pendingAt_commit_usedAt admitting present pending }⟩
  case assigned =>
    rcases of_rows_commit admitting.holds.assignments present with among | present
    · rw [assigns.of_mem among]
      exact ⟨user, rows_commit_of_mem admitting.holds.users (List.mem_singleton_self _)⟩
    · obtain ⟨known, there⟩ := consistent.assigned id row present
      exact ⟨known, keptUser _ known there⟩
  case admitted =>
    rcases fromUser id known present with ⟨rfl, rfl⟩ | present
    · rw [through] at fromThere
      obtain ⟨⟨number', invite⟩, taken, same⟩ := Option.map_eq_some_iff.mp fromThere
      obtain rfl : number' = number := same
      obtain ⟨email, role, team⟩ := names number' invite taken
      obtain ⟨found, _⟩ := admitting.found number' invite taken
      subst taken
      exact ⟨_, rows_commit_of_mem admitting.holds.invites (List.mem_singleton_self _),
        ⟨_, rfl, found.timely⟩, email, role, team, oneOpen_commit consistent admitting assigns⟩
    · exact (consistent.admitted id known number present fromThere).commit consistent admitting
        (fun _ _ => assigns.of_mem) present
  case once =>
    rcases fromUser id known present with ⟨rfl, rfl⟩ | present <;>
      rcases fromUser id' known' present' with ⟨rfl, rfl⟩ | present'
    · rfl
    · exact absurd fromThere (unusedBefore id' known' number present' fromThere')
    · exact absurd fromThere' (unusedBefore id known number present fromThere)
    · exact consistent.once id id' known known' number present present' fromThere fromThere'
  case held =>
    obtain ⟨_, drafted, same⟩ := of_draft_commit drafted
    exact consistent.held id holder invite old drafted (same ▸ present)
  case unissued =>
    obtain ⟨_, drafted, same⟩ := of_draft_commit drafted
    rw [issued]
    exact consistent.unissued id holder invite drafted (same ▸ absent)
  case listed =>
    rw [issued]
    rcases rows_commit_usedAt admitting id with same | ⟨old, _, there, _, written⟩
    · exact consistent.listed id invite (same ▸ present)
    · obtain rfl := Option.some.inj (written.symm.trans present)
      exact consistent.listed id old there
  case named =>
    rw [issued] at among
    rcases rows_commit_usedAt admitting id with same | ⟨old, _, there, _, written⟩
    · exact consistent.named id email invite among (same ▸ present)
    · obtain rfl := Option.some.inj (written.symm.trans present)
      exact consistent.named id email old among there
  case superseded =>
    rw [Superseded, issued]
    refine (consistent.superseded guard).imp fun {earlier later} replaced same => ?_
    have notBefore := replaced same
    rw [← Bool.not_eq_true, pendingAt_iff] at notBefore ⊢
    rintro ⟨invite, present, pending⟩
    exact notBefore ⟨invite, pendingAt_commit_usedAt admitting present pending, pending⟩

end Commit

/-! ### Issuing an invitation -/

/-- Of the invitations that were issued when the DELETE began, those that are pending for the email
are among `ids`. -/
structure Sweeps (process : Nat) (email : String) (ids : List Nat) (db : Database) : Prop where
  bound : (db.work process).snapshot ≤ db.issued.length
  among : ∀ id, (id, email) ∈ db.issued.take (db.work process).snapshot →
    pendingAt db id = true → id ∈ ids

theorem Sweeps.kept {email : String} {ids : List Nat} (sweeps : Sweeps process email ids before)
    (relied : Relied process before after) : Sweeps process email ids after := by
  obtain ⟨more, issued⟩ := relied.issued
  refine ⟨?_, fun id among pending => ?_⟩
  · rw [relied.work, ← issued, List.length_append]
    exact Nat.le_add_right_of_le sweeps.bound
  · rw [relied.work, ← issued, List.take_append_of_le_length sweeps.bound] at among
    obtain ⟨invite, present, isPending⟩ := pendingAt_iff.mp pending
    exact sweeps.among id among (pendingAt_iff.mpr
      ⟨invite, relied.stays id email invite (List.mem_of_mem_take among) present isPending,
        isPending⟩)

theorem Sweeps.of_same {email : String} {ids : List Nat} (sweeps : Sweeps process email ids before)
    (snapshot : (after.work process).snapshot = (before.work process).snapshot)
    (issued : after.issued = before.issued) (rows : after.invites.rows = before.invites.rows) :
    Sweeps process email ids after := by
  refine ⟨?_, fun id among pending => ?_⟩
  · rw [snapshot, issued]
    exact sweeps.bound
  · rw [snapshot, issued] at among
    rw [pendingAt, rows] at pending
    exact sweeps.among id among pending

def Sweeping (process : Nat) (email : String) (found : List Nat) (db : Database) : Prop :=
  At process [] [] [] none db ∧ Sweeps process email found db

def Swept (process : Nat) (email : String) (db : Database) : Prop :=
  ∃ deleted : List Nat, At process [] [] (deleted.map fun id => (id, none)) none db ∧
    Sweeps process email deleted db

def Replacing (process : Nat) (email : String) (db : Database) : Prop :=
  ∃ deleted : List Nat, ∃ (new : Nat) (invite : Invite),
    At process [] [] ((new, some invite) :: deleted.map fun id => (id, none))
      (some (new, email)) db ∧
    Sweeps process email deleted db ∧ db.invites.rows new = none ∧ invite.email = email

theorem Sweeping.stable {email : String} {found : List Nat} :
    Concurrent.Stable (discipline guarded) process (Sweeping process email found) :=
  fun _ _ relied sweeping => ⟨sweeping.1.kept relied, sweeping.2.kept relied⟩

theorem Swept.stable {email : String} :
    Concurrent.Stable (discipline guarded) process (Swept process email) := by
  rintro before after relied ⟨deleted, held, sweeps⟩
  exact ⟨deleted, held.kept relied, sweeps.kept relied⟩

theorem Replacing.stable {email : String} :
    Concurrent.Stable (discipline guarded) process (Replacing process email) := by
  rintro before after relied ⟨deleted, new, invite, held, sweeps, absent, named⟩
  refine ⟨deleted, new, invite, held.kept relied, sweeps.kept relied, ?_, named⟩
  rw [relied.invites.rows new (some invite) ((held.invites _ _).mpr List.mem_cons_self)]
  exact absent

/-- No invitation that is still pending was issued for the email since the DELETE of a transaction
began, which is about to issue one. -/
def NotOvertaken (process : Nat) (db : Database) : Prop :=
  ∀ issue ∈ (db.work process).issuing, ∀ other ∈ db.issued.drop (db.work process).snapshot,
    other.2 = issue.2 → pendingAt db other.1 = false

instance : Decidable (NotOvertaken process db) := by
  unfold NotOvertaken
  infer_instance

/-- What a commit of an invitation leaves of the others: a row that was there, or none; and none of
those that were found pending. -/
theorem rows_commit_replacing {email : String} {deleted : List Nat} {new : Nat} {invite : Invite}
    (held : At process [] [] ((new, some invite) :: deleted.map fun id => (id, none))
      (some (new, email)) db) {id : Nat} {row : Invite}
    (present : (db.invites.commit process).rows id = some row) :
    (id = new ∧ row = invite) ∨ (db.invites.rows id = some row ∧ id ∉ deleted) := by
  by_cases isDeleted : id ∈ deleted
  · have gone := rows_commit_of_mem held.invites
      (List.mem_cons_of_mem _ (List.mem_map.mpr ⟨id, isDeleted, rfl⟩))
    rw [gone] at present
    cases present
  · rcases of_rows_commit held.invites present with among | present
    · rcases List.mem_cons.mp among with same | among
      · exact .inl ⟨(Prod.mk.inj same).1, Option.some.inj (Prod.mk.inj same).2⟩
      · obtain ⟨_, _, same⟩ := List.mem_map.mp among
        cases same
    · exact .inr ⟨present, isDeleted⟩

/-- **The commit of an invitation**, if it was not overtaken by another one. -/
theorem keeps_commit_of_replacing {email : String} (consistent : Consistent guarded db)
    (replacing : Replacing process email db) (first : guarded → NotOvertaken process db) :
    Concurrent.Keeps (discipline guarded) process db (commit process db) := by
  obtain ⟨deleted, new, invite, held, sweeps, absent, named⟩ := replacing
  have newHeld := (held.invites new (some invite)).mpr List.mem_cons_self
  have notIssued : ∀ email, (new, email) ∉ db.issued :=
    consistent.unissued new process invite newHeld absent
  have issued : (commit process db).issued = db.issued ++ [(new, email)] := by
    show db.issued ++ (db.work process).issuing.toList = _
    rw [held.issuing, Option.toList_some]
  have users : (commit process db).users.rows = db.users.rows :=
    rows_commit_of_holds_nil held.users
  have assignments : (commit process db).assignments.rows = db.assignments.rows :=
    rows_commit_of_holds_nil held.assignments
  -- an invitation that was used is not among those that are deleted
  have keptUsed : ∀ id row, db.invites.rows id = some row → row.isPending = false →
      (db.invites.commit process).rows id = some row := by
    intro id row present used
    refine (rows_commit_of_holds held.invites fun version among => ?_).trans present
    rcases List.mem_cons.mp among with same | among
    · obtain ⟨rfl, _⟩ := Prod.mk.inj same
      rw [absent] at present
      cases present
    · obtain ⟨other, isDeleted, same⟩ := List.mem_map.mp among
      cases same
      have drafted := (held.invites id none).mpr (List.mem_cons_of_mem _ among)
      rw [consistent.deleted id process row drafted present] at used
      cases used
  have isOld : ∀ id row, (db.invites.commit process).rows id = some row →
      (∃ email, (id, email) ∈ db.issued) → db.invites.rows id = some row ∧ id ∉ deleted := by
    rintro id row present ⟨other, among⟩
    rcases rows_commit_replacing held present with ⟨rfl, _⟩ | old
    · exact absurd among (notIssued other)
    · exact old
  refine ⟨{
    unique := unique_commit consistent.unique
    newUser := fun id holder version drafted => by
      obtain ⟨_, drafted, same⟩ := of_draft_commit drafted
      exact same.trans (consistent.newUser id holder version drafted)
    newAssignment := fun id holder version drafted => by
      obtain ⟨_, drafted, same⟩ := of_draft_commit drafted
      exact same.trans (consistent.newAssignment id holder version drafted)
    assigned := by
      rw [users, assignments]
      exact consistent.assigned
    admitted := fun id known number present fromThere => by
      obtain ⟨row, there, ⟨time, timed, before⟩, email, role, team, opened⟩ :=
        consistent.admitted id known number (users ▸ present) fromThere
      exact ⟨row, keptUsed number row there (by rw [Invite.isPending, timed]; rfl),
        ⟨time, timed, before⟩, email, role, team, (OneOpen.congr assignments).mpr opened⟩
    once := by
      rw [users]
      exact consistent.once
    held := fun id holder row old drafted present => by
      obtain ⟨_, drafted, same⟩ := of_draft_commit drafted
      exact consistent.held id holder row old drafted (same ▸ present)
    deleted := fun id holder old drafted present => by
      obtain ⟨_, drafted, same⟩ := of_draft_commit drafted
      exact consistent.deleted id holder old drafted (same ▸ present)
    unissued := fun id holder row drafted gone other => ?unissued
    listed := fun id row present => ?listed
    named := fun id other row among present => ?named
    counted := fun id other among => ?counted
    superseded := fun guard => ?superseded }, fun other different => {
      users := kept_commit different
      assignments := kept_commit different
      invites := kept_commit different
      work := rfl
      clock := Nat.le_refl _
      issued := issued ▸ List.prefix_append _ _
      stays := fun id email row among present _ => (isOld id row present ⟨email, among⟩).1 }⟩
  case unissued =>
    obtain ⟨different, drafted, same⟩ := of_draft_commit drafted
    rw [issued, List.mem_append, not_or, List.mem_singleton, Prod.mk.injEq, not_and]
    refine ⟨consistent.unissued id holder row drafted (same ▸ gone) other, fun isNew => ?_⟩
    rw [isNew, newHeld] at drafted
    exact absurd (Prod.mk.inj (Option.some.inj drafted)).1.symm different
  case listed =>
    rw [issued, List.mem_append]
    rcases rows_commit_replacing held present with ⟨rfl, rfl⟩ | ⟨old, _⟩
    · rw [named]
      exact .inr (List.mem_singleton_self _)
    · exact .inl (consistent.listed id row old)
  case named =>
    rw [issued, List.mem_append, List.mem_singleton, Prod.mk.injEq] at among
    rcases among with among | ⟨rfl, rfl⟩
    · exact consistent.named id other row among (isOld id row present ⟨other, among⟩).1
    · rcases rows_commit_replacing held present with ⟨_, rfl⟩ | ⟨old, _⟩
      · exact named
      · rw [absent] at old
        cases old
  case counted =>
    rw [issued, List.mem_append, List.mem_singleton, Prod.mk.injEq] at among
    rcases among with among | ⟨rfl, _⟩
    · exact consistent.counted id other among
    · have bound := lt_count_of_draft newHeld
      exact bound
  case superseded =>
    have stillPending : ∀ entry ∈ db.issued, pendingAt (commit process db) entry.1 = true →
        pendingAt db entry.1 = true ∧ entry.1 ∉ deleted := by
      intro entry among pending
      obtain ⟨row, present, isPending⟩ := pendingAt_iff.mp pending
      obtain ⟨old, kept⟩ := isOld entry.1 row present ⟨entry.2, among⟩
      exact ⟨pendingAt_iff.mpr ⟨row, old, isPending⟩, kept⟩
    rw [Superseded, issued, List.pairwise_append]
    refine ⟨?_, List.pairwise_singleton _ _, fun earlier among later isLater same => ?_⟩
    · refine (consistent.superseded guard).imp_of_mem fun {earlier later} among _ replaced same => ?_
      rw [← Bool.not_eq_true]
      intro pending
      have old := (stillPending earlier among pending).1
      rw [replaced same] at old
      cases old
    · rw [List.mem_singleton] at isLater
      obtain rfl : earlier.2 = email := by rw [same, isLater]
      rw [← Bool.not_eq_true]
      intro pending
      obtain ⟨old, kept⟩ := stillPending earlier among pending
      rw [← List.take_append_drop (db.work process).snapshot db.issued, List.mem_append] at among
      rcases among with looked | since
      · exact kept (sweeps.among earlier.1 looked old)
      · have notPending := first guard (new, earlier.2) held.issuing earlier since rfl
        rw [notPending] at old
        cases old

end Toard.Accounts
