/-
**Invitations in every run.**
-/

import Toard.Accounts.Admission

namespace Toard.Accounts

open Library Table

variable {guarded : Prop} {process : Nat} {site : Site}

def Admits (db : Database) (process : Nat) : Statement → Prop
  | .commit => NotOvertaken process db
  | _ => True

instance (db : Database) (process : Nat) (statement : Statement) :
    Decidable (Admits db process statement) := by
  unfold Admits
  split <;> infer_instance

def Begun (process : Nat) (db : Database) : Prop :=
  At process [] [] [] none db ∧ (db.work process).began ≤ db.clock

def Holding (process : Nat) (invitation : Option (Nat × Invite)) : Database → Prop :=
  Admitting process invitation [] [] (unused invitation)

def Made (process : Nat) (invitation : Option (Nat × Invite)) (userId : Nat) (db : Database) :
    Prop :=
  ∃ user, Names invitation user ∧
    Admitting process invitation [(userId, some user)] [] (unused invitation) db

def Assigned (process : Nat) (invitation : Option (Nat × Invite)) (userId : Nat) (db : Database) :
    Prop :=
  ∃ user held, Names invitation user ∧ Assigns userId held (teamOf invitation) ∧
    Admitting process invitation [(userId, some user)] held (unused invitation) db

section Stable

variable {invitation : Option (Nat × Invite)} {userId : Nat}

theorem Begun.stable : Concurrent.Stable (discipline guarded) process (Begun process) :=
  fun _ _ relied begun => ⟨begun.1.kept relied, by
    rw [relied.work]
    exact Nat.le_trans begun.2 relied.clock⟩

theorem Made.stable :
    Concurrent.Stable (discipline guarded) process (Made process invitation userId) := by
  rintro before after relied ⟨user, names, admitting⟩
  exact ⟨user, names, Admitting.stable before after relied admitting⟩

theorem Assigned.stable :
    Concurrent.Stable (discipline guarded) process (Assigned process invitation userId) := by
  rintro before after relied ⟨user, held, names, assigns, admitting⟩
  exact ⟨user, held, names, assigns, Admitting.stable before after relied admitting⟩

theorem Used.stable :
    Concurrent.Stable (discipline guarded) process (Used process invitation userId) := by
  rintro before after relied ⟨user, held, names, assigns, admitting⟩
  refine ⟨user, held, names, assigns, ?_⟩
  rw [relied.work]
  exact Admitting.stable before after relied admitting

end Stable

/-- What a statement needs and leaves, for a transaction of the site. -/
abbrev Does (site : Site) (guarded : Prop) (process : Nat) (statement : Statement)
    (now : Database → Prop) (later : Reply statement → Database → Prop) : Prop :=
  Concurrent.Triple (discipline guarded) (system site)
    (fun db process statement => guarded → Admits db process statement) process statement now later

theorem does_read {statement : Statement} {now : Database → Prop}
    (reads : ∀ db after reply, perform process statement db = some (after, reply) → after = db) :
    Does site guarded process statement now fun _ => now := by
  intro before after reply consistent holds _ performed
  obtain rfl := reads before after reply performed
  exact ⟨keeps_refl consistent, holds⟩

theorem does_begin : Does site guarded process .begin (Idle process) fun _ => Begun process := by
  intro before after reply consistent idle _ performed
  cases performed
  refine ⟨keeps_note consistent _, ⟨idle.users, idle.assignments, idle.invites, ?_⟩, ?_⟩
  · exact congrArg Work.issuing work_note_self
  · exact Nat.le_of_eq (congrArg Work.began work_note_self)

theorem does_rollback {now : Database → Prop} :
    Does site guarded process .rollback now fun _ => Idle process := by
  intro before after reply consistent _ _ performed
  cases performed
  exact keeps_rollback consistent

/-! ### Issuing -/

theorem does_pendingInvites {email : String} : Does site guarded process (.pendingInvites email)
    (Begun process) fun found => Sweeping process email found := by
  intro before after reply consistent begun _ performed
  cases performed
  have issuing := begun.1.issuing
  refine ⟨keeps_note consistent _, ⟨begun.1.users, begun.1.assignments, begun.1.invites, ?_⟩,
    ?_, fun id among pending => ?_⟩
  · exact (congrArg Work.issuing work_note_self).trans issuing
  · exact Nat.le_of_eq (congrArg Work.snapshot work_note_self)
  · obtain ⟨invite, present, isPending⟩ := pendingAt_iff.mp pending
    have named := consistent.named id email invite (List.mem_of_mem_take among) present
    refine List.mem_map.mpr ⟨(id, invite), mem_select.mpr ⟨?_, ?_⟩, rfl⟩
    · rw [seen_of_holds_nil begun.1.invites]
      exact present
    · rw [named, beq_self_eq_true, Bool.true_and]
      exact isPending

theorem does_deletePending {email : String} {found : List Nat} :
    Does site guarded process (.deletePending email found) (Sweeping process email found)
      fun _ => Swept process email := by
  intro before after reply consistent sweeping _ performed
  obtain ⟨held, sweeps⟩ := sweeping
  obtain ⟨db, deleted, same⟩ := Option.map_eq_some_iff.mp performed
  cases same
  refine ⟨keeps_deletePending consistent deleted, ?_⟩
  rw [deletePending] at deleted
  split at deleted
  case isTrue => cases deleted
  case isFalse =>
    cases deleted
    refine ⟨_, ⟨held.users, held.assignments, holds_delete held.invites, held.issuing⟩,
      sweeps.bound, fun id among pending => ?_⟩
    obtain ⟨invite, present, isPending⟩ := pendingAt_iff.mp pending
    have named := consistent.named id email invite (List.mem_of_mem_take among) present
    have isFound := sweeps.among id among pending
    refine List.mem_filter.mpr ⟨List.mem_range.mpr (lt_count_of_rows present), ?_⟩
    rw [seen_of_holds_nil held.invites, List.contains_iff_mem.mpr isFound]
    rw [rows_write] at present
    rw [present, Option.any_some, named, isPending, beq_self_eq_true]
    rfl

theorem does_insertInvite {email : String} {row : Nat → Invite}
    (named : ∀ now, (row now).email = email) :
    Does site guarded process (.insertInvite row) (Swept process email)
      fun _ => Replacing process email := by
  intro before after reply consistent swept _ performed
  obtain ⟨deleted, held, sweeps⟩ := swept
  obtain ⟨db, inserted, same⟩ := Option.map_eq_some_iff.mp performed
  cases same
  refine ⟨keeps_insertInvite consistent inserted, ?_⟩
  rw [insertInvite] at inserted
  split at inserted
  case isTrue => cases inserted
  case isFalse =>
    split at inserted
    case isTrue => cases inserted
    case isFalse =>
      cases inserted
      refine ⟨deleted, before.invites.count, row (before.work process).began,
        ⟨held.users, held.assignments, holds_insert held.invites, ?_⟩,
        sweeps.of_same ((congrArg Work.snapshot work_note_self).trans rfl) rfl rfl,
        (before.invites.beyond _ (Nat.le_refl _)).1, named _⟩
      rw [← named (before.work process).began]
      exact congrArg Work.issuing work_note_self

theorem does_commit_invite {email : String} :
    Does site guarded process .commit (Replacing process email) fun _ => Idle process := by
  intro before after reply consistent replacing admitted performed
  cases performed
  exact ⟨keeps_commit_of_replacing consistent replacing admitted,
    holds_commit _ _, holds_commit _ _, holds_commit _ _⟩

/-! ### Admitting -/

theorem holding_holdInvite {id : Nat} {invite : Invite} {db : Database}
    (begun : Begun process db) (present : db.invites.rows id = some invite)
    (isOpen : invite.isOpen db.clock = true) :
    Holding process (some (id, invite)) (holdInvite process id db) := by
  obtain ⟨held, began⟩ := begun
  rw [Invite.isOpen, Bool.and_eq_true, decide_eq_true_iff] at isOpen
  have sees : db.invites.seen process id = some invite := by
    rw [seen_of_holds_nil held.invites]
    exact present
  refine ⟨⟨held.users, held.assignments, holds_write_one held.invites sees, ?_⟩, ?_⟩
  · exact (congrArg Work.issuing work_note_self).trans held.issuing
  · rintro _ _ ⟨⟩
    refine ⟨⟨present, isOpen.1, ?_⟩, _, List.mem_singleton_self _⟩
    exact Nat.lt_of_le_of_lt (Nat.le_of_eq (congrArg Work.began work_note_self))
      (Nat.lt_of_le_of_lt began isOpen.2)

theorem Begun.holding {db : Database} (begun : Begun process db) : Holding process none db :=
  ⟨begun.1, nofun⟩

theorem does_inviteForUpdate {tokenHash : String} :
    Does site guarded process (.inviteForUpdate tokenHash) (Begun process)
      fun invitation => Holding process invitation := by
  intro before after reply consistent begun _ performed
  have performed' : inviteForUpdate process tokenHash before = some (after, reply) := performed
  rw [inviteForUpdate] at performed'
  split at performed'
  case h_1 =>
    cases performed'
    exact ⟨keeps_refl consistent, begun.holding⟩
  case h_2 id invite _ found =>
    split at performed'
    case isTrue => cases performed'
    case isFalse free =>
      cases performed'
      obtain ⟨sees, meets⟩ := mem_select.mp (found ▸ List.mem_cons_self)
      rw [seen_of_holds_nil begun.1.invites] at sees
      rw [Bool.and_eq_true] at meets
      exact ⟨keeps_holdInvite consistent begun.1.invites (Bool.eq_false_iff.mpr free),
        holding_holdInvite begun sees meets.2⟩

theorem does_lockEmail {email : String} :
    Does site guarded process (.lockEmail email) (Begun process) fun _ => Begun process := by
  intro before after reply consistent begun _ performed
  obtain ⟨db, locked, same⟩ := Option.map_eq_some_iff.mp performed
  cases same
  refine ⟨keeps_lockEmail consistent locked, ?_⟩
  rw [lockEmail] at locked
  split at locked
  case isTrue => cases locked
  case isFalse =>
    cases locked
    exact ⟨⟨begun.1.users, begun.1.assignments, begun.1.invites, begun.1.issuing⟩, begun.2⟩

theorem keeps_newestForUpdate {email : String} {before after : Database} {found : List Nat}
    {invitation : Option (Nat × Invite)} (consistent : Consistent guarded before)
    (begun : Begun process before)
    (performed : newestForUpdate process email before found = some (after, invitation)) :
    Concurrent.Keeps (discipline guarded) process before after ∧
      (∀ taken ∈ invitation, taken.2.email = email) ∧ Holding process invitation after := by
  induction found with
  | nil =>
    cases performed
    exact ⟨keeps_refl consistent, nofun, begun.holding⟩
  | cons id rest ih =>
    rw [newestForUpdate] at performed
    split at performed
    case isTrue => cases performed
    case isFalse free =>
      split at performed
      case h_1 invite meets =>
        cases performed
        obtain ⟨sees, meets⟩ := Option.filter_eq_some_iff.mp meets
        rw [seen_of_holds_nil begun.1.invites] at sees
        rw [Bool.and_eq_true, beq_iff_eq] at meets
        refine ⟨keeps_holdInvite consistent begun.1.invites (Bool.eq_false_iff.mpr free), ?_,
          holding_holdInvite begun sees meets.2⟩
        rintro _ ⟨⟩
        exact meets.1
      case h_2 => exact ih performed

theorem does_newestForUpdate {email : String} {found : List Nat} :
    Does site guarded process (.newestForUpdate email found) (Begun process)
      fun invitation db => (∀ taken ∈ invitation, taken.2.email = email) ∧
        Holding process invitation db :=
  fun _ _ _ consistent begun _ performed => keeps_newestForUpdate consistent begun performed

theorem Admitting.of_same {invitation : Option (Nat × Invite)} {before after : Database}
    {users users' : List (Nat × Option User)}
    {assignments assignments' : List (Nat × Option Assignment)}
    {invites : List (Nat × Option Invite)}
    (admitting : Admitting process invitation users assignments invites before)
    (heldUsers : after.users.Holds process users')
    (heldAssignments : after.assignments.Holds process assignments')
    (sameInvites : after.invites = before.invites) (sameWork : after.work = before.work) :
    Admitting process invitation users' assignments' invites after := by
  refine ⟨⟨heldUsers, heldAssignments, sameInvites ▸ admitting.holds.invites,
    sameWork ▸ admitting.holds.issuing⟩, fun id invite taken => ?_⟩
  obtain ⟨⟨present, pending, timely⟩, among⟩ := admitting.found id invite taken
  exact ⟨⟨sameInvites ▸ present, pending, sameWork ▸ timely⟩, among⟩

def MadeOrNot (process : Nat) (invitation : Option (Nat × Invite)) :
    Option Nat → Database → Prop
  | some userId => Made process invitation userId
  | none => Holding process invitation

theorem does_insertUser {invitation : Option (Nat × Invite)} {row : Nat → User}
    (names : ∀ now, Names invitation (row now)) :
    Does site guarded process (.insertUser row) (Holding process invitation)
      (MadeOrNot process invitation) := by
  intro before after reply consistent holding _ performed
  have performed' : insertUser process row before = some (after, reply) := performed
  cases reply with
  | none =>
    obtain ⟨keeps, rfl⟩ := keeps_insertUser_none consistent performed'
    exact ⟨keeps, holding⟩
  | some id =>
    obtain ⟨keeps, rfl, rfl⟩ := keeps_insertUser consistent holding.holds.users performed'
    exact ⟨keeps, _, names _, holding.of_same (holds_insert holding.holds.users)
      holding.holds.assignments rfl rfl⟩

theorem does_insertAssignment {invitation : Option (Nat × Invite)} {userId : Nat}
    {teamId : String} {row : Nat → Assignment} (team : teamOf invitation = some teamId)
    (ofUser : ∀ now, (row now).userId = userId) (toTeam : ∀ now, (row now).teamId = teamId)
    (isOpen : ∀ now, (row now).effectiveTo = none) :
    Does site guarded process (.insertAssignment row) (Made process invitation userId)
      fun _ => Assigned process invitation userId := by
  intro before after reply consistent made _ performed
  obtain ⟨user, names, admitting⟩ := made
  obtain ⟨db, inserted, same⟩ := Option.map_eq_some_iff.mp performed
  cases same
  obtain ⟨keeps, rfl⟩ := keeps_insertAssignment consistent inserted
  refine ⟨keeps, user, _, names, ?_, admitting.of_same admitting.holds.users
    (holds_insert admitting.holds.assignments) rfl rfl⟩
  rw [team]
  exact ⟨_, _, rfl, ofUser _, toTeam _, isOpen _⟩

theorem does_acceptedNow {id : Nat} {invite : Invite} {userId : Nat} :
    Does site guarded process (.acceptedNow id) (Assigned process (some (id, invite)) userId)
      fun _ => Used process (some (id, invite)) userId := by
  intro before after reply consistent assigned _ performed
  obtain ⟨user, held, names, assigns, admitting⟩ := assigned
  obtain ⟨db, accepted, same⟩ := Option.map_eq_some_iff.mp performed
  cases same
  refine ⟨keeps_acceptedNow consistent accepted, user, held, names, assigns, ?_⟩
  rw [acceptedNow] at accepted
  split at accepted
  case isTrue => cases accepted
  case isFalse =>
    cases accepted
    refine ⟨⟨admitting.holds.users, admitting.holds.assignments,
      holds_write_held admitting.holds.invites, admitting.holds.issuing⟩, ?_⟩
    rintro _ _ ⟨⟩
    obtain ⟨found, _⟩ := admitting.found id invite rfl
    exact ⟨⟨found.present, found.pending, found.timely⟩, _, List.mem_singleton_self _⟩

theorem does_commit_user {invitation : Option (Nat × Invite)} {userId : Nat} :
    Does site guarded process .commit (Used process invitation userId)
      fun _ => Idle process := by
  intro before after reply consistent used _ performed
  cases performed
  exact ⟨keeps_commit_of_used consistent used,
    holds_commit _ _, holds_commit _ _, holds_commit _ _⟩

/-! ### The outlines -/

abbrev Point (site : Site) (guarded : Prop) (process : Nat) (program : Transaction Outcome)
    (now : Database → Prop) : Prop :=
  Concurrent.Outline (discipline guarded) (system site)
    (fun db process statement => guarded → Admits db process statement) process program now

theorem point_rollback {outcome : Outcome} {now : Database → Prop}
    (stable : Concurrent.Stable (discipline guarded) process now) :
    Point site guarded process (query .rollback >>= fun _ => pure outcome) now :=
  .request_bind (fun _ => Idle process) stable does_rollback fun _ =>
    .done Idle.stable fun _ _ idle => idle

theorem point_read {statement : Statement} {rest : Reply statement → Transaction Outcome}
    {now : Database → Prop} (stable : Concurrent.Stable (discipline guarded) process now)
    (reads : ∀ db after reply, perform process statement db = some (after, reply) → after = db)
    (goesOn : ∀ reply, Point site guarded process (rest reply) now) :
    Point site guarded process (query statement >>= rest) now :=
  .request_bind (fun _ => now) stable (does_read reads) goesOn

theorem outline_createInvite {email role teamId token : String} {createdBy : Nat} :
    Point site guarded process (createInvite site email role teamId createdBy token)
      (Idle process) := by
  refine .request_bind (fun _ => Begun process) Idle.stable does_begin fun _ => ?_
  refine point_read Begun.stable (fun _ _ _ performed => by cases performed; rfl) fun known => ?_
  split
  case isTrue => exact point_rollback Begun.stable
  case isFalse =>
    refine point_read Begun.stable (fun _ _ _ performed => by cases performed; rfl) fun exists' => ?_
    split
    case isTrue => exact point_rollback Begun.stable
    case isFalse =>
      refine .request_bind (Sweeping process email) Begun.stable does_pendingInvites fun found => ?_
      refine .request_bind (fun _ => Swept process email) Sweeping.stable does_deletePending
        fun _ => ?_
      refine .request_bind (fun _ => Replacing process email) Swept.stable
        (does_insertInvite fun _ => rfl) fun _ => ?_
      exact .request_bind (fun _ => Idle process) Replacing.stable does_commit_invite fun _ =>
        .done Idle.stable fun _ _ idle => idle

theorem point_assignTeam {invitation : Option (Nat × Invite)} {userId : Nat}
    {createdBy : Option Nat} {rest : Unit → Transaction Outcome} {teamId : Option String}
    (team : teamOf invitation = teamId)
    (goesOn : Point site guarded process (rest ()) (Assigned process invitation userId)) :
    Point site guarded process (assignTeam userId createdBy teamId >>= rest)
      (Made process invitation userId) := by
  cases teamId with
  | none =>
    refine goesOn.mono Made.stable fun db made => ?_
    obtain ⟨user, names, admitting⟩ := made
    refine ⟨user, [], names, ?_, admitting⟩
    rw [team]
    rfl
  | some teamId =>
    exact .request_bind (fun _ => Assigned process invitation userId) Made.stable
      (does_insertAssignment team (fun _ => rfl) (fun _ => rfl) fun _ => rfl) fun _ => goesOn

theorem point_commit {invitation : Option (Nat × Invite)} {userId : Nat} {outcome : Outcome} :
    Point site guarded process (query .commit >>= fun _ => pure outcome)
      (Used process invitation userId) :=
  .request_bind (fun _ => Idle process) Used.stable does_commit_user fun _ =>
    .done Idle.stable fun _ _ idle => idle

theorem outline_acceptInvite {token name passwordHash : String} :
    Point site guarded process (acceptInvite site token name passwordHash) (Idle process) := by
  refine .request_bind (fun _ => Begun process) Idle.stable does_begin fun _ => ?_
  refine .request_bind (fun invitation => Holding process invitation) Begun.stable
    does_inviteForUpdate fun invitation => ?_
  cases invitation with
  | none => exact point_rollback Admitting.stable
  | some taken =>
    obtain ⟨id, row⟩ := taken
    refine point_read Admitting.stable (fun _ _ _ performed => by cases performed; rfl)
      fun known => ?_
    split
    case isTrue => exact point_rollback Admitting.stable
    case isFalse =>
      refine .request_bind (MadeOrNot process (some (id, row))) Admitting.stable
        (does_insertUser fun _ => ⟨rfl, ?_⟩) fun made => ?_
      · rintro _ _ ⟨⟩
        exact ⟨rfl, rfl, rfl⟩
      · cases made with
        | none => exact point_rollback Admitting.stable
        | some userId =>
          refine point_assignTeam rfl ?_
          exact .request_bind (fun _ => Used process (some (id, row)) userId) Assigned.stable
            does_acceptedNow fun _ => point_commit

theorem point_useInvite {invitation : Option (Nat × Invite)} {userId : Nat}
    {rest : Unit → Transaction Outcome}
    (goesOn : Point site guarded process (rest ()) (Used process invitation userId)) :
    Point site guarded process (useInvite invitation >>= rest)
      (Assigned process invitation userId) := by
  cases invitation with
  | none => exact goesOn.mono Assigned.stable fun _ assigned => assigned
  | some taken =>
    exact .request_bind (fun _ => Used process (some taken) userId) Assigned.stable
      does_acceptedNow fun _ => goesOn

theorem outline_createOAuthMember {profile : RegistrationProfile} {mode : RegistrationMode} :
    Point site guarded process (createOAuthMember site profile mode) (Idle process) := by
  rw [createOAuthMember]
  split
  case isTrue => exact .done Idle.stable fun _ _ idle => idle
  case isFalse =>
    refine .request_bind (fun _ => Begun process) Idle.stable does_begin fun _ => ?_
    refine .request_bind (fun _ => Begun process) Begun.stable does_lockEmail fun _ => ?_
    refine point_read Begun.stable (fun _ _ _ performed => by cases performed; rfl) fun known => ?_
    split
    case isTrue => exact point_rollback Begun.stable
    case isFalse =>
      refine point_read Begun.stable (fun _ _ _ performed => by cases performed; rfl)
        fun found => ?_
      refine .request_bind _ Begun.stable does_newestForUpdate fun invitation => ?_
      refine .of_fact fun sameEmail => ?_
      split
      case isTrue => exact point_rollback Admitting.stable
      case isFalse =>
        refine .request_bind (MadeOrNot process invitation) Admitting.stable
          (does_insertUser fun _ => ⟨rfl, ?_⟩) fun made => ?_
        · rintro id invite rfl
          refine ⟨(sameEmail (id, invite) rfl).symm, ?_, rfl⟩
          cases named : invite.role with
          | member => rw [if_neg (by simp [named])]
          | admin => rw [if_pos (by simp [named])]
        · cases made with
          | none => exact point_rollback Admitting.stable
          | some userId => exact point_assignTeam rfl (point_useInvite point_commit)

theorem outline_transaction (request : Request) :
    Point site guarded process (transaction site request) (Idle process) := by
  cases request with
  | createInvite => exact outline_createInvite
  | acceptInvite => exact outline_acceptInvite
  | createOAuthMember => exact outline_createOAuthMember

/-! ### Failed attempts -/

/-- A commit is the last statement of a transaction, and it has succeeded then. -/
def CommitsLast : Transaction Outcome → Prop
  | .done _ => True
  | .call statement rest =>
    (statement = .commit → ∀ reply, ∃ outcome, rest reply = .done outcome ∧
      outcome.succeeded = true) ∧ ∀ reply, CommitsLast (rest reply)

theorem CommitsLast.of_ne {statement : Statement} {rest : Reply statement → Transaction Outcome}
    (other : statement ≠ .commit) (goesOn : ∀ reply, CommitsLast (rest reply)) :
    CommitsLast (query statement >>= rest) :=
  ⟨fun same => absurd same other, goesOn⟩

theorem CommitsLast.of_commit {outcome : Outcome} (succeeded : outcome.succeeded = true) :
    CommitsLast (query .commit >>= fun _ => pure outcome) :=
  ⟨fun _ _ => ⟨outcome, rfl, succeeded⟩, fun _ => trivial⟩

theorem CommitsLast.of_rollback {outcome : Outcome} :
    CommitsLast (query .rollback >>= fun _ => pure outcome) :=
  .of_ne nofun fun _ => trivial

theorem commitsLast_assignTeam {userId : Nat} {createdBy : Option Nat} {teamId : Option String}
    {rest : Unit → Transaction Outcome} (goesOn : CommitsLast (rest ())) :
    CommitsLast (assignTeam userId createdBy teamId >>= rest) := by
  cases teamId with
  | none => exact goesOn
  | some teamId => exact .of_ne nofun fun _ => goesOn

theorem commitsLast_useInvite {invitation : Option (Nat × Invite)}
    {rest : Unit → Transaction Outcome} (goesOn : CommitsLast (rest ())) :
    CommitsLast (useInvite invitation >>= rest) := by
  cases invitation with
  | none => exact goesOn
  | some taken => exact .of_ne nofun fun _ => goesOn

theorem commitsLast_createInvite {email role teamId token : String} {createdBy : Nat} :
    CommitsLast (createInvite site email role teamId createdBy token) := by
  refine .of_ne nofun fun _ => .of_ne nofun fun known => ?_
  split
  case isTrue => exact .of_rollback
  case isFalse =>
    refine .of_ne nofun fun exists' => ?_
    split
    case isTrue => exact .of_rollback
    case isFalse =>
      exact .of_ne nofun fun _ => .of_ne nofun fun _ => .of_ne nofun fun _ => .of_commit rfl

theorem commitsLast_acceptInvite {token name passwordHash : String} :
    CommitsLast (acceptInvite site token name passwordHash) := by
  refine .of_ne nofun fun _ => .of_ne nofun fun invitation => ?_
  cases invitation with
  | none => exact .of_rollback
  | some taken =>
    refine .of_ne nofun fun known => ?_
    split
    case isTrue => exact .of_rollback
    case isFalse =>
      refine .of_ne nofun fun made => ?_
      cases made with
      | none => exact .of_rollback
      | some userId =>
        exact commitsLast_assignTeam (.of_ne nofun fun _ => .of_commit rfl)

theorem commitsLast_createOAuthMember {profile : RegistrationProfile} {mode : RegistrationMode} :
    CommitsLast (createOAuthMember site profile mode) := by
  rw [createOAuthMember]
  split
  case isTrue => trivial
  case isFalse =>
    refine .of_ne nofun fun _ => .of_ne nofun fun _ => .of_ne nofun fun known => ?_
    split
    case isTrue => exact .of_rollback
    case isFalse =>
      refine .of_ne nofun fun found => .of_ne nofun fun invitation => ?_
      split
      case isTrue => exact .of_rollback
      case isFalse =>
        refine .of_ne nofun fun made => ?_
        cases made with
        | none => exact .of_rollback
        | some userId =>
          exact commitsLast_assignTeam (commitsLast_useInvite (.of_commit rfl))

theorem commitsLast_transaction (request : Request) : CommitsLast (transaction site request) := by
  cases request with
  | createInvite => exact commitsLast_createInvite
  | acceptInvite => exact commitsLast_acceptInvite
  | createOAuthMember => exact commitsLast_createOAuthMember

structure SameRows (before after : Database) : Prop where
  users : after.users.rows = before.users.rows
  assignments : after.assignments.rows = before.assignments.rows
  invites : after.invites.rows = before.invites.rows

theorem sameRows_newestForUpdate {email : String} {before after : Database} {found : List Nat}
    {invitation : Option (Nat × Invite)}
    (performed : newestForUpdate process email before found = some (after, invitation)) :
    SameRows before after := by
  induction found with
  | nil =>
    cases performed
    exact ⟨rfl, rfl, rfl⟩
  | cons id rest ih =>
    rw [newestForUpdate] at performed
    split at performed
    case isTrue => cases performed
    case isFalse =>
      split at performed
      case h_1 =>
        cases performed
        exact ⟨rfl, rfl, rfl⟩
      case h_2 => exact ih performed

theorem sameRows_perform {statement : Statement} {before after : Database}
    {reply : Reply statement} (other : statement ≠ .commit)
    (performed : perform process statement before = some (after, reply)) :
    SameRows before after := by
  cases statement with
  | begin => cases performed; exact ⟨rfl, rfl, rfl⟩
  | userWith => cases performed; exact ⟨rfl, rfl, rfl⟩
  | teamWith => cases performed; exact ⟨rfl, rfl, rfl⟩
  | pendingInvites => cases performed; exact ⟨rfl, rfl, rfl⟩
  | openInvites => cases performed; exact ⟨rfl, rfl, rfl⟩
  | rollback => cases performed; exact ⟨rfl, rfl, rfl⟩
  | commit => exact absurd rfl other
  | newestForUpdate => exact sameRows_newestForUpdate performed
  | deletePending email found =>
    obtain ⟨db, deleted, same⟩ := Option.map_eq_some_iff.mp performed
    cases same
    rw [deletePending] at deleted
    split at deleted
    case isTrue => cases deleted
    case isFalse => cases deleted; exact ⟨rfl, rfl, rfl⟩
  | insertInvite row =>
    obtain ⟨db, inserted, same⟩ := Option.map_eq_some_iff.mp performed
    cases same
    rw [insertInvite] at inserted
    split at inserted
    case isTrue => cases inserted
    case isFalse =>
      split at inserted
      case isTrue => cases inserted
      case isFalse => cases inserted; exact ⟨rfl, rfl, rfl⟩
  | inviteForUpdate tokenHash =>
    have found : inviteForUpdate process tokenHash before = some (after, reply) := performed
    rw [inviteForUpdate] at found
    split at found
    case h_1 => cases found; exact ⟨rfl, rfl, rfl⟩
    case h_2 =>
      split at found
      case isTrue => cases found
      case isFalse => cases found; exact ⟨rfl, rfl, rfl⟩
  | lockEmail email =>
    obtain ⟨db, locked, same⟩ := Option.map_eq_some_iff.mp performed
    cases same
    rw [lockEmail] at locked
    split at locked
    case isTrue => cases locked
    case isFalse => cases locked; exact ⟨rfl, rfl, rfl⟩
  | insertUser row =>
    have inserted : insertUser process row before = some (after, reply) := performed
    rw [insertUser] at inserted
    split at inserted
    case isTrue => cases inserted
    case isFalse =>
      split at inserted
      case isTrue => cases inserted; exact ⟨rfl, rfl, rfl⟩
      case isFalse => cases inserted; exact ⟨rfl, rfl, rfl⟩
  | insertAssignment row =>
    obtain ⟨db, inserted, same⟩ := Option.map_eq_some_iff.mp performed
    cases same
    rw [insertAssignment] at inserted
    split at inserted
    case isTrue => cases inserted
    case isFalse =>
      split at inserted
      case isTrue => cases inserted
      case isFalse => cases inserted; exact ⟨rfl, rfl, rfl⟩
  | acceptedNow id =>
    obtain ⟨db, accepted, same⟩ := Option.map_eq_some_iff.mp performed
    cases same
    rw [acceptedNow] at accepted
    split at accepted
    case isTrue => cases accepted
    case isFalse => cases accepted; exact ⟨rfl, rfl, rfl⟩

/-- **A failed attempt changes nothing.** The only step that changes users, assignments or
invitations is the last one of an attempt that succeeds. -/
theorem sameRows_or_succeeded {state after : Processes} {move : Move}
    (last : ∀ process program, state.running process = some program → CommitsLast program)
    (moved : Concurrent.next (system site) state move = some after) :
    SameRows state.shared after.shared ∨ ∃ process outcome, move = .calls process ∧
      after.running process = some (.done outcome) ∧ outcome.succeeded = true := by
  cases move with
  | happens event =>
    cases moved
    exact .inl ⟨rfl, rfl, rfl⟩
  | begins process request =>
    rw [Concurrent.next] at moved
    split at moved
    case h_1 => cases moved; exact .inl ⟨rfl, rfl, rfl⟩
    case h_2 => cases moved
  | calls process =>
    rw [Concurrent.next] at moved
    split at moved
    case h_1 statement rest current =>
      obtain ⟨done, performed, rfl⟩ := Option.map_eq_some_iff.mp moved
      by_cases isCommit : statement = .commit
      · obtain ⟨outcome, ended, succeeded⟩ := (last process _ current).1 isCommit done.2
        refine .inr ⟨process, outcome, rfl, ?_, succeeded⟩
        show Function.update state.running process _ process = _
        rw [Function.update_self, ended]
      · exact .inl (sameRows_perform isCommit performed)
    case h_2 => cases moved
  | breaks process =>
    rw [Concurrent.next] at moved
    split at moved
    case h_1 => cases moved; exact .inl ⟨rfl, rfl, rfl⟩
    case h_2 => cases moved
  | ends process =>
    rw [Concurrent.next] at moved
    split at moved
    case h_1 => cases moved; exact .inl ⟨rfl, rfl, rfl⟩
    case h_2 => cases moved

/-! ### What invitations promise -/

/-- A database to begin with: nothing is open, and each email has one user at most, one pending
invitation at most, and rows that refer to each other as they should. -/
structure Settled (db : Database) : Prop where
  idle : ∀ process, Idle process db
  unique : db.users.Unique User.email
  assigned : ∀ id row, db.assignments.rows id = some row →
    ∃ user, db.users.rows row.userId = some user
  unadmitted : ∀ id user, db.users.rows id = some user → user.through = none
  listed : ∀ id invite, db.invites.rows id = some invite → (id, invite.email) ∈ db.issued
  named : ∀ id email invite, (id, email) ∈ db.issued → db.invites.rows id = some invite →
    invite.email = email
  counted : ∀ id email, (id, email) ∈ db.issued → id < db.invites.count
  superseded : Superseded db

theorem Settled.consistent {db : Database} (settled : Settled db) : Consistent guarded db := by
  have noUsers : ∀ id process version, db.users.draft id ≠ some (process, version) :=
    fun id process version drafted =>
      List.not_mem_nil (((settled.idle process).users id version).mp drafted)
  have noAssignments : ∀ id process version, db.assignments.draft id ≠ some (process, version) :=
    fun id process version drafted =>
      List.not_mem_nil (((settled.idle process).assignments id version).mp drafted)
  have noInvites : ∀ id process version, db.invites.draft id ≠ some (process, version) :=
    fun id process version drafted =>
      List.not_mem_nil (((settled.idle process).invites id version).mp drafted)
  exact {
    unique := settled.unique
    newUser := fun id process version drafted => absurd drafted (noUsers id process version)
    newAssignment := fun id process version drafted =>
      absurd drafted (noAssignments id process version)
    assigned := settled.assigned
    admitted := fun id user invitation present through => by
      rw [settled.unadmitted id user present] at through
      cases through
    once := fun id id' user user' invitation present _ through => by
      rw [settled.unadmitted id user present] at through
      cases through
    held := fun id process invite old drafted => absurd drafted (noInvites id process _)
    deleted := fun id process old drafted => absurd drafted (noInvites id process _)
    unissued := fun id process invite drafted => absurd drafted (noInvites id process _)
    listed := settled.listed
    named := settled.named
    counted := settled.counted
    superseded := fun _ => settled.superseded }

theorem sound : Concurrent.Sound (discipline guarded) (system site) where
  refl := Relied.refl
  idle _ := Idle.stable
  happens _ before after consistent happened := by
    cases happened
    exact ⟨{ consistent with }, fun process =>
      { Relied.refl process before with clock := Nat.le_succ _ }⟩
  breaks _ _ consistent := keeps_rollback consistent

/-- **What admissions promise.** -/
structure AdmissionsHold (site : Site) (state : Processes) : Prop where
  oneUser : ∀ id id' user user', state.shared.users.rows id = some user →
    state.shared.users.rows id' = some user' → user.email = user'.email → id = id'
  onceAccepted : ∀ id id' user user' invitation, state.shared.users.rows id = some user →
    state.shared.users.rows id' = some user' → user.through = some invitation →
    user'.through = some invitation → id = id'
  /-- Who was admitted through an invitation has its role and its team, and it was in time. -/
  admitted : ∀ id user invitation, state.shared.users.rows id = some user →
    user.through = some invitation → Admitted state.shared id user invitation
  failed : ∀ move after, Concurrent.next (system site) state move = some after →
    SameRows state.shared after.shared ∨ ∃ process outcome, move = .calls process ∧
      after.running process = some (.done outcome) ∧ outcome.succeeded = true

/-- **What invitations promise.** -/
structure InvitationsHold (site : Site) (state : Processes) : Prop
    extends AdmissionsHold site state where
  /-- Once an invitation is committed, none that was issued earlier for its email is pending. -/
  replaced : Superseded state.shared
  onePending : ∀ id id' invite invite', state.shared.invites.rows id = some invite →
    state.shared.invites.rows id' = some invite' → invite.isPending = true →
    invite'.isPending = true → invite.email = invite'.email → id = id'

theorem consistent_of_reached {start state : Processes} (settled : Settled start.shared)
    (unused : ∀ process, start.running process = none)
    (reached : ReachableBy (Concurrent.next (system site))
      (Concurrent.Allows fun db process statement => guarded → Admits db process statement)
      start state) : Consistent guarded state.shared :=
  (Concurrent.outlined sound (fun _ request => outline_transaction request) settled.consistent
    unused settled.idle reached).1

theorem Consistent.admissions {start state : Processes}
    {allows : Processes → Move → Prop} (consistent : Consistent guarded state.shared)
    (unused : ∀ process, start.running process = none)
    (reached : ReachableBy (Concurrent.next (system site)) allows start state) :
    AdmissionsHold site state where
  oneUser id id' user user' present present' same :=
    consistent.unique id id' user user' (.inl present) (.inl present') same
  onceAccepted := consistent.once
  admitted := consistent.admitted
  failed _ _ moved := sameRows_or_succeeded
    (Concurrent.each_program commitsLast_transaction (fun _ _ reply last => last.2 reply) unused
      reached) moved

theorem eq_of_superseded {db : Database} (consistent : Consistent guarded db)
    (superseded : Superseded db) {id id' : Nat} {invite invite' : Invite}
    (present : db.invites.rows id = some invite) (present' : db.invites.rows id' = some invite')
    (pending : invite.isPending = true) (pending' : invite'.isPending = true)
    (same : invite.email = invite'.email) : id = id' := by
  by_contra different
  have isPending : pendingAt db id = true := pendingAt_iff.mpr ⟨invite, present, pending⟩
  have isPending' : pendingAt db id' = true := pendingAt_iff.mpr ⟨invite', present', pending'⟩
  obtain ⟨place, bound, at'⟩ := List.mem_iff_getElem.mp (consistent.listed id invite present)
  obtain ⟨place', bound', at''⟩ := List.mem_iff_getElem.mp (consistent.listed id' invite' present')
  have ordered := List.pairwise_iff_getElem.mp superseded
  rcases Nat.lt_trichotomy place place' with earlier | rfl | later
  · have replaced := ordered place place' bound bound' earlier
    rw [at', at''] at replaced
    rw [replaced same] at isPending
    cases isPending
  · exact different (Prod.mk.inj (at'.symm.trans at'')).1
  · have replaced := ordered place' place bound' bound later
    rw [at', at''] at replaced
    rw [replaced same.symm] at isPending'
    cases isPending'

/-- **What invitations promise, where none is overtaken.** In every run whose commits issue no
invitation of an email for which another one was issued, and is pending, since the transaction
looked for those to replace. -/
theorem invitationsHold {start state : Processes} (settled : Settled start.shared)
    (unused : ∀ process, start.running process = none)
    (reached : ReachableBy (Concurrent.next (system site)) (Concurrent.Allows Admits) start state) :
    InvitationsHold site state := by
  have reachedBy : ReachableBy (Concurrent.next (system site))
      (Concurrent.Allows fun db process statement => True → Admits db process statement)
      start state := by
    refine reached.mono fun state move admitted => ?_
    cases move with
    | calls process =>
      rw [Concurrent.Allows] at admitted ⊢
      split at admitted
      · exact fun _ => admitted
      · trivial
    | _ => trivial
  have consistent := consistent_of_reached settled unused reachedBy
  have superseded := consistent.superseded trivial
  exact { consistent.admissions unused reached with
    replaced := superseded
    onePending := fun _ _ _ _ present present' pending pending' same =>
      eq_of_superseded consistent superseded present present' pending pending' same }

/-! ### Two reissues that overlap -/

def emptySite : Processes where
  shared :=
    { clock := 0, teams := ["core"], users := .empty, assignments := .empty, invites := .empty
      advisory := fun _ => none, work := fun _ => ⟨0, 0, 0, none⟩, issued := [] }
  running _ := none

def plainSite : Site := ⟨id, id, []⟩

theorem settled_emptySite : Settled emptySite.shared where
  idle _ := ⟨fun _ _ => by simp [emptySite, Table.empty], fun _ _ => by simp [emptySite, Table.empty],
    fun _ _ => by simp [emptySite, Table.empty]⟩
  unique _ _ _ _ entry := by rcases entry with present | ⟨_, drafted⟩ <;> cases ‹_›
  assigned _ _ present := nomatch present
  unadmitted _ _ present := nomatch present
  listed _ _ present := nomatch present
  named _ _ _ among := nomatch among
  counted _ _ among := nomatch among
  superseded := .nil

def plainMoves : List Move :=
  .begins 0 (.createInvite "ada@example.com" "admin" "core" 7 "first") :: List.replicate 7 (.calls 0)
    ++ [.ends 0, .happens ()]
    ++ .begins 1 (.acceptInvite "first" "Ada" "hash") :: List.replicate 7 (.calls 1)

theorem invitationsHold_plain : ∃ state, ReachableBy (Concurrent.next (system plainSite))
    (Concurrent.Allows Admits) emptySite state ∧ (state.shared.users.rows 0).isSome = true ∧
      InvitationsHold plainSite state := by
  have ends : ((checkedRun (Concurrent.next (system plainSite)) (Concurrent.Allows Admits) emptySite
      plainMoves).any fun state => (state.shared.users.rows 0).isSome) = true := by
    decide
  obtain ⟨state, ran, made⟩ := (Option.any_eq_true _ _).mp ends
  have reached := ReachableBy.of_checkedRun plainMoves ran
  exact ⟨state, reached, made, invitationsHold settled_emptySite (fun _ => rfl) reached⟩

/-- **Whom the invitations admit, in every run.** -/
theorem admissionsHold {start state : Processes} (settled : Settled start.shared)
    (unused : ∀ process, start.running process = none)
    (reached : Reachable (Concurrent.next (system site)) start state) :
    AdmissionsHold site state := by
  have reachedBy : ReachableBy (Concurrent.next (system site))
      (Concurrent.Allows fun db process statement => False → Admits db process statement)
      start state := by
    refine reached.mono fun state move _ => ?_
    cases move with
    | calls process =>
      rw [Concurrent.Allows]
      split
      · exact False.elim
      · trivial
    | _ => trivial
  exact (consistent_of_reached settled unused reachedBy).admissions unused reached

theorem admissionsHold_plain : ∃ state,
    Reachable (Concurrent.next (system plainSite)) emptySite state ∧
    (state.shared.users.rows 0).isSome = true ∧ AdmissionsHold plainSite state := by
  have ends : ((run (Concurrent.next (system plainSite)) emptySite plainMoves).any fun state =>
      (state.shared.users.rows 0).isSome) = true := by
    decide
  obtain ⟨state, ran, made⟩ := (Option.any_eq_true _ _).mp ends
  have reached := Reachable.of_run plainMoves ran
  exact ⟨state, reached, made, admissionsHold settled_emptySite (fun _ => rfl) reached⟩

/-- Both reissues look for invitations to replace before either is committed. -/
def overlappingMoves : List Move :=
  [.begins 0 (.createInvite "ada@example.com" "admin" "core" 7 "first"),
    .begins 1 (.createInvite "ada@example.com" "member" "core" 7 "second")]
    ++ List.replicate 4 (.calls 0) ++ List.replicate 5 (.calls 1)
    ++ List.replicate 3 (.calls 0) ++ List.replicate 2 (.calls 1)

/-- The token of the invitation that was issued first is accepted all the same. -/
def staleMoves : List Move :=
  .begins 2 (.acceptInvite "first" "Ada" "hash") :: List.replicate 7 (.calls 2)

/-- **Two reissues that overlap leave two invitations**, and the first of them, an administrator's,
can be accepted after the second is committed. -/
theorem not_invitationsHold : ∃ state later,
    Reachable (Concurrent.next (system plainSite)) emptySite state ∧
    Reachable (Concurrent.next (system plainSite)) state later ∧
    state.shared.issued = [(0, "ada@example.com"), (1, "ada@example.com")] ∧
    (later.shared.users.rows 0).any (fun user => user.role == .admin && user.through == some 0)
      = true ∧ ¬InvitationsHold plainSite state := by
  have ends : ((run (Concurrent.next (system plainSite)) emptySite overlappingMoves).any
      fun state => decide (state.shared.issued = [(0, "ada@example.com"), (1, "ada@example.com")])
        && pendingAt state.shared 0 &&
        (run (Concurrent.next (system plainSite)) state staleMoves).any fun later =>
          (later.shared.users.rows 0).any fun user =>
            user.role == .admin && user.through == some 0) = true := by
    decide
  obtain ⟨state, ran, facts⟩ := (Option.any_eq_true _ _).mp ends
  rw [Bool.and_eq_true, Bool.and_eq_true, decide_eq_true_iff] at facts
  obtain ⟨⟨issued, pending⟩, goesOn⟩ := facts
  obtain ⟨later, ranOn, admitted⟩ := (Option.any_eq_true _ _).mp goesOn
  refine ⟨state, later, Reachable.of_run overlappingMoves ran, Reachable.of_run staleMoves ranOn,
    issued, admitted, fun holds => ?_⟩
  have replaced := holds.replaced
  rw [Superseded, issued, List.pairwise_cons] at replaced
  have notPending := replaced.1 (1, "ada@example.com") (List.mem_singleton_self _) rfl
  rw [notPending] at pending
  cases pending

end Toard.Accounts
