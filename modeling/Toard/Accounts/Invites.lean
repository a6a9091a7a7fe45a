/-
**Invitations: who may become a user.**

`createInvite`, `acceptInvite` and `createOAuthMember` are transactions of a READ COMMITTED
database: each statement sees what is committed when it begins, beside the transaction's own rows;
a statement that comes to a row held by another transaction waits for that one to end and looks at
the row again. The three run side by side, each for any email and as often as one likes; any of
them may fail at any statement, which rolls it back.

A constraint that refuses a row leaves the call without a result, so that it can only break off;
`users.email` is the one violation that a function tells from other failures. Times are numbers.
-/

import Toard.Library.Concurrent
import Toard.Library.Table
import Toard.Pricing.History

namespace Toard.Accounts

open Library

inductive Role where
  | member
  | admin
deriving DecidableEq

/-- A row of `users`. `through` is no column: it notes the invitation that the row was made for. -/
structure User where
  email : String
  name : Option String
  image : Option String
  passwordHash : Option String
  emailVerified : Option Nat
  role : Role
  teamId : Option String
  teamOnboardingCompletedAt : Nat
  through : Option Nat
deriving DecidableEq

/-- A row of `user_team_assignments`. -/
structure Assignment where
  userId : Nat
  teamId : String
  effectiveFrom : Nat
  effectiveTo : Option Nat
  assignmentKind : String
  createdBy : Option Nat
deriving DecidableEq

/-- A row of `invites`. -/
structure Invite where
  email : String
  tokenHash : String
  role : Role
  teamId : Option String
  createdBy : Option Nat
  createdAt : Nat
  expiresAt : Nat
  acceptedAt : Option Nat
deriving DecidableEq

/-- `accepted_at IS NULL` -/
def Invite.isPending (invite : Invite) : Bool := invite.acceptedAt.isNone

def inviteDays : Nat := 7

def day : Nat := 24 * 60 * 60

/-- What a transaction knows of itself: when it began, the number of invitations that were issued
when its DELETE looked for those to replace, the time at which it found an invitation to accept, and
the invitation that it issues. -/
structure Work where
  began : Nat
  snapshot : Nat
  checked : Nat
  issuing : Option (Nat × String)
deriving DecidableEq

structure Database where
  clock : Nat
  teams : List String
  users : Table User
  assignments : Table Assignment
  invites : Table Invite
  advisory : String → Option Nat
  work : Nat → Work
  /-- The invitations that were ever committed and their emails, in the order of the commits. -/
  issued : List (Nat × String)

/-- The statements of the three functions; `now()` is given to the rows that are inserted. -/
inductive Statement where
  /-- `BEGIN` -/
  | begin
  /-- `SELECT 1 FROM users WHERE email = $1` -/
  | userWith (email : String)
  /-- `SELECT 1 FROM teams WHERE id = $1` -/
  | teamWith (teamId : String)
  /-- `DELETE FROM invites WHERE email = $1 AND accepted_at IS NULL`: the rows that it finds -/
  | pendingInvites (email : String)
  /-- and the rows that it deletes. -/
  | deletePending (email : String) (found : List Nat)
  /-- `INSERT INTO invites` -/
  | insertInvite (row : Nat → Invite)
  /-- `SELECT … WHERE token_hash = $1 AND accepted_at IS NULL AND expires_at > clock_timestamp()
  FOR UPDATE` -/
  | inviteForUpdate (tokenHash : String)
  /-- `SELECT pg_advisory_xact_lock(…)` -/
  | lockEmail (email : String)
  /-- `SELECT … WHERE email = $1 AND accepted_at IS NULL AND expires_at > clock_timestamp()
  ORDER BY created_at DESC`: the rows that it finds -/
  | openInvites (email : String)
  /-- `LIMIT 1 FOR UPDATE`: the first of them that still meets the condition. -/
  | newestForUpdate (email : String) (found : List Nat)
  /-- `INSERT INTO users … RETURNING id`, without a result where the email is taken -/
  | insertUser (row : Nat → User)
  /-- `INSERT INTO user_team_assignments` -/
  | insertAssignment (row : Nat → Assignment)
  /-- `UPDATE invites SET accepted_at = now() WHERE id = $1` -/
  | acceptedNow (id : Nat)
  /-- `COMMIT` -/
  | commit
  /-- `ROLLBACK` -/
  | rollback

abbrev Reply : Statement → Type
  | .userWith _ => Bool
  | .teamWith _ => Bool
  | .pendingInvites _ => List Nat
  | .inviteForUpdate _ => Option (Nat × Invite)
  | .openInvites _ => List Nat
  | .newestForUpdate _ _ => Option (Nat × Invite)
  | .insertUser _ => Option Nat
  | _ => Unit

/-! ### What the statements do -/

def Invite.isOpen (invite : Invite) (time : Nat) : Bool :=
  invite.isPending && decide (time < invite.expiresAt)

def Database.note (db : Database) (process : Nat) (work : Work) : Database :=
  { db with work := Function.update db.work process work }

def begin (process : Nat) (db : Database) : Database := db.note process ⟨db.clock, 0, 0, none⟩

def userWith (process : Nat) (email : String) (db : Database) : Bool :=
  !(db.users.select process fun user => user.email == email).isEmpty

def pendingInvites (process : Nat) (email : String) (db : Database) : Database × List Nat :=
  (db.note process { db.work process with snapshot := db.issued.length },
    (db.invites.select process fun invite => invite.email == email && invite.isPending).map
      Prod.fst)

/-- Waits while somebody holds one of the rows; then deletes those that still meet the condition. -/
def deletePending (process : Nat) (email : String) (found : List Nat) (db : Database) :
    Option Database :=
  if found.any (db.invites.heldByOther process) then none
  else some { db with
    invites := db.invites.write process
      (fun id => found.contains id && (db.invites.seen process id).any fun invite =>
        invite.email == email && invite.isPending)
      fun _ => none }

/-- The unique index on `token_hash`. -/
def insertInvite (process : Nat) (row : Nat → Invite) (db : Database) : Option Database :=
  let invite := row (db.work process).began
  let like := fun (other : Invite) => other.tokenHash == invite.tokenHash
  if db.invites.contested process like then none
  else if db.invites.conflicts process like then none
  else some { db.note process
        { db.work process with issuing := some (db.invites.count, invite.email) } with
    invites := db.invites.insert process invite }

def holdInvite (process : Nat) (id : Nat) (db : Database) : Database :=
  { db.note process { db.work process with checked := db.clock } with
    invites := db.invites.write process (fun other => decide (other = id)) some }

def inviteForUpdate (process : Nat) (tokenHash : String) (db : Database) :
    Option (Database × Option (Nat × Invite)) :=
  match db.invites.select process fun invite =>
      invite.tokenHash == tokenHash && invite.isOpen db.clock with
  | [] => some (db, none)
  | (id, invite) :: _ =>
    if db.invites.heldByOther process id then none
    else some (holdInvite process id db, some (id, invite))

def lockEmail (process : Nat) (email : String) (db : Database) : Option Database :=
  if (db.advisory email).any (· != process) then none
  else some { db with advisory := Function.update db.advisory email (some process) }

/-- `ORDER BY created_at DESC` -/
def openInvites (process : Nat) (email : String) (db : Database) : List Nat :=
  ((db.invites.select process fun invite => invite.email == email && invite.isOpen db.clock)
    |>.mergeSort fun first second => decide (second.2.createdAt ≤ first.2.createdAt)).map Prod.fst

def newestForUpdate (process : Nat) (email : String) (db : Database) :
    List Nat → Option (Database × Option (Nat × Invite))
  | [] => some (db, none)
  | id :: rest =>
    if db.invites.heldByOther process id then none
    else
      match (db.invites.seen process id).filter fun invite =>
          invite.email == email && invite.isOpen db.clock with
      | some invite => some (holdInvite process id db, some (id, invite))
      | none => newestForUpdate process email db rest

/-- The unique index on `users.email`. -/
def insertUser (process : Nat) (row : Nat → User) (db : Database) :
    Option (Database × Option Nat) :=
  let user := row (db.work process).began
  let like := fun (other : User) => other.email == user.email
  if db.users.contested process like then none
  else if db.users.conflicts process like then some (db, none)
  else some ({ db with users := db.users.insert process user }, some db.users.count)

def insertAssignment (process : Nat) (row : Nat → Assignment) (db : Database) : Option Database :=
  let assignment := row (db.work process).began
  let like := fun (other : Assignment) => other.userId == assignment.userId &&
    other.effectiveTo.all (assignment.effectiveFrom < ·)
  if db.assignments.contested process like then none
  else if db.assignments.conflicts process like then none
  else some { db with assignments := db.assignments.insert process assignment }

def acceptedNow (process : Nat) (id : Nat) (db : Database) : Option Database :=
  if db.invites.heldByOther process id then none
  else some { db with
    invites := db.invites.write process (fun other => decide (other = id)) fun invite =>
      some { invite with acceptedAt := some (db.work process).began } }

def unlock (process : Nat) (advisory : String → Option Nat) (email : String) : Option Nat :=
  (advisory email).filter (· != process)

def commit (process : Nat) (db : Database) : Database :=
  { db with
    users := db.users.commit process
    assignments := db.assignments.commit process
    invites := db.invites.commit process
    advisory := unlock process db.advisory
    issued := db.issued ++ (db.work process).issuing.toList }

def rollback (process : Nat) (db : Database) : Database :=
  { db with
    users := db.users.rollback process
    assignments := db.assignments.rollback process
    invites := db.invites.rollback process
    advisory := unlock process db.advisory }

def perform (process : Nat) : (statement : Statement) → Database →
    Option (Database × Reply statement)
  | .begin, db => some (begin process db, ())
  | .userWith email, db => some (db, userWith process email db)
  | .teamWith teamId, db => some (db, db.teams.contains teamId)
  | .pendingInvites email, db => some (pendingInvites process email db)
  | .deletePending email found, db => (deletePending process email found db).map (·, ())
  | .insertInvite row, db => (insertInvite process row db).map (·, ())
  | .inviteForUpdate tokenHash, db => inviteForUpdate process tokenHash db
  | .lockEmail email, db => (lockEmail process email db).map (·, ())
  | .openInvites email, db => some (db, openInvites process email db)
  | .newestForUpdate email found, db => newestForUpdate process email db found
  | .insertUser row, db => insertUser process row db
  | .insertAssignment row, db => (insertAssignment process row db).map (·, ())
  | .acceptedNow id, db => (acceptedNow process id db).map (·, ())
  | .commit, db => some (commit process db, ())
  | .rollback, db => some (rollback process db, ())

/-! ### The three functions -/

inductive Outcome where
  /-- `{ ok: true, token }` -/
  | invited (token : String)
  /-- `{ ok: false, reason }` -/
  | refused (reason : String)
  /-- `{ email }` -/
  | accepted (email : String)
  /-- `null` -/
  | rejected
  /-- The user that was made. -/
  | member (id : Nat)
  /-- The message of the error that was thrown. -/
  | threw (error : String)
deriving DecidableEq

def Outcome.succeeded : Outcome → Bool
  | .invited _ => true
  | .accepted _ => true
  | .member _ => true
  | _ => false

/-- What the functions take from elsewhere: `hashToken` (sha256), `toLowerCase`, and the domains of
`ALLOWED_EMAIL_DOMAINS`. -/
structure Site where
  hashToken : String → String
  toLowerCase : String → String
  allowedDomains : List String

inductive RegistrationMode where
  | inviteOnly
  | verifiedOauth
deriving DecidableEq

structure RegistrationProfile where
  email : String
  name : Option String
  image : Option String
  toardEmailVerified : Option Bool
deriving DecidableEq

/-- `String.prototype.trim` -/
def trim (text : String) : String :=
  String.ofList (((text.toList.dropWhile Pricing.isWhiteSpace).reverse.dropWhile
    Pricing.isWhiteSpace).reverse)

/-- `/^[^\s@]+@[^\s@]+\.[^\s@]+$/` -/
def isValidEmail (email : String) : Bool :=
  let plain := fun (c : Char) => !Pricing.isWhiteSpace c && c != '@'
  let name := email.toList.takeWhile (· != '@')
  let domain := (email.toList.dropWhile (· != '@')).drop 1
  !name.isEmpty && name.all plain && domain.all plain && (domain.drop 1).dropLast.contains '.'

def isEmailDomainAllowed (site : Site) (email : String) : Bool :=
  site.allowedDomains.isEmpty || site.allowedDomains.contains
    (String.ofList ((site.toLowerCase email).toList.reverse.takeWhile (· != '@')).reverse)

abbrev Transaction : Type → Type := Program Statement Reply

abbrev query (statement : Statement) : Transaction (Reply statement) := Program.request statement

def createInvite (site : Site) (email : String) (role : String) (teamId : String)
    (createdBy : Nat) (token : String) : Transaction Outcome := do
  query .begin
  if ← query (.userWith email) then
    query .rollback
    pure (.refused "existing-user")
  else if !(← query (.teamWith teamId)) then
    query .rollback
    pure (.refused "team-not-found")
  else
    let found ← query (.pendingInvites email)
    query (.deletePending email found)
    query (.insertInvite fun now =>
      { email, tokenHash := site.hashToken token
        role := if role = "admin" then .admin else .member
        teamId := some teamId, createdBy := some createdBy
        createdAt := now, expiresAt := now + inviteDays * day, acceptedAt := none })
    query .commit
    pure (.invited token)

/-- The assignment of a new user to the team of the invitation, where it names one. -/
def assignTeam (userId : Nat) (createdBy : Option Nat) : Option String → Transaction Unit
  | none => pure ()
  | some teamId => query (.insertAssignment fun now =>
      { userId, teamId, effectiveFrom := now, effectiveTo := none, assignmentKind := "admin",
        createdBy })

def acceptInvite (site : Site) (token name passwordHash : String) : Transaction Outcome := do
  query .begin
  match ← query (.inviteForUpdate (site.hashToken token)) with
  | none =>
    query .rollback
    pure .rejected
  | some (id, row) =>
    if ← query (.userWith row.email) then
      query .rollback
      pure .rejected
    else
      match ← query (.insertUser fun now =>
        { email := row.email, name := if name.isEmpty then none else some name, image := none
          passwordHash := some passwordHash, emailVerified := none, role := row.role
          teamId := row.teamId, teamOnboardingCompletedAt := now, through := some id }) with
      | none =>
        -- 23505
        query .rollback
        pure .rejected
      | some userId =>
        assignTeam userId row.createdBy row.teamId
        query (.acceptedNow id)
        query .commit
        pure (.accepted row.email)

def useInvite : Option (Nat × Invite) → Transaction Unit
  | none => pure ()
  | some (id, _) => query (.acceptedNow id)

def createOAuthMember (site : Site) (profile : RegistrationProfile) (mode : RegistrationMode) :
    Transaction Outcome :=
  let email := site.toLowerCase (trim profile.email)
  if profile.toardEmailVerified ≠ some true ∨ isValidEmail email = false then
    pure (.threw "VERIFIED_EMAIL_REQUIRED")
  else do
    query .begin
    query (.lockEmail email)
    if ← query (.userWith email) then
      query .rollback
      pure (.threw "REGISTRATION_EMAIL_EXISTS")
    else
      let found ← query (.openInvites email)
      let invite ← query (.newestForUpdate email found)
      if invite.isNone && (mode != .verifiedOauth || !isEmailDomainAllowed site email) then
        query .rollback
        pure (.threw "INVITATION_REQUIRED")
      else
        match ← query (.insertUser fun now =>
          { email, name := profile.name, image := profile.image, passwordHash := none
            emailVerified := some now
            role := if invite.map (·.2.role) = some .admin then .admin else .member
            teamId := invite.bind (·.2.teamId), teamOnboardingCompletedAt := now
            through := invite.map Prod.fst }) with
        | none =>
          query .rollback
          pure (.threw "23505")
        | some userId =>
          assignTeam userId (invite.bind (·.2.createdBy)) (invite.bind (·.2.teamId))
          useInvite invite
          query .commit
          pure (.member userId)

/-! ### The system -/

inductive Request where
  | createInvite (email role teamId : String) (createdBy : Nat) (token : String)
  | acceptInvite (token name passwordHash : String)
  | createOAuthMember (profile : RegistrationProfile) (mode : RegistrationMode)

def transaction (site : Site) : Request → Transaction Outcome
  | .createInvite email role teamId createdBy token =>
    createInvite site email role teamId createdBy token
  | .acceptInvite token name passwordHash => acceptInvite site token name passwordHash
  | .createOAuthMember profile mode => createOAuthMember site profile mode

def system (site : Site) : Concurrent.System Database Unit Request Statement Reply Outcome where
  happen _ db := some { db with clock := db.clock + 1 }
  program := transaction site
  perform := perform
  abandon := rollback

abbrev Processes := Concurrent.Processes Database Statement Reply Outcome

abbrev Move := Concurrent.Move Unit Request

end Toard.Accounts
