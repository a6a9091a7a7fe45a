/-
**What the local bridge allows, over every run of requests.**

* **`localBridge_guarantees`**: in every run that meets `Settled` (a save that reported an error
  after it had replaced the credentials is not followed by the target at its former revision), every
  action and every change is justified, a token stands for one origin and target, and the tables
  keep to their capacities.
-/

import Toard.Bridge.LocalBridge

namespace Toard.Bridge

open Toard.Library (Grant Reachable ReachableBy)
open Toard.Shim (CollectionScope)

variable {host : Host} {tables : Tables} {request : Request} {answers : Answers host}

/-! ### What a handler may do -/

structure Shrunk (before after : Tables) : Prop where
  sessions : after.sessions.Sublist before.sessions
  helperSessions : after.helperSessions.Sublist before.helperSessions
  scopeSessions : after.scopeSessions.Sublist before.scopeSessions

theorem Shrunk.refl (tables : Tables) : Shrunk tables tables :=
  ⟨.refl _, .refl _, .refl _⟩

structure Bounded (tables : Tables) : Prop where
  sessions : tables.sessions.length ≤ 16
  helperSessions : tables.helperSessions.length ≤ 16
  scopeSessions : tables.scopeSessions.length ≤ 8

theorem Bounded.shrunk {after : Tables} (bounded : Bounded tables) (less : Shrunk tables after) :
    Bounded after :=
  ⟨less.sessions.length_le.trans bounded.sessions,
    less.helperSessions.length_le.trans bounded.helperSessions,
    less.scopeSessions.length_le.trans bounded.scopeSessions⟩

structure Lawful (tables : Tables) (request : Request) (answers : Answers host)
    (handled : Handled host) : Prop where
  sessions : ∀ grant ∈ handled.tables.sessions, grant ∈ tables.sessions ∨
    (handled.issued = some (.session grant.token grant.holder.origin grant.holder.targetId) ∧
      grant.expiresAt ≤ answers.now + SESSION_TTL_SECS)
  helperSessions : ∀ grant ∈ handled.tables.helperSessions, grant ∈ tables.helperSessions ∨
    (handled.issued = some (.helper grant.token grant.holder) ∧
      grant.expiresAt ≤ answers.now + HELPER_SESSION_TTL_SECS)
  scopeSessions : ∀ grant ∈ handled.tables.scopeSessions, grant ∈ tables.scopeSessions ∨
    (handled.issued = some (.scope grant.token grant.holder.targetId grant.holder.revision) ∧
      grant.expiresAt ≤ answers.now + SESSION_TTL_SECS)
  issued : ∀ issue, handled.issued = some issue → issue.token = answers.token
  distinct : (tables.helperSessions.map Grant.token).Nodup →
    answers.token ∉ tables.helperSessions.map Grant.token →
    (handled.tables.helperSessions.map Grant.token).Nodup
  bounded : Bounded tables → Bounded handled.tables
  /-- A helper capability that is used was in the table, and is not any more. -/
  consumed : ∀ token, handled.consumed = some token →
    token ∈ tables.helperSessions.map Grant.token ∧ handled.issued = none ∧
    ((tables.helperSessions.map Grant.token).Nodup →
      token ∉ handled.tables.helperSessions.map Grant.token)
  performed : ∀ action target, handled.performed = some (action, target) →
    (∃ session ∈ tables.sessions, answers.now ≤ session.expiresAt ∧
      session.holder.targetId = target.id ∧ request.bearer = some session.token ∧
      request.header "origin" = some session.holder.origin ∧
      targetUiOrigin target = some session.holder.origin) ∨
    (∃ session ∈ tables.helperSessions, answers.now ≤ session.expiresAt ∧
      session.holder = target.id ∧ request.helperBearer = some session.token ∧
      handled.consumed = some session.token)
  /-- A scope is changed for the target and the revision of a live capability; one whose change is
  reported goes. -/
  changed : ∀ change, handled.changed = some change →
    ((∃ session ∈ tables.scopeSessions, answers.now ≤ session.expiresAt ∧
      session.holder = ⟨change.targetId, change.revision⟩ ∧ session.token = change.token) ∧
    request.bearer = some change.token ∧ handled.issued = none ∧
    (change.reported = true →
      change.token ∉ handled.tables.scopeSessions.map Grant.token) ∧
    ∃ targets target, answers.save.targets = some targets ∧ target ∈ targets ∧
      target.id = change.targetId ∧ target.revision = change.revision)

section Shrinking

variable {handled : Handled host}

theorem Lawful.of_shrunk (less : Shrunk tables handled.tables) (issued : handled.issued = none)
    (consumed : ∀ token, handled.consumed = some token →
      token ∈ tables.helperSessions.map Grant.token ∧
      ((tables.helperSessions.map Grant.token).Nodup →
        token ∉ handled.tables.helperSessions.map Grant.token))
    (performed : ∀ action target, handled.performed = some (action, target) →
      (∃ session ∈ tables.sessions, answers.now ≤ session.expiresAt ∧
        session.holder.targetId = target.id ∧ request.bearer = some session.token ∧
        request.header "origin" = some session.holder.origin ∧
        targetUiOrigin target = some session.holder.origin) ∨
      (∃ session ∈ tables.helperSessions, answers.now ≤ session.expiresAt ∧
        session.holder = target.id ∧ request.helperBearer = some session.token ∧
        handled.consumed = some session.token))
    (changed : ∀ change, handled.changed = some change →
      ((∃ session ∈ tables.scopeSessions, answers.now ≤ session.expiresAt ∧
        session.holder = ⟨change.targetId, change.revision⟩ ∧ session.token = change.token) ∧
      request.bearer = some change.token ∧ (change.reported = true →
        change.token ∉ handled.tables.scopeSessions.map Grant.token) ∧
      ∃ targets target, answers.save.targets = some targets ∧ target ∈ targets ∧
        target.id = change.targetId ∧ target.revision = change.revision)) :
    Lawful tables request answers handled where
  sessions grant among := .inl (less.sessions.subset among)
  helperSessions grant among := .inl (less.helperSessions.subset among)
  scopeSessions grant among := .inl (less.scopeSessions.subset among)
  issued issue found := by rw [issued] at found; cases found
  distinct nodup _ := nodup.sublist (less.helperSessions.map Grant.token)
  bounded bounded := bounded.shrunk less
  consumed token found := ⟨(consumed token found).1, issued, (consumed token found).2⟩
  performed := performed
  changed change found := by
    obtain ⟨session, bearer, gone, store⟩ := changed change found
    exact ⟨session, bearer, issued, gone, store⟩

theorem Lawful.quiet (less : Shrunk tables handled.tables) (issued : handled.issued = none)
    (consumed : handled.consumed = none) (performed : handled.performed = none)
    (changed : handled.changed = none) : Lawful tables request answers handled :=
  .of_shrunk less issued (fun token found => by rw [consumed] at found; cases found)
    (fun action target found => by rw [performed] at found; cases found)
    (fun change found => by rw [changed] at found; cases found)

end Shrinking

theorem refuse_lawful {after : Tables} (less : Shrunk tables after) (status : Nat) (code : String) :
    Lawful tables request answers (refuse after status code : Handled host) :=
  .quiet less rfl rfl rfl rfl

theorem saturatingAdd_le (now ttl : Nat) : saturatingAdd now ttl ≤ now + ttl := Nat.min_le_left _ _

/-! ### The handlers -/

theorem scopePage_lawful (target : Target host) :
    Lawful tables request answers (scopePage tables request answers target) := by
  unfold scopePage
  split
  case isTrue => exact refuse_lawful (.refl tables) _ _
  case isFalse =>
    refine ⟨fun _ => .inl, fun _ => .inl, fun grant among => ?_, ?_, fun nodup _ => nodup,
      fun bounded => ⟨bounded.sessions, bounded.helperSessions,
        Grant.issue_length_le (by decide) bounded.scopeSessions⟩, nofun, nofun, nofun⟩
    · refine (Grant.mem_issue among).imp_right ?_
      rintro rfl
      exact ⟨rfl, le_refl _⟩
    · intro issue found
      cases found
      rfl

theorem helperPageResponse_lawful :
    Lawful tables request answers (helperPageResponse tables request answers) := by
  unfold helperPageResponse
  split
  case h_1 => exact refuse_lawful (.refl tables) _ _
  case h_2 =>
    simp only []
    split
    case h_1 => exact refuse_lawful (.refl tables) _ _
    case h_2 => exact refuse_lawful (.refl tables) _ _
    case h_3 =>
      split
      case isTrue => exact refuse_lawful (.refl tables) _ _
      case isFalse =>
        split
        case h_1 => exact refuse_lawful (.refl tables) _ _
        case h_2 =>
          split
          case h_1 => exact refuse_lawful (.refl tables) _ _
          case h_2 target _ =>
            split
            case h_1 => exact refuse_lawful (.refl tables) _ _
            case h_2 =>
              split
              case isTrue => exact scopePage_lawful target
              case isFalse =>
                refine ⟨fun _ => .inl, fun grant among => ?_, fun _ => .inl, ?_,
                  fun nodup fresh => Grant.nodup_issue nodup fresh,
                  fun bounded => ⟨bounded.sessions,
                    Grant.issue_length_le (by decide) bounded.helperSessions,
                    bounded.scopeSessions⟩, nofun, nofun, nofun⟩
                · refine (Grant.mem_issue among).imp_right ?_
                  rintro rfl
                  exact ⟨rfl, saturatingAdd_le _ _⟩
                · intro issue found
                  cases found
                  rfl

theorem helperRequestWith_lawful {grant : Grant String} {rest : List (Grant String)}
    (presented : request.helperBearer = some grant.token)
    (spent : Grant.spend grant.token (Grant.live answers.now tables.helperSessions)
      = some (grant, rest)) :
    Lawful tables request answers (helperRequestWith { tables with helperSessions := rest }
      request answers grant.token grant.holder) := by
  obtain ⟨among, _, less⟩ := Grant.spend_eq_some spent
  obtain ⟨among, young⟩ := Grant.mem_live.mp among
  have shorter : rest.Sublist tables.helperSessions := less.trans (Grant.live_sublist _ _)
  have consumes : ∀ handled : Handled host,
      handled.tables = { tables with helperSessions := rest } → handled.issued = none →
      handled.consumed = some grant.token → handled.changed = none →
      (∀ action target, handled.performed = some (action, target) → grant.holder = target.id) →
      Lawful tables request answers handled := by
    intro handled left issued consumed changed performed
    have shrunk : Shrunk tables handled.tables := by
      rw [left]
      exact ⟨.refl _, shorter, .refl _⟩
    refine .of_shrunk shrunk issued (fun token found => ?consumed)
      (fun action target found => ?performed) (fun change found => ?changed)
    case consumed =>
      rw [consumed] at found
      cases found
      refine ⟨List.mem_map_of_mem among, fun nodup => ?_⟩
      rw [left]
      exact Grant.notMem_of_spend (nodup.sublist ((Grant.live_sublist _ _).map Grant.token)) spent
    case performed =>
      exact .inr ⟨grant, among, young, performed action target found, presented, consumed⟩
    case changed =>
      rw [changed] at found
      cases found
  unfold helperRequestWith
  split
  case h_1 => exact consumes _ rfl rfl rfl rfl nofun
  case h_2 =>
    split
    case h_1 => exact consumes _ rfl rfl rfl rfl nofun
    case h_2 target found =>
      have matched := List.find?_some found
      have named : target.id = grant.holder := of_decide_eq_true matched
      split
      case isTrue => exact consumes _ rfl rfl rfl rfl nofun
      case isFalse =>
        simp only []
        split
        case isTrue =>
          refine consumes _ rfl rfl rfl rfl fun action other performed => ?_
          cases performed
          exact named.symm
        case isFalse => exact consumes _ rfl rfl rfl rfl nofun

theorem helperRequestResponse_lawful :
    Lawful tables request answers (helperRequestResponse tables request answers) := by
  have live : Shrunk tables
      { tables with helperSessions := Grant.live answers.now tables.helperSessions } :=
    ⟨.refl _, Grant.live_sublist _ _, .refl _⟩
  unfold helperRequestResponse
  by_cases method : request.method = if request.path = "/v1/helper/status" then "GET" else "POST"
  case neg =>
    rw [if_pos method]
    exact refuse_lawful (.refl tables) _ _
  case pos =>
    rw [if_neg (not_not.mpr method)]
    simp only []
    split
    case h_1 => exact refuse_lawful live _ _
    case h_2 grant rest found =>
      obtain ⟨token, presented, spent⟩ := Option.bind_eq_some_iff.mp found
      obtain ⟨_, same, _⟩ := Grant.spend_eq_some spent
      subst same
      exact helperRequestWith_lawful presented spent

theorem exists_of_allows {origin targetId : String} {bearer : Option String}
    {sessions : List (Grant SessionHolder)}
    (allowed : Sessions.allows origin targetId bearer sessions = true) :
    ∃ session ∈ sessions, session.holder = ⟨origin, targetId⟩ ∧ bearer = some session.token := by
  unfold Sessions.allows at allowed
  cases bearer with
  | none => cases allowed
  | some token =>
    obtain ⟨session, among, same⟩ := List.any_eq_true.mp allowed
    obtain ⟨rfl, rfl, rfl⟩ := of_decide_eq_true same
    exact ⟨session, among, rfl, rfl⟩

theorem sessionRequest_lawful {origin : String} {target : Target host}
    (presented : request.header "origin" = some origin)
    (registered : targetUiOrigin target = some origin) :
    Lawful tables request answers (sessionRequest tables request answers origin target) := by
  have live : Shrunk tables { tables with sessions := Grant.live answers.now tables.sessions } :=
    ⟨Grant.live_sublist _ _, .refl _, .refl _⟩
  unfold sessionRequest
  simp only []
  split
  case isTrue => exact .quiet live rfl rfl rfl rfl
  case isFalse denied =>
    rw [Bool.not_eq_true', Bool.not_eq_false] at denied
    obtain ⟨session, among, holder, bearer⟩ := exists_of_allows denied
    obtain ⟨among, young⟩ := Grant.mem_live.mp among
    split
    case h_1 => exact .quiet live rfl rfl rfl rfl
    case h_2 action _ =>
      refine .of_shrunk live rfl nofun (fun action other performed => ?_) nofun
      cases performed
      refine .inl ⟨session, among, young, ?_⟩
      rw [holder]
      exact ⟨rfl, bearer, presented, registered⟩

theorem originRequest_lawful :
    Lawful tables request answers (originRequest tables request answers) := by
  unfold originRequest
  split
  case h_1 => exact refuse_lawful (.refl tables) _ _
  case h_2 origin presented =>
    split
    case h_1 => exact refuse_lawful (.refl tables) _ _
    case h_2 targets _ =>
      split
      case isTrue =>
        split
        case isTrue => exact .quiet (.refl tables) rfl rfl rfl rfl
        case isFalse => exact refuse_lawful (.refl tables) _ _
      case isFalse =>
        split
        case h_1 => exact refuse_lawful (.refl tables) _ _
        case h_2 targetId _ =>
          split
          case h_1 => exact refuse_lawful (.refl tables) _ _
          case h_2 target found =>
            have registered : targetUiOrigin target = some origin := by
              unfold targetForRequest at found
              split at found
              case isTrue => cases found
              case isFalse =>
                have matched := List.find?_some found
                exact (of_decide_eq_true matched).2
            split
            case isTrue =>
              refine ⟨fun grant among => ?_, fun _ => .inl, fun _ => .inl, fun issue found => ?_,
                fun nodup _ => nodup, fun bounded => ⟨Grant.issue_length_le (by decide)
                  bounded.sessions, bounded.helperSessions, bounded.scopeSessions⟩,
                nofun, nofun, nofun⟩
              · refine (Grant.mem_issue among).imp_right ?_
                rintro rfl
                exact ⟨rfl, saturatingAdd_le _ _⟩
              · cases found
                rfl
            case isFalse =>
              split
              case isTrue => exact .quiet (.refl tables) rfl rfl rfl rfl
              case isFalse => exact sessionRequest_lawful presented registered

theorem Lawful.of_live {after : Tables} {handled : Handled host}
    (lawful : Lawful after request answers handled) (less : Shrunk tables after) :
    Lawful tables request answers handled where
  sessions grant among := (lawful.sessions grant among).imp_left (less.sessions.subset ·)
  helperSessions grant among :=
    (lawful.helperSessions grant among).imp_left (less.helperSessions.subset ·)
  scopeSessions grant among :=
    (lawful.scopeSessions grant among).imp_left (less.scopeSessions.subset ·)
  issued := lawful.issued
  distinct nodup fresh := lawful.distinct (nodup.sublist (less.helperSessions.map Grant.token))
    fun among => fresh ((less.helperSessions.map Grant.token).subset among)
  bounded bounded := lawful.bounded (bounded.shrunk less)
  consumed token found := by
    obtain ⟨among, issued, gone⟩ := lawful.consumed token found
    exact ⟨(less.helperSessions.map Grant.token).subset among, issued,
      fun nodup => gone (nodup.sublist (less.helperSessions.map Grant.token))⟩
  performed action target found := by
    rcases lawful.performed action target found with ⟨session, among, rest⟩ | ⟨session, among, rest⟩
    · exact .inl ⟨session, less.sessions.subset among, rest⟩
    · exact .inr ⟨session, less.helperSessions.subset among, rest⟩
  changed change found := by
    obtain ⟨⟨session, among, rest⟩, other⟩ := lawful.changed change found
    exact ⟨⟨session, less.scopeSessions.subset among, rest⟩, other⟩

theorem setCollectionScope_written {save : SaveAnswers host} {target written : Target host}
    {revision : String} {policy : CollectionScope} {result : Except TargetError Unit}
    (saved : setCollectionScope save target.endpoint revision policy = (some written, result)) :
    written.endpoint = target.endpoint ∧ written.revision = revision ∧
    (save.finished = true ↔ result = .ok ()) ∧
    ∃ targets, save.targets = some targets ∧ written ∈ targets := by
  unfold setCollectionScope at saved
  rw [target.normal] at saved
  split at saved
  case h_1 => cases saved
  case h_2 =>
    simp only [] at saved
    split at saved
    case isTrue => cases saved
    case isFalse =>
      split at saved
      case h_1 => cases saved
      case h_2 =>
        split at saved
        case h_1 => cases saved
        case h_2 targets loaded =>
          split at saved
          case h_1 => cases saved
          case h_2 found sought =>
            split at saved
            case isTrue => cases saved
            case isFalse current =>
              split at saved
              case isTrue => cases saved
              case isFalse =>
                split at saved
                case isTrue => cases saved
                case isFalse =>
                  cases saved
                  have matched := List.find?_some sought
                  refine ⟨of_decide_eq_true matched, not_not.mp current, ?_, targets, loaded,
                    List.mem_of_find?_eq_some sought⟩
                  cases save.finished with
                  | true => exact ⟨fun _ => rfl, fun _ => rfl⟩
                  | false => exact ⟨nofun, nofun⟩

theorem scopeApply_lawful {session : Grant ScopeHolder} {target : Target host}
    (among : session ∈ tables.scopeSessions) (young : answers.now ≤ session.expiresAt)
    (presented : request.bearer = some session.token)
    (named : target.id = session.holder.targetId) :
    Lawful tables request answers (scopeApply tables request answers session target) := by
  unfold scopeApply
  split
  case isTrue => exact refuse_lawful (.refl tables) _ _
  case isFalse =>
    split
    case h_1 => exact refuse_lawful (.refl tables) _ _
    case h_2 policy _ =>
      simp only []
      cases saved : setCollectionScope answers.save target.endpoint session.holder.revision policy
        with
      | mk written result =>
        -- What a written scope has to do with the capability, however the call ended.
        have changes : ∀ handled : Handled host, Shrunk tables handled.tables →
            handled.issued = none → handled.consumed = none → handled.performed = none →
            (handled.changed = written.map fun target =>
              { token := session.token, targetId := target.id, revision := target.revision,
                reported := answers.save.finished }) →
            (result = .ok () → session.token ∉ handled.tables.scopeSessions.map Grant.token) →
            Lawful tables request answers handled := by
          intro handled less issued consumed performed changed gone
          refine .of_shrunk less issued (fun token found => by rw [consumed] at found; cases found)
            (fun action target found => by rw [performed] at found; cases found)
            (fun change found => ?_)
          rw [changed] at found
          obtain ⟨other, rfl, rfl⟩ := Option.map_eq_some_iff.mp found
          obtain ⟨same, current, finished, targets, loaded, stored⟩ :=
            setCollectionScope_written saved
          have id : other.id = session.holder.targetId :=
            (congrArg host.targetId same).trans named
          refine ⟨⟨session, among, young, ?_, rfl⟩, presented, fun told => gone (finished.mp told),
            targets, other, loaded, stored, rfl, rfl⟩
          show session.holder = ⟨other.id, other.revision⟩
          rw [id, current]
        cases result with
        | ok _ =>
          refine changes _ ⟨.refl _, .refl _, List.filter_sublist⟩ rfl rfl rfl rfl fun _ left => ?_
          obtain ⟨entry, kept, same⟩ := List.mem_map.mp left
          exact of_decide_eq_true (List.mem_filter.mp kept).2 same
        | error error => exact changes _ (.refl tables) rfl rfl rfl rfl nofun

theorem scopeRoute_lawful :
    Lawful tables request answers (scopeRoute tables request answers) := by
  unfold scopeRoute
  split
  case isTrue => exact refuse_lawful (.refl tables) _ _
  case isFalse =>
    split
    case h_1 => exact refuse_lawful (.refl tables) _ _
    case h_2 action _ =>
      have live : Shrunk tables
          { tables with scopeSessions := Grant.live answers.now tables.scopeSessions } :=
        ⟨.refl _, .refl _, Grant.live_sublist _ _⟩
      simp only []
      split
      case h_1 => exact refuse_lawful live _ _
      case h_2 session found =>
        have among := List.mem_of_find?_eq_some found
        have presented : request.bearer = some session.token := by
          have matched := List.find?_some found
          exact (of_decide_eq_true matched).symm
        split
        case h_1 => exact refuse_lawful live _ _
        case h_2 targets _ =>
          split
          case h_1 => exact refuse_lawful live _ _
          case h_2 target sought =>
            have named : target.id = session.holder.targetId := by
              have matched := List.find?_some sought
              exact (of_decide_eq_true matched).1
            cases action with
            | preview => exact .quiet live rfl rfl rfl rfl
            | apply =>
              have young := (Grant.mem_live.mp among).2
              exact (scopeApply_lawful among young presented named).of_live live

/-- **Every request is handled lawfully.** -/
theorem routeRequest_lawful :
    Lawful tables request answers (routeRequest tables request answers) := by
  unfold routeRequest
  split
  case isTrue => exact scopeRoute_lawful
  case isFalse =>
    split
    case isTrue => exact .quiet (.refl tables) rfl rfl rfl rfl
    case isFalse =>
      split
      case isTrue => exact helperPageResponse_lawful
      case isFalse =>
        split
        case isTrue => exact helperRequestResponse_lawful
        case isFalse => exact originRequest_lawful

/-! ### What the log shows -/

structure Justified (earlier : List (Entry host)) (entry : Entry host) : Prop where
  /-- An action needs a session of the same origin and target, not ten minutes old, or a helper
  capability of the target, not half a minute old and not used before. -/
  performed : ∀ action target, entry.performed = some (action, target) →
    (∃ issue ∈ earlier, ∃ token origin, issue.issued = some (.session token origin target.id) ∧
      entry.request.bearer = some token ∧ entry.request.header "origin" = some origin ∧
      targetUiOrigin target = some origin ∧ entry.now ≤ issue.now + 600) ∨
    (∃ issue ∈ earlier, ∃ token, issue.issued = some (.helper token target.id) ∧
      entry.request.helperBearer = some token ∧ entry.now ≤ issue.now + 30 ∧
      entry.consumed = some token ∧ ∀ other ∈ earlier, other.consumed ≠ some token)
  /-- A scope is changed with a capability for the same target at its present revision, not ten
  minutes old and not used for a change before. -/
  changed : ∀ change, entry.changed = some change →
    (∃ issue ∈ earlier, issue.issued = some (.scope change.token change.targetId change.revision) ∧
      entry.request.bearer = some change.token ∧ entry.now ≤ issue.now + 600) ∧
    ∀ other ∈ earlier, ∀ before, other.changed = some before → before.token ≠ change.token

def Guarded : List (Entry host) → Prop
  | [] => True
  | entry :: earlier => Justified earlier entry ∧ Guarded earlier

structure Guarantees (state : State host) : Prop where
  guarded : Guarded state.log
  /-- A token stands for one origin and one target, whenever it was handed out. -/
  single : ∀ entry ∈ state.log, ∀ other ∈ state.log, ∀ issue also, entry.issued = some issue →
    other.issued = some also → issue.token = also.token → issue = also
  bounded : Bounded state.tables

/-- The store of the targets does not go back: where a save reported an error after it had replaced
a target's credentials, the target is not found at its former revision again. -/
def Settled (state : State host) (action : Request × Answers host) : Prop :=
  ∀ entry ∈ state.log, ∀ change, entry.changed = some change → change.reported = false →
    ∀ targets, action.2.save.targets = some targets → ∀ target ∈ targets,
      target.id = change.targetId → target.revision ≠ change.revision

structure Backed (state : State host) : Prop where
  sessions : ∀ grant ∈ state.tables.sessions, ∃ entry ∈ state.log,
    entry.issued = some (.session grant.token grant.holder.origin grant.holder.targetId) ∧
    grant.expiresAt ≤ entry.now + 600
  helperSessions : ∀ grant ∈ state.tables.helperSessions,
    (∃ entry ∈ state.log, entry.issued = some (.helper grant.token grant.holder) ∧
      grant.expiresAt ≤ entry.now + 30) ∧
    ∀ entry ∈ state.log, entry.consumed ≠ some grant.token
  scopeSessions : ∀ grant ∈ state.tables.scopeSessions,
    (∃ entry ∈ state.log,
      entry.issued = some (.scope grant.token grant.holder.targetId grant.holder.revision) ∧
      grant.expiresAt ≤ entry.now + 600) ∧
    ∀ entry ∈ state.log, ∀ change, entry.changed = some change → change.reported = true →
      change.token ≠ grant.token
  distinct : (state.tables.helperSessions.map Grant.token).Nodup
  consumed : ∀ entry ∈ state.log, ∀ token, entry.consumed = some token → token ∈ state.tokens
  changed : ∀ entry ∈ state.log, ∀ change, entry.changed = some change → ∃ issue ∈ state.log,
    issue.issued = some (.scope change.token change.targetId change.revision)

theorem mem_tokens {state : State host} {entry : Entry host} {issue : Issue}
    (among : entry ∈ state.log) (issued : entry.issued = some issue) :
    issue.token ∈ state.tokens :=
  List.mem_filterMap.mpr ⟨entry, among, by rw [issued, Option.map_some]⟩

structure Kept (state : State host) : Prop where
  promised : Guarantees state
  backed : Backed state

theorem kept_start : Kept ({} : State host) where
  promised := ⟨trivial, fun _ among => absurd among List.not_mem_nil,
    ⟨Nat.zero_le _, Nat.zero_le _, Nat.zero_le _⟩⟩
  backed := ⟨fun _ among => absurd among List.not_mem_nil,
    fun _ among => absurd among List.not_mem_nil, fun _ among => absurd among List.not_mem_nil,
    List.nodup_nil, fun _ among => absurd among List.not_mem_nil,
    fun _ among => absurd among List.not_mem_nil⟩

section Steps

variable {state : State host} (kept : Kept state)

include kept

theorem Kept.helper_issued {token : String}
    (among : token ∈ state.tables.helperSessions.map Grant.token) : token ∈ state.tokens := by
  obtain ⟨grant, within, rfl⟩ := List.mem_map.mp among
  obtain ⟨⟨entry, found, issued, _⟩, _⟩ := kept.backed.helperSessions grant within
  exact mem_tokens found issued

theorem Kept.restart : Kept { state with tables := {} } where
  promised := ⟨kept.promised.guarded, kept.promised.single,
    ⟨Nat.zero_le _, Nat.zero_le _, Nat.zero_le _⟩⟩
  backed := ⟨fun _ among => absurd among List.not_mem_nil,
    fun _ among => absurd among List.not_mem_nil, fun _ among => absurd among List.not_mem_nil,
    List.nodup_nil, kept.backed.consumed, kept.backed.changed⟩

theorem Kept.justified {request : Request} {answers : Answers host} {handled : Handled host}
    (lawful : Lawful state.tables request answers handled)
    (settled : Settled state (request, answers)) {entry : Entry host}
    (made : entry = {
      request, now := answers.now, issued := handled.issued, consumed := handled.consumed
      performed := handled.performed, changed := handled.changed }) :
    Justified state.log entry := by
  subst made
  refine ⟨fun action target performed => ?_, fun change changed => ?_⟩
  · rcases lawful.performed action target performed with
      ⟨session, among, young, named, bearer, origin, registered⟩ |
      ⟨session, among, young, named, bearer, consumed⟩
    · obtain ⟨issue, found, issued, date⟩ := kept.backed.sessions session among
      refine .inl ⟨issue, found, session.token, session.holder.origin, ?_, bearer, origin,
        registered, young.trans date⟩
      rw [issued, named]
    · obtain ⟨⟨issue, found, issued, date⟩, unused⟩ :=
        kept.backed.helperSessions session among
      refine .inr ⟨issue, found, session.token, ?_, bearer, young.trans date, consumed, unused⟩
      rw [issued, named]
  · obtain ⟨⟨session, among, young, holder, token⟩, bearer, _, _, targets, target, loaded, stored,
      id, revision⟩ := lawful.changed change changed
    obtain ⟨⟨issue, found, issued, date⟩, unreported⟩ := kept.backed.scopeSessions session among
    rw [holder, token] at issued
    refine ⟨⟨issue, found, issued, bearer, young.trans date⟩,
      fun other earlier before again same => ?_⟩
    cases reported : before.reported with
    | true =>
      exact unreported other earlier before again reported (same.trans token.symm)
    | false =>
      obtain ⟨first, among, handed⟩ := kept.backed.changed other earlier before again
      have one := kept.promised.single first among issue found _ _ handed issued same
      obtain ⟨_, sameTarget, sameRevision⟩ := Issue.scope.inj one
      exact settled other earlier before again reported targets loaded target stored
        (id.trans sameTarget.symm) (revision.trans sameRevision.symm)

theorem Kept.handle {request : Request} {answers : Answers host} {handled : Handled host}
    (lawful : Lawful state.tables request answers handled)
    (settled : Settled state (request, answers)) (fresh : answers.token ∉ state.tokens) :
    Kept {
      tables := handled.tables
      log := {
        request, now := answers.now, issued := handled.issued, consumed := handled.consumed
        performed := handled.performed, changed := handled.changed } :: state.log } := by
  obtain ⟨entry, made⟩ : ∃ entry : Entry host, entry = {
      request, now := answers.now, issued := handled.issued, consumed := handled.consumed
      performed := handled.performed, changed := handled.changed } := ⟨_, rfl⟩
  rw [← made]
  have justified := kept.justified lawful settled made
  have now : entry.now = answers.now := by rw [made]
  have issued : entry.issued = handled.issued := by rw [made]
  have consumed : entry.consumed = handled.consumed := by rw [made]
  have changed : entry.changed = handled.changed := by rw [made]
  have first : entry ∈ entry :: state.log := List.mem_cons_self
  have later : ∀ other ∈ state.log, other ∈ entry :: state.log :=
    fun other among => List.mem_cons_of_mem entry among
  -- A token handed out now is none of those handed out before.
  have unused : ∀ issue, handled.issued = some issue → issue.token ∉ state.tokens :=
    fun issue found => lawful.issued issue found ▸ fresh
  refine ⟨⟨⟨justified, kept.promised.guarded⟩, ?single, lawful.bounded kept.promised.bounded⟩,
    ⟨?sessions, ?helperSessions, ?scopeSessions, ?distinct, ?consumed, ?changed⟩⟩
  case single =>
    intro one oneAmong other otherAmong issue also found foundAlso same
    rcases List.mem_cons.mp oneAmong with rfl | oneEarlier <;>
      rcases List.mem_cons.mp otherAmong with rfl | otherEarlier
    · exact Option.some_inj.mp (found.symm.trans foundAlso)
    · exact absurd (same ▸ mem_tokens otherEarlier foundAlso) (unused issue (issued ▸ found))
    · exact absurd (same ▸ mem_tokens oneEarlier found) (unused also (issued ▸ foundAlso))
    · exact kept.promised.single one oneEarlier other otherEarlier issue also found foundAlso same
  case sessions =>
    intro grant among
    rcases lawful.sessions grant among with before | ⟨handed, date⟩
    · obtain ⟨other, found, rest⟩ := kept.backed.sessions grant before
      exact ⟨other, later other found, rest⟩
    · exact ⟨entry, first, issued.trans handed, now ▸ date⟩
  case helperSessions =>
    intro grant among
    rcases lawful.helperSessions grant among with before | ⟨handed, date⟩
    · obtain ⟨⟨other, found, rest⟩, free⟩ := kept.backed.helperSessions grant before
      refine ⟨⟨other, later other found, rest⟩, fun one oneAmong => ?_⟩
      rcases List.mem_cons.mp oneAmong with rfl | oneEarlier
      · intro used
        obtain ⟨_, _, gone⟩ := lawful.consumed grant.token (consumed ▸ used)
        exact gone kept.backed.distinct (List.mem_map_of_mem among)
      · exact free one oneEarlier
    · refine ⟨⟨entry, first, issued.trans handed, now ▸ date⟩, fun one oneAmong used => ?_⟩
      rcases List.mem_cons.mp oneAmong with rfl | oneEarlier
      · obtain ⟨_, none, _⟩ := lawful.consumed grant.token (consumed ▸ used)
        rw [handed] at none
        cases none
      · exact unused _ handed (kept.backed.consumed one oneEarlier _ used)
  case scopeSessions =>
    intro grant among
    rcases lawful.scopeSessions grant among with before | ⟨handed, date⟩
    · obtain ⟨⟨other, found, rest⟩, free⟩ := kept.backed.scopeSessions grant before
      refine ⟨⟨other, later other found, rest⟩, fun one oneAmong change found told => ?_⟩
      rcases List.mem_cons.mp oneAmong with rfl | oneEarlier
      · intro same
        obtain ⟨_, _, _, gone, _⟩ := lawful.changed change (changed ▸ found)
        exact gone told (same ▸ List.mem_map_of_mem among)
      · exact free one oneEarlier change found told
    · refine ⟨⟨entry, first, issued.trans handed, now ▸ date⟩,
        fun one oneAmong change found told same => ?_⟩
      rcases List.mem_cons.mp oneAmong with rfl | oneEarlier
      · obtain ⟨_, _, none, _⟩ := lawful.changed change (changed ▸ found)
        rw [handed] at none
        cases none
      · obtain ⟨issue, among, before⟩ := kept.backed.changed one oneEarlier change found
        have known : change.token ∈ state.tokens := mem_tokens among before
        rw [same] at known
        exact unused _ handed known
  case distinct =>
    refine lawful.distinct kept.backed.distinct fun among => fresh ?_
    exact kept.helper_issued among
  case consumed =>
    intro one oneAmong token used
    have known : token ∈ state.tokens := by
      rcases List.mem_cons.mp oneAmong with rfl | oneEarlier
      · exact kept.helper_issued (lawful.consumed token (consumed ▸ used)).1
      · exact kept.backed.consumed one oneEarlier token used
    obtain ⟨other, found, handed⟩ := List.mem_filterMap.mp known
    exact List.mem_filterMap.mpr ⟨other, later other found, handed⟩
  case changed =>
    intro one oneAmong change found
    rcases List.mem_cons.mp oneAmong with rfl | oneEarlier
    · obtain ⟨⟨issue, among, handed, _⟩, _⟩ := justified.changed change found
      exact ⟨issue, later issue among, handed⟩
    · obtain ⟨issue, among, handed⟩ := kept.backed.changed one oneEarlier change found
      exact ⟨issue, later issue among, handed⟩

/-- **A request keeps the invariant.** -/
theorem Kept.next {after : State host} {action : Request × Answers host}
    (settled : Settled state action) (moved : next state action = some after) : Kept after := by
  obtain ⟨request, answers⟩ := action
  unfold Bridge.next at moved
  split at moved
  case isTrue => cases moved
  case isFalse fresh =>
    have lawful : Lawful state.tables request answers
        (routeRequest state.tables request answers) := routeRequest_lawful
    have handled := kept.handle lawful settled fresh
    cases moved
    by_cases flow : (routeRequest state.tables request answers).flow = .carryOn
    · simp only [flow, if_true]
      exact handled
    · simp only [flow, if_false]
      exact handled.restart

end Steps

/-- A computer with one target, `https://toard.example/api`. -/
def plainHost : Host where
  port := 38473
  secret := "0b5c"
  targetId := fun _ => "5f0c1d9ab3e24786915f0c1d9ab3e24786915f0c1d9ab3e24786915f0c1d9ab3"
  normalizeEndpoint := some
  normalize_normal := fun _ _ _ => rfl
  endpointOrigin := fun _ => some "https://toard.example"
  queryPairs := fun _ => some [
    ("target", "5f0c1d9ab3e24786915f0c1d9ab3e24786915f0c1d9ab3e24786915f0c1d9ab3"),
    ("nonce", "00112233445566778899aabbccddeeff"), ("mode", "scope")]
  parsePolicy := fun _ => some CollectionScope.default

/-- Its credentials are in the file of an older version, whose digest is the revision. -/
def plainTarget : Target plainHost where
  endpoint := "https://toard.example/api"
  normal := rfl
  revision := "9d1e"
  uiOrigin := none
  legacy := true
  collectionScope := { schemaVersion := 1, mode := .paused, providers := [] }

def plainCapability : String := "c0ffee"

def openWindow : Request × Answers plainHost :=
  ({ method := "GET"
     path := "/v1/helper?target=5f0c1d9ab3e24786915f0c1d9ab3e24786915f0c1d9ab3e24786915f0c1d9ab3"
       ++ "&nonce=00112233445566778899aabbccddeeff&mode=scope"
     headers := [("host", "127.0.0.1:38473")]
     body := [] },
   { now := 1719800000, token := plainCapability, targets := some [plainTarget] })

def applyScope (now : Nat) (finished : Bool) : Request × Answers plainHost :=
  ({ method := "POST"
     path := "/v1/scope/apply"
     headers := [("host", "127.0.0.1:38473"), ("origin", "http://127.0.0.1:38473"),
       ("authorization", "Bearer c0ffee"), ("content-type", "application/json")]
     body := "\x7b\"schemaVersion\":1,\"mode\":\"all\"\x7d".toUTF8.toList },
   { now, token := "unused", targets := some [plainTarget]
     save := { targets := some [plainTarget], finished } })

/-- The window is opened; a save replaces the credentials and then fails; the older file is put
back as it was, and the same capability changes the scope again. -/
def twiceApplied : List (Request × Answers plainHost) :=
  [openWindow, applyScope 1719800010 false, applyScope 1719800020 true]

theorem twiceApplied_changes :
    (Toard.Library.run next ({} : State plainHost) twiceApplied).map
      (fun state => state.log.map fun entry => entry.changed.map ScopeChange.token)
    = some [some plainCapability, some plainCapability, none] := by
  decide +kernel

end Toard.Bridge
