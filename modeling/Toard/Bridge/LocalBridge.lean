/-
**The local bridge: who may ask for what (`local_bridge.rs`, `scope_ui.rs`).**

The bridge answers one HTTP request after the other. It hands out three kinds of tokens, which it
keeps in memory only: sessions for the registered web origin of a target, capabilities for the
helper window of a target, and capabilities for the window in which the owner chooses what a target
collects.

The texts of the pages, the fields of a status and the parsing of a request from its bytes decide
nothing here and are left out.
-/

import Toard.Library.Grants
import Toard.Library.Transition
import Toard.Shim.CollectionScope
import Toard.Shim.Iso

namespace Toard.Bridge

open Toard.Library (Grant)
open Toard.Shim (CollectionScope)

def SESSION_TTL_SECS : Nat := 10 * 60

def HELPER_SESSION_TTL_SECS : Nat := 30

def MAX_POLICY_BYTES : Nat := 24 * 1024

def saturatingAdd (now ttl : Nat) : Nat := min (now + ttl) (2 ^ 64 - 1)

/-- The computer, and the packages: `targetId` is SHA-256, `normalizeEndpoint`, `endpointOrigin` and
`queryPairs` read URLs, and `parsePolicy` reads JSON. -/
structure Host where
  port : Nat
  secret : String
  targetId : String → String
  normalizeEndpoint : String → Option String
  normalize_normal : ∀ endpoint normal, normalizeEndpoint endpoint = some normal →
    normalizeEndpoint normal = some normal
  endpointOrigin : String → Option String
  queryPairs : String → Option (List (String × String))
  parsePolicy : String → Option CollectionScope

variable {host : Host}

structure Target (host : Host) where
  endpoint : String
  normal : host.normalizeEndpoint endpoint = some endpoint
  revision : String
  uiOrigin : Option String
  legacy : Bool
  collectionScope : CollectionScope
deriving DecidableEq

def Target.id (target : Target host) : String := host.targetId target.endpoint

def targetUiOrigin (target : Target host) : Option String :=
  target.uiOrigin.or (host.endpointOrigin target.endpoint)

structure Request where
  method : String
  path : String
  headers : List (String × String)
  body : List UInt8
deriving DecidableEq

def Request.header (request : Request) (name : String) : Option String :=
  request.headers.lookup name

/-- `str::strip_prefix`. -/
def stripPrefix (lead text : String) : Option String :=
  (lead.toList.isPrefixOf? text.toList).map String.ofList

/-- `str::starts_with`. -/
def startsWith (lead text : String) : Bool := lead.toList.isPrefixOf text.toList

/-- `str::trim_start_matches`: the lead is taken off as often as it is there. -/
def trimStartMatches (lead : List Char) : Nat → List Char → List Char
  | 0, text => text
  | turns + 1, text =>
    match lead.isPrefixOf? text with
    | none => text
    | some rest => trimStartMatches lead turns rest

def isHexDigit (c : Char) : Bool :=
  c.isDigit || ('a' ≤ c && c ≤ 'f') || ('A' ≤ c && c ≤ 'F')

/-- The token behind `Bearer`, as the sessions and the scope window read it. -/
def Request.bearer (request : Request) : Option String :=
  (request.header "authorization").bind (stripPrefix "Bearer ")

def Request.helperBearer (request : Request) : Option String :=
  request.bearer.map fun token => String.ofList (Shim.trim token.toList)

structure SessionHolder where
  origin : String
  targetId : String
deriving DecidableEq

structure ScopeHolder where
  targetId : String
  revision : String
deriving DecidableEq

structure Tables where
  sessions : List (Grant SessionHolder) := []
  helperSessions : List (Grant String) := []
  scopeSessions : List (Grant ScopeHolder) := []
deriving DecidableEq

/-! ### The tables -/

namespace Sessions

def issue (origin targetId : String) (now : Nat) (token : String)
    (sessions : List (Grant SessionHolder)) : List (Grant SessionHolder) :=
  Grant.issue 16 ⟨token, ⟨origin, targetId⟩, saturatingAdd now SESSION_TTL_SECS⟩ now sessions

/-- `allows`, on the sessions that are still live. -/
def allows (origin targetId : String) (bearer : Option String)
    (sessions : List (Grant SessionHolder)) : Bool :=
  bearer.any fun token => sessions.any fun session =>
    session.holder.origin = origin ∧ session.holder.targetId = targetId ∧ session.token = token

end Sessions

namespace HelperSessions

def issue (targetId : String) (now : Nat) (token : String) (sessions : List (Grant String)) :
    List (Grant String) :=
  Grant.issue 16 ⟨token, targetId, saturatingAdd now HELPER_SESSION_TTL_SECS⟩ now sessions

end HelperSessions

namespace ScopeSessions

def issue (targetId revision : String) (now : Nat) (token : String)
    (sessions : List (Grant ScopeHolder)) : List (Grant ScopeHolder) :=
  Grant.issue 8 ⟨token, ⟨targetId, revision⟩, now + 10 * 60⟩ now sessions

end ScopeSessions

/-! ### What the calls for a request come to -/

/-- What the calls of `set_collection_scope` come to, in their order: the lock, the check of the
exporters (`otlp` is the error it finds), the targets under the lock, the migration of the older
file, all writes up to the credentials themselves, and what is left to do behind them. -/
structure SaveAnswers (host : Host) where
  locked : Bool := true
  otlp : Option String := none
  targets : Option (List (Target host)) := some []
  migrated : Bool := true
  written : Bool := true
  finished : Bool := true
deriving DecidableEq

structure Answers (host : Host) where
  now : Nat
  token : String
  targets : Option (List (Target host)) := some []
  exitCode : Int := 0
  restart : Bool := false
  save : SaveAnswers host := {}
deriving DecidableEq

inductive TargetError where
  | invalidEndpoint
  | invalidCredentials (code : String)
  | io
deriving DecidableEq

/-- The scope of a target is replaced, if the target still has the revision that the owner saw. The
first component is the target whose credentials were written, if they were. -/
def setCollectionScope (answers : SaveAnswers host) (endpoint expectedRevision : String)
    (scope : CollectionScope) : Option (Target host) × Except TargetError Unit :=
  match scope.validate with
  | .error code => (none, .error (.invalidCredentials code))
  | .ok () =>
    match host.normalizeEndpoint endpoint with
    | none => (none, .error .invalidEndpoint)
    | some endpoint =>
      if !answers.locked then (none, .error .io)
      else match (if scope.isUnrestricted then none else answers.otlp) with
      | some code => (none, .error (.invalidCredentials code))
      | none =>
        match answers.targets with
        | none => (none, .error .io)
        | some targets =>
          match targets.find? fun target => target.endpoint = endpoint with
          | none => (none, .error (.invalidCredentials "target no longer exists"))
          | some target =>
            if target.revision ≠ expectedRevision then
              (none, .error (.invalidCredentials "target changed during scope confirmation"))
            else if target.legacy && !answers.migrated then
              (none, .error (.invalidCredentials "target migration did not complete"))
            else if !answers.written then (none, .error .io)
            else (some target, if answers.finished then .ok () else .error .io)

/-- The policy in the body of a request, as `CollectionScope::decode` takes it. -/
def decodePolicy (host : Host) (body : List UInt8) : Option CollectionScope :=
  (String.fromUTF8? ⟨body.toArray⟩).bind fun text =>
    if MAX_POLICY_BYTES < text.utf8ByteSize then none
    else (host.parsePolicy text).filter fun policy => policy.validate matches .ok ()

/-! ### Answers and what happened on the way -/

inductive ConnectionFlow where
  | carryOn
  | shutdown
  | restart
deriving DecidableEq

inductive Body where
  | empty
  | error (code : String)
  | ok (allowed : Bool)
  | status (session : Option String)
  | page (capability : String)
  | action (name : String) (exitCode : Int)
  | preview
deriving DecidableEq

structure Response where
  status : Nat
  body : Body
  cors : Option String := none
deriving DecidableEq

inductive Issue where
  | session (token : String) (origin targetId : String)
  | helper (token : String) (targetId : String)
  | scope (token : String) (targetId revision : String)
deriving DecidableEq

def Issue.token : Issue → String
  | .session token _ _ => token
  | .helper token _ => token
  | .scope token _ _ => token

/-- A target's credentials that were replaced for the sake of its scope: the token, the target and
its revision before, and whether the caller was told. -/
structure ScopeChange where
  token : String
  targetId : String
  revision : String
  reported : Bool
deriving DecidableEq

structure Handled (host : Host) where
  tables : Tables
  response : Response
  flow : ConnectionFlow := .carryOn
  issued : Option Issue := none
  consumed : Option String := none
  performed : Option (String × Target host) := none
  changed : Option ScopeChange := none
deriving DecidableEq

variable (tables : Tables) (request : Request) (answers : Answers host)

def refuse (status : Nat) (code : String) : Handled host :=
  { tables, response := { status, body := .error code } }

/-! ### The window in which the owner chooses the scope -/

def localOrigin (host : Host) : String := "http://127.0.0.1:" ++ toString host.port

def localHost (host : Host) (request : Request) : Bool :=
  request.header "host" = some ("127.0.0.1:" ++ toString host.port)

def scopePage (target : Target host) : Handled host :=
  if !localHost host request then refuse tables 403 "local_host_required"
  else
    { tables := { tables with
        scopeSessions := ScopeSessions.issue target.id target.revision answers.now answers.token
          tables.scopeSessions }
      response := { status := 200, body := .page answers.token }
      issued := some (.scope answers.token target.id target.revision) }

inductive ScopeAction where
  | preview
  | apply
deriving DecidableEq

def scopeAction (host : Host) (request : Request) : Option ScopeAction :=
  if request.method = "GET" ∧ request.path = "/v1/scope/preview" then some .preview
  else if request.method = "POST" ∧ request.path = "/v1/scope/apply"
      ∧ request.header "origin" = some (localOrigin host) then some .apply
  else none

/-- `header.split(';').next()`. -/
def mediaType (header : String) : String :=
  String.ofList (header.toList.takeWhile (· ≠ ';'))

/-- The owner's choice is saved; the capability is used up once it is. -/
def scopeApply (session : Grant ScopeHolder) (target : Target host) : Handled host :=
  if (request.header "content-type").map mediaType ≠ some "application/json" then
    refuse tables 400 "json_required"
  else match decodePolicy host request.body with
  | none => refuse tables 400 "invalid_scope"
  | some policy =>
    let (written, result) :=
      setCollectionScope answers.save target.endpoint session.holder.revision policy
    let changed := written.map fun target =>
      { token := session.token, targetId := target.id, revision := target.revision,
        reported := answers.save.finished : ScopeChange }
    match result with
    | .ok () =>
      { tables := { tables with
          scopeSessions := tables.scopeSessions.filter fun entry => entry.token ≠ session.token }
        response := { status := 200, body := .status none }
        changed }
    | .error error =>
      let code := match error with
        | .invalidCredentials "experimental_otlp_active" => "experimental_otlp_active"
        | .invalidCredentials "legacy_settings_unreadable" => "legacy_settings_unreadable"
        | _ => "scope_not_saved"
      { tables, response := { status := 409, body := .error code }, changed }

def scopeRoute : Handled host :=
  if !localHost host request || (request.header "origin").any (· ≠ localOrigin host) then
    refuse tables 403 "local_origin_required"
  else match scopeAction host request with
  | none => refuse tables 405 "method_not_allowed"
  | some action =>
    let tables := { tables with scopeSessions := Grant.live answers.now tables.scopeSessions }
    match tables.scopeSessions.find? fun session => some session.token = request.bearer with
    | none => refuse tables 401 "scope_session_expired"
    | some session =>
      match answers.targets with
      | none => refuse tables 503 "targets_unavailable"
      | some targets =>
        match targets.find? fun target =>
            target.id = session.holder.targetId ∧ target.revision = session.holder.revision with
        | none => refuse tables 409 "target_changed"
        | some target =>
          match action with
          | .preview => { tables, response := { status := 200, body := .preview } }
          | .apply => scopeApply tables request answers session target

/-! ### The helper window -/

def helperPageResponse : Handled host :=
  match host.queryPairs ("http://127.0.0.1" ++ request.path) with
  | none => refuse tables 400 "invalid_helper_request"
  | some pairs =>
    -- A map built from the pairs keeps the last value of a name.
    let params := fun name => pairs.reverse.lookup name
    match params "target", params "nonce" with
    | none, _ => refuse tables 400 "target_required"
    | some _, none => refuse tables 400 "nonce_required"
    | some targetId, some nonce =>
      if targetId.utf8ByteSize ≠ 64 ∨ !targetId.toList.all isHexDigit
          ∨ nonce.utf8ByteSize < 16 ∨ 64 < nonce.utf8ByteSize ∨ !nonce.toList.all isHexDigit then
        refuse tables 400 "invalid_helper_request"
      else match answers.targets with
      | none => refuse tables 503 "targets_unavailable"
      | some targets =>
        match targets.find? fun target => target.id = targetId with
        | none => refuse tables 404 "target_not_found"
        | some target =>
          match targetUiOrigin target with
          | none => refuse tables 403 "origin_unavailable"
          | some _ =>
            if params "mode" = some "scope" then scopePage tables request answers target
            else
              { tables := { tables with
                  helperSessions := HelperSessions.issue target.id answers.now answers.token
                    tables.helperSessions }
                response := { status := 200, body := .page answers.token }
                issued := some (.helper answers.token target.id) }

/-- A helper capability has been spent: it is gone whatever comes of the request. -/
def helperRequestWith (token targetId : String) : Handled host :=
  match answers.targets with
  | none => { refuse tables 503 "targets_unavailable" with consumed := some token }
  | some targets =>
    match targets.find? fun target => target.id = targetId with
    | none => { refuse tables 404 "target_not_found" with consumed := some token }
    | some target =>
      if request.path = "/v1/helper/status" then
        { tables, response := { status := 200, body := .status none }, consumed := some token }
      else
        let action := String.ofList (trimStartMatches "/v1/helper/actions/".toList
          request.path.length request.path.toList)
        if action = "collect" ∨ action = "doctor" ∨ action = "update" then
          { tables
            response := {
              status := if answers.exitCode = 0 then 200 else 500
              body := .action action answers.exitCode }
            flow := if answers.restart then .restart else .carryOn
            consumed := some token
            performed := some (action, target) }
        else { refuse tables 404 "not_found" with consumed := some token }

def helperRequestResponse : Handled host :=
  let expectedMethod := if request.path = "/v1/helper/status" then "GET" else "POST"
  if request.method ≠ expectedMethod then refuse tables 400 "invalid_helper_method"
  else
    let live := { tables with helperSessions := Grant.live answers.now tables.helperSessions }
    match request.helperBearer.bind fun token => Grant.spend token live.helperSessions with
    | none => refuse live 401 "helper_session_required"
    | some (grant, rest) =>
      helperRequestWith { live with helperSessions := rest } request answers grant.token
        grant.holder

/-! ### The registered origins -/

def targetForRequest (targets : List (Target host)) (origin targetId : String) :
    Option (Target host) :=
  if targetId.utf8ByteSize ≠ 64 ∨ !targetId.toList.all isHexDigit then none
  else targets.find? fun target => target.id = targetId ∧ targetUiOrigin target = some origin

def sessionAction : String → Option String
  | "/v1/actions/collect" => some "collect"
  | "/v1/actions/doctor" => some "doctor"
  | "/v1/actions/update" => some "update"
  | _ => none

def sessionRequest (origin : String) (target : Target host) : Handled host :=
  let live := { tables with sessions := Grant.live answers.now tables.sessions }
  if !Sessions.allows origin target.id request.bearer live.sessions then
    { tables := live
      response := { status := 401, body := .error "session_required", cors := some origin } }
  else
    match sessionAction request.path with
    | none =>
      { tables := live
        response := { status := 404, body := .error "not_found", cors := some origin } }
    | some action =>
      { tables := live
        response := {
          status := if answers.exitCode = 0 then 200 else 500
          body := .action action answers.exitCode
          cors := some origin }
        flow := if answers.restart then .restart else .carryOn
        performed := some (action, target) }

def originRequest : Handled host :=
  match request.header "origin" with
  | none => refuse tables 403 "origin_required"
  | some origin =>
    match answers.targets with
    | none => refuse tables 503 "targets_unavailable"
    | some targets =>
      if request.method = "OPTIONS" then
        if targets.any fun target => targetUiOrigin target = some origin then
          { tables, response := { status := 204, body := .empty, cors := some origin } }
        else refuse tables 403 "origin_denied"
      else match request.header "x-toard-target" with
      | none => refuse tables 400 "target_required"
      | some targetId =>
        match targetForRequest targets origin targetId with
        | none => refuse tables 403 "origin_denied"
        | some target =>
          if request.method = "GET" ∧ request.path = "/v1/status" then
            { tables := { tables with
                sessions := Sessions.issue origin target.id answers.now answers.token
                  tables.sessions }
              response := {
                status := 200, body := .status (some answers.token), cors := some origin }
              issued := some (.session answers.token origin target.id) }
          else if request.method ≠ "POST" then
            { tables, response := {
                status := 401, body := .error "session_required", cors := some origin } }
          else sessionRequest tables request answers origin target

def routeRequest : Handled host :=
  if startsWith "/v1/scope/" request.path then scopeRoute tables request answers
  else if request.path = "/internal/ping" ∨ request.path = "/internal/shutdown" then
    let allowed := decide (request.header "x-toard-local-secret" = some host.secret)
    { tables
      response := { status := if allowed then 200 else 403, body := .ok allowed }
      flow := if allowed ∧ request.path = "/internal/shutdown" then .shutdown else .carryOn }
  else if request.method = "GET" ∧ startsWith "/v1/helper?" request.path then
    helperPageResponse tables request answers
  else if request.path = "/v1/helper/status" ∨ startsWith "/v1/helper/actions/" request.path then
    helperRequestResponse tables request answers
  else originRequest tables request answers

/-! ### Runs -/

structure Entry (host : Host) where
  request : Request
  now : Nat
  issued : Option Issue
  consumed : Option String
  performed : Option (String × Target host)
  changed : Option ScopeChange
deriving DecidableEq

structure State (host : Host) where
  tables : Tables := {}
  log : List (Entry host) := []
deriving DecidableEq

def State.tokens (state : State host) : List String :=
  state.log.filterMap fun entry => entry.issued.map Issue.token

/-- One request. A token is 256 random bits: it is not one that was handed out before. The process
may end and another begin with empty tables, which knows nothing of older tokens. -/
def next (state : State host) (action : Request × Answers host) : Option (State host) :=
  if action.2.token ∈ state.tokens then none
  else
    let handled := routeRequest state.tables action.1 action.2
    some {
      tables := if handled.flow = .carryOn then handled.tables else {}
      log := {
        request := action.1, now := action.2.now, issued := handled.issued
        consumed := handled.consumed, performed := handled.performed
        changed := handled.changed } :: state.log }

end Toard.Bridge
