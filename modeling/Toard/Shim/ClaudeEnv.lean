/-
**The variables in Claude's settings (`claude_env.rs`).**

The shim puts variables of its own under `env` in `settings.json`, a file that is otherwise the user's,
and keeps a record of the values that it put there. A value is known as its own by comparing it with
the value wanted and with the value recorded.
-/

import Toard.Json.Entries
import Toard.Library.Transition
import Toard.Shim.Iso

namespace Toard.Shim.ClaudeEnv

open Toard.Json

/-! ### Plans -/

/-- `merge_resource_attrs` where there are no attributes yet. -/
def resourceAttrs (tool : String) (host : Option String) : String :=
  "toard.shim=rust,toard.tool=" ++ tool ++ match host with
    | some label => ",toard.host=" ++ label
    | none => ""

/-- `managed_keys`; `host` is what `host_label` returns. -/
def managedKeys (endpoint token : String) (host : Option String) : List (String × String) :=
  [("CLAUDE_CODE_ENABLE_TELEMETRY", "1"),
    ("OTEL_LOGS_EXPORTER", "otlp"),
    ("OTEL_METRICS_EXPORTER", "none"),
    ("OTEL_EXPORTER_OTLP_PROTOCOL", "http/json"),
    ("OTEL_EXPORTER_OTLP_ENDPOINT", endpoint),
    ("OTEL_EXPORTER_OTLP_HEADERS", "Authorization=Bearer " ++ token),
    ("OTEL_RESOURCE_ATTRIBUTES", resourceAttrs "claude" host)]

inductive Refusal
  | unparsable
  | rootNotObject
  | envNotObject
deriving DecidableEq

structure PlanResult where
  /-- The new text of `settings.json`, if it must be written. -/
  settings : Option String
  state : List (String × String)
  warnings : List String

/-- `parse_root` -/
def parseRoot (settingsText : String) : Except Refusal Value :=
  if settingsText.toList.all isWhiteSpace then .ok (.object [])
  else
    match parse settingsText with
    | none => .error .unparsable
    | some (.object entries) => .ok (.object entries)
    | some _ => .error .rootNotObject

def written (root : Value) (settingsText : String) : Option String :=
  if toPretty root ≠ settingsText then some (toPretty root) else none

structure Progress where
  env : Value
  state : List (String × String)
  warnings : List String

/-- One key of `plan_on`. -/
def manage (prevState : List (String × String)) (so : Progress) (pair : String × String) :
    Progress :=
  let (key, want) := pair
  let oursBefore := (prevState.find? fun ours => ours.1 == key).map Prod.snd
  match so.env.get key with
  | none => { so with env := so.env.set key (.string want), state := so.state ++ [(key, want)] }
  | some (.string cur) =>
    if cur = want then { so with state := so.state ++ [(key, want)] }
    else if some cur = oursBefore then
      { env := so.env.set key (.string want)
        state := so.state ++ [(key, want)]
        warnings := so.warnings ++ [key ++ ": toard 관리 값 갱신"] }
    else { so with warnings := so.warnings
      ++ [key ++ ": 사용자가 설정한 값이 있어 보존합니다 — toard 수집과 충돌할 수 있음"] }
  | some _ => { so with warnings := so.warnings
      ++ [key ++ ": 사용자가 설정한 값이 있어 보존합니다 — toard 수집과 충돌할 수 있음"] }

/-- `plan_on` -/
def planOn (settingsText : String) (prevState : List (String × String)) (endpoint token : String)
    (host : Option String) : Except Refusal PlanResult := do
  let parsed ← parseRoot settingsText
  let root := if (parsed.get "env").isNone then parsed.set "env" (.object []) else parsed
  match root.get "env" with
  | some (.object entries) =>
    let done := (managedKeys endpoint token host).foldl (manage prevState)
      { env := .object entries, state := [], warnings := [] }
    .ok {
      settings := written (root.set "env" done.env) settingsText
      state := done.state
      warnings := done.warnings }
  | _ => .error .envNotObject

/-- One key of `plan_off`. -/
def release (so : Value × List String) (pair : String × String) : Value × List String :=
  let (key, ours) := pair
  let kept := (so.1, so.2 ++ [key ++ ": 값이 toard 기록과 달라 보존합니다 (사용자 변경 추정)"])
  match so.1.get key with
  | some (.string cur) => if cur = ours then (so.1.remove key, so.2) else kept
  | some _ => kept
  | none => so

/-- `plan_off` -/
def planOff (settingsText : String) (prevState : List (String × String)) :
    Except Refusal PlanResult := do
  let root ← parseRoot settingsText
  match root.get "env" with
  | none => .ok { settings := written root settingsText, state := [], warnings := [] }
  | some env =>
    let done := prevState.foldl release (env, [])
    let root := root.set "env" done.1
    let root := if done.1.isEmptyObject then root.remove "env" else root
    .ok { settings := written root settingsText, state := [], warnings := done.2 }

/-! ### The record -/

/-- `state_to_json` -/
def stateToJson (state : List (String × String)) : String :=
  toPretty (.object [("keys", .object (state.map fun pair => (pair.1, .string pair.2)))])

/-- `state_from_json` -/
def stateFromJson (text : String) : List (String × String) :=
  match parse text with
  | none => []
  | some root =>
    match root.get "keys" with
    | some (.object entries) =>
      entries.filterMap fun entry => entry.2.asStr.map fun text => (entry.1, text)
    | _ => []

/-! ### Runs and edits -/

/-- The members of `env`, as `get` finds it. -/
def envEntries (settingsText : String) : List (String × Value) :=
  match parseRoot settingsText with
  | .ok root =>
    match root.get "env" with
    | some (.object entries) => entries
    | _ => []
  | .error _ => []

/-- A text of `settings.json`, and those of its variables that the user set. -/
structure Edit where
  settings : String
  users : List (String × Value)
  among : users.Sublist (envEntries settings)

/-- The two files (a missing one is empty), and the variables that the user set last. -/
structure Home where
  settings : String
  state : String
  users : List (String × Value)

/-- The credentials and the host of a run of `claude-env on`. -/
structure Credentials where
  endpoint : String
  token : String
  host : Option String

def Credentials.wanted (credentials : Credentials) : List (String × String) :=
  managedKeys credentials.endpoint credentials.token credentials.host

inductive Event
  | on (credentials : Credentials)
  | off
  | edit (edited : Edit)

/-- `claude_env_cmd`, or an edit of the user; a plan that is refused leaves both files. -/
def next (home : Home) : Event → Option Home
  | .on credentials =>
    match planOn home.settings (stateFromJson home.state) credentials.endpoint credentials.token
        credentials.host with
    | .ok plan => some { home with
        settings := plan.settings.getD home.settings
        state := stateToJson plan.state }
    | .error _ => some home
  | .off =>
    match planOff home.settings (stateFromJson home.state) with
    | .ok plan => some { home with settings := plan.settings.getD home.settings, state := "" }
    | .error _ => some home
  | .edit edited => some { home with settings := edited.settings, users := edited.users }

def start (edited : Edit) (state : String) : Home where
  settings := edited.settings
  state := state
  users := edited.users

end Toard.Shim.ClaudeEnv
