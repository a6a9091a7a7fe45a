/-
**The tool calls that the collector delivers (`tool_event.rs`, `host.rs`).**

The adapters read calls of MCP tools and skills from the logs. Each is sent with a key, which is a
digest of the call and the tool; its outcome is not part of the key.
-/

import Toard.Json.Compact
import Toard.Shim.RawUsage

namespace Toard.Shim

open Toard.Json (Value)
open Toard.Shim.UsageEvent (optValue printable_optValue)

/-! ### The name of the computer -/

/-- `char::is_control` -/
def isControl (c : Char) : Bool := c.toNat < 0x20 || (0x7F ≤ c.toNat && c.toNat ≤ 0x9F)

/-- A label as `clean` leaves it. -/
structure HostLabel where
  text : String
  nonempty : text.toList ≠ []
  short : text.toList.length ≤ 255

theorem length_dropWhile_le {α : Type} (p : α → Bool) (values : List α) :
    (values.dropWhile p).length ≤ values.length :=
  (List.dropWhile_suffix p).length_le

theorem length_trim_le (text : List Char) : (trim text).length ≤ text.length := by
  rw [trim, List.length_reverse]
  refine (length_dropWhile_le _ _).trans ?_
  rw [List.length_reverse]
  exact length_dropWhile_le _ _

/-- The label of a text; `toLowercase` is the identity for a name that the user chose. -/
def clean (toLowercase : List Char → List Char) (s : List Char) : Option HostLabel :=
  let v := (trim s).filter fun c => !isControl c && c != ',' && c != '='
  let v := trim ((toLowercase v).take 255)
  if isEmpty : v = [] then none
  else some
    { text := String.ofList v
      nonempty := by rwa [String.toList_ofList]
      short := by
        rw [String.toList_ofList]
        exact (length_trim_le _).trans (by rw [List.length_take]; omega) }

/-! ### The calls -/

inductive ToolActivityKind where
  | mcp
  | skill
deriving DecidableEq

inductive ToolOutcome where
  | success
  | failure
  | unknown
deriving DecidableEq

inductive ToolDetection where
  | explicit
  | derivedLoad
deriving DecidableEq

structure RawToolActivity where
  project : Option LocalProject
  tsMs : Int
  sessionId : Option String
  callId : String
  kind : ToolActivityKind
  itemKey : String
  pluginKey : Option String
  outcome : ToolOutcome
  detection : ToolDetection
deriving DecidableEq

namespace ToolActivityKind

def text : ToolActivityKind → String
  | .mcp => "mcp"
  | .skill => "skill"

/-- The kind as `Debug` prints it. -/
def debug : ToolActivityKind → String
  | .mcp => "Mcp"
  | .skill => "Skill"

end ToolActivityKind

def ToolOutcome.text : ToolOutcome → String
  | .success => "success"
  | .failure => "failure"
  | .unknown => "unknown"

def ToolDetection.text : ToolDetection → String
  | .explicit => "explicit"
  | .derivedLoad => "derived_load"

inductive ToolAdapter where
  | claudeCode
  | codex
  | cursor
deriving DecidableEq

/-- `LogAdapter::key` -/
def ToolAdapter.key : ToolAdapter → String
  | .claudeCode => "claude_code"
  | .codex => "codex"
  | .cursor => "cursor"

/-! ### The requests -/

namespace ToolEvent

structure IsSha256Hex (sha256Hex : String → String) : Prop where
  length : ∀ text, (sha256Hex text).toList.length = 64
  digits : ∀ text, ∀ c ∈ (sha256Hex text).toList, c.isDigit = true ∨ ('a' ≤ c ∧ c ≤ 'f')

section Wire

variable (sha256Hex : String → String) (provider : String)

def dedupKey (event : RawToolActivity) : String :=
  sha256Hex ("tool:" ++ provider ++ ":" ++ event.callId ++ ":" ++ event.kind.debug ++ ":" ++
    event.itemKey)

/-- `ToolActivityWire` -/
def wire (host : Option HostLabel) (event : RawToolActivity) : Value :=
  .object
    [("dedupKey", .string (dedupKey sha256Hex provider event)),
     ("providerKey", .string provider),
     ("sessionId", optValue event.sessionId),
     ("host", optValue (host.map HostLabel.text)),
     ("ts", .string (epochMsToIso event.tsMs)),
     ("activityKind", .string event.kind.text),
     ("itemKey", .string event.itemKey),
     ("displayName", .string event.itemKey),
     ("pluginKey", optValue event.pluginKey),
     ("outcome", .string event.outcome.text),
     ("detection", .string event.detection.text)]

def toToolEventsBody (host : Option HostLabel) (events : List RawToolActivity) : String :=
  Json.toCompact (.array (events.map (wire sha256Hex provider host)))

end Wire

variable {sha256Hex : String → String} {provider : String}

theorem printable_wire (host : Option HostLabel) (event : RawToolActivity) :
    Json.Printable (wire sha256Hex provider host event) := by
  simp only [wire, Json.Printable, Json.PrintableEntries, printable_optValue, and_self]

theorem printableItems_wire (host : Option HostLabel) (events : List RawToolActivity) :
    Json.PrintableItems (events.map (wire sha256Hex provider host)) := by
  induction events with
  | nil => exact trivial
  | cons event events ih => exact ⟨printable_wire host event, ih⟩

/-- **A body is read as what was written.** -/
theorem parse_toToolEventsBody (host : Option HostLabel) (events : List RawToolActivity) :
    Json.parse (toToolEventsBody sha256Hex provider host events)
      = some (.array (events.map (wire sha256Hex provider host))) :=
  Json.parse_toCompact (printableItems_wire host events)

end ToolEvent

end Toard.Shim
