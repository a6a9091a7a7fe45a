/-
**Which bodies of tool calls the server takes.**

The collector cuts the calls of a run into requests of 1000, the server takes 500 in one, and each
side has bounds of its own for the texts. A request that is refused stops the run, and its calls
come again on the next one.

* **`deliverTools_iff`**: all requests of a run are taken exactly if there is at most one half of
  one, within the bounds.
-/

import Mathlib.Data.Bool.AllAny
import Toard.Library.Chunks
import Toard.Server.ToolWire
import Toard.Shim.Transcript

namespace Toard.Server.ToolWire

open Toard.Json (Value)
open Toard.Library
open Toard.Shim (RawToolActivity ToolAdapter HostLabel epochMsToIso bind_eq_ok map_eq_ok_iff)
open Toard.Shim.ToolEvent (IsSha256Hex toToolEventsBody wire dedupKey)
open Toard.Shim.UsageEvent (optValue)

/-! ### The fields -/

theorem text_string {s read field : String} {max : Nat} :
    text (some (.string s)) field max = .ok read ↔
      s = read ∧ 1 ≤ s.toList.length ∧ s.toList.length ≤ max := by
  rw [text]
  split
  case isTrue outside =>
    simp only [decide_eq_true_eq, Bool.or_eq_true] at outside
    exact iff_of_false nofun fun within => by omega
  case isFalse within =>
    simp only [decide_eq_true_eq, Bool.or_eq_true, not_or] at within
    rw [Except.ok.injEq]
    exact ⟨fun same => ⟨same, by omega, by omega⟩, fun ⟨same, _⟩ => same⟩

theorem nullableText_optValue {s read : Option String} {field : String} {max : Nat} :
    nullableText (some (optValue s)) field max = .ok read ↔
      s = read ∧ ∀ t ∈ s, 1 ≤ t.toList.length ∧ t.toList.length ≤ max := by
  cases s with
  | none =>
    rw [optValue, nullableText, Except.ok.injEq]
    exact ⟨fun same => ⟨same, fun t isText => absurd isText (Option.not_mem_none t)⟩, And.left⟩
  | some s =>
    have split : nullableText (some (optValue (some s))) field max
        = (text (some (.string s)) field max).map some := rfl
    rw [split, map_eq_ok_iff text_string]
    simp only [Option.mem_some_iff, forall_eq']

theorem date_epochMsToIso {toUtc : Int → Int} {ms read : Int} {field : String} :
    date toUtc (some (.string (epochMsToIso ms))) field = .ok read ↔ ms = read ∧ PrintsDate ms := by
  rw [date, bind_eq_ok]
  simp only [text_string]
  constructor
  · rintro ⟨_, ⟨rfl, -⟩, parsed⟩
    by_cases prints : PrintsDate ms
    · rw [dateParse_epochMsToIso, if_pos prints] at parsed
      exact ⟨Except.ok.inj parsed, prints⟩
    · rw [dateParse_epochMsToIso, if_neg prints] at parsed
      cases parsed
  · rintro ⟨rfl, prints⟩
    have some := List.length_pos_of_ne_nil (String.toList_eq_nil_iff.not.mpr
      (Shim.epochMsToIso_ne_empty ms))
    refine ⟨_, ⟨rfl, some, (length_epochMsToIso_le prints).trans (by decide)⟩, ?_⟩
    rw [dateParse_epochMsToIso, if_pos prints]

/-! ### One call -/

structure IsWithin (event : RawToolActivity) : Prop where
  sessionId : ∀ id ∈ event.sessionId, 1 ≤ id.toList.length ∧ id.toList.length ≤ 500
  ts : PrintsDate event.tsMs
  itemKey : 1 ≤ event.itemKey.toList.length ∧ event.itemKey.toList.length ≤ 200
  pluginKey : ∀ key ∈ event.pluginKey, 1 ≤ key.toList.length ∧ key.toList.length ≤ 200

section Calls

variable {sha256Hex : String → String} {provider : String} {host : Option HostLabel}
  {toUtc : Int → Int}

def received (sha256Hex : String → String) (provider : String) (host : Option HostLabel)
    (event : RawToolActivity) : ToolActivityEvent where
  dedupKey := dedupKey sha256Hex provider event
  providerKey := provider
  sessionId := event.sessionId
  host := host.map HostLabel.text
  ts := event.tsMs
  activityKind := event.kind
  itemKey := event.itemKey
  displayName := event.itemKey
  pluginKey := event.pluginKey
  outcome := event.outcome
  detection := event.detection

theorem isKey_dedupKey (digest : IsSha256Hex sha256Hex) (event : RawToolActivity) :
    isKey (dedupKey sha256Hex provider event) = true := by
  rw [isKey, Bool.and_eq_true, beq_iff_eq, List.all_eq_true]
  refine ⟨digest.length _, fun c among => ?_⟩
  simpa using digest.digits _ c among

/-- **Which calls pass the server's check**, and as what. -/
theorem parseActivity_wire (digest : IsSha256Hex sha256Hex)
    (isProvider : 1 ≤ provider.toList.length ∧ provider.toList.length ≤ 100)
    {event : RawToolActivity} {parsed : ToolActivityEvent} :
    parseActivity toUtc (wire sha256Hex provider host event) = .ok parsed ↔
      received sha256Hex provider host event = parsed ∧ IsWithin event := by
  have key := digest.length ("tool:" ++ provider ++ ":" ++ event.callId ++ ":" ++
    event.kind.debug ++ ":" ++ event.itemKey)
  have fields : property "dedupKey" (wire sha256Hex provider host event)
        = some (.string (dedupKey sha256Hex provider event)) ∧
      property "providerKey" (wire sha256Hex provider host event) = some (.string provider) ∧
      property "sessionId" (wire sha256Hex provider host event)
        = some (optValue event.sessionId) ∧
      property "host" (wire sha256Hex provider host event)
        = some (optValue (host.map HostLabel.text)) ∧
      property "ts" (wire sha256Hex provider host event)
        = some (.string (epochMsToIso event.tsMs)) ∧
      property "activityKind" (wire sha256Hex provider host event)
        = some (.string event.kind.text) ∧
      property "itemKey" (wire sha256Hex provider host event) = some (.string event.itemKey) ∧
      property "displayName" (wire sha256Hex provider host event) = some (.string event.itemKey) ∧
      property "pluginKey" (wire sha256Hex provider host event)
        = some (optValue event.pluginKey) ∧
      property "outcome" (wire sha256Hex provider host event)
        = some (.string event.outcome.text) ∧
      property "detection" (wire sha256Hex provider host event)
        = some (.string event.detection.text) :=
    ⟨rfl, rfl, rfl, rfl, rfl, rfl, rfl, rfl, rfl, rfl, rfl⟩
  obtain ⟨dedup, isProviderKey, session, isHost, ts, kind, item, display, plugin, outcome,
    detection⟩ := fields
  obtain ⟨entries, isRecord, known⟩ : ∃ entries,
      record (wire sha256Hex provider host event) "activity" = .ok entries ∧
        rejectUnknown entries ACTIVITY_KEYS = .ok () :=
    ⟨_, rfl, rejectUnknown_ok (by simp [ACTIVITY_KEYS])⟩
  have kinds : ∀ kind : Shim.ToolActivityKind, oneOf (some (.string kind.text)) "activityKind"
      [("mcp", .mcp), ("skill", .skill)] = .ok kind := by rintro (_ | _) <;> rfl
  have outcomes : ∀ outcome : Shim.ToolOutcome, oneOf (some (.string outcome.text)) "outcome"
      [("success", .success), ("failure", .failure), ("unknown", .unknown)] = .ok outcome := by
    rintro (_ | _ | _) <;> rfl
  have detections : ∀ detection : Shim.ToolDetection, oneOf (some (.string detection.text))
      "detection" [("explicit", .explicit), ("derived_load", .derivedLoad)] = .ok detection := by
    rintro (_ | _) <;> rfl
  rw [parseActivity]
  simp only [isRecord, known, dedup, isProviderKey, session, isHost, ts, kind, item, display, plugin,
    outcome, detection, kinds, outcomes, detections, bind_eq_ok, text_string, nullableText_optValue,
    date_epochMsToIso, Except.ok.injEq, exists_eq_left', and_assoc, isKey_dedupKey digest event,
    Bool.not_true, Bool.false_eq_true, if_false, pure, Except.pure]
  constructor
  · rintro ⟨-, -, -, -, -, -, sessionId, -, prints, some, short, -, -, pluginKey, rfl⟩
    exact ⟨rfl, sessionId, prints, ⟨some, short⟩, pluginKey⟩
  · rintro ⟨rfl, within⟩
    have isLabel : ∀ t ∈ host.map HostLabel.text, 1 ≤ t.toList.length ∧ t.toList.length ≤ 255 := by
      intro t among
      obtain ⟨label, -, rfl⟩ := Option.map_eq_some_iff.mp among
      exact ⟨List.length_pos_of_ne_nil label.nonempty, label.short⟩
    exact ⟨(), trivial, by rw [dedupKey, key]; decide, by rw [dedupKey, key], isProvider.1,
      isProvider.2, within.sessionId, isLabel, within.ts, within.itemKey.1, within.itemKey.2,
      within.itemKey.1, within.itemKey.2, within.pluginKey, rfl⟩

/-! ### One body -/

theorem parseItems_wire (digest : IsSha256Hex sha256Hex)
    (isProvider : 1 ≤ provider.toList.length ∧ provider.toList.length ≤ 100) {index : Nat}
    {events : List RawToolActivity} {parsed : List ToolActivityEvent} :
    parseItems toUtc index (events.map (wire sha256Hex provider host)) = .ok parsed ↔
      events.map (received sha256Hex provider host) = parsed ∧ ∀ event ∈ events, IsWithin event := by
  induction events generalizing index parsed with
  | nil =>
    rw [List.map_nil, parseItems, Except.ok.injEq]
    exact ⟨fun same => ⟨same, fun _ among => absurd among List.not_mem_nil⟩, And.left⟩
  | cons event events ih =>
    rw [List.map_cons, parseItems, List.map_cons, List.forall_mem_cons]
    cases first : parseActivity toUtc (wire sha256Hex provider host event) with
    | error error =>
      refine iff_of_false nofun fun ⟨_, within, _⟩ => ?_
      have taken : parseActivity toUtc (wire sha256Hex provider host event) = .ok _ :=
        (parseActivity_wire digest isProvider).mpr ⟨rfl, within⟩
      rw [first] at taken
      cases taken
    | ok read =>
      obtain ⟨rfl, within⟩ := (parseActivity_wire digest isProvider).mp first
      rw [map_eq_ok_iff ih, and_iff_right within]

theorem insertToolActivity_isOk {providers : List String} {rows : List ToolRow} (table : ToolTable) :
    (∃ inserted, (insertToolActivity providers table rows).2 = .ok inserted) ↔
      ∀ row ∈ rows, rowError providers row = none := by
  induction rows generalizing table with
  | nil => exact iff_of_true ⟨0, rfl⟩ fun _ among => absurd among List.not_mem_nil
  | cons row rows ih =>
    rw [List.forall_mem_cons, insertToolActivity]
    cases refused : rowError providers row with
    | some message => exact iff_of_false (fun ⟨_, same⟩ => nomatch same) (fun ⟨same, _⟩ => nomatch same)
    | none =>
      simp only [true_and]
      split
      case isTrue => exact ih table
      case isFalse =>
        rw [← ih (table.set row.dedupKey row)]
        cases (insertToolActivity providers (table.set row.dedupKey row) rows).2 with
        | error message => exact Iff.rfl
        | ok inserted => exact iff_of_true ⟨_, rfl⟩ ⟨_, rfl⟩

structure Fits (providers : List String) (adapter : ToolAdapter) (event : RawToolActivity) : Prop where
  provider : adapter.key ∈ providers
  sessionId : ∀ id ∈ event.sessionId,
    (1 ≤ id.toList.length ∧ id.toList.length ≤ 500) ∧ hasNul id = false
  ts : -62167219200000 ≤ event.tsMs ∧ event.tsMs < 253402300800000
  itemKey : (1 ≤ event.itemKey.toList.length ∧ event.itemKey.toList.length ≤ 200) ∧
    hasNul event.itemKey = false
  pluginKey : ∀ key ∈ event.pluginKey,
    (1 ≤ key.toList.length ∧ key.toList.length ≤ 200) ∧ hasNul key = false

theorem Fits.isWithin {providers : List String} {adapter : ToolAdapter} {event : RawToolActivity}
    (fits : Fits providers adapter event) : IsWithin event where
  sessionId id among := (fits.sessionId id among).1
  ts := .inl fits.ts
  itemKey := fits.itemKey.1
  pluginKey key among := (fits.pluginKey key among).1

theorem mem_of_mem_jsTrim {s : List Char} {c : Char} (among : c ∈ jsTrim s) : c ∈ s := by
  rw [jsTrim, List.mem_reverse] at among
  have among := List.mem_reverse.mp ((List.dropWhile_suffix _).subset among)
  exact (List.dropWhile_suffix _).subset among

theorem mem_of_mem_sliceUnits {units : Nat} {s : List Char} {c : Char}
    (among : c ∈ sliceUnits units s) : c ∈ s ∨ c = '\uFFFD' := by
  induction s generalizing units with
  | nil => cases units <;> simp [sliceUnits] at among
  | cons first rest ih =>
    cases units with
    | zero => simp [sliceUnits] at among
    | succ units =>
      unfold sliceUnits at among
      split at among
      case isTrue =>
        obtain rfl | among := List.mem_cons.mp among
        · exact .inl List.mem_cons_self
        · exact (ih among).imp_left (List.mem_cons_of_mem _)
      case isFalse =>
        cases units with
        | zero => exact .inr (List.mem_singleton.mp among)
        | succ units =>
          obtain rfl | among := List.mem_cons.mp among
          · exact .inl List.mem_cons_self
          · exact (ih among).imp_left (List.mem_cons_of_mem _)

theorem any_hasNul_sanitizeHost (host : Option String) :
    (sanitizeHost host).any hasNul = false := by
  rw [← Bool.not_eq_true, Option.any_eq_true]
  rintro ⟨label, isLabel, nul⟩
  obtain ⟨host, rfl, cleaned⟩ := Option.bind_eq_some_iff.mp isLabel
  dsimp only at cleaned
  split at cleaned
  case isTrue => cases cleaned
  case isFalse =>
    rw [← Option.some_inj.mp cleaned] at nul
    rw [hasNul, String.toList_ofList, List.contains_iff_mem] at nul
    obtain among | other := mem_of_mem_sliceUnits (mem_of_mem_jsTrim nul)
    · have plain := (List.mem_filter.mp (mem_of_mem_jsTrim among)).2
      exact absurd plain (by decide)
    · exact absurd other (by decide)

theorem hasNul_dedupKey (digest : IsSha256Hex sha256Hex) (event : RawToolActivity) :
    hasNul (dedupKey sha256Hex provider event) = false := by
  rw [← Bool.not_eq_true, hasNul, List.contains_iff_mem]
  intro among
  obtain isDigit | ⟨letter, -⟩ := digest.digits _ _ among
  · exact absurd isDigit (by decide)
  · exact absurd letter (by decide)

/-- **What the table asks of a call that has passed the check.** -/
theorem rowError_received (digest : IsSha256Hex sha256Hex) {providers : List String}
    {owner : ToolIngestOwner} {adapter : ToolAdapter} {event : RawToolActivity} :
    (IsWithin event ∧
      rowError providers (finalize owner (received sha256Hex adapter.key host event)) = none) ↔
      Fits providers adapter event := by
  have isNul : ∀ {text : Option String}, text.any hasNul = false ↔ ∀ t ∈ text, hasNul t = false := by
    rintro (_ | text) <;> simp
  have name_iff : ∀ {text : String}, isName text = true ↔
      1 ≤ text.toList.length ∧ text.toList.length ≤ 200 := by simp [isName]
  have key : hasNul adapter.key = false := by cases adapter <;> decide
  have row : rowError providers (finalize owner (received sha256Hex adapter.key host event)) = none ↔
      ((∀ id ∈ event.sessionId, hasNul id = false) ∧ hasNul event.itemKey = false ∧
        ∀ key ∈ event.pluginKey, hasNul key = false) ∧ minTimestamp ≤ event.tsMs ∧
      (1 ≤ event.itemKey.toList.length ∧ event.itemKey.toList.length ≤ 200) ∧
      (∀ key ∈ event.pluginKey, 1 ≤ key.toList.length ∧ key.toList.length ≤ 200) ∧
      adapter.key ∈ providers := by
    have guard : ∀ (condition : Prop) [Decidable condition] (message : String)
        (rest : Option String), (if condition then some message else rest) = none ↔
          ¬ condition ∧ rest = none := by
      intro condition _ message rest
      by_cases holds : condition <;> simp [holds]
    have names : (event.pluginKey.any fun key => !isName key) = false ↔
        ∀ key ∈ event.pluginKey, 1 ≤ key.toList.length ∧ key.toList.length ≤ 200 := by
      cases event.pluginKey <;> simp [isName]
    rw [rowError, guard, guard, guard, guard, guard, guard]
    simp only [finalize, received, hasNul_dedupKey digest event, key, any_hasNul_sanitizeHost,
      Bool.false_or, Bool.or_false, Bool.not_eq_true, Bool.or_eq_false_iff, isNul, names,
      Bool.not_eq_false', name_iff, List.contains_iff_mem, not_lt, and_true]
    constructor
    · rintro ⟨⟨⟨⟨sessionNul, itemNul⟩, -⟩, pluginNul⟩, early, item, -, plugin, isProvider⟩
      exact ⟨⟨sessionNul, itemNul, pluginNul⟩, early, item, plugin, isProvider⟩
    · rintro ⟨⟨sessionNul, itemNul, pluginNul⟩, early, item, plugin, isProvider⟩
      exact ⟨⟨⟨⟨sessionNul, itemNul⟩, itemNul⟩, pluginNul⟩, early, item, item, plugin, isProvider⟩
  rw [row]
  constructor
  · rintro ⟨within, ⟨sessionNul, itemNul, pluginNul⟩, early, -, -, isProvider⟩
    have prints := within.ts
    unfold PrintsDate at prints
    unfold minTimestamp at early
    exact ⟨isProvider, fun id among => ⟨within.sessionId id among, sessionNul id among⟩, by omega,
      ⟨within.itemKey, itemNul⟩, fun key among => ⟨within.pluginKey key among, pluginNul key among⟩⟩
  · intro fits
    have ts := fits.ts
    exact ⟨fits.isWithin,
      ⟨fun id among => (fits.sessionId id among).2, fits.itemKey.2,
        fun key among => (fits.pluginKey key among).2⟩, by unfold minTimestamp; omega,
      fits.itemKey.1, fun key among => (fits.pluginKey key among).1, fits.provider⟩

theorem strict_wire (event : RawToolActivity) :
    strict (wire sha256Hex provider host event) = true := by
  have texts : ∀ text, strict (optValue text) = true := by
    rintro (_ | _) <;> rfl
  simp only [wire, strict, strictEntries, texts, Bool.and_self]

theorem jsonParse_toToolEventsBody (events : List RawToolActivity) :
    jsonParse (toToolEventsBody sha256Hex provider host events)
      = some (.array (events.map (wire sha256Hex provider host))) := by
  have isStrict : strictItems (events.map (wire sha256Hex provider host)) = true :=
    strictItems_of_forall (List.forall_mem_map.mpr fun event _ => strict_wire event)
  rw [jsonParse, Shim.ToolEvent.parse_toToolEventsBody, Option.filter_some, strict, isStrict,
    if_pos rfl]

/-- **Which bodies the server takes.** -/
theorem postToolEvents_iff (digest : IsSha256Hex sha256Hex) {providers : List String}
    {owner : ToolIngestOwner} {table : ToolTable} {adapter : ToolAdapter}
    {events : List RawToolActivity} :
    (∃ inserted, (postToolEvents toUtc providers owner table
        (toToolEventsBody sha256Hex adapter.key host events)).2 = .ok inserted) ↔
      (toToolEventsBody sha256Hex adapter.key host events).utf8ByteSize ≤ MAX_BODY_BYTES ∧
        events.length ≤ 500 ∧ ∀ event ∈ events, Fits providers adapter event := by
  have isProvider : 1 ≤ adapter.key.toList.length ∧ adapter.key.toList.length ≤ 100 := by
    cases adapter <;> decide
  rw [postToolEvents, readBoundedJson]
  by_cases small : (toToolEventsBody sha256Hex adapter.key host events).utf8ByteSize ≤ MAX_BODY_BYTES
  case neg =>
    rw [if_pos (not_le.mp small)]
    exact iff_of_false (fun ⟨_, same⟩ => nomatch same) fun ⟨fits, _⟩ => small fits
  case pos =>
    rw [if_neg (not_lt.mpr small), jsonParse_toToolEventsBody]
    dsimp only
    rw [parseToolActivityBody, List.length_map]
    by_cases few : events.length ≤ 500
    case neg =>
      rw [if_pos (not_le.mp few)]
      exact iff_of_false (fun ⟨_, same⟩ => nomatch same) fun ⟨_, fits, _⟩ => few fits
    case pos =>
      rw [if_neg (not_lt.mpr few)]
      simp only [small, few, true_and]
      cases parsed : parseItems toUtc 0 (events.map (wire sha256Hex adapter.key host)) with
      | error error =>
        refine iff_of_false (fun ⟨_, same⟩ => nomatch same) fun fits => ?_
        have taken : parseItems toUtc 0 (events.map (wire sha256Hex adapter.key host)) = .ok _ :=
          (parseItems_wire digest isProvider).mpr ⟨rfl, fun event among => (fits event among).isWithin⟩
        rw [parsed] at taken
        cases taken
      | ok read =>
        obtain ⟨rfl, within⟩ := (parseItems_wire digest isProvider).mp parsed
        dsimp only
        split
        case isTrue unknown =>
          refine iff_of_false (fun ⟨_, same⟩ => nomatch same) fun fits => unknown ?_
          rw [List.filter_eq_nil_iff]
          intro key among
          obtain ⟨call, isCall, rfl⟩ := List.mem_map.mp (List.mem_eraseDups.mp among)
          obtain ⟨event, isEvent, rfl⟩ := List.mem_map.mp isCall
          have known := (fits event isEvent).provider
          simp [received, known]
        case isFalse =>
          have taken : (∀ event ∈ events, Fits providers adapter event) ↔
              ∀ row ∈ (events.map (received sha256Hex adapter.key host)).map (finalize owner),
                rowError providers row = none := by
            simp only [List.forall_mem_map]
            refine forall₂_congr fun event among => ?_
            rw [← rowError_received digest]
            exact and_iff_right (within event among)
          rw [taken, ← insertToolActivity_isOk table]
          cases (insertToolActivity providers table
            ((events.map (received sha256Hex adapter.key host)).map (finalize owner))).2 with
          | error message => exact iff_of_false (fun ⟨_, same⟩ => nomatch same) fun ⟨_, same⟩ => nomatch same
          | ok inserted => exact iff_of_true ⟨_, rfl⟩ ⟨_, rfl⟩

/-! ### One run -/

/-- The requests of a run, up to the first that is refused; whether none is. -/
def postChunks (post : ToolTable → List RawToolActivity → ToolTable × Except ToolIngestError Nat)
    (table : ToolTable) : List (List RawToolActivity) → ToolTable × Bool
  | [] => (table, true)
  | chunk :: rest =>
    match post table chunk with
    | (table, .error _) => (table, false)
    | (table, .ok _) => postChunks post table rest

def CHUNK : Nat := 1000

/-- The calls of a run of `run_target`. -/
def deliverTools (sha256Hex : String → String) (toUtc : Int → Int) (providers : List String)
    (owner : ToolIngestOwner) (adapter : ToolAdapter) (host : Option HostLabel) (table : ToolTable)
    (events : List RawToolActivity) : ToolTable × Bool :=
  postChunks (fun table chunk => postToolEvents toUtc providers owner table
    (toToolEventsBody sha256Hex adapter.key host chunk)) table (chunks CHUNK events)

theorem postChunks_iff
    {post : ToolTable → List RawToolActivity → ToolTable × Except ToolIngestError Nat}
    {taken : List RawToolActivity → Prop}
    (taken_iff : ∀ table chunk, (∃ inserted, (post table chunk).2 = .ok inserted) ↔ taken chunk)
    {requests : List (List RawToolActivity)} (table : ToolTable) :
    (postChunks post table requests).2 = true ↔ ∀ chunk ∈ requests, taken chunk := by
  induction requests generalizing table with
  | nil => exact iff_of_true rfl nofun
  | cons chunk rest ih =>
    rw [postChunks, List.forall_mem_cons, ← taken_iff table chunk]
    obtain ⟨after, answer⟩ := post table chunk
    cases answer with
    | error error => exact iff_of_false Bool.false_ne_true fun ⟨⟨_, same⟩, _⟩ => nomatch same
    | ok inserted => exact (ih after).trans (and_iff_right ⟨_, rfl⟩).symm

theorem deliverTools_requests (digest : IsSha256Hex sha256Hex) {providers : List String}
    {owner : ToolIngestOwner} {adapter : ToolAdapter} {table : ToolTable}
    {events : List RawToolActivity} :
    (deliverTools sha256Hex toUtc providers owner adapter host table events).2 = true ↔
      ∀ chunk ∈ chunks CHUNK events,
        (toToolEventsBody sha256Hex adapter.key host chunk).utf8ByteSize ≤ MAX_BODY_BYTES ∧
          chunk.length ≤ 500 ∧ ∀ event ∈ chunk, Fits providers adapter event := by
  have taken_iff (table : ToolTable) (chunk : List RawToolActivity) :
      (∃ inserted, (postToolEvents toUtc providers owner table
        (toToolEventsBody sha256Hex adapter.key host chunk)).2 = .ok inserted) ↔
      (fun chunk => (toToolEventsBody sha256Hex adapter.key host chunk).utf8ByteSize ≤ MAX_BODY_BYTES ∧
        chunk.length ≤ 500 ∧ ∀ event ∈ chunk, Fits providers adapter event) chunk :=
    postToolEvents_iff digest
  rw [deliverTools, postChunks_iff taken_iff]

/-- A run that fits is refused nothing; a run that is refused nothing has a first request that fits,
which is all of it. -/
theorem fits_of_deliverTools (digest : IsSha256Hex sha256Hex) {providers : List String}
    {owner : ToolIngestOwner} {adapter : ToolAdapter} {table : ToolTable}
    {events : List RawToolActivity}
    (taken : (deliverTools sha256Hex toUtc providers owner adapter host table events).2 = true) :
    events.length ≤ 500 ∧ (∀ event ∈ events, Fits providers adapter event) ∧
      (toToolEventsBody sha256Hex adapter.key host events).utf8ByteSize ≤ MAX_BODY_BYTES := by
  by_cases nonempty : events = []
  · have small : (toToolEventsBody sha256Hex adapter.key host []).utf8ByteSize = 2 := rfl
    rw [nonempty, small]
    exact ⟨Nat.zero_le _, fun _ among => absurd among List.not_mem_nil, by decide⟩
  · have first := (deliverTools_requests digest).mp taken (events.take CHUNK)
      (by rw [chunks_eq_cons (by decide) nonempty]; exact List.mem_cons_self)
    have few : events.length ≤ 500 := by
      have half := first.2.1
      rw [List.length_take, CHUNK] at half
      omega
    rw [List.take_of_length_le (few.trans (by decide))] at first
    exact ⟨few, first.2.2, first.1⟩

/-- **No request of a run is refused** exactly if the run has at most 500 calls, in at most 512 KiB,
each of which fits. -/
theorem deliverTools_iff (digest : IsSha256Hex sha256Hex) {providers : List String}
    {owner : ToolIngestOwner} {adapter : ToolAdapter} {table : ToolTable}
    {events : List RawToolActivity} :
    (deliverTools sha256Hex toUtc providers owner adapter host table events).2 = true ↔
      events.length ≤ 500 ∧ (∀ event ∈ events, Fits providers adapter event) ∧
        (toToolEventsBody sha256Hex adapter.key host events).utf8ByteSize ≤ MAX_BODY_BYTES := by
  refine ⟨fits_of_deliverTools digest, ?_⟩
  rintro ⟨few, fits, small⟩
  rw [deliverTools_requests digest]
  by_cases nonempty : events = []
  · rw [nonempty, chunks_nil (by decide)]
    exact nofun
  · rw [chunks_of_length_le nonempty (few.trans (by decide))]
    exact List.forall_mem_singleton.mpr ⟨small, few, fits⟩

end Calls

/-! ### Two transcripts -/

open Toard.Shim.Claude (TranscriptLine parseTools)

def plainCall : RawToolActivity where
  project := none
  tsMs := 1719800000123
  sessionId := some "session-1"
  callId := "toolu_1"
  kind := .mcp
  itemKey := "github.search_issues"
  pluginKey := none
  outcome := .success
  detection := .explicit

def plainDigest (_ : String) : String :=
  "ebb921d14c2a9b8bdee59f5f1a089f488757689ad1e082584e5d719a28fc5125"

theorem isSha256Hex_plainDigest : IsSha256Hex plainDigest :=
  ⟨fun text => by unfold plainDigest; decide,
    fun text => List.all_iff_forall_prop.mp (by unfold plainDigest; decide)⟩

set_option maxRecDepth 8000 in
theorem deliverTools_iff_plainCall :
    (deliverTools plainDigest id ["claude_code"] ⟨"user-1", "token-1"⟩ .claudeCode none .empty
      [plainCall]).2 = true :=
  (deliverTools_iff isSha256Hex_plainDigest).mpr
    ⟨by decide, List.forall_mem_singleton.mpr ⟨by decide, by decide, by decide, by decide, by decide⟩,
      by
        rw [toToolEventsBody, Json.toCompact, String.utf8ByteSize_ofList]
        decide⟩

def callBlock (callId name : String) : Value :=
  .object [("type", .string "tool_use"), ("id", .string callId), ("name", .string name)]

def assistantLine (blocks : List Value) : TranscriptLine :=
  .json (.object [("type", .string "assistant"), ("message", .object [("content", .array blocks)])])

theorem dotted_replicate (n : Nat) :
    Shim.Claude.dotted (List.replicate n 'x') = List.replicate n 'x' := by
  induction n with
  | zero => rfl
  | succ n ih =>
    rw [List.replicate_succ, Shim.Claude.dotted, ih]
    exact fun _ other => nomatch other

theorem parseMcpName_replicate (n : Nat) : Shim.Claude.parseMcpName
      (String.ofList ("mcp__github__".toList ++ List.replicate (n + 1) 'x'))
    = some (String.ofList ("github.".toList ++ List.replicate (n + 1) 'x')) := by
  simp [Shim.Claude.parseMcpName, Shim.Claude.splitOnce, dotted_replicate]

def callsOf (name : String) (count : Nat) : List TranscriptLine :=
  [assistantLine ((List.range count).map fun n => callBlock (toString n) name)]

theorem itemKeys_callsOf {name itemKey : String}
    (isMcp : Shim.Claude.parseMcpName name = some itemKey) (tsMs : Int) (count : Nat) :
    (parseTools (fun _ => none) tsMs (callsOf name count)).map RawToolActivity.itemKey
      = List.replicate count itemKey := by
  have step (log : Shim.Claude.ToolLog) (n : Nat) :
      (Shim.Claude.useBlock none tsMs none log (callBlock (toString n) name)).tools.map
        RawToolActivity.itemKey = log.tools.map RawToolActivity.itemKey ++ [itemKey] := by
    have typed : Shim.Claude.stringField "type" (callBlock (toString n) name)
        = some "tool_use" := rfl
    have callId : Shim.Claude.stringField "id" (callBlock (toString n) name)
        = some (toString n) := rfl
    have named : Shim.Claude.stringField "name" (callBlock (toString n) name) = some name := rfl
    have activity : Shim.Claude.activityOf (callBlock (toString n) name) name
        = some (.mcp, itemKey, none) := by
      rw [Shim.Claude.activityOf, isMcp]
    rw [Shim.Claude.useBlock, typed, callId, named, bne_self_eq_false, if_neg Bool.false_ne_true]
    dsimp only
    rw [activity]
    exact List.map_append
  have blocks (ids : List Nat) (log : Shim.Claude.ToolLog) :
      (((ids.map fun n => callBlock (toString n) name).foldl
        (Shim.Claude.useBlock none tsMs none) log).tools).map RawToolActivity.itemKey
        = log.tools.map RawToolActivity.itemKey ++ List.replicate ids.length itemKey := by
    induction ids generalizing log with
    | nil => exact (List.append_nil _).symm
    | cons n ids ih =>
      rw [List.map_cons, List.foldl_cons, ih, step, List.append_assoc, List.length_cons,
        List.replicate_succ, List.singleton_append]
  have read := blocks (List.range count) .empty
  rw [List.length_range] at read
  exact read

/-- **A transcript of 501 calls, and one of a tool with a name of 201 characters.** -/
theorem long_refused :
    (∀ sha256Hex : String → String, IsSha256Hex sha256Hex →
      (deliverTools sha256Hex id ["claude_code"] ⟨"user-1", "token-1"⟩ .claudeCode none .empty
        (parseTools (fun _ => none) 1719800000123 (callsOf "mcp__github__search_issues" 501))).2
          = false) ∧
    (∀ sha256Hex : String → String, IsSha256Hex sha256Hex →
      (deliverTools sha256Hex id ["claude_code"] ⟨"user-1", "token-1"⟩ .claudeCode none .empty
        (parseTools (fun _ => none) 1719800000123
          (callsOf (String.ofList ("mcp__github__".toList ++ List.replicate 194 'x')) 1))).2
          = false) := by
  have issues : Shim.Claude.parseMcpName "mcp__github__search_issues"
      = some "github.search_issues" := by
    simp [Shim.Claude.parseMcpName, Shim.Claude.splitOnce, Shim.Claude.dotted]
  constructor <;> intro sha256Hex digest
  · rw [← Bool.not_eq_true]
    intro taken
    have few := (fits_of_deliverTools digest taken).1
    have all := congrArg List.length (itemKeys_callsOf issues 1719800000123 501)
    rw [List.length_map, List.length_replicate] at all
    omega
  · rw [← Bool.not_eq_true]
    intro taken
    have fits := (fits_of_deliverTools digest taken).2.1
    have all := itemKeys_callsOf (parseMcpName_replicate 193) 1719800000123 1
    obtain ⟨call, among, same⟩ : ∃ call ∈ parseTools (fun _ => none) 1719800000123
        (callsOf (String.ofList ("mcp__github__".toList ++ List.replicate 194 'x')) 1),
        call.itemKey = String.ofList ("github.".toList ++ List.replicate 194 'x') := by
      rw [← List.mem_map, all]
      exact List.mem_cons_self
    have short := (fits call among).itemKey.1.2
    rw [same, String.toList_ofList, List.length_append, List.length_replicate] at short
    exact absurd short (by decide)

end Toard.Server.ToolWire
