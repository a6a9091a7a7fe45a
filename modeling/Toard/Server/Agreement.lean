/-
**The collector and the server agree on the wire.**

Whatever an adapter reads from a log, the queue accepts, and a request carries, the server must be
able to read: a body it refuses is sent again and again, and blocks all that waits behind it.

* **`wire_agreement`**: a body is read as the events that it carries exactly if the server reads all
  their times.
-/

import Toard.Server.Timestamps
import Toard.Server.Wire
import Toard.Shim.QueueAccounting
import Toard.Shim.RawUsage

namespace Toard.Server

open Toard.Json (Value)
open Toard.Library
open Toard.Shim (RawUsage QueuedUsage QueueInput UsageQueue PendingRow Database epochMsToIso
  toQueueInput toUsageEvent batchBody bind_eq_ok)
open Toard.Shim.UsageEvent (countValue optValue costValue)

/-! ### Numbers -/

theorem digits_toDigits (n : Nat) : Json.digits (Nat.toDigits 10 n) = (Nat.toDigits 10 n, []) := by
  have all : ∀ c ∈ Nat.toDigits 10 n, c.isDigit = true := fun c among =>
    Nat.isDigit_of_mem_toDigits (by decide) (by decide) among
  rw [Json.digits, List.takeWhile_eq_self_iff.mpr all, List.dropWhile_eq_nil_iff.mpr all]

theorem head_toDigits {n : Nat} {c : Char} {rest : List Char} (split : Nat.toDigits 10 n = c :: rest) :
    c.isDigit :=
  Nat.isDigit_of_mem_toDigits (b := 10) (n := n) (by decide) (by decide)
    (by rw [split]; exact List.mem_cons_self)

theorem minusPart_toDigits (n : Nat) :
    Json.minusPart (Nat.toDigits 10 n) = ([], Nat.toDigits 10 n) := by
  unfold Json.minusPart
  split
  · next split => exact absurd (head_toDigits split) (by decide)
  · rfl

theorem signPart_toDigits (n : Nat) :
    Json.signPart (Nat.toDigits 10 n) = ([], Nat.toDigits 10 n) := by
  unfold Json.signPart
  split
  · next split => exact absurd (head_toDigits split) (by decide)
  · next split => exact absurd (head_toDigits split) (by decide)
  · rfl

theorem head_toDigits_ne_zero {n : Nat} (positive : 0 < n) :
    (Nat.toDigits 10 n).head? ≠ some '0' := by
  induction n using Nat.strongRecOn with
  | ind n ih =>
    by_cases small : n < 10
    · rw [Nat.toDigits_of_lt_base small]
      interval_cases n <;> decide
    · rw [Nat.toDigits_of_base_le (by decide) (by omega), List.head?_append]
      have first := ih (n / 10) (by omega) (by omega)
      cases head : (Nat.toDigits 10 (n / 10)).head? with
      | none => exact absurd (List.head?_eq_none_iff.mp head) Nat.toDigits_ne_nil
      | some c =>
        rw [head] at first
        exact first

theorem strictNumber_toString (n : Nat) : strictNumber (toString n) = true := by
  have leading : (Nat.toDigits 10 n).length = 1 ∨ (Nat.toDigits 10 n).head? ≠ some '0' := by
    rcases Nat.eq_zero_or_pos n with rfl | positive
    · exact Or.inl rfl
    · exact Or.inr (head_toDigits_ne_zero positive)
  simp [strictNumber, minusPart_toDigits, digits_toDigits, Json.fractionPart,
    Json.exponentPart, Nat.toDigits_ne_nil, leading]

theorem parseDecimal_toDigits (n : Nat) :
    Shim.parseDecimal (Nat.toDigits 10 n) = some ⟨false, n, 0⟩ := by
  simp [Shim.parseDecimal, signPart_toDigits, digits_toDigits, Json.fractionPart,
    Nat.toDigits_ne_nil, Nat.ofDigitChars_ten_toDigits]

/-- **A safe integer is read as itself.** -/
theorem jsonNumber_toString {n : Nat} (safe : n ≤ Shim.maxSafeInteger) :
    jsonNumber (toString n) = some (n : ℚ) := by
  have small : n < 2 ^ 53 := by
    unfold Shim.maxSafeInteger at safe
    omega
  simp [jsonNumber, parseDecimal_toDigits, binary64_natCast small]

theorem tokenCount_countValue {n : Nat} (safe : n ≤ Shim.maxSafeInteger) (field : String) :
    tokenCount (some (countValue n)) field = .ok n := by
  unfold Shim.maxSafeInteger at safe
  have count : safeCount (n : ℚ) = some n := by
    simp [safeCount, Rat.den_natCast, Rat.num_natCast]
    omega
  simp only [tokenCount, countValue, jsonNumber_toString safe, Option.bind_some, count]

theorem costField_zero : costField (some (costValue .zero)) = .ok 0 := by
  have zero : jsonNumber "0" = some ((0 : Nat) : ℚ) := jsonNumber_toString (n := 0) (by decide)
  simp [costField, costValue, zero]

/-! ### One event -/

theorem nonEmptyString_string {s : String} (some_ : s ≠ "") (field : String) :
    nonEmptyString (some (.string s)) field = .ok s :=
  if_neg some_

theorem nullableString_optValue (s : Option String) (field : String) :
    nullableString (some (optValue s)) field = .ok s := by
  cases s <;> rfl

def received (event : Shim.UsageEvent) (ts : Int) : UsageEvent where
  dedupKey := event.dedupKey
  providerKey := event.providerKey
  userId := event.userId
  sessionId := event.sessionId
  model := event.model
  ts := ts
  inputTokens := event.inputTokens
  outputTokens := event.outputTokens
  cacheReadTokens := event.cacheReadTokens
  cacheCreationTokens := event.cacheCreationTokens
  cacheCreation1hTokens := event.cacheCreation1hTokens
  costUsd := 0
  logAdapter := event.logAdapter
  host := event.host

/-- **Of an event within the contract nothing but its time can be refused.** -/
theorem parseUsageEventWire_toJson (toUtc : Int → Int) {event : Shim.UsageEvent}
    (contract : event.WithinContract) (unpriced : event.costUsd = .zero) :
    parseUsageEventWire toUtc event.toJson =
      match dateParse toUtc event.ts with
      | some ts => .ok (received event ts)
      | none => refuse ("ts 가 유효한 ISO 8601 이 아닙니다: " ++ event.ts) := by
  have fields : property "dedupKey" event.toJson = some (.string event.dedupKey) ∧
      property "providerKey" event.toJson = some (.string event.providerKey) ∧
      property "userId" event.toJson = some (optValue event.userId) ∧
      property "sessionId" event.toJson = some (optValue event.sessionId) ∧
      property "model" event.toJson = some (optValue event.model) ∧
      property "ts" event.toJson = some (.string event.ts) ∧
      property "inputTokens" event.toJson = some (countValue event.inputTokens) ∧
      property "outputTokens" event.toJson = some (countValue event.outputTokens) ∧
      property "cacheReadTokens" event.toJson = some (countValue event.cacheReadTokens) ∧
      property "cacheCreationTokens" event.toJson = some (countValue event.cacheCreationTokens) ∧
      property "cacheCreation1hTokens" event.toJson
        = some (countValue event.cacheCreation1hTokens) ∧
      property "costUsd" event.toJson = some (costValue event.costUsd) ∧
      property "logAdapter" event.toJson = some (optValue event.logAdapter) ∧
      property "host" event.toJson = some (optValue event.host) :=
    ⟨rfl, rfl, rfl, rfl, rfl, rfl, rfl, rfl, rfl, rfl, rfl, rfl, rfl, rfl⟩
  obtain ⟨dedup, provider, user, session, model, ts, input, output, cacheRead, creation, hour,
    cost, adapter, host⟩ := fields
  have hours : optTokenCount (some (countValue event.cacheCreation1hTokens)) "cacheCreation1hTokens"
      = .ok event.cacheCreation1hTokens :=
    tokenCount_countValue (contract.cacheCreation1hTokens.trans contract.cacheCreationTokens) _
  have isObject : isRecord event.toJson = true := rfl
  rw [parseUsageEventWire, if_pos isObject]
  simp only [dedup, provider, user, session, model, ts, input, output, cacheRead, creation, hour,
    cost, adapter, host, unpriced, costField_zero, nonEmptyString_string contract.dedupKey,
    nonEmptyString_string contract.providerKey, nonEmptyString_string contract.ts,
    nullableString_optValue, tokenCount_countValue contract.inputTokens,
    tokenCount_countValue contract.outputTokens, tokenCount_countValue contract.cacheReadTokens,
    tokenCount_countValue contract.cacheCreationTokens, hours]
  cases date : dateParse toUtc event.ts with
  | none =>
    simp only [bind, Except.bind, date]
    rfl
  | some time =>
    simp only [bind, Except.bind, date, gt_iff_lt, Nat.not_lt.mpr contract.cacheCreation1hTokens,
      if_false]
    rfl

/-! ### The body -/

theorem strict_toJson {event : Shim.UsageEvent} (unpriced : event.costUsd = .zero) :
    strict event.toJson = true := by
  have text : ∀ s, strict (optValue s) = true := by
    intro s
    cases s <;> rfl
  have count : ∀ n, strict (countValue n) = true := strictNumber_toString
  have zero : strict (costValue event.costUsd) = true := by
    rw [unpriced]
    exact strictNumber_toString 0
  simp only [Shim.UsageEvent.toJson, strict, strictEntries, text, count, zero, Bool.and_self]

theorem strictItems_map_toJson {events : List Shim.UsageEvent}
    (unpriced : ∀ event ∈ events, event.costUsd = .zero) :
    strictItems (events.map Shim.UsageEvent.toJson) = true := by
  induction events with
  | nil => rfl
  | cons event rest ih =>
    rw [List.map_cons, strictItems, strict_toJson (unpriced event List.mem_cons_self),
      ih fun other among => unpriced other (List.mem_cons_of_mem event among)]
    rfl

def following (values : List Value) : List Char :=
  values.flatMap fun value => ',' :: (Json.toPretty value).toList

theorem spells_following {first : Value} {rest : List Value}
    (printable : ∀ value ∈ first :: rest, Json.Printable value) :
    Json.SpellsItems (first :: rest) ((Json.toPretty first).toList ++ (following rest ++ [']'])) := by
  have line {v : Value} : (Json.toPretty v).toList = Json.writeValue 0 v ++ ['\n'] :=
    String.toList_ofList
  have spelled := Json.spells_writeValue 0 first (printable first List.mem_cons_self)
  induction rest generalizing first with
  | nil =>
    have only := Json.SpellsItems.last blankText_nil spelled (Json.blank_newLine 0)
    simpa [following, line, Json.newLine] using only
  | cons second rest ih =>
    have later : ∀ value ∈ second :: rest, Json.Printable value :=
      fun value among => printable value (List.mem_cons_of_mem first among)
    have others := ih later (Json.spells_writeValue 0 second (later second List.mem_cons_self))
    have all := Json.SpellsItems.cons blankText_nil spelled (Json.blank_newLine 0) others
    simpa [following, line, Json.newLine] using all

theorem toList_intercalate_toPretty (first : Value) (rest : List Value) :
    (String.intercalate "," ((first :: rest).map Json.toPretty)).toList
      = (Json.toPretty first).toList ++ following rest := by
  induction rest generalizing first with
  | nil => simp [following]
  | cons second rest ih =>
    have later := ih second
    rw [List.map_cons] at later
    rw [List.map_cons, List.map_cons, String.intercalate_cons_cons, String.toList_append,
      String.toList_append, later]
    simp [following]

/-- **The server reads the body as the values that were stored.** -/
theorem parse_batchBody {values : List Value} {batch : List QueuedUsage}
    (stored : batch.map QueuedUsage.payload = values.map Json.toPretty)
    (printable : ∀ value ∈ values, Json.Printable value) :
    Json.parse (batchBody batch) = some (.array values) := by
  have body : (batchBody batch).toList
      = '[' :: ((String.intercalate "," (values.map Json.toPretty)).toList ++ [']']) := by
    rw [batchBody, show (fun record : QueuedUsage => record.payload) = QueuedUsage.payload from rfl,
      stored]
    simp
  refine Json.parse_of_spells ?_
  rw [body]
  cases values with
  | nil => exact .mk blankText_nil (.emptyArray blankText_nil) blankText_nil
  | cons first rest =>
    have spelled := Json.Spells.array (spells_following printable)
    rw [toList_intercalate_toPretty, List.append_assoc, ← List.append_nil ('[' :: _)]
    exact .mk blankText_nil spelled blankText_nil

/-- **The server parses the body.** -/
theorem jsonParse_batchBody {events : List Shim.UsageEvent} {batch : List QueuedUsage}
    (stored : batch.map QueuedUsage.payload = events.map fun event => Json.toPretty event.toJson)
    (unpriced : ∀ event ∈ events, event.costUsd = .zero) :
    jsonParse (batchBody batch) = some (.array (events.map Shim.UsageEvent.toJson)) := by
  have parsed : Json.parse (batchBody batch)
      = some (.array (events.map Shim.UsageEvent.toJson)) := by
    refine parse_batchBody (by rw [stored, List.map_map]; rfl) fun value among => ?_
    obtain ⟨event, eventAmong, rfl⟩ := List.mem_map.mp among
    exact Shim.UsageEvent.printable_toJson (unpriced event eventAmong)
  rw [jsonParse, parsed]
  simp [Option.filter, strict, strictItems_map_toJson unpriced]

/-! ### What is collected, stored and sent -/

/-- A record of a log, with its adapter and the name of the computer. -/
structure Collected where
  adapter : String
  usage : RawUsage
  host : Option String

section Agreement

variable (sha256Hex : String → String) (toUtc : Int → Int)

def Collected.input (collected : Collected) : QueueInput :=
  toQueueInput sha256Hex collected.adapter collected.usage collected.host

def Collected.delivered (collected : Collected) : UsageEvent :=
  received (collected.input sha256Hex).event collected.usage.tsMs

def Enqueued (collected : Collected) (row : QueuedUsage) : Prop :=
  (∃ (queue : UsageQueue) (records : List QueueInput) (db after : Database) (count : Nat),
    queue.enqueue records db = (.ok count, after) ∧ collected.input sha256Hex ∈ records) ∧
  row.payload = Json.toPretty (collected.input sha256Hex).event.toJson

def readBody (batch : List QueuedUsage) : Option (Except WireParseError (List UsageEvent)) :=
  (jsonParse (batchBody batch)).map (parseUsageEventsBody toUtc)

theorem parseItems_toJson {collected : List Collected} (index : Nat)
    (accepted : ∀ item ∈ collected, (item.input sha256Hex).Deliverable) :
    parseItems toUtc index (collected.map fun item => (item.input sha256Hex).event.toJson)
        = .ok (collected.map (Collected.delivered sha256Hex)) ↔
      ∀ item ∈ collected, PrintsDate item.usage.tsMs := by
  induction collected generalizing index with
  | nil => simp [parseItems]
  | cons item rest ih =>
    have own := accepted item List.mem_cons_self
    have later := ih (index + 1) fun other among => accepted other (List.mem_cons_of_mem item among)
    have date := dateParse_epochMsToIso toUtc item.usage.tsMs
    rw [List.map_cons, parseItems, parseUsageEventWire_toJson toUtc own.contract own.unpriced,
      show (item.input sha256Hex).event.ts = epochMsToIso item.usage.tsMs from rfl, date,
      List.forall_mem_cons]
    by_cases prints : PrintsDate item.usage.tsMs
    · rw [if_pos prints, ← later]
      simp only [prints, true_and, List.map_cons]
      cases parseItems toUtc (index + 1)
          (rest.map fun item => (item.input sha256Hex).event.toJson) with
      | error error => simp [Except.map]
      | ok events => simp [Except.map, Collected.delivered]
    · rw [if_neg prints]
      simp [prints, refuse]

variable {sha256Hex}

theorem deliverable_of_enqueued {collected : List Collected} {batch : List QueuedUsage}
    (enqueued : List.Forall₂ (Enqueued sha256Hex) collected batch) :
    ∀ item ∈ collected, (item.input sha256Hex).Deliverable := by
  induction enqueued with
  | nil => exact fun _ none => (nomatch none)
  | cons first _ ih =>
    obtain ⟨⟨queue, records, db, after, count, done, recorded⟩, -⟩ := first
    exact List.forall_mem_cons.mpr ⟨UsageQueue.deliverable_of_enqueue done _ recorded, ih⟩

theorem readBody_enqueued {collected : List Collected} {batch : List QueuedUsage}
    (enqueued : List.Forall₂ (Enqueued sha256Hex) collected batch) :
    readBody toUtc batch
      = some (parseItems toUtc 0 (collected.map fun item => (item.input sha256Hex).event.toJson)) := by
  have accepted := deliverable_of_enqueued enqueued
  have stored : batch.map QueuedUsage.payload
      = (collected.map fun item => (item.input sha256Hex).event).map
          fun event => Json.toPretty event.toJson := by
    clear accepted
    induction enqueued with
    | nil => rfl
    | cons first _ ih => rw [List.map_cons, List.map_cons, List.map_cons, first.2, ih]
  have parsed := jsonParse_batchBody stored fun event among => by
    obtain ⟨item, itemAmong, rfl⟩ := List.mem_map.mp among
    exact (accepted item itemAmong).unpriced
  rw [readBody, parsed, Option.map_some, parseUsageEventsBody, List.map_map]
  rfl

variable (sha256Hex)

/-- **The wire agreement.** The server reads a body as the events that it carries exactly if all
their times are of the years 0 to 9999, or so far in the past that their texts are extended years. -/
theorem wire_agreement {collected : List Collected} {batch : List QueuedUsage}
    (enqueued : List.Forall₂ (Enqueued sha256Hex) collected batch) :
    readBody toUtc batch = some (.ok (collected.map (Collected.delivered sha256Hex))) ↔
      ∀ item ∈ collected, PrintsDate item.usage.tsMs := by
  rw [readBody_enqueued toUtc enqueued, Option.some_inj]
  exact parseItems_toJson sha256Hex toUtc 0 (deliverable_of_enqueued enqueued)

end Agreement

/-! ### Two records -/

/-- A record of the last second of a year, as a log may have it: its minute has 61 seconds. -/
def leapSecond (text : String) : Collected where
  adapter := "gemini"
  usage :=
    { project := none
      tsMs := (Shim.isoToEpochMs text).getD 0
      sessionId := none
      model := some "gemini-2.5-pro"
      messageId := some "m1"
      inputTokens := 10
      outputTokens := 2
      cacheReadTokens := 0
      cacheCreationTokens := 0
      cacheCreation1hTokens := 0 }
  host := none

/-- SHA-256 on `gemini:m1:gemini-2.5-pro:10:2:0:0`, which identifies these records. -/
def messageDigest (_ : String) : String :=
  "534218fd315aaf26b0cf143aa723ac5aa7f67edbd743c7e4f2f88840bf84ff5f"

def leapSecondRow (text : String) : QueuedUsage :=
  ⟨1, "gemini", none, Json.toPretty ((leapSecond text).input messageDigest).event.toJson⟩

theorem enqueued_leapSecond {text : String}
    (deliverable : ((leapSecond text).input messageDigest).Deliverable)
    (small : (Json.toPretty ((leapSecond text).input messageDigest).event.toJson).utf8ByteSize
      ≤ 1000) :
    Enqueued messageDigest (leapSecond text) (leapSecondRow text) := by
  obtain ⟨filled, _, stored, _⟩ := @UsageQueue.enqueue_fits
    ⟨"queue", "instance", Shim.fixtureIdentity, Shim.DEFAULT_MAX_BYTES⟩
    (UsageQueue.open "queue" Shim.fixtureIdentity Shim.DEFAULT_MAX_BYTES "instance" .new).2
    ⟨"destination", none, Shim.fixtureDigest "token", "instance", 0⟩
    ((leapSecond text).input messageDigest)
    (by decide) (by decide) deliverable nofun (by decide)
    (by dsimp only [Shim.DEFAULT_MAX_BYTES]; omega)
  exact ⟨⟨_, _, _, _, _, stored, List.mem_cons_self⟩, rfl⟩

set_option maxRecDepth 8000 in
theorem size_leapSecond : ∀ text ∈ ["2016-12-31T23:59:60Z", "9999-12-31T23:59:60Z"],
    (Json.toPretty ((leapSecond text).input messageDigest).event.toJson).utf8ByteSize ≤ 1000 := by
  simp only [Json.utf8ByteSize_toPretty]
  decide

theorem deliverable_leapSecond : ∀ text ∈ ["2016-12-31T23:59:60Z", "9999-12-31T23:59:60Z"],
    ((leapSecond text).input messageDigest).Deliverable := by
  intro text among
  have small := size_leapSecond text among
  have key : messageDigest "gemini:m1:gemini-2.5-pro:10:2:0:0" ≠ "" := by decide
  exact
    { anonymous := rfl
      unpriced := rfl
      contract := ⟨key, (by decide : "gemini" ≠ ""), Shim.epochMsToIso_ne_empty _, (by decide : 10 ≤ Shim.maxSafeInteger),
        (by decide : 2 ≤ Shim.maxSafeInteger), (by decide : 0 ≤ Shim.maxSafeInteger),
        (by decide : 0 ≤ Shim.maxSafeInteger), Nat.le_refl 0⟩
      project := fun _ none => (nomatch none)
      size := by
        unfold Shim.MAX_REQUEST_BYTES
        omega }

/-- A leap second of our time is read as the second after it. -/
theorem wire_agreement_leapSecond :
    readBody id [leapSecondRow "2016-12-31T23:59:60Z"]
        = some (.ok [(leapSecond "2016-12-31T23:59:60Z").delivered messageDigest]) ∧
      ((leapSecond "2016-12-31T23:59:60Z").delivered messageDigest).ts = 1483228800000 := by
  have enqueued : List.Forall₂ (Enqueued messageDigest) [leapSecond "2016-12-31T23:59:60Z"]
      [leapSecondRow "2016-12-31T23:59:60Z"] :=
    .cons (enqueued_leapSecond (deliverable_leapSecond _ (by decide)) (size_leapSecond _ (by decide)))
      .nil
  exact ⟨(wire_agreement messageDigest id enqueued).mpr (by decide), by decide⟩

/-- **The last second before the year 10000 blocks its batch.** Its time is read from a log and
accepted by the queue, and the server refuses the body. -/
theorem leap_second_is_refused : ¬ ∀ (sha256Hex : String → String) (toUtc : Int → Int)
    (collected : List Collected) (batch : List QueuedUsage),
    List.Forall₂ (Enqueued sha256Hex) collected batch →
    (∀ item ∈ collected, ∃ text, Shim.isoToEpochMs text = some item.usage.tsMs) →
    readBody toUtc batch = some (.ok (collected.map (Collected.delivered sha256Hex))) := by
  intro claimed
  have enqueued : List.Forall₂ (Enqueued messageDigest) [leapSecond "9999-12-31T23:59:60Z"]
      [leapSecondRow "9999-12-31T23:59:60Z"] :=
    .cons (enqueued_leapSecond (deliverable_leapSecond _ (by decide)) (size_leapSecond _ (by decide)))
      .nil
  have parsed : ∀ item ∈ [leapSecond "9999-12-31T23:59:60Z"],
      ∃ text, Shim.isoToEpochMs text = some item.usage.tsMs := by
    intro item among
    rw [List.mem_singleton.mp among]
    exact ⟨"9999-12-31T23:59:60Z", by decide⟩
  have reads := claimed messageDigest id _ _ enqueued parsed
  rw [readBody_enqueued id enqueued, Option.some_inj] at reads
  have date := (parseItems_toJson messageDigest id 0 (deliverable_of_enqueued enqueued)).mp reads
    (leapSecond "9999-12-31T23:59:60Z") List.mem_cons_self
  exact absurd date (by decide)

end Toard.Server
