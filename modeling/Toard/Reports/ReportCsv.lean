/-
**The weekly report as a table (`report-csv.ts`).**

Numbers are those of binary64, with one zero. How a finite one is written is a parameter: it is read
back as itself, and has no quote, comma or line break.

* **`weeklyReportCsv_read`**: behind the byte order mark stands a table of rows of nine cells, each
  read as what was put there, unless a cell has a number that is not finite.
* `mark_is_unread`: with the mark it is not a table.
-/

import Mathlib.Data.Rat.Encodable
import Toard.Library.Binary64
import Toard.Library.Csv
import Toard.Reports.CostDrivers

namespace Toard.Reports.Csv

open Toard.Library (binary64)
open Toard.Library.Csv

/-! ### Numbers -/

abbrev Double := {value : ℚ // ∃ exact : ℚ, binary64 exact = some value}

inductive Number
  | finite (value : Double)
  | infinite (negative : Bool)
  | nan
deriving DecidableEq

namespace Number

def ofRat (exact : ℚ) : Number :=
  match rounded : binary64 exact with
  | some value => .finite ⟨value, exact, rounded⟩
  | none => .infinite (exact < 0)

def isFinite : Number → Bool
  | .finite _ => true
  | _ => false

def add : Number → Number → Number
  | .nan, _ | _, .nan => .nan
  | .finite left, .finite right => ofRat (left + right)
  | .infinite left, .infinite right => if left = right then .infinite left else .nan
  | .infinite negative, _ | _, .infinite negative => .infinite negative

def sub : Number → Number → Number
  | .nan, _ | _, .nan => .nan
  | .finite left, .finite right => ofRat (left - right)
  | .infinite left, .infinite right => if left = right then .nan else .infinite left
  | .infinite negative, _ => .infinite negative
  | _, .infinite negative => .infinite !negative

/-- `> 0` -/
def isPositive : Number → Bool
  | .finite value => 0 < value.val
  | .infinite negative => !negative
  | .nan => false

def isFalsy : Number → Bool
  | .finite value => value.val = 0
  | .infinite _ => false
  | .nan => true

/-- `===` -/
def strictEquals (left right : Number) : Bool := left ≠ .nan && left = right

end Number

/-- `String` of a finite number, and `Number` of a text. -/
structure Decimal where
  write : ℚ → List Char
  read : List Char → Option ℚ
  isText : ∀ value : Double, ∀ c ∈ write value, Library.Csv.isText c = true
  read_write : ∀ value : Double, read (write value) = some value.val

def Decimal.toString (decimal : Decimal) : Number → String
  | .finite value => .ofList (decimal.write value)
  | .infinite false => "Infinity"
  | .infinite true => "-Infinity"
  | .nan => "NaN"

/-! ### Cells -/

inductive Cell
  | null
  | number (value : Number)
  | text (value : String)

instance : Coe String Cell := ⟨.text⟩

instance : Coe Number Cell := ⟨.number⟩

/-- `\s`, a control character below the blank, or a byte order mark. -/
def isBlank (c : Char) : Bool :=
  c.toNat ≤ 0x20 || c.toNat ∈ [0xA0, 0x1680, 0x2028, 0x2029, 0x202F, 0x205F, 0x3000, 0xFEFF] ||
    (0x2000 ≤ c.toNat && c.toNat ≤ 0x200A)

def isGuarded (c : Char) : Bool := isBlank c || ['=', '+', '-', '@'].contains c

def csvCell (decimal : Decimal) : Cell → Except String (List Char)
  | .null => .ok []
  | .number (.finite value) => .ok (decimal.write value)
  | .number _ => .error "non_finite_csv_value"
  | .text value =>
    let text := if value.toList.head?.any isGuarded then '\'' :: value.toList else value.toList
    .ok ('"' :: ((text.flatMap fun c => if c = '"' then ['"', '"'] else [c]) ++ ['"']))

/-! ### The report -/

structure Coverage where
  unpricedEvents : Number
  estimatedEvents : Option Number

structure ReportTotals where
  events : Number
  tokens : Number
  costUsd : Number
  inputTokens : Number
  outputTokens : Number
  cacheReadTokens : Number
  cacheCreationTokens : Number
  coverage : Coverage

structure ReportModelRow where
  provider : String
  model : Option String
  current : ReportTotals
  previous : ReportTotals
  pricingRevisionIds : List String
  calculationVersions : List String

/-- `Omit<CostPeriod, "profiles" | "incompleteModels">` -/
structure ReportSide where
  costUsd : Number
  tokens : Number
  events : Number
  coverage : Coverage
  legacyEvidenceEvents : Number

structure ReportChange where
  version : String
  deltaUsd : Number
  driversUsd : CostDriver → Number
  unexplainedUsd : Number
  excludedEvents : Number

structure ReportEvidence where
  id : String
  model : String
  source : String
  sourceRef : Option String
  effectiveAt : String

structure WeeklyReport where
  version : String
  scopeKind : String
  teamId : Option String
  previousWeek : String
  week : String
  timezone : String
  generatedAt : String
  current : ReportSide
  previous : ReportSide
  change : ReportChange
  models : List ReportModelRow
  days : List (String × ReportTotals)
  evidence : List ReportEvidence

structure ReportHealth where
  checkedAt : String
  connections : Number
  unconfirmed : Number
  noReport : Number
  errors : Number
  paused : Number
  stale : Number
  pendingEvents : Option Number
  outboxPending : Number

/-- The names of the members of an object with their values, and with their units. -/
def metrics : List (String × (ReportTotals → Number) × String) :=
  [("costUsd", (·.costUsd), "USD_API_EQUIVALENT"), ("tokens", (·.tokens), "tokens"),
    ("events", (·.events), "events"), ("inputTokens", (·.inputTokens), "tokens"),
    ("outputTokens", (·.outputTokens), "tokens"), ("cacheReadTokens", (·.cacheReadTokens), "tokens"),
    ("cacheCreationTokens", (·.cacheCreationTokens), "tokens")]

def healthMetrics : List (String × (ReportHealth → Option Number)) :=
  [("connections", (·.connections)), ("unconfirmed", (·.unconfirmed)), ("noReport", (·.noReport)),
    ("errors", (·.errors)), ("paused", (·.paused)), ("stale", (·.stale)),
    ("pendingEvents", (·.pendingEvents)), ("outboxPending", (·.outboxPending))]

def driverName : CostDriver → String
  | .volume => "volume"
  | .modelMix => "modelMix"
  | .outputMix => "outputMix"
  | .cacheMix => "cacheMix"
  | .effectiveRates => "effectiveRates"

def costValue (side : ReportTotals) : Cell :=
  if side.events.isFalsy || side.coverage.unpricedEvents.strictEquals side.events then .null
  else side.costUsd

def zero : Number := .finite ⟨0, 0, Library.binary64_zero⟩

def modelRow (decimal : Decimal) (model : ReportModelRow)
    (metric : String × (ReportTotals → Number) × String) : List Cell :=
  let (name, value, unit) := metric
  let unpriced :=
    (model.current.coverage.unpricedEvents.add model.previous.coverage.unpricedEvents).isPositive
  let isCost := name == "costUsd"
  ["model", model.provider, (model.model.map .text).getD .null, name,
    if isCost then costValue model.previous else value model.previous,
    if isCost then costValue model.current else value model.current,
    if isCost && unpriced then .null else (value model.current).sub (value model.previous), unit,
    String.intercalate ";" (["unpriced_previous=" ++
        decimal.toString model.previous.coverage.unpricedEvents,
      "unpriced_current=" ++ decimal.toString model.current.coverage.unpricedEvents,
      "estimated_previous=" ++
        decimal.toString (model.previous.coverage.estimatedEvents.getD zero),
      "estimated_current=" ++ decimal.toString (model.current.coverage.estimatedEvents.getD zero)]
      ++ model.calculationVersions ++ model.pricingRevisionIds)]

def totalRows (report : WeeklyReport) : List (List Cell) :=
  [["section", "provider", "model_or_label", "metric", "previous", "current", "change", "unit",
      "evidence"],
    ["report", "", "week", "period", report.previousWeek, report.week, .null, report.timezone,
      report.version],
    ["report", "", report.scopeKind, "scope", .null, report.teamId.getD report.scopeKind, .null,
      "scope", "authorized_at_request"],
    ["report", "", "generated_at", "time", .null, report.generatedAt, .null, "UTC",
      report.change.version],
    ["total", "", "all", "recorded_cost", report.previous.costUsd, report.current.costUsd,
      report.change.deltaUsd, "USD_API_EQUIVALENT", "stored_records"],
    ["total", "", "all", "tokens", report.previous.tokens, report.current.tokens,
      report.current.tokens.sub report.previous.tokens, "tokens", "stored_records"],
    ["total", "", "all", "events", report.previous.events, report.current.events,
      report.current.events.sub report.previous.events, "events", "stored_records"],
    ["coverage", "", "all", "unpriced_events", report.previous.coverage.unpricedEvents,
      report.current.coverage.unpricedEvents, .null, "events", "not_a_zero_cost_claim"],
    ["coverage", "", "all", "estimated_events",
      report.previous.coverage.estimatedEvents.getD zero,
      report.current.coverage.estimatedEvents.getD zero, .null, "events",
      "inferred_model_or_billing_context"],
    ["coverage", "", "all", "legacy_evidence_events", report.previous.legacyEvidenceEvents,
      report.current.legacyEvidenceEvents, .null, "events",
      "legacy_value_or_calculation_version"]]

def driverRow (report : WeeklyReport) (key : CostDriver) : List Cell :=
  ["cost_driver", "", driverName key, "contribution", .null, .null, report.change.driversUsd key,
    "USD_API_EQUIVALENT", "complete_evidence_model_groups"]

def changeRows (report : WeeklyReport) : List (List Cell) :=
  [["cost_driver", "", "unclassified", "contribution", .null, .null, report.change.unexplainedUsd,
      "USD_API_EQUIVALENT", "missing_evidence_and_rounding"],
    ["coverage", "", "all", "excluded_from_decomposition", .null, report.change.excludedEvents,
      .null, "events", "whole_model_group_if_either_period_has_missing_evidence"]]

def dayRow (decimal : Decimal) (day : String × ReportTotals) : List Cell :=
  ["daily", "", day.1, "recorded_cost", .null, day.2.costUsd, .null, "USD_API_EQUIVALENT",
    "unpriced=" ++ decimal.toString day.2.coverage.unpricedEvents ++
      ";estimated=" ++ decimal.toString (day.2.coverage.estimatedEvents.getD zero)]

def evidenceRow (evidence : ReportEvidence) : List Cell :=
  ["pricing_source", "", evidence.model, evidence.id, evidence.effectiveAt,
    evidence.sourceRef.getD evidence.source, .null, "revision", evidence.source]

def healthRow (health : ReportHealth) (metric : String × (ReportHealth → Option Number)) :
    List Cell :=
  ["current_collection", "", "all", metric.1, .null, ((metric.2 health).map .number).getD .null,
    .null, "count", health.checkedAt]

def reportRows (decimal : Decimal) (report : WeeklyReport) (health : ReportHealth) :
    List (List Cell) :=
  totalRows report ++ report.models.flatMap (fun model => metrics.map (modelRow decimal model)) ++
    COST_DRIVERS.map (driverRow report) ++ changeRows report ++ report.days.map (dayRow decimal) ++
    report.evidence.map evidenceRow ++ healthMetrics.map (healthRow health)

def weeklyReportCsv (decimal : Decimal) (report : WeeklyReport) (health : ReportHealth) :
    Except String (List Char) := do
  let lines ← (reportRows decimal report health).mapM fun row => row.mapM (csvCell decimal)
  return '\uFEFF' :: crlf.intercalate (lines.map ([','].intercalate ·)) ++ crlf

/-! ### What is read of it -/

/-- What is read of a cell. A text keeps what it is, or has an apostrophe before it, and does not
start like a formula. -/
def Reads (decimal : Decimal) : Cell → List Char → Prop
  | .null, value => value = []
  | .number number, value =>
    ∃ finite, number = .finite finite ∧ decimal.read value = some finite.val
  | .text source, value => (value = source.toList ∨ value = '\'' :: source.toList) ∧
    ∀ c ∈ value.head?, isGuarded c = false

theorem escaped_doubled (text : List Char) :
    Escaped (text.flatMap fun c => if c = '"' then ['"', '"'] else [c]) text := by
  induction text with
  | nil => exact .nil
  | cons c text ih =>
    rw [List.flatMap_cons]
    split
    case isTrue isQuote => exact isQuote ▸ .quote ih
    case isFalse different => exact .char different ih

theorem csvCell_cases (decimal : Decimal) (cell : Cell) :
    (csvCell decimal cell = .error "non_finite_csv_value" ∧
      ∃ number, cell = .number number ∧ number.isFinite = false) ∨
    ∃ text value, csvCell decimal cell = .ok text ∧ Field text value ∧ Reads decimal cell value := by
  cases cell with
  | null => exact .inr ⟨[], [], rfl, .plain (by simp), rfl⟩
  | number number =>
    cases number with
    | finite value =>
      exact .inr ⟨_, _, rfl, .plain (decimal.isText value), value, rfl, decimal.read_write value⟩
    | infinite negative => exact .inl ⟨rfl, _, rfl, rfl⟩
    | nan => exact .inl ⟨rfl, _, rfl, rfl⟩
  | text source =>
    refine .inr ⟨_, _, rfl, .quoted (escaped_doubled _), ?_⟩
    split
    case isTrue => exact ⟨.inr rfl, fun c among => Option.some.inj among ▸ (by decide)⟩
    case isFalse plain => exact ⟨.inl rfl, by simpa [Option.any_eq_true] using plain⟩

theorem mapM_cases {α β ε : Type*} (f : α → Except ε β) (values : List α) :
    (∃ results, values.mapM f = .ok results ∧ List.Forall₂ (fun a b => f a = .ok b) values results) ∨
      ∃ a ∈ values, ∃ e, f a = .error e ∧ values.mapM f = .error e := by
  induction values with
  | nil => exact .inl ⟨[], rfl, .nil⟩
  | cons a values ih =>
    rw [List.mapM_cons]
    cases first : f a with
    | error e => exact .inr ⟨a, List.mem_cons_self, e, first, rfl⟩
    | ok b =>
      rcases ih with ⟨results, isOk, all⟩ | ⟨other, among, e, fails, isError⟩
      · exact .inl ⟨b :: results, by rw [isOk]; rfl, .cons first all⟩
      · exact .inr ⟨other, List.mem_cons_of_mem _ among, e, fails, by rw [isError]; rfl⟩

theorem length_of_mem_reportRows {decimal : Decimal} {report : WeeklyReport} {health : ReportHealth}
    {row : List Cell} (among : row ∈ reportRows decimal report health) : row.length = 9 := by
  simp only [reportRows, List.mem_append, List.mem_flatMap, List.mem_map] at among
  rcases among with (((((among | ⟨_, _, _, _, rfl⟩) | ⟨_, _, rfl⟩) | among) | ⟨_, _, rfl⟩) |
    ⟨_, _, rfl⟩) | ⟨_, _, rfl⟩
  case inl.inl.inl.inl.inl.inl =>
    have wide : ∀ row ∈ totalRows report, row.length = 9 := by simp [totalRows]
    exact wide row among
  case inl.inl.inl.inr =>
    have wide : ∀ row ∈ changeRows report, row.length = 9 := by simp [changeRows]
    exact wide row among
  all_goals rfl

theorem exists_forall₂ {α β γ : Type*} {made : α → β → Prop} {field : β → γ → Prop}
    {reads : α → γ → Prop} {sources : List α} {texts : List β}
    (all : List.Forall₂ made sources texts)
    (each : ∀ a b, made a b → ∃ c, field b c ∧ reads a c) :
    ∃ values, List.Forall₂ field texts values ∧ List.Forall₂ reads sources values := by
  induction all with
  | nil => exact ⟨[], .nil, .nil⟩
  | cons first _ ih =>
    obtain ⟨value, isField, isRead⟩ := each _ _ first
    obtain ⟨values, fields, read⟩ := ih
    exact ⟨value :: values, .cons isField fields, .cons isRead read⟩

theorem mapM_csvCell {decimal : Decimal} {row : List Cell} {line : List (List Char)}
    (isOk : row.mapM (csvCell decimal) = .ok line) : line.length = row.length ∧
      ∃ values, List.Forall₂ Field line values ∧ List.Forall₂ (Reads decimal) row values := by
  rcases mapM_cases (csvCell decimal) row with ⟨results, same, all⟩ | ⟨_, _, _, _, isError⟩
  · obtain rfl := Except.ok.inj (same.symm.trans isOk)
    refine ⟨all.length_eq.symm, exists_forall₂ all fun cell text made => ?_⟩
    rcases csvCell_cases decimal cell with ⟨isError, _⟩ | ⟨_, value, same, reads⟩
    · cases made.symm.trans isError
    · exact ⟨value, Except.ok.inj (same.symm.trans made) ▸ reads⟩
  · cases isOk.symm.trans isError

/-- **The table that is read behind the mark has what was put in its cells.** -/
theorem weeklyReportCsv_read (decimal : Decimal) (report : WeeklyReport) (health : ReportHealth) :
    (∀ row ∈ reportRows decimal report health, row.length = 9) ∧
    ((weeklyReportCsv decimal report health = .error "non_finite_csv_value" ∧
        ∃ row ∈ reportRows decimal report health, ∃ number, .number number ∈ row ∧
          number.isFinite = false) ∨
      ∃ table values, weeklyReportCsv decimal report health = .ok ('\uFEFF' :: table) ∧
        Table table values ∧ (∀ other, Table table other → other = values) ∧
        List.Forall₂ (List.Forall₂ (Reads decimal)) (reportRows decimal report health) values) := by
  refine ⟨fun row among => length_of_mem_reportRows among, ?_⟩
  rcases mapM_cases (fun row => row.mapM (csvCell decimal)) (reportRows decimal report health) with
    ⟨lines, isOk, all⟩ | ⟨row, among, e, fails, isError⟩
  · obtain ⟨values, fields, reads⟩ := exists_forall₂ all fun _ _ made => (mapM_csvCell made).2
    have table : Table (crlf.intercalate (lines.map ([','].intercalate ·)) ++ crlf) values := by
      refine of_lines fields ?_ fun line among => ?_
      · rintro rfl
        cases all
      · obtain ⟨place, inside, rfl⟩ := List.getElem_of_mem among
        have row := all.length_eq.symm ▸ inside
        have wide : lines[place].length = 9 := (mapM_csvCell (all.get row inside)).1.trans
          (length_of_mem_reportRows (List.getElem_mem row))
        exact List.ne_nil_of_length_pos (wide ▸ by decide)
    refine .inr ⟨_, values, ?_, table, fun other read => unique read table, reads⟩
    rw [weeklyReportCsv, isOk]
    rfl
  · refine .inl ?_
    rcases mapM_cases (csvCell decimal) row with ⟨_, isOk, _⟩ | ⟨cell, inRow, e', cellFails, rowFails⟩
    · cases isOk.symm.trans fails
    · rcases csvCell_cases decimal cell with ⟨isNonFinite, number, rfl, infinite⟩ | ⟨_, _, isOk, _⟩
      · obtain rfl := Except.error.inj (cellFails.symm.trans isNonFinite)
        obtain rfl := Except.error.inj (rowFails.symm.trans fails)
        refine ⟨?_, row, among, number, inRow, infinite⟩
        rw [weeklyReportCsv, isError]
        rfl
      · cases isOk.symm.trans cellFails

/-! ### The mark -/

theorem not_table_mark {rest : List Char} {rows : List (List (List Char))} :
    ¬ Table ('\uFEFF' :: '"' :: rest) rows := by
  have first {text value after : List Char} (field : Field text value) (ends : Ends after) :
      '\uFEFF' :: '"' :: rest ≠ text ++ after := by
    intro same
    cases field with
    | quoted => exact absurd (List.cons.inj same).1 (by decide)
    | plain plain =>
      -- the quote would be within the cell, or right behind it
      cases text with
      | nil =>
        rw [List.nil_append] at same
        exact absurd (ends '\uFEFF' (by rw [← same]; rfl)) (by decide)
      | cons c text =>
        replace same : '"' :: rest = text ++ after := (List.cons.inj same).2
        cases text with
        | nil =>
          rw [List.nil_append] at same
          exact absurd (ends '"' (by rw [← same]; rfl)) (by decide)
        | cons c' text =>
          obtain rfl : '"' = c' := (List.cons.inj same).1
          exact absurd (plain '"' (by simp)) (by decide)
  intro table
  generalize isText : '\uFEFF' :: '"' :: rest = text at table
  cases table with
  | nil => cases isText
  | last field => exact first field ends_nil (isText.trans (List.append_nil _).symm)
  | line field => exact first field (ends_crlf _) isText
  | comma field => exact first field (ends_comma _) isText

theorem intercalate_cons {α : Type*} (separator : List α) (a : α) (text : List α)
    (texts : List (List α)) : ∃ rest, separator.intercalate ((a :: text) :: texts) = a :: rest := by
  cases texts with
  | nil => exact ⟨text, List.intercalate_singleton⟩
  | cons next texts => exact ⟨_, List.intercalate_cons_cons⟩

theorem starts_quoted {decimal : Decimal} {report : WeeklyReport} {health : ReportHealth}
    {text : List Char} (isOk : weeklyReportCsv decimal report health = .ok text) :
    ∃ rest, text = '\uFEFF' :: '"' :: rest := by
  rcases mapM_cases (fun row => row.mapM (csvCell decimal)) (reportRows decimal report health) with
    ⟨lines, made, all⟩ | ⟨_, _, _, _, isError⟩
  · rw [weeklyReportCsv, made] at isOk
    obtain ⟨cells, rows, isRows⟩ : ∃ cells rows,
        reportRows decimal report health = (.text "section" :: cells) :: rows := ⟨_, _, rfl⟩
    rw [isRows] at all
    cases all with
    | cons isLine _ =>
      rcases mapM_cases (csvCell decimal) (.text "section" :: cells) with
        ⟨line, same, fields⟩ | ⟨_, _, _, _, isError⟩
      · obtain rfl := Except.ok.inj (same.symm.trans isLine)
        cases fields with
        | cons field _ =>
          obtain rfl := Except.ok.inj field
          obtain rfl := Except.ok.inj isOk
          obtain ⟨inLine, isFirst⟩ := intercalate_cons [','] '"' _ _
          rw [List.map_cons, isFirst]
          obtain ⟨behind, isText⟩ := intercalate_cons crlf '"' inLine _
          rw [isText]
          exact ⟨behind ++ crlf, rfl⟩
      · cases isLine.symm.trans isError
  · rw [weeklyReportCsv, isError] at isOk
    cases isOk

def unary : Decimal where
  write value := if value = 0 then ['0'] else List.replicate (Encodable.encode value) '1'
  read text := if text = ['0'] then some 0 else Encodable.decode text.length
  isText value c among := by
    split at among
    case isTrue => rw [List.mem_singleton.mp among]; decide
    case isFalse => rw [List.eq_of_mem_replicate among]; decide
  read_write value := by
    split
    case isTrue isZero => rw [if_pos rfl, isZero]
    case isFalse =>
      have ones : List.replicate (Encodable.encode value.val) '1' ≠ ['0'] := fun same => by
        have digit := List.eq_of_mem_replicate (same ▸ List.mem_singleton_self '0')
        exact absurd digit (by decide)
      rw [if_neg ones, List.length_replicate, Encodable.encodek]

def noTotals : ReportSide where
  costUsd := zero
  tokens := zero
  events := zero
  coverage := ⟨zero, none⟩
  legacyEvidenceEvents := zero

def emptyReport : WeeklyReport where
  version := "weekly-report-v1"
  scopeKind := "organization"
  teamId := none
  previousWeek := "2026-01-04"
  week := "2026-01-11"
  timezone := "UTC"
  generatedAt := "2026-01-18T00:00:00.000Z"
  current := noTotals
  previous := noTotals
  change := ⟨"cost-drivers-v1", zero, fun _ => zero, zero, zero⟩
  models := []
  days := []
  evidence := []

def emptyHealth : ReportHealth :=
  ⟨"2026-01-18T00:00:00.000Z", zero, zero, zero, zero, zero, zero, none, zero⟩

/-- The export of a week without events is no table; and two finite numbers may have a difference
that is not finite. -/
theorem mark_is_unread :
    (¬ ∃ text rows, weeklyReportCsv unary emptyReport emptyHealth = .ok text ∧
      Table text rows) ∧
    ∃ left right : Double, (Number.finite left).sub (.finite right) = .infinite false := by
  constructor
  · rintro ⟨text, rows, isOk, table⟩
    obtain ⟨rest, rfl⟩ := starts_quoted isOk
    exact not_table_mark table
  · have exact_ : ∀ q : ℚ, |q| = 2 ^ 1023 → binary64 q = some q := by
      intro q power
      rw [binary64, Library.roundLastPlace_of_abs power, power,
        if_pos (pow_lt_pow_right₀ (by norm_num) (by norm_num))]
    refine ⟨⟨2 ^ 1023, _, exact_ _ (abs_of_pos (by positivity))⟩,
      ⟨-2 ^ 1023, _, exact_ _ (by rw [abs_neg, abs_of_pos (by positivity)])⟩, ?_⟩
    have sum : (2 : ℚ) ^ 1023 - -2 ^ 1023 = 2 ^ 1024 := by
      rw [sub_neg_eq_add, ← two_mul, ← pow_succ']
    have none : binary64 ((2 : ℚ) ^ 1024) = none := by
      have power : |(2 : ℚ) ^ 1024| = 2 ^ 1024 := abs_of_pos (by positivity)
      rw [binary64, Library.roundLastPlace_of_abs power, power, if_neg (lt_irrefl _)]
    show Number.ofRat (2 ^ 1023 - -2 ^ 1023) = _
    rw [sum]
    unfold Number.ofRat
    split
    case h_1 isSome => cases none.symm.trans isSome
    case h_2 => rw [decide_eq_false (not_lt.mpr (by positivity))]

end Toard.Reports.Csv
