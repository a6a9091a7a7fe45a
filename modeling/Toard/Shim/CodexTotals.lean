/-
**The totals of a rollout of Codex (`collect/codex.rs`).**

What a session used so far stands in each `token_count`, so what is billed of a rollout can be held
against its last total. Two things come between them: a `token_count` may be written again, and a
sum over the tokens of a turn is one of 64 bits.

* **`totals_billed`**: where only reports of the last total are repeated, the records add up to the
  total.
-/

import Toard.Shim.Codex

namespace Toard.Shim.Codex

open Toard.Json (Value)
open Toard.Shim.Claude (TranscriptLine)

/-! ### Sums of 64 bits -/

/-- The tokens of a turn: its input and its output, or what was in the cache if that is more than
the input. -/
def LastUsage.tokens (last : LastUsage) : Nat :=
  max last.inputTokens last.cachedInputTokens + last.outputTokens

theorem LastUsage.additions_fit_iff (last : LastUsage) :
    (∀ operands ∈ last.additions, operands.1 + operands.2 < 2 ^ 64) ↔ last.tokens < 2 ^ 64 := by
  simp only [additions, List.mem_cons, List.not_mem_nil, or_false, forall_eq_or_imp, forall_eq,
    tokens, fresh]
  omega

theorem LastUsage.sum_eq_tokens {last : LastUsage} (fits : last.tokens < 2 ^ 64) :
    last.sum = last.tokens := by
  simp only [tokens, sum, fresh] at fits ⊢
  omega

theorem mem_allBilled {last : LastUsage} {latest : List TranscriptLine} :
    last ∈ allBilled latest ↔ ∃ later line earlier,
      latest = later ++ line :: earlier ∧ billed earlier line = some last := by
  induction latest with
  | nil => simp [allBilled]
  | cons line earlier ih =>
    rw [allBilled, List.mem_append, ih, Option.mem_toList]
    constructor
    · rintro (⟨later, other, rest, rfl, isBilled⟩ | isBilled)
      · exact ⟨line :: later, other, rest, rfl, isBilled⟩
      · exact ⟨[], line, earlier, rfl, isBilled⟩
    · rintro ⟨later, other, rest, same, isBilled⟩
      cases later with
      | nil =>
        obtain ⟨rfl, rfl⟩ := List.cons.inj same
        exact .inr isBilled
      | cons first later =>
        obtain ⟨rfl, rfl⟩ := List.cons.inj same
        exact .inl ⟨later, other, rest, rfl, isBilled⟩

/-- No addition of token counts overflows if and only if no billed turn has 2^64 tokens. -/
theorem additions_fit (projectOf : String → Option LocalProject) (fallback : Int)
    (lines : List TranscriptLine) :
    (∀ operands ∈ (readLines projectOf fallback lines).additions,
      operands.1 + operands.2 < 2 ^ 64) ↔
      ∀ before line after last, lines = before ++ line :: after →
        billed before.reverse line = some last → last.tokens < 2 ^ 64 := by
  obtain ⟨-, -, additions, -⟩ := state_readLines projectOf fallback lines
  rw [additions]
  constructor
  · intro fit before line after last here isBilled
    apply last.additions_fit_iff.mp
    intro operands isOperands
    apply fit
    apply List.mem_flatMap.mpr
    refine ⟨last, mem_allBilled.mpr ⟨after.reverse, line, before.reverse, ?_, isBilled⟩, isOperands⟩
    rw [here, List.reverse_append, List.reverse_cons, List.append_assoc]
    rfl
  · intro fit operands isOperands
    obtain ⟨last, isBilled, ofLast⟩ := List.mem_flatMap.mp isOperands
    obtain ⟨later, line, earlier, here, isBilled⟩ := mem_allBilled.mp isBilled
    apply last.additions_fit_iff.mpr _ operands ofLast
    apply fit earlier.reverse line later.reverse last
    · rw [← lines.reverse_reverse, here, List.reverse_append, List.reverse_cons, List.append_assoc]
      rfl
    · rw [List.reverse_reverse]
      exact isBilled

/-- A `turn_context` that names a model. -/
def contextLine (model : String) : TranscriptLine :=
  .json (.object [("type", .string "turn_context"),
    ("payload", .object [("model", .string model)])])

/-- A `token_count` with a total and a last usage, as tokens of the file. -/
def countLine (total last : String × String) : TranscriptLine :=
  .json (.object [("type", .string "event_msg"),
    ("payload", .object [("type", .string "token_count"), ("info", .object [
      ("total_token_usage", .object [("input_tokens", .number total.1),
        ("output_tokens", .number total.2)]),
      ("last_token_usage", .object [("input_tokens", .number last.1),
        ("output_tokens", .number last.2)])])])])

/-- A turn with 2^63 tokens each way. -/
theorem huge_turn_overflows :
    ¬ ∀ operands ∈ (readLines (fun _ => none) 0 [contextLine "gpt",
        countLine ("9223372036854775808", "9223372036854775808")
          ("9223372036854775808", "9223372036854775808")]).additions,
      operands.1 + operands.2 < 2 ^ 64 := by
  decide

/-! ### A session that grows -/

def reports (lines : List TranscriptLine) : List Report := lines.filterMap reportOf

/-- The reports of a session, the latest one first, and its total: each turn is reported once with
what it adds, and a report may be repeated. -/
inductive Grows (repeats : List Report → Report → Prop) : List Report → Nat × Nat → Prop
  | start : Grows repeats [] (0, 0)
  | turn {earlier : List Report} {total : Nat × Nat} {last : LastUsage}
      (grows : Grows repeats earlier total) (cached : last.cachedInputTokens ≤ last.inputTokens) :
      Grows repeats
        (⟨some (total.1 + last.inputTokens, total.2 + last.outputTokens), some last⟩ :: earlier)
        (total.1 + last.inputTokens, total.2 + last.outputTokens)
  | again {earlier : List Report} {total : Nat × Nat} {report : Report}
      (grows : Grows repeats earlier total) (repeated : repeats earlier report) :
      Grows repeats (report :: earlier) total

def repeatsLast (earlier : List Report) (report : Report) : Prop :=
  report ∈ earlier ∧ earlier.head?.bind Report.total = report.total

def repeatsAny (earlier : List Report) (report : Report) : Prop := report ∈ earlier

theorem Grows.total_reported {latest : List Report} {total : Nat × Nat}
    (grows : Grows repeatsLast latest total) (reported : latest ≠ []) :
    latest.head?.bind Report.total = some total := by
  induction grows with
  | start => exact absurd rfl reported
  | turn => rfl
  | again grows repeated ih =>
    rw [List.head?_cons, Option.bind_some, ← repeated.2]
    exact ih (List.ne_nil_of_mem repeated.1)

def tallySum (tallies : List (Nat × Nat)) : Nat × Nat :=
  ((tallies.map Prod.fst).sum, (tallies.map Prod.snd).sum)

theorem tallySum_append (before after : List (Nat × Nat)) : tallySum (before ++ after)
    = ((tallySum before).1 + (tallySum after).1, (tallySum before).2 + (tallySum after).2) := by
  simp only [tallySum, List.map_append, List.sum_append]

theorem tallySum_perm {before after : List (Nat × Nat)} (same : before.Perm after) :
    tallySum before = tallySum after := by
  rw [tallySum, tallySum, (same.map Prod.fst).sum_nat, (same.map Prod.snd).sum_nat]

theorem reports_cons (line : TranscriptLine) (earlier : List TranscriptLine) :
    reports (line :: earlier) = (reportOf line).toList ++ reports earlier := by
  cases isReport : reportOf line <;> simp [reports, isReport]

theorem lastTotal_aside {line : TranscriptLine} (earlier : List TranscriptLine)
    (noReport : reportOf line = none) : lastTotal (line :: earlier) = lastTotal earlier := by
  rw [lastTotal, noReport]
  cases (inForce earlier).isSome <;> rfl

theorem lastTotal_report {line : TranscriptLine} {earlier : List TranscriptLine} {report : Report}
    (known : (inForce earlier).isSome) (isReport : reportOf line = some report) :
    lastTotal (line :: earlier) = report.total.or (lastTotal earlier) := by
  rw [lastTotal, if_pos known, isReport, Option.bind_some]

theorem billed_report {line : TranscriptLine} {earlier : List TranscriptLine} {report : Report}
    (known : (inForce earlier).isSome) (isReport : reportOf line = some report) :
    billed earlier line
      = if report.total.isSome && lastTotal earlier == report.total then none else report.last := by
  obtain ⟨model, isModel⟩ := Option.isSome_iff_exists.mp known
  rw [billed, isModel, isReport, Option.bind_some, Option.bind_some]

/-- **What is billed of a session that grows is its total**: a turn is billed, unless it adds
nothing to a total that was seen, and a repeated report is not. -/
theorem allBilled_of_grows {latest : List TranscriptLine} {total : Nat × Nat}
    (grows : Grows repeatsLast (reports latest) total)
    (known : ∀ later line earlier, latest = later ++ line :: earlier → (reportOf line).isSome →
      (inForce earlier).isSome) :
    lastTotal latest = (reports latest).head?.bind Report.total ∧
      tallySum ((allBilled latest).map LastUsage.tally) = total := by
  induction latest generalizing total with
  | nil =>
    cases grows
    exact ⟨rfl, rfl⟩
  | cons line earlier ih =>
    have before (later : List TranscriptLine) (other : TranscriptLine) (rest : List TranscriptLine)
        (here : earlier = later ++ other :: rest) (isReport : (reportOf other).isSome) :
        (inForce rest).isSome := by
      apply known (line :: later) other rest _ isReport
      rw [here, List.cons_append]
    rw [reports_cons] at grows ⊢
    cases isReport : reportOf line with
    | none =>
      rw [isReport] at grows
      obtain ⟨seen, sum⟩ := ih grows before
      refine ⟨lastTotal_aside earlier isReport ▸ seen, ?_⟩
      have nothing : billed earlier line = none := by
        rw [billed, isReport]
        cases inForce earlier <;> rfl
      rw [allBilled, nothing, Option.toList_none, List.append_nil, sum]
    | some report =>
      have isKnown := known [] line earlier rfl (by rw [isReport]; rfl)
      rw [isReport, Option.toList_some, List.singleton_append] at grows
      rw [lastTotal_report isKnown isReport, allBilled, billed_report isKnown isReport,
        List.map_append, tallySum_append, Option.toList_some, List.singleton_append,
        List.head?_cons, Option.bind_some]
      cases grows with
      | @turn _ total last grows cached =>
        obtain ⟨seen, sum⟩ := ih grows before
        refine ⟨rfl, ?_⟩
        rw [sum]
        by_cases isSeen : lastTotal earlier
            = some (total.1 + last.inputTokens, total.2 + last.outputTokens)
        · rw [seen] at isSeen
          have reported : reports earlier ≠ [] := by
            intro none
            rw [none] at isSeen
            cases isSeen
          have same := Option.some.inj ((grows.total_reported reported).symm.trans isSeen)
          rw [seen, isSeen, Option.isSome_some, Bool.true_and, beq_self_eq_true, if_pos rfl, ← same]
          rfl
        · have isNew : ¬ ((some (total.1 + last.inputTokens, total.2 + last.outputTokens)).isSome &&
              lastTotal earlier
                == some (total.1 + last.inputTokens, total.2 + last.outputTokens)) = true := by
            simpa using isSeen
          rw [if_neg isNew]
          simp only [Option.toList_some, List.map_cons, List.map_nil, tallySum, List.sum_singleton,
            LastUsage.tally, LastUsage.fresh, Nat.sub_add_cancel cached]
      | again grows repeated =>
        obtain ⟨seen, sum⟩ := ih grows before
        have isSeen : lastTotal earlier = report.total := seen.trans repeated.2
        have same : report.total = some total :=
          repeated.2.symm.trans (grows.total_reported (List.ne_nil_of_mem repeated.1))
        rw [isSeen, same, sum, Option.isSome_some, Bool.true_and, beq_self_eq_true, if_pos rfl]
        exact ⟨rfl, rfl⟩

theorem report_of_mem_allBilled {last : LastUsage} {latest : List TranscriptLine}
    (isBilled : last ∈ allBilled latest) : ∃ report ∈ reports latest, report.last = some last := by
  obtain ⟨later, line, earlier, rfl, here⟩ := mem_allBilled.mp isBilled
  obtain ⟨model, -, ofModel⟩ := Option.bind_eq_some_iff.mp here
  obtain ⟨report, isReport, ofReport⟩ := Option.bind_eq_some_iff.mp ofModel
  refine ⟨report, List.mem_filterMap.mpr ⟨line, by simp, isReport⟩, ?_⟩
  exact (Option.ite_none_left_eq_some.mp ofReport).2

theorem tallySum_filter {turns : List LastUsage}
    (fits : ∀ last ∈ turns, last.tokens < 2 ^ 64) :
    tallySum ((turns.filter fun last => 0 < last.sum).map LastUsage.tally)
      = tallySum (turns.map LastUsage.tally) := by
  induction turns with
  | nil => rfl
  | cons last turns ih =>
    have exactly := last.sum_eq_tokens (fits last (by simp))
    have rest := ih fun other isTurn => fits other (List.mem_cons_of_mem last isTurn)
    by_cases counts : 0 < last.sum
    · rw [List.filter_cons_of_pos (by simpa using counts), List.map_cons, List.map_cons,
        ← List.singleton_append, tallySum_append, rest, ← tallySum_append, List.singleton_append]
    · have nothing : last.tally = (0, 0) := by
        rw [exactly] at counts
        simp only [LastUsage.tokens, LastUsage.tally, LastUsage.fresh, Prod.mk.injEq] at counts ⊢
        omega
      rw [List.filter_cons_of_neg (by simpa using counts), rest, List.map_cons, nothing,
        ← List.singleton_append, tallySum_append]
      simp only [tallySum, List.map_cons, List.map_nil, List.sum_singleton, zero_add]

/-- The input and the output of the records that the parser returns. -/
def returned (projectOf : String → Option LocalProject) (fallback : Int)
    (lines : List TranscriptLine) : Nat × Nat :=
  let parsed := parseRollout projectOf fallback lines
  tallySum ((parsed.usage ++ parsed.replayedUsage).map tally)

theorem parseRollout_perm (projectOf : String → Option LocalProject) (fallback : Int)
    (lines : List TranscriptLine) :
    (((parseRollout projectOf fallback lines).usage ++
      (parseRollout projectOf fallback lines).replayedUsage).map tally).Perm
      ((readLines projectOf fallback lines).positionedUsage.map fun entry => tally entry.2) := by
  have owned (log : Rollout) (usage : RawUsage) : tally (log.owned usage) = tally usage := by
    rw [Rollout.owned]
    split <;> rfl
  simp only [parseRollout, List.map_append, List.map_map, Function.comp_def, owned]
  rw [← List.map_append]
  exact ((List.filter_append_perm _ _).symm.trans List.perm_append_comm).symm.map _

/-- **Totals are billed once**: a session that grows while a model is in force is billed with its
total, where only reports of the last total are repeated and each turn has fewer than 2^64
tokens. -/
theorem totals_billed (projectOf : String → Option LocalProject) (fallback : Int)
    (lines : List TranscriptLine) (total : Nat × Nat)
    (known : ∀ before line after, lines = before ++ line :: after → (reportOf line).isSome →
      (inForce before.reverse).isSome)
    (grows : Grows repeatsLast (reports lines.reverse) total)
    (fits : ∀ report ∈ reports lines, ∀ last, report.last = some last → last.tokens < 2 ^ 64) :
    returned projectOf fallback lines = total := by
  obtain ⟨-, -, -, usage⟩ := state_readLines projectOf fallback lines
  rw [returned, tallySum_perm (parseRollout_perm projectOf fallback lines), usage, tallySum_filter]
  · refine (allBilled_of_grows grows ?_).2
    intro later line earlier here isReport
    rw [← earlier.reverse_reverse]
    apply known earlier.reverse line later.reverse _ isReport
    rw [← lines.reverse_reverse, here, List.reverse_append, List.reverse_cons, List.append_assoc]
    rfl
  · intro last isBilled
    obtain ⟨report, isReport, isLast⟩ := report_of_mem_allBilled isBilled
    apply fits report _ last isLast
    rwa [reports, List.filterMap_reverse, List.mem_reverse] at isReport

theorem known_of_first {model : String} (isModel : model ≠ "") {rest : List TranscriptLine}
    (once : ∀ line ∈ rest, modelOf line = none) (before : List TranscriptLine)
    (line : TranscriptLine) (after : List TranscriptLine)
    (here : contextLine model :: rest = before ++ line :: after)
    (isReport : (reportOf line).isSome) : (inForce before.reverse).isSome := by
  cases before with
  | nil =>
    obtain ⟨rfl, -⟩ := List.cons.inj here
    cases isReport
  | cons first before =>
    obtain ⟨rfl, rest⟩ := List.cons.inj here
    have none : before.reverse.findSome? modelOf = none := by
      apply List.findSome?_eq_none_iff.mpr
      intro other isOther
      apply once other
      rw [rest]
      exact List.mem_append_left _ (List.mem_reverse.mp isOther)
    have named : modelOf (contextLine model) = some model := rfl
    rw [inForce, lastModel, List.reverse_cons, List.findSome?_append, none, Option.none_or,
      List.findSome?_singleton, named, Option.filter_some, if_pos (by simpa using isModel)]
    rfl

/-- Two turns, of which the first is reported twice. -/
theorem totals_billed_repeated :
    returned (fun _ => none) 0 [contextLine "gpt", countLine ("100", "10") ("100", "10"),
      countLine ("100", "10") ("100", "10"), countLine ("300", "25") ("200", "15")]
      = (300, 25) := by
  have isReports : reports [countLine ("300", "25") ("200", "15"),
      countLine ("100", "10") ("100", "10"), countLine ("100", "10") ("100", "10"),
      contextLine "gpt"] = [⟨some (300, 25), some ⟨200, 0, 15⟩⟩,
        ⟨some (100, 10), some ⟨100, 0, 10⟩⟩, ⟨some (100, 10), some ⟨100, 0, 10⟩⟩] := by decide
  apply totals_billed _ _ _ _ (known_of_first (by decide) (by decide))
  · have first : Grows repeatsLast [⟨some (100, 10), some ⟨100, 0, 10⟩⟩] (100, 10) :=
      @Grows.turn _ _ (0, 0) ⟨100, 0, 10⟩ .start (by decide)
    exact isReports ▸ @Grows.turn _ _ (100, 10) ⟨200, 0, 15⟩ (.again first ⟨by simp, rfl⟩)
      (by decide)
  · decide

/-- A report that is repeated behind another one is billed again. -/
theorem stale_report_billed_again :
    Grows repeatsAny (reports [contextLine "gpt", countLine ("100", "10") ("100", "10"),
        countLine ("300", "25") ("200", "15"), countLine ("100", "10") ("100", "10"),
        countLine ("300", "25") ("200", "15")].reverse) (300, 25) ∧
      returned (fun _ => none) 0 [contextLine "gpt", countLine ("100", "10") ("100", "10"),
        countLine ("300", "25") ("200", "15"), countLine ("100", "10") ("100", "10"),
        countLine ("300", "25") ("200", "15")] = (600, 50) := by
  have isReports : reports [countLine ("300", "25") ("200", "15"),
      countLine ("100", "10") ("100", "10"), countLine ("300", "25") ("200", "15"),
      countLine ("100", "10") ("100", "10"), contextLine "gpt"]
        = [⟨some (300, 25), some ⟨200, 0, 15⟩⟩, ⟨some (100, 10), some ⟨100, 0, 10⟩⟩,
          ⟨some (300, 25), some ⟨200, 0, 15⟩⟩, ⟨some (100, 10), some ⟨100, 0, 10⟩⟩] := by decide
  constructor
  · have first : Grows repeatsAny [⟨some (100, 10), some ⟨100, 0, 10⟩⟩] (100, 10) :=
      @Grows.turn _ _ (0, 0) ⟨100, 0, 10⟩ .start (by decide)
    have second : Grows repeatsAny [⟨some (300, 25), some ⟨200, 0, 15⟩⟩,
        ⟨some (100, 10), some ⟨100, 0, 10⟩⟩] (300, 25) :=
      @Grows.turn _ _ (100, 10) ⟨200, 0, 15⟩ first (by decide)
    exact isReports ▸ .again (.again second (by simp [repeatsAny])) (by simp [repeatsAny])
  · decide

end Toard.Shim.Codex
