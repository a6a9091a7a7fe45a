/-
**What the calls of a team attribution job leave.**

The replacement is inserted into a table whose key excludes the sums. Where the team already has a
row of the group, one of the two rows replaces the other, and the verification, which compares the
events of the team in all buckets with those staged, does not see it.

* **`backfill_conserves`**: a call that completes has conserved the usage of its buckets exactly if
  in none of them the team had a row of a group with unassigned usage.
* **`not_backfill_conserves`**: one unassigned event and one of the team in the same group.
-/

import Toard.Library.Transition
import Toard.Storage.TeamLayers

namespace Toard.Storage

open Toard.Library

/-! ### The calls of a job -/

/-- How far a call has come with `usage_15m_rollup_v2`. -/
def CallPoint.v2 : CallPoint → LayerPoint
  | .selected => .selected
  | .stagedV2 | .stagedLegacy => .staged
  | .deletedV2 | .deletedLegacy => .deleted
  | .insertedV2 | .insertedLegacy | .verified | .completed => .inserted

/-- How far a call has come with `usage_15m_rollup`. -/
def CallPoint.legacy : CallPoint → LayerPoint
  | .selected | .stagedV2 => .selected
  | .stagedLegacy | .deletedV2 => .staged
  | .deletedLegacy | .insertedV2 => .deleted
  | .insertedLegacy | .verified | .completed => .inserted

/-- What holds while a call is at work. Each of its buckets is staged from the second version of
the table, or has unassigned rows there that the call is about to stage. -/
structure CallHolds (request : TeamAttributionRequest) (start s : BackfillState)
    (call : BackfillCall) : Prop where
  v2 : s.v2.During request start.v2 call.buckets call.point.v2
  legacy : s.legacy.During request start.legacy call.buckets call.point.legacy
  staged : ∀ bucket ∈ call.buckets, (∃ group, s.v2.stagedTotals request bucket group ≠ none) ∨
    (call.point = .selected ∧ ∃ group, s.v2.find bucket request.userId "" group ≠ none)

/-- What holds in every state of the job's calls. What is staged of the first version of the table
is in buckets that are staged from the second one, where the next call finds them. -/
structure JobHolds (request : TeamAttributionRequest) (start s : BackfillState) : Prop where
  v2 : s.v2.Keeps request start.v2
  legacy : s.legacy.Keeps request start.legacy
  sameBuckets : ∀ bucket group, s.legacy.stagedTotals request bucket group ≠ none →
    ∃ group, s.v2.stagedTotals request bucket group ≠ none
  call : ∀ call, s.call = some call → CallHolds request start s call

/-- The steps of a run in which no staged row of the job reaches the end of its seven days. -/
def Unexpired (request : TeamAttributionRequest) (s : BackfillState) : BackfillAction → Prop
  | .expireStaged => s.v2.Lasting request s.now ∧ s.legacy.Lasting request s.now
  | _ => True

variable {request : TeamAttributionRequest} {start s after : BackfillState}

theorem callAt_eq_some {point : CallPoint} {call : BackfillCall}
    (here : s.callAt point = some call) : s.call = some call ∧ call.point = point := by
  obtain ⟨atWork, same⟩ := Option.filter_eq_some_iff.mp here
  exact ⟨atWork, of_decide_eq_true same⟩

theorem JobHolds.goOn {call : BackfillCall} {point : CallPoint} (after : BackfillState)
    (v2 : after.v2.During request start.v2 call.buckets point.v2)
    (legacy : after.legacy.During request start.legacy call.buckets point.legacy)
    (staged : ∀ bucket ∈ call.buckets, ∃ group, after.v2.stagedTotals request bucket group ≠ none) :
    JobHolds request start (after.goTo call point) where
  v2 := v2.keeps
  legacy := legacy.keeps
  sameBuckets bucket group held := by
    by_cases selected : bucket ∈ call.buckets
    · exact staged bucket selected
    · exact absurd (legacy.within bucket group selected) held
  call other atWork := by
    cases atWork
    exact ⟨v2, legacy, fun bucket selected => Or.inl (staged bucket selected)⟩

theorem JobHolds.interrupt (holds : JobHolds request start s) :
    JobHolds request start { s with call := none } :=
  ⟨holds.v2, holds.legacy, holds.sameBuckets, nofun⟩

theorem JobHolds.callAt {call : BackfillCall} {point : CallPoint} (holds : JobHolds request start s)
    (here : s.callAt point = some call) :
    s.v2.During request start.v2 call.buckets point.v2 ∧
      s.legacy.During request start.legacy call.buckets point.legacy ∧
      (point ≠ .selected → ∀ bucket ∈ call.buckets,
        ∃ group, s.v2.stagedTotals request bucket group ≠ none) := by
  obtain ⟨atWork, rfl⟩ := callAt_eq_some here
  have before := holds.call call atWork
  exact ⟨before.v2, before.legacy, fun late bucket selected =>
    (before.staged bucket selected).resolve_right fun early => late early.1⟩

theorem JobHolds.begin {selection : Selection} (holds : JobHolds request start s)
    (moved : beginCall request s selection = some after) : JobHolds request start after := by
  unfold beginCall at moved
  split at moved
  · cases moved
  simp only at moved
  by_cases staged : s.v2.stagedBuckets request = []
  · -- Nothing is staged, from neither table.
    have v2None : ∀ bucket group, s.v2.stagedTotals request bucket group = none := by
      intro bucket group
      by_contra held
      have among := (Layer.mem_stagedBuckets holds.v2.ofUser).mpr ⟨group, held⟩
      rw [staged] at among
      cases among
    have legacyNone : ∀ bucket group, s.legacy.stagedTotals request bucket group = none := by
      intro bucket group
      by_contra held
      obtain ⟨other, alsoHeld⟩ := holds.sameBuckets bucket group held
      exact alsoHeld (v2None bucket other)
    rw [if_pos staged] at moved
    split at moved
    · cases moved
      exact holds
    · cases moved
      refine ⟨holds.v2, holds.legacy, holds.sameBuckets, fun call atWork => ?_⟩
      cases atWork
      exact
        { v2 := ⟨holds.v2, fun bucket group _ => v2None bucket group, fun _ _ _ => trivial⟩
          legacy := ⟨holds.legacy, fun bucket group _ => legacyNone bucket group,
            fun _ _ _ => trivial⟩
          staged := fun bucket selected =>
            Or.inr ⟨rfl, Layer.find_of_mem_selectedBuckets selected⟩ }
  · rw [if_neg staged, if_neg staged] at moved
    cases moved
    have outside : ∀ bucket, bucket ∉ s.v2.stagedBuckets request → ∀ group,
        s.v2.stagedTotals request bucket group = none := by
      intro bucket absent group
      by_contra held
      exact absent ((Layer.mem_stagedBuckets holds.v2.ofUser).mpr ⟨group, held⟩)
    refine ⟨holds.v2, holds.legacy, holds.sameBuckets, fun call atWork => ?_⟩
    cases atWork
    exact
      { v2 := ⟨holds.v2, fun bucket group absent => outside bucket absent group,
          fun _ _ _ => trivial⟩
        legacy := by
          refine ⟨holds.legacy, fun bucket group absent => ?_, fun _ _ _ => trivial⟩
          by_contra held
          obtain ⟨other, alsoHeld⟩ := holds.sameBuckets bucket group held
          exact alsoHeld (outside bucket absent other)
        staged := fun bucket selected =>
          Or.inl ((Layer.mem_stagedBuckets holds.v2.ofUser).mp selected) }

theorem JobHolds.step {action : BackfillAction} (holds : JobHolds request start s)
    (unexpired : Unexpired request s action)
    (moved : backfillNext request s action = some after) : JobHolds request start after := by
  cases action with
  | tick ms =>
    cases moved
    exact ⟨holds.v2, holds.legacy, holds.sameBuckets, fun call atWork =>
      ⟨(holds.call call atWork).v2, (holds.call call atWork).legacy,
        (holds.call call atWork).staged⟩⟩
  | begin selection => exact holds.begin moved
  | stageV2 =>
    obtain ⟨call, here, rfl⟩ := Option.map_eq_some_iff.mp moved
    obtain ⟨v2, legacy, -⟩ := holds.callAt here
    refine .goOn { s with v2 := _ } (v2.stage s.now s.now) legacy fun bucket selected => ?_
    rcases (holds.call call (callAt_eq_some here).1).staged bucket selected with
      ⟨group, held⟩ | ⟨-, group, free⟩
    · exact ⟨group, v2.staged_stage s.now s.now held⟩
    · exact ⟨group, (v2.stage s.now s.now).reached bucket selected group free⟩
  | stageLegacy =>
    obtain ⟨call, here, rfl⟩ := Option.map_eq_some_iff.mp moved
    obtain ⟨v2, legacy, staged⟩ := holds.callAt here
    exact .goOn { s with legacy := _ } v2 (legacy.stage call.version s.now)
      (staged nofun)
  | deleteV2 =>
    obtain ⟨call, here, rfl⟩ := Option.map_eq_some_iff.mp moved
    obtain ⟨v2, legacy, staged⟩ := holds.callAt here
    exact .goOn { s with v2 := _ } v2.deleteOld legacy (staged nofun)
  | deleteLegacy =>
    obtain ⟨call, here, rfl⟩ := Option.map_eq_some_iff.mp moved
    obtain ⟨v2, legacy, staged⟩ := holds.callAt here
    exact .goOn { s with legacy := _ } v2 legacy.deleteOld (staged nofun)
  | insertV2 =>
    obtain ⟨call, here, rfl⟩ := Option.map_eq_some_iff.mp moved
    obtain ⟨v2, legacy, staged⟩ := holds.callAt here
    exact .goOn { s with v2 := _ } (v2.insertReplacement (s.now + 1)) legacy
      (staged nofun)
  | insertLegacy =>
    obtain ⟨call, here, rfl⟩ := Option.map_eq_some_iff.mp moved
    obtain ⟨v2, legacy, staged⟩ := holds.callAt here
    exact .goOn { s with legacy := _ } v2 (legacy.insertReplacement call.version)
      (staged nofun)
  | verify =>
    obtain ⟨call, here, rfl⟩ := Option.map_eq_some_iff.mp moved
    obtain ⟨v2, legacy, staged⟩ := holds.callAt here
    split
    · exact .goOn s v2 legacy (staged nofun)
    · exact holds.interrupt
  | complete =>
    obtain ⟨call, here, rfl⟩ := Option.map_eq_some_iff.mp moved
    obtain ⟨v2, legacy, staged⟩ := holds.callAt here
    exact .goOn s v2 legacy (staged nofun)
  | cleanup succeeded =>
    obtain ⟨call, here, rfl⟩ := Option.map_eq_some_iff.mp moved
    obtain ⟨v2, legacy, -⟩ := holds.callAt here
    split
    · refine ⟨v2.cleanup, legacy.cleanup, fun bucket group held => ?_, nofun⟩
      exact absurd (Layer.stagedTotals_cleanup bucket group) held
    · exact holds.interrupt
  | interrupt =>
    cases moved
    exact holds.interrupt
  | expireStaged =>
    cases moved
    obtain ⟨v2Lasting, legacyLasting⟩ := unexpired
    refine ⟨holds.v2.expireStaged v2Lasting, holds.legacy.expireStaged legacyLasting,
      fun bucket group held => ?_, fun call atWork => ?_⟩
    · simp only [Layer.stagedTotals_expireStaged v2Lasting,
        Layer.stagedTotals_expireStaged legacyLasting] at held ⊢
      exact holds.sameBuckets bucket group held
    · have before := holds.call call atWork
      refine ⟨before.v2.expireStaged v2Lasting, before.legacy.expireStaged legacyLasting,
        fun bucket selected => ?_⟩
      simp only [Layer.stagedTotals_expireStaged v2Lasting]
      exact before.staged bucket selected

/-! ### Conservation -/

instance : Zero Totals := ⟨⟨0, 0, 0, 0, 0, 0⟩⟩

instance : Add Totals where
  add left right :=
    { eventCount := left.eventCount + right.eventCount
      inputTokens := left.inputTokens + right.inputTokens
      outputTokens := left.outputTokens + right.outputTokens
      cacheReadTokens := left.cacheReadTokens + right.cacheReadTokens
      cacheCreationTokens := left.cacheCreationTokens + right.cacheCreationTokens
      costUsd := left.costUsd + right.costUsd }

attribute [ext] Totals

@[simp] theorem Totals.eventCount_add (left right : Totals) :
    (left + right).eventCount = left.eventCount + right.eventCount := rfl

instance : AddCommMonoid Totals where
  add_assoc first second third := by
    ext
    all_goals exact add_assoc _ _ _
  zero_add sums := by
    ext
    all_goals exact zero_add _
  add_zero sums := by
    ext
    all_goals exact add_zero _
  add_comm left right := by
    ext
    all_goals exact add_comm _ _
  nsmul := nsmulRec

section Layer

variable {γ : Type} [DecidableEq γ] {layer start : Layer γ} {buckets : List Int}

def Layer.bucketTotals (layer : Layer γ) (bucket : Int) : Totals :=
  ((layer.final.filter fun row => row.bucket = bucket).map TeamRow.totals).sum

/-- The usage of the buckets is conserved: the sums of each bucket, each unassigned row in what the
team has of its group, and the rows of other users and teams. -/
structure Layer.Conserved (request : TeamAttributionRequest) (layer start : Layer γ)
    (buckets : List Int) : Prop where
  sums : ∀ bucket ∈ buckets, layer.bucketTotals bucket = start.bucketTotals bucket
  attributed : ∀ bucket ∈ buckets, ∀ group sums,
    start.find bucket request.userId "" group = some sums →
    layer.find bucket request.userId "" group = none ∧
      layer.find bucket request.userId request.teamId group
        = some (sums + (start.find bucket request.userId request.teamId group).getD 0)
  others : ∀ bucket userId teamId group,
    ¬ (userId = request.userId ∧ (teamId = "" ∨ teamId = request.teamId)) →
    layer.find bucket userId teamId group = start.find bucket userId teamId group

/-- In no group of the bucket the user has both unassigned usage and usage of the team. -/
def Layer.Apart (request : TeamAttributionRequest) (layer : Layer γ) (bucket : Int) : Prop :=
  ∀ group, layer.find bucket request.userId "" group = none ∨
    layer.find bucket request.userId request.teamId group = none

/-- Each row counts events, as a row that a `GROUP BY` made does. -/
def Layer.Counted (layer : Layer γ) : Prop := ∀ row ∈ layer.rollup, 0 < row.totals.eventCount

theorem Layer.Counted.find (counted : layer.Counted) {bucket : Int} {userId teamId : String}
    {group : γ} {sums : Totals} (found : layer.find bucket userId teamId group = some sums) :
    0 < sums.eventCount := by
  obtain ⟨row, here, rfl⟩ := Option.map_eq_some_iff.mp found
  exact counted row (key_of_lookup TeamRow.key TeamRow.version here).1

/-- The compactor's row as a row of the second version of the table. -/
def RollupRow.teamRow (row : RollupRow) : TeamRow PricedGroup where
  bucket := row.bucket
  userId := row.dimensions.userId
  teamId := row.dimensions.teamId
  group :=
    { providerKey := row.dimensions.providerKey
      sessionId := row.dimensions.sessionId
      model := row.dimensions.model
      host := row.dimensions.host
      pricingRevisionId := row.dimensions.pricingRevisionId
      costStatus := row.dimensions.costStatus }
  totals := row.totals
  version := row.version

theorem counted_aggregateRollupBuckets (raw : List UsageRow) (buckets : List Int) (version : Int)
    (staged : List (StagedRow PricedGroup)) :
    Layer.Counted ⟨(aggregateRollupBuckets raw buckets version).map RollupRow.teamRow, staged⟩ := by
  intro row among
  obtain ⟨rolled, aggregated, rfl⟩ := List.mem_map.mp among
  obtain ⟨group, grouped, rfl⟩ := List.mem_map.mp aggregated
  obtain ⟨event, selected, rfl⟩ := List.mem_map.mp (List.mem_dedup.mp grouped)
  have own : event ∈ raw.filter fun other => other.group = event.group :=
    List.mem_filter.mpr ⟨(List.mem_filter.mp selected).1, decide_eq_true rfl⟩
  exact List.length_pos_of_mem own

theorem Layer.bucketTotals_eq_of_moved {bucket : Int}
    {moved : Int × String × String × γ → Int × String × String × γ}
    (paired : Function.Involutive moved) (within : ∀ key, (moved key).1 = key.1)
    (same : ∀ key, key.1 = bucket →
      layer.find (moved key).1 (moved key).2.1 (moved key).2.2.1 (moved key).2.2.2
        = start.find key.1 key.2.1 key.2.2.1 key.2.2.2) :
    layer.bucketTotals bucket = start.bucketTotals bucket := by
  have rows : ∀ other : Layer γ, (other.final.filter fun row => row.bucket = bucket)
      = merged TeamRow.key TeamRow.version (other.rollup.filter fun row => row.bucket = bucket) :=
    fun other => filter_merged TeamRow.key TeamRow.version (fun key => key.1 = bucket) other.rollup
  rw [Layer.bucketTotals, Layer.bucketTotals, rows, rows]
  refine sum_merged_of_moved TeamRow.key TeamRow.version TeamRow.totals paired fun key => ?_
  by_cases own : key.1 = bucket
  · rw [lookup_filter_of_kept _ _ fun row _ here => ?_, lookup_filter_of_kept _ _ fun row _ here => ?_]
    · exact same key own
    · exact decide_eq_true ((congrArg Prod.fst here).trans own)
    · exact decide_eq_true ((congrArg Prod.fst here).trans ((within key).trans own))
  · rw [lookup_filter_of_removed _ _ fun row _ here => ?_,
      lookup_filter_of_removed _ _ fun row _ here => ?_]
    · exact decide_eq_false fun there => own ((congrArg Prod.fst here).symm.trans there)
    · exact decide_eq_false fun there =>
        own ((within key).symm.trans ((congrArg Prod.fst here).symm.trans there))

/-- The key a row goes to when the unassigned usage of its group, if any, goes to the team. -/
def Layer.partner (request : TeamAttributionRequest) (start : Layer γ)
    (key : Int × String × String × γ) : Int × String × String × γ :=
  if key.2.1 = request.userId ∧ start.find key.1 request.userId "" key.2.2.2 ≠ none then
    if key.2.2.1 = "" then (key.1, key.2.1, request.teamId, key.2.2.2)
    else if key.2.2.1 = request.teamId then (key.1, key.2.1, "", key.2.2.2)
    else key
  else key

theorem Layer.partner_paired (request : TeamAttributionRequest) (start : Layer γ) :
    Function.Involutive (start.partner request) := by
  rintro ⟨bucket, userId, teamId, group⟩
  have assigned := request.assigned
  unfold Layer.partner
  by_cases goes : userId = request.userId ∧ start.find bucket request.userId "" group ≠ none
  · by_cases free : teamId = ""
    · simp [goes.1, goes.2, free, assigned]
    · by_cases team : teamId = request.teamId
      · simp [goes.1, goes.2, team, assigned]
      · simp [goes.1, goes.2, free, team]
  · simp only [goes, if_false]

theorem Layer.partner_bucket (request : TeamAttributionRequest) (start : Layer γ)
    (key : Int × String × String × γ) : (start.partner request key).1 = key.1 := by
  unfold Layer.partner
  split
  · split
    · rfl
    · split
      · rfl
      · rfl
  · rfl

theorem Layer.During.bucketTotals_eq {request : TeamAttributionRequest}
    (during : layer.During request start buckets .inserted) {bucket : Int}
    (selected : bucket ∈ buckets) (apart : start.Apart request bucket) :
    layer.bucketTotals bucket = start.bucketTotals bucket := by
  refine Layer.bucketTotals_eq_of_moved (start.partner_paired request)
    (start.partner_bucket request) ?_
  rintro ⟨bucket, userId, teamId, group⟩ rfl
  obtain ⟨free, there⟩ := during.reached bucket selected group
  have moving := during.keeps.groups bucket group
  have assigned := request.assigned
  by_cases own : userId = request.userId ∧ (teamId = "" ∨ teamId = request.teamId)
  · obtain ⟨rfl, side⟩ := own
    cases usage : start.find bucket request.userId "" group with
    | none =>
      -- Nothing was unassigned, and nothing goes anywhere.
      have stays : start.partner request (bucket, request.userId, teamId, group)
          = (bucket, request.userId, teamId, group) := by simp [Layer.partner, usage]
      rw [usage] at moving
      rw [stays]
      rcases side with rfl | rfl
      · exact free.trans usage.symm
      · exact moving.of_none
    | some sums =>
      have none := (apart group).resolve_left (by simp [usage])
      have arrived := there sums usage
      rw [none] at arrived
      rcases side with rfl | rfl
      · have goes : start.partner request (bucket, request.userId, "", group)
            = (bucket, request.userId, request.teamId, group) := by simp [Layer.partner, usage]
        rw [goes]
        exact (arrived.resolve_right fun kept => kept.1 rfl).trans usage.symm
      · have comes : start.partner request (bucket, request.userId, request.teamId, group)
            = (bucket, request.userId, "", group) := by simp [Layer.partner, usage, assigned]
        rw [comes]
        exact free.trans none.symm
  · have stays : start.partner request (bucket, userId, teamId, group)
        = (bucket, userId, teamId, group) := by
      unfold Layer.partner
      split
      · next goes =>
        rw [if_neg fun same => own ⟨goes.1, Or.inl same⟩,
          if_neg fun same => own ⟨goes.1, Or.inr same⟩]
      · rfl
    rw [stays]
    exact during.keeps.others bucket userId teamId group own

/-- A call that has inserted its replacements has conserved the usage of its buckets exactly if in
none of them a replacement met a row of the team. -/
theorem Layer.During.conserved_iff {request : TeamAttributionRequest}
    (during : layer.During request start buckets .inserted) (counted : start.Counted) :
    layer.Conserved request start buckets ↔ ∀ bucket ∈ buckets, start.Apart request bucket := by
  constructor
  · intro conserved bucket selected group
    by_contra both
    obtain ⟨free, team⟩ := not_or.mp both
    obtain ⟨sums, free⟩ := Option.ne_none_iff_exists'.mp free
    obtain ⟨old, team⟩ := Option.ne_none_iff_exists'.mp team
    have sumsCounted := counted.find free
    have oldCounted := counted.find team
    -- The group would need both rows' events, and it has those of one.
    have both := (conserved.attributed bucket selected group sums free).2
    have one := (during.reached bucket selected group).2 sums free
    rw [both, team, Option.getD_some] at one
    rcases one with new | ⟨-, kept⟩
    · have events := congrArg Totals.eventCount (Option.some.inj new)
      rw [Totals.eventCount_add] at events
      omega
    · have events := congrArg Totals.eventCount (Option.some.inj kept)
      rw [Totals.eventCount_add] at events
      omega
  · intro apart
    refine ⟨fun bucket selected => during.bucketTotals_eq selected (apart bucket selected),
      fun bucket selected group sums free => ⟨(during.reached bucket selected group).1, ?_⟩,
      during.keeps.others⟩
    have none := (apart bucket selected group).resolve_left (by simp [free])
    have there := (during.reached bucket selected group).2 sums free
    rw [none] at there ⊢
    rw [there.resolve_right fun kept => kept.1 rfl, Option.getD_none, add_zero]

end Layer

/-- A job that has staged nothing yet, with no call at work, and whose tables count events. -/
structure BackfillState.Fresh (s : BackfillState) (request : TeamAttributionRequest) : Prop where
  idle : s.call = none
  v2 : ∀ row ∈ s.v2.staged, row.jobId ≠ request.jobId
  legacy : ∀ row ∈ s.legacy.staged, row.jobId ≠ request.jobId
  v2Counted : s.v2.Counted
  legacyCounted : s.legacy.Counted

theorem Layer.Keeps.of_fresh {γ : Type} [DecidableEq γ] {layer : Layer γ}
    {request : TeamAttributionRequest} (fresh : ∀ row ∈ layer.staged, row.jobId ≠ request.jobId) :
    layer.Keeps request layer where
  ofUser row among own := absurd own (fresh row among)
  others _ _ _ _ _ := rfl
  groups bucket group := by
    have none : layer.stagedTotals request bucket group = none := by
      rw [Layer.stagedTotals, Option.map_eq_none_iff, lookup_eq_none]
      exact fun row among own => fresh row among (congrArg Prod.fst own)
    rw [none]
    exact .untouched _ _

theorem JobHolds.of_fresh {s : BackfillState} {request : TeamAttributionRequest}
    (fresh : s.Fresh request) : JobHolds request s s where
  v2 := .of_fresh fresh.v2
  legacy := .of_fresh fresh.legacy
  sameBuckets bucket group held := by
    refine absurd ?_ held
    rw [Layer.stagedTotals, Option.map_eq_none_iff, lookup_eq_none]
    exact fun row among own => fresh.legacy row among (congrArg Prod.fst own)
  call call atWork := by
    rw [fresh.idle] at atWork
    cases atWork

/-- **Conservation.** From any state of the two tables, through any interruptions and retries of
the job's calls in which no staged row reaches the end of its seven days: when a call completes,
the usage of its buckets is conserved if and only if at the start, in neither table, the user had
in a group of one of these buckets both unassigned usage and usage of the team. -/
theorem backfill_conserves {request : TeamAttributionRequest} {start s : BackfillState}
    (fresh : start.Fresh request)
    (reached : ReachableBy (backfillNext request) (Unexpired request) start s)
    {call : BackfillCall} (completed : s.callAt .completed = some call) :
    (s.v2.Conserved request start.v2 call.buckets ∧
        s.legacy.Conserved request start.legacy call.buckets) ↔
      ∀ bucket ∈ call.buckets, start.v2.Apart request bucket ∧ start.legacy.Apart request bucket := by
  have holds : JobHolds request start s := ReachableBy.invariant (JobHolds request start)
    (.of_fresh fresh) (fun _ _ _ holding admitted moved => holding.step admitted moved) reached
  obtain ⟨v2, legacy, -⟩ := holds.callAt completed
  rw [v2.conserved_iff fresh.v2Counted, legacy.conserved_iff fresh.legacyCounted]
  exact ⟨fun both bucket selected => ⟨both.1 bucket selected, both.2 bucket selected⟩,
    fun both => ⟨fun bucket selected => (both bucket selected).1,
      fun bucket selected => (both bucket selected).2⟩⟩

/-! ### Runs -/

def sampleJob : TeamAttributionRequest := ⟨"user-1", "team-1", "job-1", by decide⟩

def teamRowOf (teamId : String) : TeamRow PricedGroup where
  bucket := 0
  userId := "user-1"
  teamId := teamId
  group := ⟨"codex", "session-1", "gpt-5", "host-1", "r1", .priced⟩
  totals := ⟨1, 10, 1, 0, 0, 500⟩
  version := 1

/-- The second version of the table has the rows, and the first one is empty. -/
def rollupOf (rows : List (TeamRow PricedGroup)) : BackfillState :=
  ⟨100000000, ⟨rows, []⟩, ⟨[], []⟩, none⟩

def beginFirstHour : BackfillAction := .begin ⟨100, 3600000, none, none⟩

def backfillStatements : List BackfillAction :=
  [.stageV2, .stageLegacy, .deleteV2, .deleteLegacy, .insertV2, .insertLegacy, .verify, .complete]

theorem fresh_rollupOf {rows : List (TeamRow PricedGroup)}
    (counted : ∀ row ∈ rows, 0 < row.totals.eventCount) : (rollupOf rows).Fresh sampleJob where
  idle := rfl
  v2 _ among := absurd among List.not_mem_nil
  legacy _ among := absurd among List.not_mem_nil
  v2Counted := counted
  legacyCounted _ among := absurd among List.not_mem_nil

theorem unexpired_of_forall {request : TeamAttributionRequest} {actions : List BackfillAction}
    (none : ∀ action ∈ actions, action ≠ .expireStaged) (s : BackfillState) :
    AdmittedRun (backfillNext request) (Unexpired request) s actions := by
  refine .of_forall (fun action among s => ?_) s
  cases action with
  | expireStaged => exact absurd rfl (none _ among)
  | _ => trivial

/-- A call that stops after it has deleted the unassigned row, and the call that takes it on. -/
theorem backfill_conserves_interrupted :
    ∃ s call, ReachableBy (backfillNext sampleJob) (Unexpired sampleJob) (rollupOf [teamRowOf ""]) s ∧
      s.callAt .completed = some call ∧ call.buckets = [0] ∧
      s.v2.Conserved sampleJob (rollupOf [teamRowOf ""]).v2 [0] := by
  have evaluated : ∃ s, run (backfillNext sampleJob) (rollupOf [teamRowOf ""])
      ([beginFirstHour, .stageV2, .stageLegacy, .deleteV2, .interrupt, .tick 5000, beginFirstHour]
        ++ backfillStatements) = some s ∧
      ∃ call, s.callAt .completed = some call ∧ call.buckets = [0] := ⟨_, rfl, _, rfl, by decide⟩
  obtain ⟨s, ran, call, completed, buckets⟩ := evaluated
  have reached := ReachableBy.of_run _ (unexpired_of_forall
    (by simp [beginFirstHour, backfillStatements]) _) ran
  have apart : (rollupOf [teamRowOf ""]).v2.Apart sampleJob 0 := by
    refine fun group => Or.inr ?_
    rw [Layer.find, Option.map_eq_none_iff, lookup_eq_none]
    intro row among own
    cases List.mem_singleton.mp among
    have team : "" = "team-1" := congrArg (·.2.2.1) own
    exact absurd team (by decide)
  have conserved := (backfill_conserves (fresh_rollupOf (by decide)) reached completed).mpr (by
    rw [buckets]
    intro bucket selected
    cases List.mem_singleton.mp selected
    exact ⟨apart, fun _ => Or.inl rfl⟩)
  rw [buckets] at conserved
  exact ⟨s, call, reached, completed, buckets, conserved.1⟩

/-- **A row of the team is lost.** The user has one unassigned event and one of the team in the
same group: after the call the team has one event there, as many as were staged. -/
theorem not_backfill_conserves : ¬ ∀ (request : TeamAttributionRequest) (start s : BackfillState),
    start.Fresh request → ReachableBy (backfillNext request) (Unexpired request) start s →
      ∀ call, s.callAt .completed = some call →
        s.v2.Conserved request start.v2 call.buckets ∧
          s.legacy.Conserved request start.legacy call.buckets := by
  intro claimed
  have evaluated : ∃ s, run (backfillNext sampleJob) (rollupOf [teamRowOf "", teamRowOf "team-1"])
      (beginFirstHour :: backfillStatements) = some s ∧
      ∃ call, s.callAt .completed = some call ∧ 0 ∈ call.buckets ∧
        s.v2.bucketTotals 0
          ≠ (rollupOf [teamRowOf "", teamRowOf "team-1"]).v2.bucketTotals 0 :=
    ⟨_, rfl, _, rfl, by decide, by decide⟩
  obtain ⟨s, ran, call, completed, selected, lost⟩ := evaluated
  have reached := ReachableBy.of_run _ (unexpired_of_forall
    (by simp [beginFirstHour, backfillStatements]) _) ran
  exact lost ((claimed _ _ s (fresh_rollupOf (by decide)) reached call completed).1.sums 0 selected)

end Toard.Storage
