/-
**A rollup table through a call of the team attribution.**

What each statement of `backfillRollupOnly` does to one of the two 15-minute tables and to what is
staged of it. The usage of a user in a group of a bucket moves through the calls of the job: it is
unassigned, then staged as well, then staged only, then the team's (`Moving`). An interruption
leaves it where it is, and the next call takes it on from there.
-/

import Toard.Storage.TeamBackfill

namespace Toard.Storage

open Toard.Library

/-! ### What a reader finds -/

section Layer

variable {γ : Type} [DecidableEq γ] {request : TeamAttributionRequest}

/-- The sums that a reader of the table finds for a group of a bucket. -/
def Layer.find (layer : Layer γ) (bucket : Int) (userId teamId : String) (group : γ) :
    Option Totals :=
  (lookup TeamRow.key TeamRow.version layer.rollup (bucket, userId, teamId, group)).map
    TeamRow.totals

def Layer.stagedTotals (layer : Layer γ) (request : TeamAttributionRequest) (bucket : Int)
    (group : γ) : Option Totals :=
  (lookup StagedRow.key StagedRow.version layer.staged
    (request.jobId, bucket, request.userId, group)).map StagedRow.totals

omit [DecidableEq γ] in
theorem TeamRow.key_eq {row : TeamRow γ} {bucket : Int} {userId teamId : String} {group : γ} :
    row.key = (bucket, userId, teamId, group) ↔
      row.bucket = bucket ∧ row.userId = userId ∧ row.teamId = teamId ∧ row.group = group := by
  simp [TeamRow.key]

theorem Layer.mem_final {layer : Layer γ} {row : TeamRow γ} (among : row ∈ layer.final) :
    layer.find row.bucket row.userId row.teamId row.group = some row.totals := by
  have found := (mem_merged TeamRow.key TeamRow.version).mp among
  rw [Layer.find]
  exact congrArg (Option.map TeamRow.totals) found

theorem Layer.exists_of_find {layer : Layer γ} {bucket : Int} {userId teamId : String} {group : γ}
    {sums : Totals} (found : layer.find bucket userId teamId group = some sums) :
    ∃ row ∈ layer.final, row.key = (bucket, userId, teamId, group) ∧ row.totals = sums := by
  obtain ⟨row, here, same⟩ := Option.map_eq_some_iff.mp found
  have own := (key_of_lookup TeamRow.key TeamRow.version here).2
  refine ⟨row, (mem_merged TeamRow.key TeamRow.version).mpr ?_, own, same⟩
  rw [own]
  exact here

theorem Layer.mem_jobRows {layer : Layer γ} {row : StagedRow γ} (among : row ∈ layer.jobRows request) :
    row ∈ layer.staged ∧ row.jobId = request.jobId ∧
      lookup StagedRow.key StagedRow.version layer.staged row.key = some row := by
  obtain ⟨final, own⟩ := List.mem_filter.mp among
  have found := (mem_merged StagedRow.key StagedRow.version).mp final
  exact ⟨(key_of_lookup StagedRow.key StagedRow.version found).1, of_decide_eq_true own, found⟩

theorem Layer.exists_of_stagedTotals {layer : Layer γ} {bucket : Int} {group : γ} {sums : Totals}
    (found : layer.stagedTotals request bucket group = some sums) :
    ∃ row ∈ layer.jobRows request, row.bucket = bucket ∧ row.userId = request.userId ∧
      row.group = group ∧ row.totals = sums := by
  obtain ⟨row, here, same⟩ := Option.map_eq_some_iff.mp found
  have own := (key_of_lookup StagedRow.key StagedRow.version here).2
  have jobId : row.jobId = request.jobId := congrArg Prod.fst own
  have final : row ∈ merged StagedRow.key StagedRow.version layer.staged := by
    rw [mem_merged, own]
    exact here
  exact ⟨row, List.mem_filter.mpr ⟨final, decide_eq_true jobId⟩,
    congrArg (·.2.1) own, congrArg (·.2.2.1) own, congrArg (·.2.2.2) own, same⟩

def Layer.OfUser (layer : Layer γ) (request : TeamAttributionRequest) : Prop :=
  ∀ row ∈ layer.staged, row.jobId = request.jobId → row.userId = request.userId

theorem Layer.stagedTotals_of_mem {layer : Layer γ} (ofUser : layer.OfUser request)
    {row : StagedRow γ} (among : row ∈ layer.jobRows request) :
    layer.stagedTotals request row.bucket row.group = some row.totals := by
  obtain ⟨staged, own, found⟩ := Layer.mem_jobRows among
  rw [Layer.stagedTotals, ← own, ← ofUser row staged own]
  exact congrArg (Option.map StagedRow.totals) found

theorem Layer.mem_stagedBuckets {layer : Layer γ} (ofUser : layer.OfUser request) {bucket : Int} :
    bucket ∈ layer.stagedBuckets request ↔
      ∃ group, layer.stagedTotals request bucket group ≠ none := by
  rw [Layer.stagedBuckets, List.mem_insertionSort, List.mem_dedup, List.mem_map]
  constructor
  · rintro ⟨row, among, rfl⟩
    exact ⟨row.group, by simp [Layer.stagedTotals_of_mem ofUser among]⟩
  · rintro ⟨group, staged⟩
    obtain ⟨sums, found⟩ := Option.ne_none_iff_exists'.mp staged
    obtain ⟨row, among, same, -⟩ := Layer.exists_of_stagedTotals found
    exact ⟨row, among, same⟩

theorem Layer.find_of_mem_selectedBuckets {layer : Layer γ} {selection : Selection} {bucket : Int}
    (among : bucket ∈ layer.selectedBuckets request selection) :
    ∃ group, layer.find bucket request.userId "" group ≠ none := by
  have sorted := List.mem_of_mem_take among
  rw [List.mem_insertionSort, List.mem_dedup, List.mem_map] at sorted
  obtain ⟨row, rowAmong, rfl⟩ := sorted
  obtain ⟨final, chosen⟩ := List.mem_filter.mp rowAmong
  obtain ⟨⟨user, team⟩, -⟩ : (row.userId = request.userId ∧ row.teamId = "") ∧ _ := by
    simpa [TeamAttributionRequest.unassigned] using chosen
  have found := Layer.mem_final final
  rw [user, team] at found
  exact ⟨row.group, by simp [found]⟩

/-! ### What each statement does -/

theorem Layer.mem_unassignedRows {layer : Layer γ} {buckets : List Int} {row : TeamRow γ} :
    row ∈ layer.unassignedRows request buckets ↔
      row ∈ layer.final ∧ row.userId = request.userId ∧ row.teamId = "" ∧ row.bucket ∈ buckets := by
  simp [Layer.unassignedRows, TeamAttributionRequest.unassigned, and_assoc]

theorem Layer.find_of_staged {layer : Layer γ} {buckets : List Int} {stageVersion now : Int}
    {row : StagedRow γ}
    (among : row ∈ (layer.unassignedRows request buckets).map fun old =>
      old.stagedFor request.jobId stageVersion now) :
    row.bucket ∈ buckets ∧ row.userId = request.userId ∧
      layer.find row.bucket request.userId "" row.group = some row.totals := by
  obtain ⟨old, chosen, rfl⟩ := List.mem_map.mp among
  obtain ⟨final, user, team, selected⟩ := Layer.mem_unassignedRows.mp chosen
  have found := Layer.mem_final final
  rw [user, team] at found
  exact ⟨selected, user, found⟩

theorem StagedRow.key_eq {row : StagedRow γ} {bucket : Int} {group : γ}
    (own : row.key = (request.jobId, bucket, request.userId, group)) :
    row.bucket = bucket ∧ row.group = group :=
  ⟨congrArg (·.2.1) own, congrArg (·.2.2.2) own⟩

theorem Layer.stagedTotals_stage_of_none {layer : Layer γ} {buckets : List Int}
    {stageVersion now : Int} {bucket : Int} {group : γ}
    (unselected : bucket ∈ buckets → layer.find bucket request.userId "" group = none) :
    (layer.stage request buckets stageVersion now).stagedTotals request bucket group
      = layer.stagedTotals request bucket group := by
  rw [Layer.stagedTotals, Layer.stagedTotals, Layer.stage, lookup_append_of_none]
  intro row among same
  obtain ⟨selected, -, found⟩ := Layer.find_of_staged among
  obtain ⟨rfl, rfl⟩ := StagedRow.key_eq same
  rw [unselected selected] at found
  cases found

theorem Layer.stagedTotals_stage_of_some {layer : Layer γ} {buckets : List Int}
    {stageVersion now : Int} {bucket : Int} {group : γ} {sums : Totals} (selected : bucket ∈ buckets)
    (found : layer.find bucket request.userId "" group = some sums)
    (before : layer.stagedTotals request bucket group = none ∨
      layer.stagedTotals request bucket group = some sums) :
    (layer.stage request buckets stageVersion now).stagedTotals request bucket group
      = some sums := by
  rw [Layer.stagedTotals, Layer.stage]
  cases after : lookup StagedRow.key StagedRow.version
      (layer.staged ++ (layer.unassignedRows request buckets).map fun old =>
        old.stagedFor request.jobId stageVersion now)
      (request.jobId, bucket, request.userId, group) with
  | none =>
    -- The unassigned row itself is staged.
    obtain ⟨row, final, own, -⟩ := Layer.exists_of_find found
    obtain ⟨rfl, user, team, rfl⟩ := TeamRow.key_eq.mp own
    have chosen : row ∈ layer.unassignedRows request buckets :=
      Layer.mem_unassignedRows.mpr ⟨final, user, team, selected⟩
    rw [← user] at after
    exact absurd after (lookup_append_ne_none _ _ (Or.inr (List.mem_map_of_mem chosen)))
  | some row =>
    rcases lookup_append_cases _ _ after with old | new
    · rw [Layer.stagedTotals, old] at before
      simpa using before
    · obtain ⟨among, own⟩ := key_of_lookup _ _ new
      obtain ⟨rfl, rfl⟩ := StagedRow.key_eq own
      exact (Layer.find_of_staged among).2.2.symm.trans found

theorem Layer.OfUser.stage {layer : Layer γ} (ofUser : layer.OfUser request) (buckets : List Int)
    (stageVersion now : Int) : (layer.stage request buckets stageVersion now).OfUser request := by
  intro row among own
  rcases List.mem_append.mp among with old | new
  · exact ofUser row old own
  · exact (Layer.find_of_staged new).2.1

theorem Layer.find_deleteOld_of_selected {layer : Layer γ} {buckets : List Int} {bucket : Int}
    (selected : bucket ∈ buckets) (group : γ) :
    (layer.deleteOld request buckets).find bucket request.userId "" group = none := by
  rw [Layer.find, Layer.deleteOld, lookup_filter_of_removed, Option.map_none]
  intro row _ own
  obtain ⟨rfl, user, team, -⟩ := TeamRow.key_eq.mp own
  simpa [TeamAttributionRequest.unassigned, user, team] using selected

theorem Layer.find_deleteOld_of_other {layer : Layer γ} {buckets : List Int} {bucket : Int}
    {userId teamId : String} {group : γ}
    (other : ¬ (userId = request.userId ∧ teamId = "" ∧ bucket ∈ buckets)) :
    (layer.deleteOld request buckets).find bucket userId teamId group
      = layer.find bucket userId teamId group := by
  rw [Layer.find, Layer.find, Layer.deleteOld, lookup_filter_of_kept]
  intro row _ own
  obtain ⟨rfl, rfl, rfl, -⟩ := TeamRow.key_eq.mp own
  simpa [TeamAttributionRequest.unassigned, imp_iff_not_or, or_assoc] using other

theorem Layer.stagedTotals_of_replacement {layer : Layer γ} (ofUser : layer.OfUser request)
    {replacementVersion : Int} {row : TeamRow γ}
    (among : row ∈ (layer.jobRows request).map fun old =>
      old.replacement request.teamId replacementVersion) :
    row.userId = request.userId ∧ row.teamId = request.teamId ∧
      layer.stagedTotals request row.bucket row.group = some row.totals := by
  obtain ⟨old, own, rfl⟩ := List.mem_map.mp among
  obtain ⟨staged, job, -⟩ := Layer.mem_jobRows own
  exact ⟨ofUser old staged job, rfl, Layer.stagedTotals_of_mem ofUser own⟩

theorem Layer.find_insertReplacement_of_other {layer : Layer γ} (ofUser : layer.OfUser request)
    {replacementVersion : Int} {bucket : Int} {userId teamId : String} {group : γ}
    (other : userId = request.userId → teamId = request.teamId →
      layer.stagedTotals request bucket group = none) :
    (layer.insertReplacement request replacementVersion).find bucket userId teamId group
      = layer.find bucket userId teamId group := by
  rw [Layer.find, Layer.find, Layer.insertReplacement, lookup_append_of_none]
  intro row among own
  obtain ⟨user, team, staged⟩ := Layer.stagedTotals_of_replacement ofUser among
  obtain ⟨rfl, rfl, rfl, rfl⟩ := TeamRow.key_eq.mp own
  rw [other user team] at staged
  cases staged

theorem Layer.find_insertReplacement_of_staged {layer : Layer γ} (ofUser : layer.OfUser request)
    (replacementVersion : Int) {bucket : Int} {group : γ} {sums : Totals}
    (staged : layer.stagedTotals request bucket group = some sums) :
    (layer.insertReplacement request replacementVersion).find bucket request.userId request.teamId
        group = some sums ∨
      (layer.find bucket request.userId request.teamId group ≠ none ∧
        (layer.insertReplacement request replacementVersion).find bucket request.userId
          request.teamId group = layer.find bucket request.userId request.teamId group) := by
  rw [Layer.find, Layer.insertReplacement]
  cases after : lookup TeamRow.key TeamRow.version
      (layer.rollup ++ (layer.jobRows request).map fun old =>
        old.replacement request.teamId replacementVersion)
      (bucket, request.userId, request.teamId, group) with
  | none =>
    obtain ⟨row, among, rfl, user, rfl, -⟩ := Layer.exists_of_stagedTotals staged
    rw [← user] at after
    exact absurd after (lookup_append_ne_none TeamRow.key TeamRow.version
      (Or.inr (List.mem_map_of_mem among)))
  | some row =>
    rcases lookup_append_cases _ _ after with old | new
    · refine Or.inr ?_
      rw [Layer.find, old]
      exact ⟨nofun, rfl⟩
    · refine Or.inl ?_
      obtain ⟨among, own⟩ := key_of_lookup _ _ new
      have found := (Layer.stagedTotals_of_replacement ofUser among).2.2
      obtain ⟨rfl, -, -, rfl⟩ := TeamRow.key_eq.mp own
      exact found.symm.trans staged

theorem Layer.stagedTotals_cleanup {layer : Layer γ} (bucket : Int) (group : γ) :
    (layer.cleanup request).stagedTotals request bucket group = none := by
  rw [Layer.stagedTotals, Layer.cleanup, lookup_filter_of_removed, Option.map_none]
  intro row _ own
  have job : row.jobId = request.jobId := congrArg Prod.fst own
  simpa using job

def Layer.Lasting (layer : Layer γ) (request : TeamAttributionRequest) (now : Int) : Prop :=
  ∀ row ∈ layer.staged, row.jobId = request.jobId → now < row.createdAt + stagingTtlMs

theorem Layer.stagedTotals_expireStaged {layer : Layer γ} {now : Int}
    (lasting : layer.Lasting request now) (bucket : Int) (group : γ) :
    (layer.expireStaged now).stagedTotals request bucket group
      = layer.stagedTotals request bucket group := by
  rw [Layer.stagedTotals, Layer.stagedTotals, Layer.expireStaged, lookup_filter_of_kept]
  intro row among own
  exact decide_eq_true (lasting row among (congrArg Prod.fst own))

/-! ### A group on its way -/

/-- The team has the sums, or still the row it had: one of the two replaced the other. -/
def Arrived (sums : Totals) (team0 team : Option Totals) : Prop :=
  team = some sums ∨ (team0 ≠ none ∧ team = team0)

/-- How far the usage of a group has come: what was unassigned and the team's at the start, and
what is unassigned, the team's and staged now. -/
inductive Moving : (free0 team0 free team staged : Option Totals) → Prop where
  | untouched (free team : Option Totals) : Moving free team free team none
  | staged (sums : Totals) (team : Option Totals) :
      Moving (some sums) team (some sums) team (some sums)
  | deleted (sums : Totals) (team : Option Totals) : Moving (some sums) team none team (some sums)
  | arrived {sums : Totals} {team0 team staged : Option Totals} (there : Arrived sums team0 team)
      (left : staged = none ∨ staged = some sums) : Moving (some sums) team0 none team staged

section Moving

variable {free0 team0 free team team' staged : Option Totals} {sums : Totals}

theorem Moving.restage (moving : Moving free0 team0 (some sums) team staged) :
    (staged = none ∨ staged = some sums) ∧ Moving free0 team0 (some sums) team (some sums) := by
  cases moving with
  | untouched => exact ⟨Or.inl rfl, .staged sums team0⟩
  | staged => exact ⟨Or.inr rfl, .staged sums team0⟩

theorem Moving.delete (moving : Moving free0 team0 free team staged)
    (held : free ≠ none → staged ≠ none) : Moving free0 team0 none team staged := by
  cases moving with
  | untouched =>
    cases free0 with
    | none => exact .untouched none team0
    | some sums => exact absurd rfl (held nofun)
  | staged sums => exact .deleted sums team0
  | deleted sums => exact .deleted sums team0
  | arrived there left => exact .arrived there left

theorem Moving.arrived_of_none (moving : Moving free0 team0 none team none)
    (before : free0 = some sums) : Arrived sums team0 team := by
  cases before
  cases moving with
  | arrived there => exact there

theorem Moving.insert (moving : Moving free0 team0 none team (some sums))
    (inserted : team' = some sums ∨ (team ≠ none ∧ team' = team)) :
    Moving free0 team0 none team' (some sums) ∧ ∀ usage, free0 = some usage →
      Arrived usage team0 team' := by
  have there : free0 = some sums ∧ Arrived sums team0 team' := by
    cases moving with
    | deleted => exact ⟨rfl, inserted⟩
    | arrived there left =>
      cases left.resolve_left nofun
      refine ⟨rfl, ?_⟩
      rcases inserted with new | ⟨-, rfl⟩
      · exact Or.inl new
      · exact there
  obtain ⟨rfl, there⟩ := there
  refine ⟨.arrived there (Or.inr rfl), fun usage same => ?_⟩
  cases same
  exact there

theorem Moving.clean (moving : Moving free0 team0 none team staged)
    (there : ∀ usage, free0 = some usage → Arrived usage team0 team) :
    Moving free0 team0 none team none := by
  cases moving with
  | untouched => exact .untouched none team0
  | deleted sums => exact .arrived (there sums rfl) (Or.inl rfl)
  | arrived there => exact .arrived there (Or.inl rfl)

theorem Moving.of_none (moving : Moving none team0 free team staged) : team = team0 := by
  cases moving with
  | untouched => rfl

end Moving

/-! ### A layer through a call -/

structure Layer.Keeps (request : TeamAttributionRequest) (layer start : Layer γ) : Prop where
  ofUser : layer.OfUser request
  others : ∀ bucket userId teamId group,
    ¬ (userId = request.userId ∧ (teamId = "" ∨ teamId = request.teamId)) →
    layer.find bucket userId teamId group = start.find bucket userId teamId group
  groups : ∀ bucket group,
    Moving (start.find bucket request.userId "" group)
      (start.find bucket request.userId request.teamId group)
      (layer.find bucket request.userId "" group)
      (layer.find bucket request.userId request.teamId group)
      (layer.stagedTotals request bucket group)

inductive LayerPoint where
  | selected
  | staged
  | deleted
  | inserted

def LayerPoint.Reached (point : LayerPoint) (free0 team0 free team staged : Option Totals) : Prop :=
  match point with
  | .selected => True
  | .staged => free ≠ none → staged ≠ none
  | .deleted => free = none
  | .inserted => free = none ∧ ∀ sums, free0 = some sums → Arrived sums team0 team

structure Layer.During (request : TeamAttributionRequest) (layer start : Layer γ)
    (buckets : List Int) (point : LayerPoint) : Prop where
  keeps : layer.Keeps request start
  within : ∀ bucket group, bucket ∉ buckets → layer.stagedTotals request bucket group = none
  reached : ∀ bucket ∈ buckets, ∀ group,
    point.Reached (start.find bucket request.userId "" group)
      (start.find bucket request.userId request.teamId group)
      (layer.find bucket request.userId "" group)
      (layer.find bucket request.userId request.teamId group)
      (layer.stagedTotals request bucket group)

variable {start layer : Layer γ} {buckets : List Int}

theorem Layer.During.stage (during : layer.During request start buckets .selected)
    (stageVersion now : Int) :
    (layer.stage request buckets stageVersion now).During request start buckets .staged where
  keeps :=
    { ofUser := during.keeps.ofUser.stage buckets stageVersion now
      others := during.keeps.others
      groups := fun bucket group => by
        have before := during.keeps.groups bucket group
        show Moving _ _ (layer.find bucket request.userId "" group)
          (layer.find bucket request.userId request.teamId group) _
        by_cases selected : bucket ∈ buckets
        · cases found : layer.find bucket request.userId "" group with
          | none =>
            rw [Layer.stagedTotals_stage_of_none fun _ => found, ← found]
            exact before
          | some sums =>
            rw [found] at before
            obtain ⟨held, staged⟩ := before.restage
            rw [Layer.stagedTotals_stage_of_some selected found held]
            exact staged
        · rw [Layer.stagedTotals_stage_of_none fun among => absurd among selected]
          exact before }
  within bucket group outside := by
    rw [Layer.stagedTotals_stage_of_none fun among => absurd among outside]
    exact during.within bucket group outside
  reached bucket selected group := by
    intro free
    obtain ⟨sums, found⟩ := Option.ne_none_iff_exists'.mp free
    have before := during.keeps.groups bucket group
    have same : layer.find bucket request.userId "" group = some sums := found
    rw [same] at before
    rw [Layer.stagedTotals_stage_of_some selected same before.restage.1]
    exact nofun

theorem Layer.During.staged_stage (during : layer.During request start buckets .selected)
    (stageVersion now : Int) {bucket : Int} {group : γ}
    (held : layer.stagedTotals request bucket group ≠ none) :
    (layer.stage request buckets stageVersion now).stagedTotals request bucket group ≠ none := by
  have before := during.keeps.groups bucket group
  by_cases selected : bucket ∈ buckets
  · cases found : layer.find bucket request.userId "" group with
    | none =>
      rw [Layer.stagedTotals_stage_of_none fun _ => found]
      exact held
    | some sums =>
      rw [found] at before
      rw [Layer.stagedTotals_stage_of_some selected found before.restage.1]
      exact nofun
  · exact absurd (during.within bucket group selected) held

theorem Layer.During.deleteOld (during : layer.During request start buckets .staged) :
    (layer.deleteOld request buckets).During request start buckets .deleted := by
  have team : ∀ bucket group, (layer.deleteOld request buckets).find bucket request.userId
      request.teamId group = layer.find bucket request.userId request.teamId group :=
    fun bucket group => Layer.find_deleteOld_of_other fun own => request.assigned own.2.1
  refine ⟨⟨during.keeps.ofUser, fun bucket userId teamId group other => ?_,
    fun bucket group => ?_⟩, during.within, fun bucket selected group =>
      Layer.find_deleteOld_of_selected selected group⟩
  · rw [Layer.find_deleteOld_of_other fun own => other ⟨own.1, Or.inl own.2.1⟩]
    exact during.keeps.others bucket userId teamId group other
  · have before := during.keeps.groups bucket group
    rw [team]
    by_cases selected : bucket ∈ buckets
    · rw [Layer.find_deleteOld_of_selected selected]
      exact before.delete (during.reached bucket selected group)
    · rw [Layer.find_deleteOld_of_other fun own => selected own.2.2]
      exact before

theorem Layer.During.insertReplacement (during : layer.During request start buckets .deleted)
    (replacementVersion : Int) :
    (layer.insertReplacement request replacementVersion).During request start buckets .inserted := by
  have ofUser := during.keeps.ofUser
  have free : ∀ bucket group, (layer.insertReplacement request replacementVersion).find bucket
      request.userId "" group = layer.find bucket request.userId "" group :=
    fun bucket group => Layer.find_insertReplacement_of_other ofUser
      fun _ own => absurd own.symm request.assigned
  -- What the insert makes of a group, staged or not.
  have group : ∀ bucket group, Moving (start.find bucket request.userId "" group)
      (start.find bucket request.userId request.teamId group)
      (layer.find bucket request.userId "" group)
      ((layer.insertReplacement request replacementVersion).find bucket request.userId
        request.teamId group) (layer.stagedTotals request bucket group) ∧
      (bucket ∈ buckets → ∀ sums, start.find bucket request.userId "" group = some sums →
        Arrived sums (start.find bucket request.userId request.teamId group)
          ((layer.insertReplacement request replacementVersion).find bucket request.userId
            request.teamId group)) := by
    intro bucket group
    have before := during.keeps.groups bucket group
    cases staged : layer.stagedTotals request bucket group with
    | none =>
      rw [Layer.find_insertReplacement_of_other ofUser fun _ _ => staged]
      rw [staged] at before
      refine ⟨before, fun selected sums was => ?_⟩
      rw [during.reached bucket selected group] at before
      exact before.arrived_of_none was
    | some usage =>
      have selected : bucket ∈ buckets := by
        by_contra outside
        exact absurd (staged.symm.trans (during.within bucket group outside)) nofun
      have deleted : layer.find bucket request.userId "" group = none :=
        during.reached bucket selected group
      rw [staged, deleted] at before
      have after := before.insert
        (Layer.find_insertReplacement_of_staged ofUser replacementVersion staged)
      rw [deleted]
      exact ⟨after.1, fun _ => after.2⟩
  refine ⟨⟨ofUser, fun bucket userId teamId other outside => ?_, fun bucket other => ?_⟩,
    during.within, fun bucket selected other => ⟨?_, (group bucket other).2 selected⟩⟩
  · rw [Layer.find_insertReplacement_of_other ofUser
      fun user team => absurd ⟨user, Or.inr team⟩ outside]
    exact during.keeps.others bucket userId teamId other outside
  · rw [free]
    exact (group bucket other).1
  · rw [free]
    exact during.reached bucket selected other

theorem Layer.During.cleanup (during : layer.During request start buckets .inserted) :
    (layer.cleanup request).Keeps request start where
  ofUser row among own := absurd own (of_decide_eq_true (List.mem_filter.mp among).2)
  others := during.keeps.others
  groups bucket group := by
    have before := during.keeps.groups bucket group
    rw [Layer.stagedTotals_cleanup]
    by_cases selected : bucket ∈ buckets
    · obtain ⟨free, there⟩ := during.reached bucket selected group
      show Moving _ _ (layer.find bucket request.userId "" group)
        (layer.find bucket request.userId request.teamId group) _
      rw [free] at before ⊢
      exact before.clean there
    · rw [during.within bucket group selected] at before
      exact before

theorem Layer.Keeps.expireStaged {now : Int} (keeps : layer.Keeps request start)
    (lasting : layer.Lasting request now) : (layer.expireStaged now).Keeps request start where
  ofUser row among own := keeps.ofUser row (List.mem_filter.mp among).1 own
  others := keeps.others
  groups bucket group := by
    rw [Layer.stagedTotals_expireStaged lasting]
    exact keeps.groups bucket group

theorem Layer.During.expireStaged {point : LayerPoint} {now : Int}
    (during : layer.During request start buckets point) (lasting : layer.Lasting request now) :
    (layer.expireStaged now).During request start buckets point where
  keeps := during.keeps.expireStaged lasting
  within bucket group outside := by
    rw [Layer.stagedTotals_expireStaged lasting]
    exact during.within bucket group outside
  reached bucket selected group := by
    rw [Layer.stagedTotals_expireStaged lasting]
    exact during.reached bucket selected group

end Layer

end Toard.Storage
