/-
**Putting up a time zone's jobs (`activateTimezoneRollupWith`).**

An activation registers the time zone and puts up jobs for its recent days and hours. A bucket that has
a job is left as it is, whatever the job's status.

* **`activation_leaves_work`**: an activation leaves work for all other buckets.
-/

import Toard.Library.Chunks
import Toard.Timezone.Boundaries
import Toard.Timezone.Coverage

namespace Toard.Timezone

open Toard.Library (Reachable ReachableBy run chunks)

/-! ### Activations -/

def MAX_ACTIVE_ROLLUP_TIMEZONES : Nat := 64

def TIMEZONE_ROLLUP_DAY_PREWARM_DAYS : Nat := 400

def TIMEZONE_ROLLUP_PREWARM_CHUNK_BUCKETS : Nat := 16

/-- The limits of `timezoneCoverageCutoffs`; none where it throws. -/
def timezoneCoverageCutoffs (zone : Zone) (now : Int) : Option (Int × Int) := do
  let today := localDateKey zone now
  let hour ← firstInstantOfLocalDate zone (today - (hourPrewarmDays - 1))
  let day ← firstInstantOfLocalDate zone (today - (TIMEZONE_ROLLUP_DAY_PREWARM_DAYS - 1))
  some (hour, day)

def dailyPrewarmWindows (zone : Zone) (now : Int) : Option (List TimezoneRollupWindow) := do
  let cutoffs ← timezoneCoverageCutoffs zone now
  let firstDate := localDateKey zone cutoffs.2
  (List.range TIMEZONE_ROLLUP_DAY_PREWARM_DAYS).mapM fun index => do
    let bucket ← firstInstantOfLocalDate zone (firstDate + index)
    let sourceTo ← firstInstantOfLocalDate zone (firstDate + index + 1)
    some { bucket, sourceTo }

def prewarmMissingBuckets (now : Int) (tables : RollupTables) (resolution : Resolution)
    (timezone : String) (windows : List TimezoneRollupWindow) : RollupTables :=
  (chunks TIMEZONE_ROLLUP_PREWARM_CHUNK_BUCKETS windows).foldl
    (fun tables piece => prewarmMissingJobs now tables resolution timezone piece) tables

/-- `ensureRegisteredTimezone`; none for `capacity`. -/
def ensureRegisteredTimezone (tables : RollupTables) (timezone : String) (maximum : Nat) :
    Option RollupTables :=
  if timezone ∈ tables.timezones ∨ tables.timezones.length < maximum then
    some (registerTimezone tables timezone)
  else none

/-- `activateTimezoneRollupWith` for a canonical time zone; none where it throws. -/
def activateTimezoneRollupWith (zones : String → Zone) (now : Int) (tables : RollupTables)
    (timezone : String) (supportsTimezone : Bool) : Option RollupTables := do
  if supportsTimezone = false then none
  else
    let registered ← ensureRegisteredTimezone tables timezone MAX_ACTIVE_ROLLUP_TIMEZONES
    let days ← dailyPrewarmWindows (zones timezone) now
    let hours ← hourlyPrewarmWindows (zones timezone) now
    some (prewarmMissingBuckets now
      (prewarmMissingBuckets now registered .day timezone days) .hour timezone hours)

def hourBuckets (zones : String → Zone) (now : Int) (timezone : String) : List BucketKey :=
  ((hourlyPrewarmWindows (zones timezone) now).getD []).map fun window =>
    { resolution := .hour, timezone, bucket := window.bucket }

/-! ### Buckets that are worked on, and those that are not -/

/-- A bucket is covered, or has a job that waits or is being worked on. -/
def Worked (tables : RollupTables) (key : BucketKey) : Prop :=
  tables.coverage key = true ∨
    ∃ job, tables.jobs key = some job ∧ (job.status = .pending ∨ job.status = .inflight)

def stale (tables : RollupTables) (key : BucketKey) : Bool :=
  (tables.jobs key).any (fun job => job.status = .done) && !tables.coverage key

theorem stale_congr {before after : RollupTables} {key : BucketKey}
    (jobs : after.jobs key = before.jobs key) (coverage : after.coverage key = before.coverage key) :
    stale after key = stale before key := by
  rw [stale, stale, jobs, coverage]

theorem stale_of_open {tables : RollupTables} {key : BucketKey} {job : TimezoneRollupJob}
    (here : tables.jobs key = some job) (other : job.status ≠ .done) : stale tables key = false := by
  rw [stale, here, Option.any_some, decide_eq_false other]
  rfl

theorem worked_iff {tables : RollupTables} {key : BucketKey}
    (known : tables.coverage key = true ∨ (tables.jobs key).isSome) :
    Worked tables key ↔ stale tables key = false := by
  rw [Worked, stale]
  cases covered : tables.coverage key with
  | true => simp
  | false =>
    rw [covered] at known
    obtain ⟨job, here⟩ := Option.isSome_iff_exists.mp (known.resolve_left Bool.false_ne_true)
    rw [here, Option.any_some]
    cases status : job.status <;> simp [status]

/-! ### What the statements do to stale buckets -/

variable {tables : RollupTables} {key : BucketKey}

theorem stale_invalidate (clocks : Clocks) (now : Int) (tables : RollupTables)
    (affected : List Int) (key : BucketKey) :
    stale (invalidateTimezoneRollupJobs clocks.calendar now tables affected) key
      = (stale tables key && !clocks.calendar.requested tables.timezones affected key) := by
  cases requested : clocks.calendar.requested tables.timezones affected key with
  | false =>
    rw [Bool.not_false, Bool.and_true]
    refine stale_congr (invalidate_jobs_of_not_requested (Bool.eq_false_iff.mp requested)) ?_
    show (tables.coverage key && !clocks.calendar.requested tables.timezones affected key) = _
    rw [requested, Bool.not_false, Bool.and_true]
  | true =>
    rw [Bool.not_true, Bool.and_false]
    refine stale_of_open (invalidate_jobs_of_requested requested) ?_
    unfold requeue
    split <;> nofun

theorem prewarm_jobs (now : Int) (tables : RollupTables) (resolution : Resolution) (timezone : String)
    (windows : List TimezoneRollupWindow) (key : BucketKey) :
    (prewarmMissingJobs now tables resolution timezone windows).jobs key = tables.jobs key ∨
      tables.coverage key = false ∧ tables.jobs key = none ∧ ∃ job,
        (prewarmMissingJobs now tables resolution timezone windows).jobs key = some job ∧
        job.status = .pending := by
  rw [prewarmMissingJobs]
  dsimp only
  split
  · exact .inl rfl
  · split
    · exact .inl rfl
    · next fresh =>
      obtain ⟨uncovered, missing⟩ := not_or.mp fresh
      exact .inr ⟨Bool.eq_false_iff.mpr uncovered, Option.not_isSome_iff_eq_none.mp missing, _, rfl, rfl⟩

theorem stale_prewarm (now : Int) (tables : RollupTables) (resolution : Resolution)
    (timezone : String) (windows : List TimezoneRollupWindow) (key : BucketKey) :
    stale (prewarmMissingJobs now tables resolution timezone windows) key = stale tables key := by
  obtain same | ⟨-, missing, job, here, pending⟩ :=
    prewarm_jobs now tables resolution timezone windows key
  · exact stale_congr same rfl
  · rw [stale_of_open here (by rw [pending]; nofun), stale, missing]
    rfl

theorem stale_claimJob {now : Int} {watermark : Option Int} {dirty : List Int} {other : BucketKey}
    {taken : TimezoneRollupJob × RollupTables}
    (claimed : claimJob now watermark dirty tables other = some taken) (key : BucketKey) :
    stale taken.2 key = stale tables key := by
  obtain ⟨job, here, claimable, -, rfl⟩ := claimJob_cases claimed
  by_cases same : key = other
  · obtain rfl := same
    have open_ : job.status ≠ .done := by
      intro isDone
      simp [TimezoneRollupJob.claimable, isDone] at claimable
    rw [stale_of_open here open_]
    exact stale_of_open (Function.update_self ..) (by simp)
  · exact stale_congr (Function.update_of_ne same ..) rfl

theorem stale_markDone (now : Int) (watermark : Option Int) (dirty : List Int) (tables : RollupTables)
    (other : BucketKey) (id generation : Nat) (key : BucketKey) :
    stale (markDone now watermark dirty tables other id generation).2 key = stale tables key := by
  obtain same | ⟨job, here, -, -, inflight, -, -, same⟩ :=
    markDone_cases now watermark dirty tables other id generation
  · rw [same]
  · rw [same]
    by_cases equal : key = other
    · obtain rfl := equal
      rw [stale_of_open here (by rw [inflight]; nofun), stale]
      dsimp only
      rw [Function.update_self, Function.update_self, Bool.not_true, Bool.and_false]
    · exact stale_congr (Function.update_of_ne equal ..) (Function.update_of_ne equal ..)

theorem stale_markPending (now : Int) (tables : RollupTables) (other : BucketKey)
    (id generation : Nat) (key : BucketKey) :
    stale (markPending now tables other id generation) key = stale tables key := by
  unfold markPending
  split
  · rfl
  · next job here =>
    split
    · next allowed =>
      by_cases equal : key = other
      · obtain rfl := equal
        rw [stale_of_open here (by rw [allowed.2.2]; nofun)]
        exact stale_of_open (Function.update_self ..) nofun
      · exact stale_congr (Function.update_of_ne equal ..) rfl
    · rfl

theorem stale_disable (now : Int) (tables : RollupTables) (timezone : String) (key : BucketKey) :
    stale (disableTimezone now tables timezone) key
      = (stale tables key || key.timezone = timezone && (tables.jobs key).isSome) := by
  by_cases same : key.timezone = timezone
  · have coverage : (disableTimezone now tables timezone).coverage key = false := by
      simp [disableTimezone, same]
    have jobs : (disableTimezone now tables timezone).jobs key = (tables.jobs key).map fun job =>
        if job.status = .done then job else { job with status := .done, updatedAt := now } := by
      simp only [disableTimezone, if_pos same]
    rw [stale, coverage, jobs, decide_eq_true same]
    cases here : tables.jobs key with
    | none => rw [stale, here]; rfl
    | some job =>
      rw [Option.map_some, Option.any_some, Option.isSome_some, Bool.true_and, Bool.or_true]
      split
      · next done => rw [decide_eq_true done]; rfl
      · rfl
  · rw [decide_eq_false same, Bool.false_and, Bool.or_false]
    refine stale_congr ?_ ?_
    · simp only [disableTimezone, if_neg same]
    · simp [disableTimezone, same]

theorem stale_pruneCoverage (cutoff : BucketKey → Int) (tables : RollupTables) (key : BucketKey) :
    stale (pruneTimezoneCoverage cutoff tables) key
      = (stale tables key || (tables.jobs key).any (fun job => job.status = .done) &&
          decide (key.bucket < cutoff key)) := by
  rw [stale, stale, pruneTimezoneCoverage]
  dsimp only
  cases (tables.jobs key).any fun job => decide (job.status = .done) <;>
    cases tables.coverage key <;> cases decide (key.bucket < cutoff key) <;> rfl

theorem stale_pruneJobs (cutoff : Int) (tables : RollupTables) (key : BucketKey) :
    stale (pruneCompletedJobs cutoff tables) key
      = (stale tables key && ((pruneCompletedJobs cutoff tables).jobs key).isSome) := by
  rw [stale, stale, pruneCompletedJobs]
  dsimp only
  cases here : tables.jobs key with
  | none => rfl
  | some job =>
    rw [Option.filter_some]
    split
    · rw [Option.isSome_some, Bool.and_true]
    · rw [Option.any_none, Option.isSome_none, Bool.false_and, Bool.and_false]

/-! ### The buckets that are left over -/

/-- The system, with the buckets whose coverage went while their job stayed as it was. -/
structure Tracked where
  state : RollupState
  left : BucketKey → Bool

def Tracked.initial (now : Int) : Tracked where
  state := .initial now
  left _ := false

/-- What an action does to the buckets left over: the jobs of a time zone that is disabled stay, and so
do those of buckets whose coverage is too old. An invalidation puts them up again, and in the end they
are deleted. -/
def Tracked.leftAfter (clocks : Clocks) (tracked : Tracked) : RollupAction → BucketKey → Bool
  | .unsupported index, key => tracked.left key ||
      tracked.state.workers[index]?.any fun worker =>
        key.timezone = worker.key.timezone && (tracked.state.tables.jobs key).isSome
  | .pruneCoverage cutoff, key => tracked.left key ||
      (tracked.state.tables.jobs key).any (fun job => job.status = .done) &&
        decide (key.bucket < cutoff key)
  | .base action, key => tracked.left key &&
      !clocks.calendar.requested tracked.state.tables.timezones
        ((rewrittenBuckets tracked.state.store action).map (· * Storage.fifteenMinutesMs)) key
  | .pruneJobs cutoff, key => tracked.left key &&
      ((pruneCompletedJobs cutoff tracked.state.tables).jobs key).isSome
  | _, key => tracked.left key

def Tracked.next (clocks : Clocks) (tracked : Tracked) (action : RollupAction) : Option Tracked :=
  (tracked.state.next clocks action).map fun state =>
    { state, left := tracked.leftAfter clocks action }

theorem stale_baseStep {clocks : Clocks} {s after : RollupState} {action : Storage.Action}
    (moved : baseStep clocks.calendar s action = some after) (key : BucketKey) :
    stale after.tables key = (stale s.tables key &&
      !clocks.calendar.requested s.tables.timezones
        ((rewrittenBuckets s.store action).map (· * Storage.fifteenMinutesMs)) key) := by
  obtain ⟨store, -, rfl⟩ := baseStep_cases moved
  dsimp only
  split
  case isTrue none_ =>
    have free : clocks.calendar.requested s.tables.timezones [] key = false :=
      decide_eq_false fun ⟨_, instant, among, _⟩ => List.not_mem_nil among
    rw [none_, List.map_nil, free, Bool.not_false, Bool.and_true]
  case isFalse => exact stale_invalidate ..

theorem tables_tryLock {s after : RollupState} {index : Nat} {acquired : Bool}
    (moved : tryLock s index acquired = some after) : after.tables = s.tables := by
  obtain ⟨worker, -, -, stepped⟩ := whenIn_cases moved
  split at stepped
  · split at stepped
    · cases stepped
      rfl
    · cases stepped
  · cases stepped
    rfl

theorem tables_readRollup {clocks : Clocks} {s after : RollupState} {index : Nat}
    (moved : readRollup clocks s index = some after) : after.tables = s.tables := by
  obtain ⟨worker, -, -, stepped⟩ := whenIn_cases moved
  obtain ⟨toTs, -, rfl⟩ := Option.map_eq_some_iff.mp stepped
  rfl

theorem tables_failWorker {s after : RollupState} {index : Nat}
    (moved : failWorker s index = some after) : after.tables = s.tables := by
  unfold failWorker at moved
  split at moved
  · cases moved
  · split at moved
    · cases moved
    · cases moved
      rfl

theorem tables_crashWorker {s after : RollupState} {index : Nat}
    (moved : crashWorker s index = some after) : after.tables = s.tables := by
  unfold crashWorker at moved
  split at moved
  · cases moved
  · cases moved
    rfl

theorem stale_next {clocks : Clocks} {tracked : Tracked} {action : RollupAction}
    {after : RollupState} (moved : tracked.state.next clocks action = some after)
    (same : ∀ key, tracked.left key = stale tracked.state.tables key) (key : BucketKey) :
    tracked.leftAfter clocks action key = stale after.tables key := by
  cases action with
  | base action =>
    cases action with
    | expire quarter => cases moved
    | _ =>
      rw [Tracked.leftAfter, same]
      exact (stale_baseStep moved key).symm
  | register timezone =>
    cases moved
    exact same key
  | prewarm resolution timezone windows =>
    cases moved
    exact (same key).trans (stale_prewarm ..).symm
  | pruneJobs cutoff =>
    cases moved
    rw [Tracked.leftAfter, same, stale_pruneJobs]
  | pruneCoverage cutoff =>
    cases moved
    rw [Tracked.leftAfter, same, stale_pruneCoverage]
  | claim other =>
    obtain ⟨taken, claimed, rfl⟩ := Option.map_eq_some_iff.mp moved
    exact (same key).trans (stale_claimJob claimed key).symm
  | unsupported index =>
    obtain ⟨worker, here, -, stepped⟩ := whenIn_cases moved
    cases stepped
    rw [Tracked.leftAfter, same, here, Option.any_some]
    exact (stale_disable ..).symm
  | lock index acquired =>
    rw [tables_tryLock moved]
    exact same key
  | read index =>
    rw [tables_readRollup moved]
    exact same key
  | empty index =>
    obtain ⟨worker, here, -, stepped⟩ := whenIn_cases moved
    cases stepped
    exact same key
  | insert index =>
    obtain ⟨worker, here, -, stepped⟩ := whenIn_cases moved
    cases stepped
    exact same key
  | unlock index =>
    obtain ⟨worker, here, -, stepped⟩ := whenIn_cases moved
    cases stepped
    exact same key
  | done index =>
    obtain ⟨worker, here, -, stepped⟩ := whenIn_cases moved
    cases stepped
    exact (same key).trans (stale_markDone ..).symm
  | fail index =>
    rw [tables_failWorker moved]
    exact same key
  | pending index =>
    obtain ⟨worker, here, -, stepped⟩ := whenIn_cases moved
    cases stepped
    exact (same key).trans (stale_markPending ..).symm
  | crash index =>
    rw [tables_crashWorker moved]
    exact same key

/-- **The buckets left over are those with a job that is done and no coverage.** -/
theorem stale_of_reachable {clocks : Clocks} {now : Int} {tracked : Tracked}
    (reached : Reachable (Tracked.next clocks) (.initial now) tracked) :
    ∀ key, tracked.left key = stale tracked.state.tables key := by
  refine reached.invariant (fun tracked => ∀ key, tracked.left key = stale tracked.state.tables key)
    (fun key => rfl) fun before action after same moved key => ?_
  obtain ⟨state, stepped, rfl⟩ := Option.map_eq_some_iff.mp moved
  exact stale_next stepped same key

/-! ### An activation -/

def Known (tables : RollupTables) (key : BucketKey) : Prop :=
  tables.coverage key = true ∨ (tables.jobs key).isSome

theorem Known.prewarm (known : Known tables key) (now : Int) (resolution : Resolution)
    (timezone : String) (windows : List TimezoneRollupWindow) :
    Known (prewarmMissingJobs now tables resolution timezone windows) key := by
  refine known.imp id fun has => ?_
  obtain same | ⟨-, -, job, here, -⟩ := prewarm_jobs now tables resolution timezone windows key
  · rw [same]
    exact has
  · rw [here]
    rfl

theorem known_of_window (now : Int) (tables : RollupTables) {resolution : Resolution}
    {timezone : String} {windows : List TimezoneRollupWindow} {window : TimezoneRollupWindow}
    (among : window ∈ windows) :
    Known (prewarmMissingJobs now tables resolution timezone windows)
      ⟨resolution, timezone, window.bucket⟩ := by
  rw [Known, prewarmMissingJobs]
  dsimp only
  split
  · next missed =>
    have other := List.find?_eq_none.mp missed window among
    exact absurd (decide_eq_true rfl) other
  · split
    · next known => exact known
    · exact .inr rfl

theorem prewarmMissingBuckets_spec (now : Int) (tables : RollupTables) (resolution : Resolution)
    (timezone : String) (windows : List TimezoneRollupWindow) :
    (∀ key, stale (prewarmMissingBuckets now tables resolution timezone windows) key
      = stale tables key) ∧
    ∀ window ∈ windows, Known (prewarmMissingBuckets now tables resolution timezone windows)
      ⟨resolution, timezone, window.bucket⟩ := by
  have pieces : ∀ (rest : List (List TimezoneRollupWindow)) (tables : RollupTables),
      let after := rest.foldl
        (fun tables piece => prewarmMissingJobs now tables resolution timezone piece) tables
      (∀ key, stale after key = stale tables key) ∧ (∀ key, Known tables key → Known after key) ∧
        ∀ piece ∈ rest, ∀ window ∈ piece, Known after ⟨resolution, timezone, window.bucket⟩ := by
    intro rest
    induction rest with
    | nil => exact fun tables => ⟨fun key => rfl, fun key => id, nofun⟩
    | cons piece rest ih =>
      intro tables
      obtain ⟨same, kept, listed⟩ := ih (prewarmMissingJobs now tables resolution timezone piece)
      refine ⟨fun key => (same key).trans (stale_prewarm ..),
        fun key known => kept key (known.prewarm ..), fun other among window inside => ?_⟩
      obtain rfl | later := List.mem_cons.mp among
      · exact kept _ (known_of_window now tables inside)
      · exact listed other later window inside
  obtain ⟨same, -, listed⟩ := pieces (chunks TIMEZONE_ROLLUP_PREWARM_CHUNK_BUCKETS windows) tables
  refine ⟨same, fun window among => ?_⟩
  have positive : 0 < TIMEZONE_ROLLUP_PREWARM_CHUNK_BUCKETS := by decide
  rw [← Toard.Library.chunks_flatten positive windows] at among
  obtain ⟨piece, isPiece, inside⟩ := List.mem_flatten.mp among
  exact listed piece isPiece window inside

/-- **What an activation does**: it makes no bucket stale and none fresh, and knows all its hours. -/
theorem activate_spec {zones : String → Zone} {now : Int} {tables after : RollupTables}
    {timezone : String} {supportsTimezone : Bool}
    (activated : activateTimezoneRollupWith zones now tables timezone supportsTimezone = some after) :
    (∀ key, stale after key = stale tables key) ∧
      ∀ key ∈ hourBuckets zones now timezone, Known after key := by
  unfold activateTimezoneRollupWith at activated
  split at activated
  · cases activated
  obtain ⟨registered, registers, activated⟩ := Option.bind_eq_some_iff.mp activated
  obtain ⟨days, -, activated⟩ := Option.bind_eq_some_iff.mp activated
  obtain ⟨hours, planned, activated⟩ := Option.bind_eq_some_iff.mp activated
  cases activated
  have before : ∀ key, stale registered key = stale tables key := by
    rw [ensureRegisteredTimezone] at registers
    split at registers
    · cases registers
      exact fun key => rfl
    · cases registers
  obtain ⟨withDays, -⟩ := prewarmMissingBuckets_spec now registered .day timezone days
  obtain ⟨withHours, known⟩ := prewarmMissingBuckets_spec now
    (prewarmMissingBuckets now registered .day timezone days) .hour timezone hours
  refine ⟨fun key => (withHours key).trans ((withDays key).trans (before key)), fun key among => ?_⟩
  rw [hourBuckets, planned] at among
  obtain ⟨window, isWindow, rfl⟩ := List.mem_map.mp among
  exact known window isWindow

/-- A job that is not done can be taken when its base is ready, at the latest five minutes after it
was taken before. -/
theorem claimJob_of_open {tables : RollupTables} {key : BucketKey} {job : TimezoneRollupJob}
    (here : tables.jobs key = some job) (open_ : job.status = .pending ∨ job.status = .inflight)
    {now : Int} {watermark : Option Int} {dirty : List Int}
    (ready : baseReady watermark dirty key.bucket job.sourceTo = true)
    (old : job.updatedAt < now - reclaimMs) : (claimJob now watermark dirty tables key).isSome := by
  have claimable : job.claimable now = true := by
    rw [TimezoneRollupJob.claimable]
    exact decide_eq_true (open_.imp_right fun inflight => ⟨inflight, old⟩)
  rw [claimJob, here]
  dsimp only
  rw [if_pos ⟨claimable, ready⟩]
  rfl

theorem exists_activation {zones : String → Zone} {now : Int} {tables : RollupTables}
    {timezone : String}
    (room : timezone ∈ tables.timezones ∨ tables.timezones.length < MAX_ACTIVE_ROLLUP_TIMEZONES)
    (days : (dailyPrewarmWindows (zones timezone) now).isSome)
    (hours : (hourlyPrewarmWindows (zones timezone) now).isSome) :
    ∃ after, activateTimezoneRollupWith zones now tables timezone true = some after := by
  obtain ⟨days, isDays⟩ := Option.isSome_iff_exists.mp days
  obtain ⟨hours, isHours⟩ := Option.isSome_iff_exists.mp hours
  refine Option.isSome_iff_exists.mp ?_
  rw [activateTimezoneRollupWith, if_neg (by decide), ensureRegisteredTimezone, if_pos room, isDays,
    isHours]
  rfl

/-- **An activation leaves work, but for the buckets left over.** In every state reached, an activation
that completes leaves each of its hours covered or with a job that waits or is being worked on, just if
none of them is left over. The buckets left over are those with a job that is done and no coverage. A
job that waits or is being worked on can be taken as soon as its base is ready. -/
theorem activation_leaves_work {clocks : Clocks} {start : Int} {tracked : Tracked}
    (reached : Reachable (Tracked.next clocks) (.initial start) tracked) {timezone : String}
    {supportsTimezone : Bool} {after : RollupTables}
    (activated : activateTimezoneRollupWith clocks.zones tracked.state.store.now
      tracked.state.tables timezone supportsTimezone = some after) :
    ((∀ key ∈ hourBuckets clocks.zones tracked.state.store.now timezone, Worked after key) ↔
      ∀ key ∈ hourBuckets clocks.zones tracked.state.store.now timezone, tracked.left key = false) ∧
    (∀ key, tracked.left key = stale tracked.state.tables key) ∧
    ∀ key, Worked after key → after.coverage key = false → ∃ job, after.jobs key = some job ∧
      ∀ later watermark dirty, baseReady watermark dirty key.bucket job.sourceTo = true →
        job.updatedAt < later - reclaimMs → (claimJob later watermark dirty after key).isSome := by
  have left := stale_of_reachable reached
  obtain ⟨same, known⟩ := activate_spec activated
  refine ⟨?_, left, fun key worked uncovered => ?_⟩
  · refine forall₂_congr fun key among => ?_
    rw [worked_iff (known key among), same, left]
  · obtain covered | ⟨job, here, open_⟩ := worked
    · exact absurd (covered.symm.trans uncovered) (by decide)
    · exact ⟨job, here, fun later watermark dirty ready old => claimJob_of_open here open_ ready old⟩

theorem firstInstantOfLocalDate_utc (date : Int) :
    firstInstantOfLocalDate ⟨fun _ => 0⟩ date = some (date * dayMs) := by
  have none_ : ∀ instant, Zone.offset ⟨fun _ => 0⟩ instant = 0 := fun instant => Int.zero_mul _
  have within : ∀ instant, -maxOffsetMs ≤ Zone.offset ⟨fun _ => 0⟩ instant ∧
      Zone.offset ⟨fun _ => 0⟩ instant ≤ maxOffsetMs := fun instant => by
    rw [none_]
    decide
  have dates : ∀ instant, (Clock.ofZone ⟨fun _ => 0⟩ within).localDateKey instant = instant / dayMs :=
    fun instant => by
      show (instant + Zone.offset ⟨fun _ => 0⟩ instant) / dayMs = _
      rw [none_, Int.add_zero]
  rw [← Clock.firstInstantOfLocalDate_ofZone _ within]
  refine Clock.firstInstantOfLocalDate_eq (fun earlier later before => ?_) ⟨?_, fun other isDate => ?_⟩
  · rw [dates, dates]
    exact Int.ediv_le_ediv (by decide) before
  · rw [Set.mem_preimage, dates, Set.mem_singleton_iff]
    exact Int.mul_ediv_cancel _ (by decide)
  · rw [Set.mem_preimage, dates, Set.mem_singleton_iff] at isDate
    rw [← isDate]
    exact Int.ediv_mul_le _ (by decide)

theorem isSome_mapM {α β : Type*} {f : α → Option β} {values : List α}
    (all : ∀ a ∈ values, (f a).isSome) : (values.mapM f).isSome := by
  induction values with
  | nil => rfl
  | cons a rest ih =>
    obtain ⟨b, is⟩ := Option.isSome_iff_exists.mp (all a List.mem_cons_self)
    obtain ⟨bs, are⟩ := Option.isSome_iff_exists.mp
      (ih fun other among => all other (List.mem_cons_of_mem a among))
    rw [List.mapM_cons, is, are]
    rfl

theorem isSome_prewarmWindows_utc (now : Int) : (dailyPrewarmWindows ⟨fun _ => 0⟩ now).isSome ∧
    (hourlyPrewarmWindows ⟨fun _ => 0⟩ now).isSome := by
  constructor
  · rw [dailyPrewarmWindows, timezoneCoverageCutoffs, firstInstantOfLocalDate_utc,
      firstInstantOfLocalDate_utc]
    refine isSome_mapM fun index _ => ?_
    dsimp only
    rw [firstInstantOfLocalDate_utc, firstInstantOfLocalDate_utc]
    rfl
  · rw [hourlyPrewarmWindows, firstInstantOfLocalDate_utc, firstInstantOfLocalDate_utc]
    rfl

theorem activation_leaves_work_registered : ∃ tracked after,
    run (Tracked.next utcClocks) (.initial 7200000) [.register "UTC"] = some tracked ∧
    activateTimezoneRollupWith utcClocks.zones tracked.state.store.now tracked.state.tables "UTC" true
      = some after ∧
    ∀ key ∈ hourBuckets utcClocks.zones tracked.state.store.now "UTC", Worked after key := by
  obtain ⟨tracked, ends, registered, now, nothing⟩ : ∃ tracked,
      run (Tracked.next utcClocks) (.initial 7200000) [.register "UTC"] = some tracked ∧
      tracked.state.tables.timezones = ["UTC"] ∧ tracked.state.store.now = 7200000 ∧
      ∀ key, tracked.left key = false := ⟨_, rfl, rfl, rfl, fun key => rfl⟩
  have room : "UTC" ∈ tracked.state.tables.timezones ∨
      tracked.state.tables.timezones.length < MAX_ACTIVE_ROLLUP_TIMEZONES := by
    rw [registered]
    exact .inl List.mem_cons_self
  obtain ⟨after, activated⟩ := @exists_activation utcClocks.zones
    tracked.state.store.now tracked.state.tables "UTC" room
    (isSome_prewarmWindows_utc _).1 (isSome_prewarmWindows_utc _).2
  refine ⟨tracked, after, ends, activated, ?_⟩
  exact (activation_leaves_work (Reachable.of_run _ ends) activated).1.mpr fun key _ => nothing key

/-- The worker's time zone turns out to be unknown to ClickHouse, and is disabled with its job. -/
def disabledRun : List RollupAction :=
  .register "UTC" :: baseReaches ++ [.base .commit, .claim firstHour, .unsupported 0]

set_option maxRecDepth 8000 in
theorem not_activation_leaves_work : ¬ ∀ (clocks : Clocks) (start : Int) (s : RollupState)
    (timezone : String) (after : RollupTables),
    Reachable (RollupState.next clocks) (.initial start) s →
    activateTimezoneRollupWith clocks.zones s.store.now s.tables timezone true = some after →
    ∀ key ∈ hourBuckets clocks.zones s.store.now timezone, Worked after key := by
  intro claimed
  obtain ⟨s, ends, now, room, left⟩ : ∃ s,
      run (RollupState.next utcClocks) (.initial 7200000) disabledRun = some s ∧
      s.store.now = 7200000 ∧ s.tables.timezones = [] ∧ stale s.tables firstHour = true :=
    ⟨_, rfl, rfl, rfl, rfl⟩
  obtain ⟨after, activated⟩ := @exists_activation utcClocks.zones s.store.now s.tables "UTC"
    (by rw [room]; exact .inr (by decide)) (isSome_prewarmWindows_utc _).1
    (isSome_prewarmWindows_utc _).2
  have among : firstHour ∈ hourBuckets utcClocks.zones s.store.now "UTC" := by
    rw [now]
    decide
  obtain ⟨same, known⟩ := activate_spec activated
  have worked := claimed utcClocks 7200000 s "UTC" after (Reachable.of_run _ ends) activated firstHour
    among
  rw [worked_iff (known firstHour among), same, left] at worked
  cases worked

end Toard.Timezone
