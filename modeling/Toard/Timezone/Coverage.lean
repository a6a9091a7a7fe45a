/-
**Covered buckets of a time zone are exact.**

Nothing keeps a worker from emptying a bucket that another worker has computed meanwhile: whose job
it is, is asked only when it is reported. `Admits` says which steps are harmless: a worker empties
its bucket while it is neither covered nor computed by a worker still to report it, and the
components agree on the buckets whose jobs are put up (`Agreed`).

* **`covered_buckets_exact`**: the cached rows of a covered bucket are the aggregate of its window.
* **`stale_worker_empties_covered_bucket`**: the run that shows that the condition is needed.
-/

import Toard.Timezone.Workers

namespace Toard.Timezone

open Toard.Library
open Toard.Storage (fifteenMinutesMs Dimensions Totals)

/-! ### The condition -/

/-- The cached rows of a bucket are the aggregate of the rollup rows in its window. -/
def Exact (s : RollupState) (key : BucketKey) (toTs : Int) : Prop :=
  cacheTotals s.cache key = timezoneAggregate s.store.rollup key.bucket toTs

/-- Covered buckets whose job is done or gone and whose quarters are not marked are exact. -/
def CoveredExact (clocks : Clocks) (s : RollupState) : Prop :=
  ∀ key toTs, s.tables.coverage key = true →
    (∀ job, s.tables.jobs key = some job → job.status = .done) →
    bucketEnd clocks.zones key = some toTs → Clean s.store key.bucket toTs → Exact s key toTs

/-- The components agree on a bucket: it ends there, each of its quarters invalidates it, and the
compaction selects each of them. -/
structure Agreed (clocks : Clocks) (key : BucketKey) (toTs : Int) : Prop where
  ends : bucketEnd clocks.zones key = some toTs
  invalidated : ∀ quarter, InWindow key.bucket toTs quarter →
    clocks.calendar.dateTrunc key.resolution key.timezone (quarter * fifteenMinutesMs) = key.bucket
  selected : ∀ quarter, InWindow key.bucket toTs quarter →
    selectsQuarter clocks.startOf key toTs quarter = true

def Unreported (s : RollupState) (key : BucketKey) : Prop :=
  ∀ other ∈ s.workers, other.key = key → other.phase = .compacted → ¬ Claims s.tables other

def Admits (clocks : Clocks) (s : RollupState) : RollupAction → Prop
  | .base action => ∀ key, clocks.calendar.requested s.tables.timezones
      ((rewrittenBuckets s.store action).map (· * fifteenMinutesMs)) key = true →
      Agreed clocks key (clocks.calendar.sourceTo key)
  | .register timezone => timezone ∈ s.tables.timezones ∨
      ∀ key job, key.timezone = timezone → s.tables.jobs key = some job → job.status = .done
  | .prewarm resolution timezone windows =>
      ∀ window ∈ windows, Agreed clocks ⟨resolution, timezone, window.bucket⟩ window.sourceTo
  | .empty index => ∀ worker, s.workers[index]? = some worker →
      s.tables.coverage worker.key = false ∧ Unreported s worker.key
  | _ => True

/-! ### Jobs and claims -/

/-- What a job may have come from: a new one, or one of its bucket that is no more claimed. -/
def JobStep (nextId : Nat) (old : Option TimezoneRollupJob) (job : TimezoneRollupJob) : Prop :=
  nextId ≤ job.id ∨ ∃ before, old = some before ∧ before.id = job.id ∧
    (before.generation < job.generation ∨
      (before.generation = job.generation ∧ (job.status ≠ .done → before.status ≠ .done)))

def JobsSound (clocks : Clocks) (tables : RollupTables) : Prop :=
  ∀ key job, tables.jobs key = some job → job.id < tables.nextId ∧ Agreed clocks key job.sourceTo

structure TablesStep (clocks : Clocks) (before after : RollupTables) : Prop where
  nextId : before.nextId ≤ after.nextId
  jobs : ∀ key job, after.jobs key = some job → JobStep before.nextId (before.jobs key) job
  sound : JobsSound clocks after

structure Issued (tables : RollupTables) (worker : Worker) : Prop where
  id : worker.id < tables.nextId
  generation : ∀ job, tables.jobs worker.key = some job → job.id = worker.id →
    worker.generation ≤ job.generation

variable {clocks : Clocks} {before after : RollupTables}

theorem TablesStep.issued (step : TablesStep clocks before after) {worker : Worker}
    (issued : Issued before worker) : Issued after worker := by
  refine ⟨issued.id.trans_le step.nextId, fun job here sameId => ?_⟩
  rcases step.jobs _ job here with later | ⟨old, isOld, oldId, raised⟩
  · exact absurd issued.id (not_lt.mpr (sameId ▸ later))
  · have known := issued.generation old isOld (oldId.trans sameId)
    rcases raised with less | ⟨same, -⟩
    · exact known.trans less.le
    · exact known.trans same.le

theorem TablesStep.claims (step : TablesStep clocks before after) {worker : Worker}
    (issued : Issued before worker) (claims : Claims after worker) : Claims before worker := by
  obtain ⟨job, here, sameId, sameGeneration, waits⟩ := claims
  rcases step.jobs _ job here with later | ⟨old, isOld, oldId, raised⟩
  · exact absurd issued.id (not_lt.mpr (sameId ▸ later))
  · have known := issued.generation old isOld (oldId.trans sameId)
    rcases raised with less | ⟨same, kept⟩
    · exact absurd (sameGeneration ▸ less) (not_lt.mpr known)
    · exact ⟨old, isOld, oldId.trans sameId, same.trans sameGeneration, kept waits⟩

theorem TablesStep.of_kept (sound : JobsSound clocks before) (nextId : after.nextId = before.nextId)
    (kept : ∀ key job, after.jobs key = some job → ∃ old, before.jobs key = some old ∧
      old.id = job.id ∧ old.sourceTo = job.sourceTo ∧ old.generation = job.generation ∧
      (job.status ≠ .done → old.status ≠ .done)) : TablesStep clocks before after where
  nextId := nextId.ge
  jobs key job here := by
    obtain ⟨old, isOld, sameId, -, generation, waits⟩ := kept key job here
    exact Or.inr ⟨old, isOld, sameId, Or.inr ⟨generation, waits⟩⟩
  sound key job here := by
    obtain ⟨old, isOld, sameId, sourceTo, -, -⟩ := kept key job here
    rw [nextId, ← sameId, ← sourceTo]
    exact sound key old isOld

theorem TablesStep.of_same (sound : JobsSound clocks before) (nextId : after.nextId = before.nextId)
    (jobs : after.jobs = before.jobs) : TablesStep clocks before after :=
  .of_kept sound nextId fun _ job here => ⟨job, jobs ▸ here, rfl, rfl, rfl, id⟩

theorem TablesStep.of_update (sound : JobsSound clocks before) {key : BucketKey}
    {old job : TimezoneRollupJob} (here : before.jobs key = some old)
    (nextId : after.nextId = before.nextId)
    (jobs : after.jobs = Function.update before.jobs key (some job)) (sameId : old.id = job.id)
    (sourceTo : old.sourceTo = job.sourceTo) (generation : old.generation = job.generation)
    (waits : job.status ≠ .done → old.status ≠ .done) : TablesStep clocks before after := by
  refine .of_kept sound nextId fun other found isFound => ?_
  rw [jobs] at isFound
  by_cases same : other = key
  · rw [same, Function.update_self, Option.some.injEq] at isFound
    exact ⟨old, same ▸ here, isFound ▸ sameId, isFound ▸ sourceTo, isFound ▸ generation,
      isFound ▸ waits⟩
  · rw [Function.update_of_ne same] at isFound
    exact ⟨found, isFound, rfl, rfl, rfl, id⟩

theorem TablesStep.prewarm (sound : JobsSound clocks before) {now : Int} {resolution : Resolution}
    {timezone : String} {windows : List TimezoneRollupWindow}
    (agreed : ∀ window ∈ windows,
      Agreed clocks ⟨resolution, timezone, window.bucket⟩ window.sourceTo) :
    TablesStep clocks before (prewarmMissingJobs now before resolution timezone windows) := by
  have old_or_new : ∀ key job,
      (prewarmMissingJobs now before resolution timezone windows).jobs key = some job →
        before.jobs key = some job ∨ (job.id = before.nextId ∧ Agreed clocks key job.sourceTo) := by
    intro key job here
    rw [prewarmMissingJobs] at here
    dsimp only at here
    split at here
    · exact Or.inl here
    · next window found =>
      split at here
      · exact Or.inl here
      · cases here
        have listed := List.find?_some found
        have isKey : key = ⟨resolution, timezone, window.bucket⟩ := of_decide_eq_true listed
        exact Or.inr ⟨rfl, isKey ▸ agreed window (List.mem_of_find?_eq_some found)⟩
  refine ⟨Nat.le_succ _, fun key job here => ?_, fun key job here => ?_⟩
  · rcases old_or_new key job here with old | ⟨isNew, -⟩
    · exact Or.inr ⟨job, old, rfl, Or.inr ⟨rfl, id⟩⟩
    · exact Or.inl isNew.ge
  · rcases old_or_new key job here with old | ⟨isNew, agreed⟩
    · exact ⟨(sound key job old).1.trans (Nat.lt_succ_self _), (sound key job old).2⟩
    · exact ⟨isNew ▸ Nat.lt_succ_self _, agreed⟩

theorem invalidate_jobs_of_requested {now : Int} {affected : List Int} {key : BucketKey}
    (requested : clocks.calendar.requested before.timezones affected key = true) :
    (invalidateTimezoneRollupJobs clocks.calendar now before affected).jobs key
      = some (requeue (before.jobs key) before.nextId (clocks.calendar.sourceTo key) now) := by
  simp only [invalidateTimezoneRollupJobs, requested, if_true]

theorem invalidate_jobs_of_not_requested {now : Int} {affected : List Int} {key : BucketKey}
    (elsewhere : ¬ clocks.calendar.requested before.timezones affected key = true) :
    (invalidateTimezoneRollupJobs clocks.calendar now before affected).jobs key
      = before.jobs key := by
  simp only [invalidateTimezoneRollupJobs, elsewhere, Bool.false_eq_true, if_false]

theorem TablesStep.invalidate (sound : JobsSound clocks before) {now : Int} {affected : List Int}
    (agreed : ∀ key, clocks.calendar.requested before.timezones affected key = true →
      Agreed clocks key (clocks.calendar.sourceTo key)) :
    TablesStep clocks before (invalidateTimezoneRollupJobs clocks.calendar now before affected) := by
  refine ⟨Nat.le_succ _, fun key job here => ?_, fun key job here => ?_⟩
  · by_cases requested : clocks.calendar.requested before.timezones affected key = true
    · rw [invalidate_jobs_of_requested requested] at here
      cases here
      cases found : before.jobs key with
      | none => exact Or.inl le_rfl
      | some old => exact Or.inr ⟨old, rfl, rfl, Or.inl (Nat.lt_succ_self _)⟩
    · rw [invalidate_jobs_of_not_requested requested] at here
      exact Or.inr ⟨job, here, rfl, Or.inr ⟨rfl, id⟩⟩
  · by_cases requested : clocks.calendar.requested before.timezones affected key = true
    · rw [invalidate_jobs_of_requested requested] at here
      cases here
      have isAgreed := agreed key requested
      cases found : before.jobs key with
      | none => exact ⟨Nat.lt_succ_self _, isAgreed⟩
      | some old => exact ⟨(sound key old found).1.trans (Nat.lt_succ_self _), isAgreed⟩
    · rw [invalidate_jobs_of_not_requested requested] at here
      exact ⟨(sound key job here).1.trans (Nat.lt_succ_self _), (sound key job here).2⟩

theorem not_claims_of_requested {now : Int} {affected : List Int} {worker : Worker}
    (issued : Issued before worker)
    (requested : clocks.calendar.requested before.timezones affected worker.key = true) :
    ¬ Claims (invalidateTimezoneRollupJobs clocks.calendar now before affected) worker := by
  rintro ⟨job, here, sameId, sameGeneration, -⟩
  rw [invalidate_jobs_of_requested requested] at here
  cases here
  cases found : before.jobs worker.key with
  | none =>
    rw [found] at sameId
    exact absurd issued.id (not_lt.mpr sameId.le)
  | some old =>
    rw [found] at sameId sameGeneration
    have known := issued.generation old found sameId
    exact absurd known (not_le.mpr (sameGeneration ▸ Nat.lt_succ_self _))

/-! ### The invariant -/

/-- What was found for a worker's bucket is still the aggregate of its window, if the worker's claim
counts and no quarter of it is marked. -/
def Current (clocks : Clocks) (s : RollupState) (worker : Worker)
    (found : Dimensions → Option Totals) : Prop :=
  Claims s.tables worker → worker.key.timezone ∈ s.tables.timezones →
    ∀ toTs, Agreed clocks worker.key toTs → Clean s.store worker.key.bucket toTs →
      found = timezoneAggregate s.store.rollup worker.key.bucket toTs

structure Vacant (s : RollupState) (key : BucketKey) : Prop where
  rows : ∀ row ∈ s.cache, row.key ≠ key
  uncovered : s.tables.coverage key = false
  unreported : Unreported s key

structure WorkerSound (clocks : Clocks) (s : RollupState) (worker : Worker) : Prop where
  issued : Issued s.tables worker
  below : Claims s.tables worker → ∀ toTs, Agreed clocks worker.key toTs → Below s.store toTs
  own : worker.phase = .read ∨ worker.phase = .emptied → ∀ row ∈ worker.rows, row.key = worker.key
  read : worker.phase = .read ∨ worker.phase = .emptied → ∀ version,
    Current clocks s worker (cacheTotals (worker.rows.map (TimezoneRow.stamp version)) worker.key)
  emptied : worker.phase = .emptied → Vacant s worker.key
  compacted : worker.phase = .inserted ∨ worker.phase = .compacted →
    Current clocks s worker (cacheTotals s.cache worker.key)

structure Holds (clocks : Clocks) (s : RollupState) : Prop where
  base : BaseRun s.store
  jobs : JobsSound clocks s.tables
  covered : ∀ key, s.tables.coverage key = true → key.timezone ∈ s.tables.timezones ∧
    ∃ toTs, Agreed clocks key toTs ∧ Below s.store toTs ∧
      (Clean s.store key.bucket toTs → Exact s key toTs)
  workers : ∀ worker ∈ s.workers, WorkerSound clocks s worker
  alone : ∀ (index : Nat) (worker : Worker) (other : Nat) (found : Worker),
    s.workers[index]? = some worker → s.workers[other]? = some found →
    worker.phase.holdsLock = true → found.phase.holdsLock = true →
    found.lockName = worker.lockName → other = index

theorem Holds.initial (now : Int) : Holds clocks (.initial now) where
  base := ⟨fun _ none => (nomatch none), fun _ none => (nomatch none), fun _ none => (nomatch none)⟩
  jobs _ _ none := nomatch none
  covered _ none := nomatch none
  workers _ none := nomatch none
  alone _ _ _ _ none := nomatch none

theorem Holds.coveredExact {s : RollupState} (holds : Holds clocks s) : CoveredExact clocks s := by
  intro key toTs covered _ ends clean
  obtain ⟨-, other, agreed, -, exact⟩ := holds.covered key covered
  obtain rfl : other = toTs := Option.some.inj (agreed.ends.symm.trans ends)
  exact exact clean

/-! ### The store and the tables -/

def Reportable (clocks : Clocks) (s : RollupState) (key : BucketKey) : Prop :=
  ∃ worker ∈ s.workers, worker.key = key ∧ worker.phase = .compacted ∧ Claims s.tables worker ∧
    key.timezone ∈ s.tables.timezones ∧
    ∃ toTs, Agreed clocks key toTs ∧ Below s.store toTs ∧ Clean s.store key.bucket toTs

/-- A step of the store or the tables keeps the invariant, if it covers only what is reported, and
leaves the clean windows that are covered or claimed. -/
theorem Holds.moved {s : RollupState} (holds : Holds clocks s) {store : Storage.State}
    {tables : RollupTables} (base : BaseRun store) (step : TablesStep clocks s.tables tables)
    (below : ∀ toTs, Below s.store toTs → Below store toTs)
    (covered : ∀ key, tables.coverage key = true → key.timezone ∈ tables.timezones ∧
      (s.tables.coverage key = true ∨ Reportable clocks s key))
    (windows : ∀ key toTs, Agreed clocks key toTs → key.timezone ∈ tables.timezones →
      (tables.coverage key = true ∨
        ∃ worker, Issued s.tables worker ∧ worker.key = key ∧ Claims tables worker) →
      Below s.store toTs → Clean store key.bucket toTs →
      key.timezone ∈ s.tables.timezones ∧ Clean s.store key.bucket toTs ∧
        timezoneAggregate store.rollup key.bucket toTs
          = timezoneAggregate s.store.rollup key.bucket toTs) :
    Holds clocks { s with store := store, tables := tables } := by
  have current : ∀ worker found, WorkerSound clocks s worker → Current clocks s worker found →
      Current clocks { s with store := store, tables := tables } worker found := by
    intro worker found sound isCurrent claims registered toTs agreed clean
    have claimed := step.claims sound.issued claims
    obtain ⟨wasRegistered, wasClean, same⟩ := windows worker.key toTs agreed registered
      (Or.inr ⟨worker, sound.issued, rfl, claims⟩) (sound.below claimed toTs agreed) clean
    exact (isCurrent claimed wasRegistered toTs agreed wasClean).trans same.symm
  refine ⟨base, step.sound, fun key isCovered => ?_, fun worker among => ?_, holds.alone⟩
  · obtain ⟨registered, before⟩ := covered key isCovered
    refine ⟨registered, ?_⟩
    rcases before with wasCovered | ⟨worker, among, rfl, phase, claims, wasRegistered, toTs, agreed,
        wasBelow, wasClean⟩
    · obtain ⟨-, toTs, agreed, wasBelow, exact⟩ := holds.covered key wasCovered
      refine ⟨toTs, agreed, below toTs wasBelow, fun clean => ?_⟩
      obtain ⟨-, wasClean, same⟩ := windows key toTs agreed registered (Or.inl isCovered) wasBelow clean
      exact (exact wasClean).trans same.symm
    · refine ⟨toTs, agreed, below toTs wasBelow, fun clean => ?_⟩
      obtain ⟨-, -, same⟩ := windows worker.key toTs agreed registered (Or.inl isCovered) wasBelow clean
      have exact := (holds.workers worker among).compacted (Or.inr phase) claims wasRegistered toTs
        agreed wasClean
      exact exact.trans same.symm
  · have sound := holds.workers worker among
    have unreported : ∀ key, Unreported s key →
        Unreported { s with store := store, tables := tables } key :=
      fun key nobody other otherAmong own phase claims =>
        nobody other otherAmong own phase (step.claims (holds.workers other otherAmong).issued claims)
    refine ⟨step.issued sound.issued, ?_, sound.own, ?_, ?_, ?_⟩
    · exact fun claims toTs agreed =>
        below toTs (sound.below (step.claims sound.issued claims) toTs agreed)
    · exact fun phase version => current worker _ sound (sound.read phase version)
    · intro phase
      have vacant := sound.emptied phase
      refine ⟨vacant.rows, Bool.eq_false_iff.mpr fun isCovered => ?_, unreported _ vacant.unreported⟩
      rcases (covered worker.key isCovered).2 with wasCovered | ⟨other, otherAmong, own, otherPhase,
          claims, -⟩
      · exact Bool.eq_false_iff.mp vacant.uncovered wasCovered
      · exact vacant.unreported other otherAmong own otherPhase claims
    · exact fun phase => current worker _ sound (sound.compacted phase)

/-- A statement on the tables that covers only what is reported, and registers no time zone of an
unfinished job. -/
theorem Holds.tables {s : RollupState} (holds : Holds clocks s) {tables : RollupTables}
    (step : TablesStep clocks s.tables tables)
    (covered : ∀ key, tables.coverage key = true → key.timezone ∈ tables.timezones ∧
      (s.tables.coverage key = true ∨ Reportable clocks s key))
    (registered : ∀ timezone ∈ tables.timezones, timezone ∈ s.tables.timezones ∨
      ∀ key job, key.timezone = timezone → tables.jobs key = some job → job.status = .done) :
    Holds clocks { s with tables := tables } := by
  refine holds.moved holds.base step (fun _ => id) covered ?_
  intro key toTs agreed isRegistered used _ clean
  refine ⟨?_, clean, rfl⟩
  rcases registered key.timezone isRegistered with known | finished
  · exact known
  · rcases used with isCovered | ⟨worker, -, rfl, job, here, -, -, waits⟩
    · rcases (covered key isCovered).2 with wasCovered | ⟨_, _, _, _, _, known, _⟩
      · exact (holds.covered key wasCovered).1
      · exact known
    · exact absurd (finished worker.key job rfl here) waits

/-! ### The workers -/

variable {s : RollupState}

theorem WorkerSound.idle {worker : Worker} (sound : WorkerSound clocks s worker)
    {phase : WorkerPhase} (notReading : ¬ (phase = .read ∨ phase = .emptied))
    (notWritten : ¬ (phase = .inserted ∨ phase = .compacted)) :
    WorkerSound clocks s { worker with phase := phase } where
  issued := ⟨sound.issued.id, sound.issued.generation⟩
  below := sound.below
  own reading := absurd reading notReading
  read reading := absurd reading notReading
  emptied isEmptied := absurd (Or.inr isEmptied) notReading
  compacted written := absurd written notWritten

theorem Unreported.setWorker {key : BucketKey} (nobody : Unreported s key) {index : Nat}
    {new : Worker} (notNew : new.key = key → new.phase ≠ .compacted) :
    Unreported (s.setWorker index new) key := by
  intro other among own phase
  obtain ⟨otherIndex, otherHere⟩ := List.mem_iff_getElem?.mp among
  rcases mem_set otherHere with ⟨-, rfl⟩ | ⟨-, kept⟩
  · exact absurd phase (notNew own)
  · exact nobody other (List.mem_of_getElem? kept) own phase

theorem Holds.setWorker (holds : Holds clocks s) {index : Nat} {old new : Worker}
    (here : s.workers[index]? = some old) (sound : WorkerSound clocks s new)
    (alone : new.phase.holdsLock = true → ∀ other found, other ≠ index →
      s.workers[other]? = some found → found.phase.holdsLock = true →
      found.lockName ≠ new.lockName)
    (reporting : new.phase = .compacted → old.phase.holdsLock = true ∧ new.key = old.key) :
    Holds clocks (s.setWorker index new) := by
  refine ⟨holds.base, holds.jobs, holds.covered, fun worker among => ?_, ?_⟩
  · obtain ⟨other, otherHere⟩ := List.mem_iff_getElem?.mp among
    rcases mem_set otherHere with ⟨-, rfl⟩ | ⟨different, kept⟩
    · refine ⟨sound.issued, sound.below, sound.own, sound.read, fun phase => ?_, sound.compacted⟩
      have vacant := sound.emptied phase
      refine ⟨vacant.rows, vacant.uncovered, vacant.unreported.setWorker fun _ => ?_⟩
      rw [phase]
      exact WorkerPhase.noConfusion
    · have was := holds.workers worker (List.mem_of_getElem? kept)
      refine ⟨was.issued, was.below, was.own, was.read, fun phase => ?_, was.compacted⟩
      have vacant := was.emptied phase
      refine ⟨vacant.rows, vacant.uncovered, vacant.unreported.setWorker fun own isReporting => ?_⟩
      -- A worker between its delete and its insert holds the lock that the other one held.
      obtain ⟨held, sameKey⟩ := reporting isReporting
      refine different (holds.alone index old other worker here kept held ?_ ?_)
      · rw [phase]
        rfl
      · rw [Worker.lockName, Worker.lockName, ← own, sameKey]
  · intro first worker second found firstHere secondHere workerHolds foundHolds same
    rcases mem_set firstHere with ⟨firstIs, rfl⟩ | ⟨firstNot, firstKept⟩
    · rcases mem_set secondHere with ⟨secondIs, -⟩ | ⟨secondNot, secondKept⟩
      · exact secondIs.trans firstIs.symm
      · exact absurd same (alone workerHolds second found secondNot secondKept foundHolds)
    · rcases mem_set secondHere with ⟨secondIs, rfl⟩ | ⟨secondNot, secondKept⟩
      · exact absurd same.symm (alone foundHolds first worker firstNot firstKept workerHolds)
      · exact holds.alone first worker second found firstKept secondKept workerHolds foundHolds same

theorem Holds.alone_of_held (holds : Holds clocks s) {index : Nat} {old new : Worker}
    (here : s.workers[index]? = some old) (held : old.phase.holdsLock = true)
    (sameLock : new.lockName = old.lockName) (_ : new.phase.holdsLock = true) (other : Nat)
    (found : Worker) (different : other ≠ index) (otherHere : s.workers[other]? = some found)
    (foundHolds : found.phase.holdsLock = true) : found.lockName ≠ new.lockName :=
  fun same => different (holds.alone index old other found here otherHere held foundHolds
    (same.trans sameLock))

theorem Holds.setIdle (holds : Holds clocks s) {index : Nat} {worker : Worker}
    (here : s.workers[index]? = some worker) {phase : WorkerPhase}
    (idle : phase = .claimed ∨ phase = .rejected ∨ phase = .ended) :
    Holds clocks (s.setWorker index { worker with phase := phase }) := by
  have sound := holds.workers worker (List.mem_of_getElem? here)
  rcases idle with rfl | rfl | rfl
  all_goals exact holds.setWorker here (sound.idle (by simp) (by simp)) nofun nofun

theorem Holds.addWorker (holds : Holds clocks s) {worker : Worker}
    (sound : WorkerSound clocks s worker) (phase : worker.phase = .claimed) :
    Holds clocks { s with workers := s.workers ++ [worker] } := by
  have unreported : ∀ key, Unreported s key →
      Unreported { s with workers := s.workers ++ [worker] } key := by
    intro key nobody other among own isReporting
    rcases List.mem_append.mp among with old | new
    · exact nobody other old own isReporting
    · rw [List.mem_singleton.mp new, phase] at isReporting
      cases isReporting
  have old : ∀ (index : Nat) (found : Worker), (s.workers ++ [worker])[index]? = some found →
      found.phase.holdsLock = true → s.workers[index]? = some found := by
    intro index found here held
    rw [List.getElem?_append] at here
    split at here
    · exact here
    · have among := List.mem_of_getElem? here
      rw [List.mem_singleton.mp among, phase] at held
      cases held
  refine ⟨holds.base, holds.jobs, holds.covered, fun found among => ?_, ?_⟩
  · have was : WorkerSound clocks s found := by
      rcases List.mem_append.mp among with old | new
      · exact holds.workers found old
      · rw [List.mem_singleton.mp new]
        exact sound
    refine ⟨was.issued, was.below, was.own, was.read, fun isEmptied => ?_, was.compacted⟩
    have vacant := was.emptied isEmptied
    exact ⟨vacant.rows, vacant.uncovered, unreported _ vacant.unreported⟩
  · intro first one second other firstHere secondHere oneHolds otherHolds
    exact holds.alone first one second other (old _ _ firstHere oneHolds)
      (old _ _ secondHere otherHolds) oneHolds otherHolds

/-! ### The cache -/

theorem Holds.recache (holds : Holds clocks s) {key : BucketKey} {cache : List TimezoneRow}
    (others : ∀ other, other ≠ key → cacheTotals cache other = cacheTotals s.cache other)
    (rows : ∀ row ∈ cache, row.key ≠ key → row ∈ s.cache)
    (uncovered : s.tables.coverage key = false) (unreported : Unreported s key)
    (idle : ∀ worker ∈ s.workers, worker.key = key →
      worker.phase ≠ .emptied ∧ worker.phase ≠ .inserted) :
    Holds clocks { s with cache := cache } := by
  refine ⟨holds.base, holds.jobs, fun other covered => ?_, fun worker among => ?_, holds.alone⟩
  · obtain ⟨registered, toTs, agreed, below, exact⟩ := holds.covered other covered
    refine ⟨registered, toTs, agreed, below, fun clean => ?_⟩
    have different : other ≠ key := by
      rintro rfl
      exact Bool.eq_false_iff.mp uncovered covered
    exact (others other different).trans (exact clean)
  · have was := holds.workers worker among
    refine ⟨was.issued, was.below, was.own, was.read, fun phase => ?_, fun phase => ?_⟩
    · have vacant := was.emptied phase
      refine ⟨fun row isRow own => ?_, vacant.uncovered, vacant.unreported⟩
      by_cases same : worker.key = key
      · exact (idle worker among same).1 phase
      · exact vacant.rows row (rows row isRow (own ▸ same)) own
    · intro claims
      by_cases same : worker.key = key
      · rcases phase with inserted | compacted
        · exact absurd inserted (idle worker among same).2
        · exact absurd claims (unreported worker among same compacted)
      · intro registered toTs agreed clean
        exact (others worker.key same).trans (was.compacted phase claims registered toTs agreed clean)

theorem Holds.rewriteCache (holds : Holds clocks s) {index : Nat} {worker : Worker}
    (here : s.workers[index]? = some worker) (held : worker.phase.holdsLock = true)
    {cache : List TimezoneRow} {phase : WorkerPhase} (stillHeld : phase.holdsLock = true)
    (others : ∀ other, other ≠ worker.key → cacheTotals cache other = cacheTotals s.cache other)
    (rows : ∀ row ∈ cache, row.key ≠ worker.key → row ∈ s.cache)
    (uncovered : s.tables.coverage worker.key = false) (unreported : Unreported s worker.key)
    (sound : WorkerSound clocks { s with cache := cache } { worker with phase := phase }) :
    Holds clocks { s.setWorker index { worker with phase := phase } with cache := cache } := by
  have was := holds.workers worker (List.mem_of_getElem? here)
  -- First the worker steps back to its lock, which answers for nothing.
  have back : Holds clocks (s.setWorker index { worker with phase := .locked }) :=
    holds.setWorker here (was.idle (by simp) (by simp)) (holds.alone_of_held here held rfl) nofun
  have backUnreported : Unreported (s.setWorker index { worker with phase := .locked }) worker.key :=
    unreported.setWorker nofun
  have idle : ∀ other ∈ (s.setWorker index { worker with phase := .locked }).workers,
      other.key = worker.key → other.phase ≠ .emptied ∧ other.phase ≠ .inserted := by
    intro other among own
    obtain ⟨otherIndex, otherHere⟩ := List.mem_iff_getElem?.mp among
    rcases mem_set otherHere with ⟨-, rfl⟩ | ⟨different, kept⟩
    · exact ⟨nofun, nofun⟩
    · have sameLock : other.lockName = worker.lockName := by
        rw [Worker.lockName, Worker.lockName, own]
      constructor
      all_goals
        intro otherPhase
        refine different (holds.alone index worker otherIndex other here kept held ?_ sameLock)
        rw [otherPhase]
        rfl
  have recached := back.recache others rows uncovered backUnreported idle
  have hereBack : (s.workers.set index { worker with phase := .locked })[index]?
      = some { worker with phase := .locked } := by
    rw [List.getElem?_set_self (List.getElem?_eq_some_iff.mp here).1]
  have forth := @Holds.setWorker clocks _ recached index _ { worker with phase := phase } hereBack
    ⟨sound.issued, sound.below, sound.own, sound.read, fun isEmptied =>
      ⟨(sound.emptied isEmptied).rows, uncovered, backUnreported⟩, sound.compacted⟩
    (recached.alone_of_held hereBack rfl rfl)
    (fun reporting => by
      dsimp only at reporting
      rw [reporting] at stillHeld
      cases stillHeld)
  rw [RollupState.setWorker, RollupState.setWorker, List.set_set] at forth
  exact forth

/-! ### The steps -/

theorem Rebuilt.untouched {before after : Storage.State} {rewritten : List Int}
    (rebuilt : Rebuilt before after rewritten) {fromTs toTs : Int}
    (untouched : ∀ quarter ∈ rewritten, ¬ InWindow fromTs toTs quarter) (below : Below before toTs)
    (clean : Clean after fromTs toTs) : Clean before fromTs toTs ∧
      timezoneAggregate after.rollup fromTs toTs = timezoneAggregate before.rollup fromTs toTs := by
  have wasClean : Clean before fromTs toTs := by
    intro quarter marked
    rcases rebuilt.marks quarter marked with still | gone
    · exact clean quarter still
    · exact untouched quarter gone
  exact ⟨wasClean, rebuilt.aggregate fromTs toTs below wasClean⟩

theorem Holds.kept_coverage (holds : Holds clocks s) (key : BucketKey)
    (covered : s.tables.coverage key = true) : key.timezone ∈ s.tables.timezones ∧
      (s.tables.coverage key = true ∨ Reportable clocks s key) :=
  ⟨(holds.covered key covered).1, Or.inl covered⟩

theorem Holds.baseStep {after : RollupState} (holds : Holds clocks s) {action : Storage.Action}
    (retained : ∀ quarter, action ≠ .expire quarter) (admitted : Admits clocks s (.base action))
    (moved : baseStep clocks.calendar s action = some after) : Holds clocks after := by
  obtain ⟨store, stepped, rfl⟩ := baseStep_cases moved
  obtain ⟨base, rebuilt⟩ := base_step holds.base retained stepped
  have agreed : ∀ key, clocks.calendar.requested s.tables.timezones
      ((rewrittenBuckets s.store action).map (· * fifteenMinutesMs)) key = true →
      Agreed clocks key (clocks.calendar.sourceTo key) := admitted
  generalize rewrittenBuckets s.store action = rewritten at agreed rebuilt
  by_cases nothing : rewritten = []
  · rw [if_pos nothing]
    refine holds.moved base (.of_same holds.jobs rfl rfl) rebuilt.below holds.kept_coverage ?_
    intro key toTs _ registered _ below clean
    exact ⟨registered, rebuilt.untouched (by simp [nothing]) below clean⟩
  · rw [if_neg nothing]
    have covered : ∀ key, (invalidateTimezoneRollupJobs clocks.calendar s.store.now s.tables
        (rewritten.map (· * fifteenMinutesMs))).coverage key = true →
        s.tables.coverage key = true ∧ clocks.calendar.requested s.tables.timezones
          (rewritten.map (· * fifteenMinutesMs)) key = false := by
      intro key isCovered
      simpa only [invalidateTimezoneRollupJobs, Bool.and_eq_true, Bool.not_eq_true'] using isCovered
    refine holds.moved base (.invalidate holds.jobs agreed) rebuilt.below
      (fun key isCovered => holds.kept_coverage key (covered key isCovered).1) ?_
    intro key toTs agreed registered used below clean
    refine ⟨registered, rebuilt.untouched (fun quarter among inside => ?_) below clean⟩
    have requested : clocks.calendar.requested s.tables.timezones
        (rewritten.map (· * fifteenMinutesMs)) key = true :=
      decide_eq_true ⟨registered, _, List.mem_map_of_mem among, agreed.invalidated quarter inside⟩
    rcases used with isCovered | ⟨worker, issued, rfl, claims⟩
    · exact Bool.eq_false_iff.mp (covered key isCovered).2 requested
    · exact not_claims_of_requested issued requested claims

theorem Holds.register (holds : Holds clocks s) {timezone : String}
    (admitted : Admits clocks s (.register timezone)) :
    Holds clocks { s with tables := registerTimezone s.tables timezone } := by
  refine holds.tables (.of_same holds.jobs rfl rfl) (fun key isCovered => ?_) (fun other among => ?_)
  · exact ⟨List.mem_insert_of_mem (holds.covered key isCovered).1, Or.inl isCovered⟩
  · rcases List.mem_insert_iff.mp among with rfl | known
    · exact admitted
    · exact Or.inl known

theorem Holds.tablesKept (holds : Holds clocks s) {tables : RollupTables}
    (step : TablesStep clocks s.tables tables)
    (covered : ∀ key, tables.coverage key = true → s.tables.coverage key = true ∧
      (key.timezone ∈ s.tables.timezones → key.timezone ∈ tables.timezones))
    (registered : ∀ timezone ∈ tables.timezones, timezone ∈ s.tables.timezones) :
    Holds clocks { s with tables := tables } := by
  refine holds.tables step (fun key isCovered => ?_) fun timezone among =>
    Or.inl (registered timezone among)
  obtain ⟨wasCovered, stays⟩ := covered key isCovered
  exact ⟨stays (holds.covered key wasCovered).1, Or.inl wasCovered⟩

theorem Holds.takeJob {after : RollupState} (holds : Holds clocks s) {key : BucketKey}
    (moved : takeJob s key = some after) : Holds clocks after := by
  obtain ⟨taken, claimed, rfl⟩ := Option.map_eq_some_iff.mp moved
  obtain ⟨job, here, claimable, ready, rfl⟩ := claimJob_cases claimed
  obtain ⟨below, -⟩ := baseReady_iff.mp ready
  have waits : job.status ≠ .done := by
    intro finished
    simp [TimezoneRollupJob.claimable, finished] at claimable
  have step := @TablesStep.of_update clocks s.tables { s.tables with
    jobs := Function.update s.tables.jobs key
      (some { job with status := .inflight, updatedAt := s.store.now }) } holds.jobs key job
    { job with status := .inflight, updatedAt := s.store.now } here rfl rfl rfl rfl rfl fun _ => waits
  have holds' := holds.tablesKept step (fun _ covered => ⟨covered, id⟩) fun _ => id
  refine holds'.addWorker ?_ rfl
  refine ⟨⟨(holds.jobs key job here).1, fun found isFound _ => ?_⟩, fun _ toTs agreed => ?_, ?_, ?_, ?_,
    ?_⟩
  · dsimp only at isFound ⊢
    rw [Function.update_self] at isFound
    cases isFound
    exact le_rfl
  · have sameEnd := agreed.ends.symm.trans (holds.jobs key job here).2.ends
    rw [Option.some.inj sameEnd]
    exact below
  all_goals simp

theorem Holds.tryLock {after : RollupState} (holds : Holds clocks s) {index : Nat} {acquired : Bool}
    (moved : tryLock s index acquired = some after) : Holds clocks after := by
  obtain ⟨worker, here, -, stepped⟩ := whenIn_cases moved
  split at stepped
  · split at stepped
    · next free =>
      cases stepped
      have sound := holds.workers worker (List.mem_of_getElem? here)
      refine holds.setWorker here (sound.idle (by simp) (by simp)) ?_ nofun
      intro _ other found _ otherHere held same
      exact of_decide_eq_true free found (List.mem_of_getElem? otherHere) ⟨held, same⟩
    · cases stepped
  · cases stepped
    exact holds.setIdle here (Or.inr (Or.inl rfl))

theorem compactedRows_stamp (startOf : Resolution → String → Int → Int)
    (rollup : List Storage.RollupRow) (key : BucketKey) (toTs version version' : Int) :
    (compactedRows startOf rollup key toTs version).map (TimezoneRow.stamp version')
      = compactedRows startOf rollup key toTs version' := by
  simp only [compactedRows, List.map_map]
  rfl

theorem Holds.readRollup {after : RollupState} (holds : Holds clocks s) {index : Nat}
    (moved : readRollup clocks s index = some after) : Holds clocks after := by
  obtain ⟨worker, here, phase, stepped⟩ := whenIn_cases moved
  obtain ⟨toTs, ends, rfl⟩ := Option.map_eq_some_iff.mp stepped
  have sound := holds.workers worker (List.mem_of_getElem? here)
  have held : worker.phase.holdsLock = true := by
    rw [phase]
    rfl
  refine holds.setWorker here ⟨⟨sound.issued.id, sound.issued.generation⟩, sound.below, ?_, ?_, nofun,
    ?_⟩ (holds.alone_of_held here held rfl) nofun
  · exact fun _ row among => (mem_compactedRows among).1
  · intro _ version _ _ other agreed _
    have sameEnd : other = toTs := Option.some.inj (agreed.ends.symm.trans ends)
    dsimp only at agreed ⊢
    rw [compactedRows_stamp, sameEnd]
    exact cacheTotals_compactedRows
      (fun quarter lower upper => (sameEnd ▸ agreed).selected quarter ⟨lower, upper⟩) _ _
  · rintro (inserted | compacted)
    · cases inserted
    · cases compacted

theorem Holds.emptyCache {after : RollupState} (holds : Holds clocks s) {index : Nat}
    (admitted : Admits clocks s (.empty index)) (moved : emptyCache s index = some after) :
    Holds clocks after := by
  obtain ⟨worker, here, phase, stepped⟩ := whenIn_cases moved
  cases stepped
  obtain ⟨uncovered, unreported⟩ := admitted worker here
  have sound := holds.workers worker (List.mem_of_getElem? here)
  have held : worker.phase.holdsLock = true := by
    rw [phase]
    rfl
  refine holds.rewriteCache here held rfl (fun other different => ?_) ?_ uncovered unreported ?_
  · exact cacheTotals_filter_of_ne different
  · exact fun row among _ => (List.mem_filter.mp among).1
  · refine ⟨⟨sound.issued.id, sound.issued.generation⟩, sound.below,
      fun _ => sound.own (Or.inl phase), fun _ => sound.read (Or.inl phase), fun _ => ?_, nofun⟩
    refine ⟨fun row among => ?_, uncovered, unreported⟩
    exact of_decide_eq_true (List.mem_filter.mp among).2

theorem Holds.insertCache {after : RollupState} (holds : Holds clocks s) {index : Nat}
    (moved : insertCache s index = some after) : Holds clocks after := by
  obtain ⟨worker, here, phase, stepped⟩ := whenIn_cases moved
  cases stepped
  have sound := holds.workers worker (List.mem_of_getElem? here)
  have vacant := sound.emptied phase
  have held : worker.phase.holdsLock = true := by
    rw [phase]
    rfl
  have own : ∀ row ∈ worker.rows.map (TimezoneRow.stamp s.store.now), row.key = worker.key := by
    intro row among
    obtain ⟨old, isOld, rfl⟩ := List.mem_map.mp among
    exact sound.own (Or.inr phase) old isOld
  refine holds.rewriteCache here held rfl (fun other different => ?_) (fun row among different => ?_)
    vacant.uncovered vacant.unreported ?_
  · exact cacheTotals_append_of_ne fun row among same => different (same.symm.trans (own row among))
  · exact (List.mem_append.mp among).resolve_right fun new => different (own row new)
  · refine ⟨⟨sound.issued.id, sound.issued.generation⟩, sound.below, ?_, ?_, nofun, fun _ => ?_⟩
    · rintro (isRead | isEmptied)
      · cases isRead
      · cases isEmptied
    · rintro (isRead | isEmptied)
      · cases isRead
      · cases isEmptied
    · intro claims registered toTs agreed clean
      rw [cacheTotals_append_of_empty vacant.rows]
      exact sound.read (Or.inr phase) s.store.now claims registered toTs agreed clean

theorem Holds.unlock (holds : Holds clocks s) {index : Nat} {worker : Worker}
    (here : s.workers[index]? = some worker) (phase : worker.phase = .inserted) :
    Holds clocks (s.setWorker index { worker with phase := .compacted }) := by
  have sound := holds.workers worker (List.mem_of_getElem? here)
  refine holds.setWorker here ⟨⟨sound.issued.id, sound.issued.generation⟩, sound.below, ?_, ?_, nofun,
    fun _ => sound.compacted (Or.inl phase)⟩ nofun fun _ => ⟨?_, rfl⟩
  · rintro (isRead | isEmptied)
    · cases isRead
    · cases isEmptied
  · rintro (isRead | isEmptied)
    · cases isRead
    · cases isEmptied
  · rw [phase]
    rfl

/-- An accepted report covers a bucket that its worker has computed, whose claim counts, and no
quarter of which is marked. -/
theorem Holds.report {after : RollupState} (holds : Holds clocks s) {index : Nat}
    (moved : report s index = some after) : Holds clocks after := by
  obtain ⟨worker, here, phase, stepped⟩ := whenIn_cases moved
  have among := List.mem_of_getElem? here
  rcases markDone_cases s.store.now s.store.watermark s.store.dirty s.tables worker.key worker.id
      worker.generation with rejected | ⟨job, jobHere, sameId, sameGeneration, inflight, ready,
        registered, accepted⟩
  · rw [rejected] at stepped
    cases stepped
    exact holds.setIdle here (Or.inr (Or.inl rfl))
  · rw [accepted] at stepped
    cases stepped
    obtain ⟨below, clean⟩ := baseReady_iff.mp ready
    have reportable : Reportable clocks s worker.key :=
      ⟨worker, among, rfl, phase, ⟨job, jobHere, sameId, sameGeneration, by simp [inflight]⟩,
        registered, job.sourceTo, (holds.jobs worker.key job jobHere).2, below, clean⟩
    have step := @TablesStep.of_update clocks s.tables { s.tables with
      jobs := Function.update s.tables.jobs worker.key
        (some { job with status := .done, updatedAt := s.store.now })
      coverage := Function.update s.tables.coverage worker.key true } holds.jobs worker.key job
      { job with status := .done, updatedAt := s.store.now } jobHere rfl rfl rfl rfl rfl
      fun waits => absurd rfl waits
    have holds' := holds.tables step (fun key isCovered => ?_) fun _ known => Or.inl known
    · exact holds'.setIdle here (Or.inr (Or.inr rfl))
    · by_cases same : key = worker.key
      · rw [same]
        exact ⟨registered, Or.inr reportable⟩
      · dsimp only at isCovered
        rw [Function.update_of_ne same] at isCovered
        exact holds.kept_coverage key isCovered

theorem TablesStep.markPending (sound : JobsSound clocks before) (now : Int) (key : BucketKey)
    (id generation : Nat) :
    TablesStep clocks before (markPending now before key id generation) := by
  unfold Timezone.markPending
  split
  · exact .of_same sound rfl rfl
  · next job here =>
    split
    · next allowed =>
      refine .of_update sound here rfl rfl rfl rfl rfl fun _ => ?_
      simp [allowed.2.2]
    · exact .of_same sound rfl rfl

theorem markPending_coverage (now : Int) (tables : RollupTables) (key : BucketKey)
    (id generation : Nat) : (markPending now tables key id generation).coverage = tables.coverage ∧
      (markPending now tables key id generation).timezones = tables.timezones := by
  unfold markPending
  split
  · exact ⟨rfl, rfl⟩
  · split
    · exact ⟨rfl, rfl⟩
    · exact ⟨rfl, rfl⟩

theorem TablesStep.disable (sound : JobsSound clocks before) (now : Int) (timezone : String) :
    TablesStep clocks before (disableTimezone now before timezone) := by
  refine .of_kept sound rfl fun key job here => ?_
  rw [disableTimezone] at here
  dsimp only at here
  split at here
  · obtain ⟨old, isOld, rfl⟩ := Option.map_eq_some_iff.mp here
    split
    · exact ⟨old, isOld, rfl, rfl, rfl, id⟩
    · exact ⟨old, isOld, rfl, rfl, rfl, fun waits => absurd rfl waits⟩
  · exact ⟨job, here, rfl, rfl, rfl, id⟩

theorem Holds.disable (holds : Holds clocks s) (timezone : String) :
    Holds clocks { s with tables := disableTimezone s.store.now s.tables timezone } := by
  refine holds.tablesKept (.disable holds.jobs _ _) (fun key isCovered => ?_) fun other among => ?_
  · simp only [disableTimezone, Bool.and_eq_true, decide_eq_true_eq] at isCovered
    exact ⟨isCovered.1, fun known => List.mem_filter.mpr ⟨known, decide_eq_true isCovered.2⟩⟩
  · exact (List.mem_filter.mp among).1

/-- **An admitted step keeps the invariant.** -/
theorem Holds.step {after : RollupState} (holds : Holds clocks s) {action : RollupAction}
    (admitted : Admits clocks s action) (moved : s.next clocks action = some after) :
    Holds clocks after := by
  cases action with
  | base action =>
    cases action with
    | expire quarter => cases moved
    | _ => exact holds.baseStep (by simp) admitted moved
  | register timezone =>
    cases moved
    exact holds.register admitted
  | prewarm resolution timezone windows =>
    cases moved
    exact holds.tablesKept (.prewarm holds.jobs admitted) (fun _ covered => ⟨covered, id⟩) fun _ => id
  | pruneJobs cutoff =>
    cases moved
    refine holds.tablesKept (.of_kept holds.jobs rfl fun key job here => ?_)
      (fun _ covered => ⟨covered, id⟩) fun _ => id
    exact ⟨job, (Option.filter_eq_some_iff.mp here).1, rfl, rfl, rfl, id⟩
  | pruneCoverage cutoff =>
    cases moved
    refine holds.tablesKept (.of_same holds.jobs rfl rfl) (fun key isCovered => ?_) fun _ => id
    exact ⟨((Bool.and_eq_true _ _).mp isCovered).1, id⟩
  | claim key => exact holds.takeJob moved
  | unsupported index =>
    obtain ⟨worker, here, -, stepped⟩ := whenIn_cases moved
    cases stepped
    exact (holds.setIdle here (Or.inr (Or.inr rfl))).disable worker.key.timezone
  | lock index acquired => exact holds.tryLock moved
  | read index => exact holds.readRollup moved
  | empty index => exact holds.emptyCache admitted moved
  | insert index => exact holds.insertCache moved
  | unlock index =>
    obtain ⟨worker, here, phase, stepped⟩ := whenIn_cases moved
    cases stepped
    exact holds.unlock here phase
  | done index => exact holds.report moved
  | fail index =>
    rw [RollupState.next, failWorker] at moved
    split at moved
    · cases moved
    · next worker here =>
      split at moved
      · cases moved
      · cases moved
        exact holds.setIdle here (Or.inr (Or.inl rfl))
  | pending index =>
    obtain ⟨worker, here, -, stepped⟩ := whenIn_cases moved
    cases stepped
    have idle := holds.setIdle here (Or.inr (Or.inr rfl : WorkerPhase.ended = .rejected ∨ _))
    have same := markPending_coverage s.store.now s.tables worker.key worker.id worker.generation
    refine idle.tablesKept (.markPending idle.jobs _ _ _ _) (fun key isCovered => ?_) fun other => ?_
    · exact ⟨congrFun same.1 key ▸ isCovered, fun known => same.2 ▸ known⟩
    · exact fun known => same.2 ▸ known
  | crash index =>
    rw [RollupState.next, crashWorker] at moved
    split at moved
    · cases moved
    · next worker here =>
      cases moved
      exact holds.setIdle here (Or.inr (Or.inr rfl))

/-- **Covered time-zone buckets are exact** in every state of a run of admitted steps. -/
theorem covered_buckets_exact (clocks : Clocks) (now : Int) {s : RollupState}
    (reached : ReachableBy (RollupState.next clocks) (Admits clocks) (.initial now) s) :
    CoveredExact clocks s := by
  refine Holds.coveredExact (reached.invariant (Holds clocks) (.initial now) ?_)
  exact fun before action after holds admitted moved => holds.step admitted moved

/-! ### Runs -/

def utcClocks : Clocks where
  calendar :=
    { dateTrunc := fun resolution _ instant => match resolution with
        | .hour => instant / hourMs * hourMs
        | .day => instant / dayMs * dayMs
      localDate := fun _ instant => instant / dayMs
      dateStart := fun _ date => date * dayMs }
  zones := fun _ => ⟨fun _ => 0⟩
  startOf := fun resolution _ instant => match resolution with
    | .hour => instant / hourMs * hourMs
    | .day => instant / dayMs * dayMs

def firstHour : BucketKey := ⟨.hour, "UTC", 0⟩

def baseReaches : List RollupAction :=
  (Storage.flushOf "a" 0 ++ Storage.compactToAggregate ++
    [Storage.Action.empty, .insertRollup]).map .base

/-- A worker takes the job of the hour and is slow; after five minutes another one takes it. -/
def reclaimed : List RollupAction :=
  [.claim firstHour, .base (.tick 300001), .claim firstHour, .lock 1 true, .read 1]

theorem agreed_utc_hour (timezone : String) (hour : Int) :
    Agreed utcClocks ⟨.hour, timezone, hour * hourMs⟩ (hour * hourMs + hourMs) := by
  have starts : ∀ quarter, InWindow (hour * hourMs) (hour * hourMs + hourMs) quarter →
      quarter * fifteenMinutesMs / hourMs * hourMs = hour * hourMs := by
    intro quarter inside
    simp only [InWindow, fifteenMinutesMs, hourMs] at inside ⊢
    omega
  exact ⟨rfl, starts, fun quarter inside => decide_eq_true ⟨inside.1, inside.2, starts quarter inside⟩⟩

theorem agreed_utc_day (timezone : String) : Agreed utcClocks ⟨.day, timezone, 0⟩ dayMs := by
  have ends : nextTimezoneDayStart ⟨fun _ => 0⟩ 0 = some dayMs := by decide
  have starts : ∀ quarter, InWindow 0 dayMs quarter →
      quarter * fifteenMinutesMs / dayMs * dayMs = 0 := by
    intro quarter inside
    simp only [InWindow, fifteenMinutesMs, dayMs, hourMs] at inside ⊢
    omega
  exact ⟨ends, starts, fun quarter inside => decide_eq_true ⟨inside.1, inside.2, starts quarter inside⟩⟩

theorem agreed_of_requested {timezones : List String} {affected : List Int} {key : BucketKey}
    (firstDay : ∀ instant ∈ affected, 0 ≤ instant ∧ instant < dayMs)
    (requested : utcClocks.calendar.requested timezones affected key = true) :
    Agreed utcClocks key (utcClocks.calendar.sourceTo key) := by
  obtain ⟨-, instant, among, truncated⟩ := of_decide_eq_true requested
  obtain ⟨resolution, timezone, bucket⟩ := key
  cases resolution with
  | hour =>
    obtain rfl : instant / hourMs * hourMs = bucket := truncated
    exact agreed_utc_hour timezone _
  | day =>
    have first : instant / dayMs = 0 := Int.ediv_eq_zero_of_lt (firstDay instant among).1
      (firstDay instant among).2
    obtain rfl : instant / dayMs * dayMs = bucket := truncated
    rw [first, Int.zero_mul]
    exact agreed_utc_day timezone

theorem admits_utc {s : RollupState} {action : Storage.Action}
    (firstDay : ∀ quarter ∈ rewrittenBuckets s.store action, 0 ≤ quarter ∧ quarter < 96) :
    Admits utcClocks s (.base action) := by
  refine fun key => agreed_of_requested fun instant among => ?_
  obtain ⟨quarter, rewritten, rfl⟩ := List.mem_map.mp among
  have bounds := firstDay quarter rewritten
  simp only [fifteenMinutesMs, dayMs, hourMs]
  omega

theorem admits_baseReaches : ∀ action ∈ baseReaches, ∀ s, Admits utcClocks s action := by
  intro action among s
  obtain ⟨step, isStep, rfl⟩ := List.mem_map.mp among
  refine admits_utc ?_
  have nothing : rewrittenBuckets s.store step = [] := by
    simp only [Storage.flushOf, Storage.compactToAggregate, List.cons_append, List.nil_append,
      List.mem_cons, List.not_mem_nil, or_false] at isStep
    rcases isStep with rfl | rfl | rfl | rfl | rfl | rfl | rfl | rfl | rfl <;> rfl
  rw [nothing]
  exact fun bucket among => absurd among List.not_mem_nil

theorem admits_reclaimed : ∀ action ∈ reclaimed, ∀ s, Admits utcClocks s action := by
  intro action among s
  simp only [reclaimed, List.mem_cons, List.not_mem_nil, or_false] at among
  rcases among with rfl | rfl | rfl | rfl | rfl
  case inr.inl => exact admits_utc nofun
  all_goals trivial

theorem admits_empty {index : Nat}
    (uncovered : ∀ worker ∈ s.workers, s.tables.coverage worker.key = false)
    (early : ∀ worker ∈ s.workers, worker.phase ≠ .compacted) :
    Admits utcClocks s (.empty index) :=
  fun worker here => ⟨uncovered worker (List.mem_of_getElem? here),
    fun other among _ phase => absurd phase (early other among)⟩

/-- The slow worker finds its job done and stops; the other one's sums are covered. -/
theorem covered_buckets_exact_reclaimed :
    ∃ s, ReachableBy (RollupState.next utcClocks) (Admits utcClocks) (.initial 7200000) s ∧
      s.tables.coverage firstHour = true ∧ CoveredExact utcClocks s := by
  have registered : ReachableBy (RollupState.next utcClocks) (Admits utcClocks)
      (.initial 7200000) _ := .step (.register "UTC") .start (Or.inr fun _ _ _ none => nomatch none) rfl
  have based := registered.trans (.of_run baseReaches (.of_forall admits_baseReaches _) rfl)
  have committed := based.step (.base .commit) (admits_utc (by decide)) rfl
  have taken := committed.trans (.of_run reclaimed (.of_forall admits_reclaimed _) rfl)
  have emptied := taken.step (.empty 1) (admits_empty (by decide) (by decide)) rfl
  have reached := emptied.trans (.of_run [.insert 1, .unlock 1, .done 1]
    (.of_forall (by simp [Admits]) _) rfl)
  exact ⟨_, reached, by decide, covered_buckets_exact utcClocks 7200000 reached⟩

/-- **A stale worker empties a covered bucket.** The slow worker goes on after the other one has
reported, deletes the rows of the covered hour and dies: the hour stays covered, and its job done. -/
theorem stale_worker_empties_covered_bucket : ¬ ∀ (clocks : Clocks) (now : Int) (s : RollupState),
    Reachable (RollupState.next clocks) (.initial now) s → CoveredExact clocks s := by
  intro claimed
  have exact := claimed utcClocks 7200000 _ (Reachable.of_run
    (.register "UTC" :: baseReaches ++ [.base .commit] ++ reclaimed ++
      [.empty 1, .insert 1, .unlock 1, .done 1, .lock 0 true, .read 0, .empty 0, .crash 0]) rfl)
  have settled := exact firstHour hourMs rfl (fun job here => by cases here; rfl) rfl (by decide)
  have empty := congrFun settled (Storage.clickHouseUsageRow (Storage.eventOf "a")).dimensions
  exact absurd empty (by decide)

end Toard.Timezone
