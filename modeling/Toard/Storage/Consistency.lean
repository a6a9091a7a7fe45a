/-
**The 15-minute rollup agrees with the raw events.**

The compactor reads its aggregate in one statement and deletes the marks of its buckets in a later
one, by bucket alone, so it also deletes a mark that was set in between. `Careful` says which of
its commits, and which crashes of a flush or repair, lose nothing; in a run of careful steps every
bucket is accounted for at any time (`Accounted`): it is marked, or a flush or repair that inserted
rows into it will mark it, or the rollup and the compactor at work have what the raw events have
(`UpToDate`).

* **`rollup_consistent`**: in every quiescent state of such a run the buckets below the watermark
  that are retained and not marked have the rollup rows of their events.
* **`mark_of_a_later_event_is_consumed`**: the run that shows that the condition is needed.
-/

import Toard.Storage.Origins

namespace Toard.Storage

open Toard.Library

/-! ### What a reader finds -/

theorem aggregate_eq_none {raw : List UsageRow} {bucket : Int} {dimensions : Dimensions} :
    aggregate raw bucket dimensions = none ↔ ∀ row ∈ raw, row.group ≠ (bucket, dimensions) := by
  unfold aggregate
  simp only [ite_eq_left_iff, reduceCtorEq, imp_false, not_not, List.filter_eq_nil_iff,
    decide_eq_true_eq]

theorem rollupTotals_aggregateRollupBuckets (raw : List UsageRow) {buckets : List Int}
    (version : Int) {bucket : Int} (among : bucket ∈ buckets) :
    rollupTotals (aggregateRollupBuckets raw buckets version) bucket = aggregate raw bucket := by
  funext dimensions
  unfold rollupTotals aggregateRollupBuckets
  rw [lookup_map RollupRow.group RollupRow.version (List.nodup_dedup _) _ fun _ => rfl]
  by_cases empty : ∀ row ∈ raw, row.group ≠ (bucket, dimensions)
  · rw [aggregate_eq_none.mpr empty, if_neg, Option.map_none]
    intro found
    obtain ⟨row, rowAmong, same⟩ := List.mem_map.mp (List.mem_dedup.mp found)
    exact empty row (List.mem_filter.mp rowAmong).1 same
  · obtain ⟨row, rowAmong, same⟩ : ∃ row ∈ raw, row.group = (bucket, dimensions) := by
      simpa using empty
    have inBucket : row.bucket = bucket := congrArg Prod.fst same
    rw [if_pos, Option.map_some, aggregate, if_neg]
    · rw [List.filter_eq_nil_iff]
      exact fun none => none row rowAmong (by simpa using same)
    · refine List.mem_dedup.mpr (List.mem_map.mpr ⟨row, List.mem_filter.mpr ⟨rowAmong, ?_⟩, same⟩)
      simpa [inBucket] using among

theorem mem_aggregateRollupBuckets {raw : List UsageRow} {buckets : List Int} {version : Int}
    {row : RollupRow} (among : row ∈ aggregateRollupBuckets raw buckets version) :
    row.version = version ∧ row.bucket ∈ buckets := by
  obtain ⟨group, grouped, rfl⟩ := List.mem_map.mp among
  obtain ⟨event, selected, rfl⟩ := List.mem_map.mp (List.mem_dedup.mp grouped)
  exact ⟨rfl, of_decide_eq_true (List.mem_filter.mp selected).2⟩

theorem rollupTotals_append {rollup rows : List RollupRow}
    (notOlder : ∀ old ∈ rollup, ∀ row ∈ rows, old.version ≤ row.version) (bucket : Int)
    (dimensions : Dimensions) : rollupTotals (rollup ++ rows) bucket dimensions
      = (rollupTotals rows bucket dimensions).or (rollupTotals rollup bucket dimensions) := by
  unfold rollupTotals
  rw [lookup_append RollupRow.group RollupRow.version notOlder]
  cases lookup RollupRow.group RollupRow.version rows (bucket, dimensions) <;> rfl

theorem rollupTotals_filter_of_kept {rollup : List RollupRow} {keep : RollupRow → Bool}
    {bucket : Int} (kept : ∀ row ∈ rollup, row.bucket = bucket → keep row) :
    rollupTotals (rollup.filter keep) bucket = rollupTotals rollup bucket := by
  funext dimensions
  unfold rollupTotals
  rw [lookup_filter_of_kept RollupRow.group RollupRow.version (k := (bucket, dimensions))
    fun row among same => kept row among (congrArg Prod.fst same)]

theorem rollupTotals_filter_of_removed {rollup : List RollupRow} {keep : RollupRow → Bool}
    {bucket : Int} (removed : ∀ row ∈ rollup, row.bucket = bucket → keep row = false)
    (dimensions : Dimensions) : rollupTotals (rollup.filter keep) bucket dimensions = none := by
  unfold rollupTotals
  rw [lookup_filter_of_removed RollupRow.group RollupRow.version (k := (bucket, dimensions))
    fun row among same => removed row among (congrArg Prod.fst same), Option.map_none]

theorem rollupTotals_filter_eq_none {rollup : List RollupRow} (keep : RollupRow → Bool)
    {bucket : Int} {dimensions : Dimensions}
    (absent : rollupTotals rollup bucket dimensions = none) :
    rollupTotals (rollup.filter keep) bucket dimensions = none := by
  unfold rollupTotals at *
  rw [Option.map_eq_none_iff, lookup_eq_none] at *
  exact fun row among => absent row (List.mem_filter.mp among).1

/-- An insert leaves the aggregate of a bucket that none of its rows falls into, as long as it
replaces rows within their bucket. -/
theorem aggregate_replaceRows {raw rows : List UsageRow} {bucket : Int}
    (elsewhere : ∀ row ∈ rows, row.bucket ≠ bucket)
    (inBucket : ∀ old ∈ raw, ∀ row ∈ rows, old.dedupKey = row.dedupKey → old.bucket = row.bucket) :
    aggregate (replaceRows UsageRow.dedupKey raw rows) bucket = aggregate raw bucket := by
  funext dimensions
  unfold aggregate
  rw [filter_replaceRows]
  · intro row among
    exact decide_eq_false fun same => elsewhere row among (congrArg Prod.fst same)
  · intro old oldAmong row among sameKey
    refine decide_eq_false fun same => elsewhere row among ?_
    rw [← inBucket old oldAmong row among sameKey]
    exact congrArg Prod.fst same

/-! ### The retention -/

theorem Retained.earlier {now later bucket : Int} (retained : Retained later bucket)
    (passed : now ≤ later) : Retained now bucket := by
  unfold Retained at *
  omega

theorem lt_of_lt_clampV2RollupStart {now startedAt firstBucket bucket : Int} {delayMs : Nat}
    (started : startedAt ≤ now) (retained : Retained now bucket)
    (below : bucket < clampV2RollupStart firstBucket ((startedAt - delayMs) / fifteenMinutesMs)) :
    bucket < firstBucket := by
  unfold clampV2RollupStart at below
  simp only at below
  split at below
  · exact below
  · exfalso
    unfold Retained v2RollupRetentionMs fifteenMinutesMs at retained
    unfold v2RollupRetentionBuckets v2RollupRetentionMs fifteenMinutesMs at below
    omega

theorem le_clampV2RollupStart (firstBucket eligibleTo : Int) :
    firstBucket ≤ clampV2RollupStart firstBucket eligibleTo := by
  unfold clampV2RollupStart
  simp only
  split
  · exact le_rfl
  · next passed => exact not_lt.mp passed

/-- Below the watermark that a run starts with there are only the buckets below the recorded
watermark, and with none recorded buckets without events. -/
theorem lt_readOrInitWatermark {now startedAt bucket : Int} {delayMs : Nat}
    {current : Option Int} {raw : List UsageRow} (started : startedAt ≤ now)
    (retained : Retained now bucket)
    (below : bucket <
      readOrInitWatermark current raw ((startedAt - delayMs) / fifteenMinutesMs)) :
    (∃ watermark, current = some watermark ∧ bucket < watermark) ∨
      ∀ dimensions, aggregate raw bucket dimensions = none := by
  unfold readOrInitWatermark at below
  cases current with
  | some watermark =>
    exact Or.inl ⟨watermark, rfl, lt_of_lt_clampV2RollupStart started retained below⟩
  | none =>
    refine Or.inr fun dimensions => aggregate_eq_none.mpr fun row among same => ?_
    have inBucket : row.bucket = bucket := congrArg Prod.fst same
    cases found : firstRollupBucket raw with
    | none =>
      rw [firstRollupBucket, List.min?_eq_none_iff, List.map_eq_nil_iff] at found
      rw [found] at among
      cases among
    | some firstBucket =>
      rw [found] at below
      have beforeFirst := lt_of_lt_clampV2RollupStart started retained
        (lt_of_lt_clampV2RollupStart started retained below)
      have least : firstBucket ≤ row.bucket :=
        (List.min?_eq_some_iff.mp found).2 _ (List.mem_map_of_mem among)
      omega

theorem le_readOrInitWatermark {current : Option Int} {raw : List UsageRow} {eligibleTo watermark : Int}
    (recorded : current = some watermark) :
    watermark ≤ readOrInitWatermark current raw eligibleTo := by
  rw [recorded]
  exact le_clampV2RollupStart watermark eligibleTo

/-! ### The condition and the invariant -/

/-- A flush or repair that has inserted rows into the bucket is still to mark it. -/
def State.Touched (s : State) (bucket : Int) : Prop :=
  ∃ writer ∈ s.writers, writer.progress = .inserted ∧ bucket ∈ writer.buckets

/-- The table has no rows of a group of the bucket that has no raw events. -/
def NoLeftover (rollup : List RollupRow) (raw : List UsageRow) (bucket : Int) : Prop :=
  ∀ dimensions, aggregate raw bucket dimensions = none → rollupTotals rollup bucket dimensions = none

/-- The rollup, and the compactor run at work, have of the bucket what the raw events have. -/
structure State.UpToDate (s : State) (bucket : Int) : Prop where
  settled : (∃ watermark, s.watermark = some watermark ∧ bucket < watermark) ∨
    (∃ run, s.compactor = some run ∧ bucket < run.watermark) →
    rollupTotals s.rollup bucket = aggregate s.raw bucket
  noLeftover : NoLeftover s.rollup s.raw bucket
  current : ∀ run, s.compactor = some run → run.hasRead → bucket ∈ run.buckets →
    rollupTotals run.rows bucket = aggregate s.raw bucket

/-- The steps that lose no mark.

A commit deletes the mark of a bucket that no flush or repair is to mark again only when, if the
bucket is then below the watermark, the rows the run read are still its aggregate, and when neither
these rows nor, unless the run emptied the bucket, the rollup have a group without raw events.
A flush or repair that dies after its insert leaves each of its buckets marked, to be marked by
another, or up to date. -/
def Careful (s : State) : Action → Prop
  | .commit => ∀ run, s.compactor = some run → ∀ bucket ∈ run.buckets, Retained s.now bucket →
      bucket ∈ s.dirty → ¬ s.Touched bucket →
      (bucket < run.newWatermark → rollupTotals run.rows bucket = aggregate s.raw bucket) ∧
        NoLeftover run.rows s.raw bucket ∧
        (bucket ∉ run.dirtyRows → NoLeftover s.rollup s.raw bucket)
  | .stop index _ => ∀ writer, s.writers[index]? = some writer → writer.progress = .inserted →
      ∀ bucket ∈ writer.buckets, Retained s.now bucket → bucket ∈ s.dirty ∨
        (∃ other ∈ s.writers.eraseIdx index, other.progress = .inserted ∧ bucket ∈ other.buckets) ∨
        s.UpToDate bucket
  | _ => True

structure RunHolds (s : State) (run : Compactor) : Prop where
  watermark : ∀ watermark, s.watermark = some watermark → watermark ≤ run.watermark
  marked : ∀ bucket ∈ run.dirtyRows, bucket ∈ s.dirty
  version : run.version ≤ s.now
  newest : run.phase ≠ .locked → ∀ row ∈ s.rollup, row.version ≤ run.version
  rows : run.hasRead → ∀ row ∈ run.rows, row.version = run.version ∧ row.bucket ∈ run.buckets
  emptied : run.phase = .emptied → ∀ bucket ∈ run.dirtyRows, ∀ dimensions,
    rollupTotals s.rollup bucket dimensions = none
  inserted : run.phase = .inserted → ∀ bucket, Retained s.now bucket → ∀ dimensions found,
    rollupTotals run.rows bucket dimensions = some found →
    rollupTotals s.rollup bucket dimensions = some found
  replaced : run.phase = .inserted → ∀ bucket ∈ run.dirtyRows, ∀ dimensions,
    rollupTotals run.rows bucket dimensions = none →
    rollupTotals s.rollup bucket dimensions = none

structure Accounted (s : State) : Prop where
  origins : Origins s
  versions : ∀ row ∈ s.rollup, row.version ≤ s.now
  run : ∀ run, s.compactor = some run → RunHolds s run
  bucket : ∀ bucket, Retained s.now bucket →
    bucket ∈ s.dirty ∨ s.Touched bucket ∨ s.UpToDate bucket

theorem Accounted.initial (now : Int) : Accounted (State.initial now) where
  origins := .initial now
  versions := by simp [State.initial]
  run := by simp [State.initial]
  bucket bucket _ := by
    refine Or.inr (Or.inr ⟨fun below => ?_, fun _ _ => rfl, ?_⟩)
    · rcases below with ⟨_, recorded, _⟩ | ⟨_, atWork, _⟩
      · cases recorded
      · cases atWork
    · intro run atWork
      cases atWork

/-! ### Flushes and repairs -/

theorem Accounted.of_same_store {s after : State} (accounted : Accounted s)
    (origins : Origins after) (later : s.now ≤ after.now)
    (raw : after.raw = s.raw) (rollup : after.rollup = s.rollup)
    (watermark : after.watermark = s.watermark) (compactor : after.compactor = s.compactor)
    (marks : ∀ bucket ∈ s.dirty, bucket ∈ after.dirty)
    (touched : ∀ bucket, Retained after.now bucket → s.Touched bucket →
      bucket ∈ after.dirty ∨ after.Touched bucket ∨ s.UpToDate bucket) : Accounted after where
  origins := origins
  versions row among := by
    rw [rollup] at among
    exact (accounted.versions row among).trans later
  run run atWork := by
    have holds := accounted.run run (compactor ▸ atWork)
    refine ⟨watermark ▸ holds.watermark, fun bucket among => marks bucket (holds.marked bucket among),
      holds.version.trans later, rollup ▸ holds.newest, holds.rows, rollup ▸ holds.emptied, ?_,
      rollup ▸ holds.replaced⟩
    rw [rollup]
    exact fun phase bucket retained => holds.inserted phase bucket (retained.earlier later)
  bucket bucket retained := by
    have upToDate : s.UpToDate bucket → after.UpToDate bucket := fun before =>
      ⟨by rw [raw, rollup, watermark, compactor]; exact before.settled,
        by rw [raw, rollup]; exact before.noLeftover,
        by rw [raw, compactor]; exact before.current⟩
    rcases accounted.bucket bucket (retained.earlier later) with marked | inserted | current
    · exact Or.inl (marks bucket marked)
    · exact (touched bucket retained inserted).imp_right (Or.imp_right upToDate)
    · exact Or.inr (Or.inr (upToDate current))

theorem State.Touched.mono {s after : State} {bucket : Int} (touched : s.Touched bucket)
    (kept : ∀ writer ∈ s.writers, writer.progress = .inserted → writer ∈ after.writers) :
    after.Touched bucket := by
  obtain ⟨writer, among, inserted, own⟩ := touched
  exact ⟨writer, kept writer among inserted, inserted, own⟩

theorem mem_set_of_progress {writers : List Writer} {index : Nat} {writer replaced other : Writer}
    (here : writers[index]? = some writer) (among : other ∈ writers) (different : other ≠ writer) :
    other ∈ writers.set index replaced := by
  obtain ⟨position, found⟩ := List.mem_iff_getElem?.mp among
  have elsewhere : index ≠ position := by
    rintro rfl
    exact different (Option.some.inj (found.symm.trans here))
  refine List.mem_iff_getElem?.mpr ⟨position, ?_⟩
  rw [List.getElem?_set_ne elsewhere, found]

theorem mem_eraseIdx_of_ne {writers : List Writer} {index : Nat} {writer other : Writer}
    (here : writers[index]? = some writer) (among : other ∈ writers) (different : other ≠ writer) :
    other ∈ writers.eraseIdx index := by
  obtain ⟨position, found⟩ := List.mem_iff_getElem?.mp among
  refine List.mem_eraseIdx_iff_getElem?.mpr ⟨position, ?_, found⟩
  rintro rfl
  exact different (Option.some.inj (found.symm.trans here))

theorem Accounted.insertRaw {s after : State} {index : Nat} {recognised : Bool}
    (accounted : Accounted s) (moved : insertRaw s index recognised = some after) :
    Accounted after := by
  have origins : Origins after := accounted.origins.step (.insert index recognised) moved
  obtain ⟨writer, here, _, rfl⟩ := insertRaw_cases moved
  refine ⟨origins, accounted.versions, fun run atWork => ?_, fun bucket retained => ?_⟩
  · have holds := accounted.run run atWork
    exact ⟨holds.watermark, holds.marked, holds.version, holds.newest, holds.rows, holds.emptied,
      holds.inserted, holds.replaced⟩
  by_cases own : bucket ∈ writer.buckets
  · obtain ⟨inRange, _⟩ := List.getElem?_eq_some_iff.mp here
    exact Or.inr (Or.inl ⟨{ writer with progress := .inserted }, List.mem_set inRange _, rfl, own⟩)
  · have elsewhere : ∀ row ∈ writer.rows, row.bucket ≠ bucket := fun row among same =>
      own (mem_dirty15mBuckets.mpr ⟨row, among, same⟩)
    have same : aggregate (if recognised then s.raw
        else replaceRows UsageRow.dedupKey s.raw writer.rows) bucket = aggregate s.raw bucket := by
      cases recognised with
      | true => rfl
      | false =>
        exact aggregate_replaceRows elsewhere fun old oldAmong row among =>
          accounted.origins.same_bucket (accounted.origins.raw old oldAmong)
            (accounted.origins.writers writer (List.mem_of_getElem? here) row among)
    rcases accounted.bucket bucket retained with marked | ⟨other, among, inserted, touches⟩ | before
    · exact Or.inl marked
    · have different : other ≠ writer := by
        rintro rfl
        exact own touches
      exact Or.inr (Or.inl ⟨other, mem_set_of_progress here among different, inserted, touches⟩)
    · refine Or.inr (Or.inr ⟨?_, ?_, ?_⟩)
      · simp only [same]
        exact before.settled
      · simp only [NoLeftover, same]
        exact before.noLeftover
      · simp only [same]
        exact before.current

theorem Accounted.finishWriter {s after : State} {index : Nat} (accounted : Accounted s)
    (moved : finishWriter s index = some after) : Accounted after := by
  have origins : Origins after := accounted.origins.step (.finish index) moved
  obtain ⟨writer, here, _, rfl⟩ := finishWriter_cases moved
  refine accounted.of_same_store origins le_rfl rfl rfl rfl rfl
    (fun bucket marked => List.mem_union_iff.mpr (Or.inr marked)) ?_
  rintro bucket _ ⟨other, among, inserted, touches⟩
  by_cases same : other = writer
  · subst same
    exact Or.inl (List.mem_union_iff.mpr (Or.inl touches))
  · exact Or.inr (Or.inl ⟨other, mem_eraseIdx_of_ne here among same, inserted, touches⟩)

theorem Accounted.stopWriter {s after : State} {index : Nat} {caught : Bool}
    (accounted : Accounted s) (careful : Careful s (.stop index caught))
    (moved : stopWriter s index caught = some after) : Accounted after := by
  have origins : Origins after := accounted.origins.step (.stop index caught) moved
  obtain ⟨writer, here, rfl⟩ := stopWriter_cases moved
  refine accounted.of_same_store origins le_rfl rfl rfl rfl rfl (fun bucket marked => marked) ?_
  rintro bucket retained ⟨other, among, inserted, touches⟩
  by_cases same : other = writer
  · subst same
    exact careful other here inserted bucket touches retained
  · exact Or.inr (Or.inl ⟨other, mem_eraseIdx_of_ne here among same, inserted, touches⟩)

/-! ### The compactor -/

theorem not_hasRead {run : Compactor} (early : run.phase = .locked ∨ run.phase = .selected) :
    ¬ run.hasRead := by
  rcases early with phase | phase
  all_goals
    unfold Compactor.hasRead
    rw [phase]
    simp

theorem lt_watermark_of_not_mem_buckets {run : Compactor} {bucket : Int}
    (below : bucket < run.newWatermark) (absent : bucket ∉ run.buckets) :
    bucket < run.watermark := by
  by_contra above
  refine absent (List.mem_dedup.mpr (List.mem_append_left _ (List.mem_map.mpr
    ⟨(bucket - run.watermark).toNat, List.mem_range.mpr ?_, ?_⟩)))
  · unfold Compactor.newWatermark at below
    omega
  · omega

theorem Accounted.lockCompactor {s after : State} {startedAt : Int} {delayMs : Nat}
    {limitBuckets : Int} (accounted : Accounted s)
    (moved : lockCompactor s startedAt delayMs limitBuckets = some after) : Accounted after := by
  have origins : Origins after :=
    accounted.origins.step (.lock startedAt delayMs limitBuckets) moved
  obtain ⟨_, started, run, eligible, watermark, noRows, version, locked, rfl⟩ :=
    lockCompactor_cases moved
  refine ⟨origins, accounted.versions, ?_, fun bucket retained => ?_⟩
  · intro run' atWork
    cases atWork
    exact
      { watermark := fun recorded same => watermark ▸ le_readOrInitWatermark same
        marked := by simp [noRows]
        version := version.le
        newest := fun late => absurd locked late
        rows := fun read => absurd read (not_hasRead (Or.inl locked))
        emptied := by simp [locked]
        inserted := by simp [locked]
        replaced := by simp [locked] }
  · refine (accounted.bucket bucket retained).imp_right (Or.imp_right fun before => ?_)
    refine ⟨fun below => ?_, before.noLeftover, ?_⟩
    · rcases below with recorded | ⟨run', atWork, below⟩
      · exact before.settled (Or.inl recorded)
      · cases atWork
        rw [watermark, eligible] at below
        rcases lt_readOrInitWatermark started retained below with recorded | noEvents
        · exact before.settled (Or.inl recorded)
        · funext dimensions
          show rollupTotals s.rollup bucket dimensions = _
          rw [noEvents dimensions, before.noLeftover dimensions (noEvents dimensions)]
    · intro run' atWork read
      cases atWork
      exact absurd read (not_hasRead (Or.inl locked))

theorem Accounted.selectDirty {s after : State} (accounted : Accounted s)
    (moved : selectDirty s = some after) : Accounted after := by
  have origins : Origins after := accounted.origins.step .selectDirty moved
  obtain ⟨run, atWork, rfl | ⟨dirtyRows, marked, rfl⟩⟩ := selectDirty_cases moved
  · refine ⟨origins, accounted.versions, fun run' none => (nomatch none), fun bucket retained => ?_⟩
    refine (accounted.bucket bucket retained).imp_right (Or.imp_right fun before => ?_)
    refine ⟨fun below => before.settled ?_, before.noLeftover, fun run' none => (nomatch none)⟩
    obtain ⟨watermark, recorded, below⟩ | ⟨_, none, _⟩ := below
    · cases found : s.watermark with
      | some current => exact Or.inl ⟨current, rfl, by simp_all⟩
      | none => exact Or.inr ⟨run, atWork, by simp_all⟩
    · cases none
  · have holds := accounted.run run atWork
    refine ⟨origins, accounted.versions, ?_, fun bucket retained => ?_⟩
    · intro run' selected
      cases selected
      exact
        { watermark := holds.watermark
          marked := marked
          version := le_rfl
          newest := fun _ => accounted.versions
          rows := fun read => absurd read (not_hasRead (Or.inr rfl))
          emptied := fun phase => (nomatch phase)
          inserted := fun phase => (nomatch phase)
          replaced := fun phase => (nomatch phase) }
    · refine (accounted.bucket bucket retained).imp_right (Or.imp_right fun before => ?_)
      refine ⟨fun below => before.settled ?_, before.noLeftover, ?_⟩
      · refine below.imp_right fun ⟨run', selected, below⟩ => ?_
        cases selected
        exact ⟨run, atWork, below⟩
      · intro run' selected read
        cases selected
        exact absurd read (not_hasRead (Or.inr rfl))

theorem Accounted.readAggregate {s after : State} (accounted : Accounted s)
    (moved : readAggregate s = some after) : Accounted after := by
  have origins : Origins after := accounted.origins.step .aggregate moved
  obtain ⟨run, atWork, selected, rfl⟩ := readAggregate_cases moved
  have holds := accounted.run run atWork
  refine ⟨origins, accounted.versions, ?_, fun bucket retained => ?_⟩
  · intro run' read
    cases read
    exact
      { watermark := holds.watermark
        marked := holds.marked
        version := holds.version
        newest := fun _ => holds.newest (by simp [selected])
        rows := fun _ row among => mem_aggregateRollupBuckets among
        emptied := fun phase => (nomatch phase)
        inserted := fun phase => (nomatch phase)
        replaced := fun phase => (nomatch phase) }
  · refine (accounted.bucket bucket retained).imp_right (Or.imp_right fun before => ?_)
    refine ⟨fun below => before.settled ?_, before.noLeftover, ?_⟩
    · refine below.imp_right fun ⟨run', read, below⟩ => ?_
      cases read
      exact ⟨run, atWork, below⟩
    · intro run' read _ among
      cases read
      exact rollupTotals_aggregateRollupBuckets s.raw run.version among

theorem Accounted.deleteRollupBuckets {s after : State} (accounted : Accounted s)
    (moved : deleteRollupBuckets s = some after) : Accounted after := by
  have origins : Origins after := accounted.origins.step .empty moved
  obtain ⟨run, atWork, aggregated, rfl⟩ := deleteRollupBuckets_cases moved
  have holds := accounted.run run atWork
  refine ⟨origins, fun row among => accounted.versions row (List.mem_filter.mp among).1, ?_,
    fun bucket retained => ?_⟩
  · intro run' emptied
    cases emptied
    exact
      { watermark := holds.watermark
        marked := holds.marked
        version := holds.version
        newest := fun _ row among =>
          holds.newest (by simp [aggregated]) row (List.mem_filter.mp among).1
        rows := fun _ => holds.rows (Or.inl aggregated)
        emptied := fun _ bucket among => rollupTotals_filter_of_removed fun row _ same => by
          simpa [same] using among
        inserted := fun phase => (nomatch phase)
        replaced := fun phase => (nomatch phase) }
  · by_cases emptied : bucket ∈ run.dirtyRows
    · exact Or.inl (holds.marked bucket emptied)
    · have same : rollupTotals (s.rollup.filter fun row => row.bucket ∉ run.dirtyRows) bucket
          = rollupTotals s.rollup bucket :=
        rollupTotals_filter_of_kept fun row _ same => by simpa [same] using emptied
      refine (accounted.bucket bucket retained).imp_right (Or.imp_right fun before => ?_)
      refine ⟨fun below => ?_, ?_, ?_⟩
      · rw [same]
        refine before.settled (below.imp_right fun ⟨run', emptied, below⟩ => ?_)
        cases emptied
        exact ⟨run, atWork, below⟩
      · rw [NoLeftover, same]
        exact before.noLeftover
      · intro run' emptied _
        cases emptied
        exact before.current run atWork (Or.inl aggregated)

theorem Accounted.insertRollup {s after : State} (accounted : Accounted s)
    (moved : insertRollup s = some after) : Accounted after := by
  have origins : Origins after := accounted.origins.step .insertRollup moved
  obtain ⟨run, atWork, emptied, rfl⟩ := insertRollup_cases moved
  have holds := accounted.run run atWork
  have read : run.hasRead := Or.inr (Or.inl emptied)
  have newest := holds.newest (by simp [emptied])
  have appended : ∀ bucket dimensions, rollupTotals (s.rollup ++ run.rows) bucket dimensions
      = (rollupTotals run.rows bucket dimensions).or (rollupTotals s.rollup bucket dimensions) :=
    rollupTotals_append fun old oldAmong row among =>
      (newest old oldAmong).trans (holds.rows read row among).1.ge
  refine ⟨origins, fun row among => ?_, ?_, fun bucket retained => ?_⟩
  · rcases List.mem_append.mp among with old | new
    · exact accounted.versions row old
    · exact (holds.rows read row new).1.trans_le holds.version
  · intro run' inserted
    cases inserted
    exact
      { watermark := holds.watermark
        marked := holds.marked
        version := holds.version
        newest := fun _ row among => (List.mem_append.mp among).elim (newest row)
          fun new => (holds.rows read row new).1.le
        rows := fun _ => holds.rows read
        emptied := fun phase => (nomatch phase)
        inserted := fun _ bucket _ dimensions found own => by rw [appended, own, Option.some_or]
        replaced := fun _ bucket among dimensions own => by
          rw [appended, own, Option.none_or, holds.emptied emptied bucket among] }
  · refine (accounted.bucket bucket retained).imp_right (Or.imp_right fun before => ?_)
    -- The run's rows of the bucket are its aggregate, or there are none.
    have own : ∀ dimensions, rollupTotals run.rows bucket dimensions = aggregate s.raw bucket dimensions
        ∨ rollupTotals run.rows bucket dimensions = none := by
      intro dimensions
      by_cases among : bucket ∈ run.buckets
      · exact Or.inl (congrFun (before.current run atWork read among) dimensions)
      · refine Or.inr ?_
        unfold rollupTotals
        rw [Option.map_eq_none_iff, lookup_eq_none]
        intro row rowAmong same
        have inBucket : row.bucket = bucket := congrArg Prod.fst same
        exact among (inBucket ▸ (holds.rows read row rowAmong).2)
    refine ⟨fun below => funext fun dimensions => ?_, fun dimensions noEvents => ?_, ?_⟩
    · have settled := congrFun (before.settled (below.imp_right fun ⟨run', inserted, below⟩ => by
        cases inserted
        exact ⟨run, atWork, below⟩)) dimensions
      rw [appended, settled]
      rcases own dimensions with same | same
      · rw [same, Option.or_self]
      · rw [same, Option.none_or]
    · rw [appended, before.noLeftover dimensions noEvents, Option.or_none]
      exact (own dimensions).elim (fun same => same.trans noEvents) id
    · intro run' inserted _
      cases inserted
      exact before.current run atWork read

theorem RunHolds.settled {s : State} {run : Compactor} {bucket : Int} (holds : RunHolds s run)
    (inserted : run.phase = .inserted) (retained : Retained s.now bucket)
    (same : rollupTotals run.rows bucket = aggregate s.raw bucket)
    (noLeftover : NoLeftover s.rollup s.raw bucket) :
    rollupTotals s.rollup bucket = aggregate s.raw bucket := by
  funext dimensions
  cases events : aggregate s.raw bucket dimensions with
  | none => exact noLeftover dimensions events
  | some sums =>
    exact holds.inserted inserted bucket retained dimensions sums
      ((congrFun same dimensions).trans events)

theorem Accounted.commitCompactor {s after : State} (accounted : Accounted s)
    (careful : Careful s .commit) (moved : commitCompactor s = some after) : Accounted after := by
  have origins : Origins after := accounted.origins.step .commit moved
  obtain ⟨run, atWork, inserted, rfl⟩ := commitCompactor_cases moved
  have holds := accounted.run run atWork
  have read : run.hasRead := Or.inr (Or.inr inserted)
  refine ⟨origins, accounted.versions, fun run' none => (nomatch none), fun bucket retained => ?_⟩
  by_cases among : bucket ∈ run.buckets
  · by_cases touched : s.Touched bucket
    · exact Or.inr (Or.inl touched)
    · -- What the run read, and what is left in the rollup, by the condition or by the invariant.
      have fresh : (bucket < run.newWatermark →
          rollupTotals run.rows bucket = aggregate s.raw bucket) ∧
          NoLeftover s.rollup s.raw bucket := by
        rcases accounted.bucket bucket retained with marked | now | before
        · obtain ⟨same, ownGroups, otherGroups⟩ :=
            careful run atWork bucket among retained marked touched
          refine ⟨same, fun dimensions noEvents => ?_⟩
          by_cases emptied : bucket ∈ run.dirtyRows
          · exact holds.replaced inserted bucket emptied dimensions (ownGroups dimensions noEvents)
          · exact otherGroups emptied dimensions noEvents
        · exact absurd now touched
        · exact ⟨fun _ => before.current run atWork read among, before.noLeftover⟩
      refine Or.inr (Or.inr ⟨fun below => ?_, fresh.2, fun run' none => (nomatch none)⟩)
      obtain ⟨watermark, recorded, below⟩ | ⟨_, none, _⟩ := below
      · cases recorded
        exact holds.settled inserted retained (fresh.1 below) fresh.2
      · cases none
  · rcases accounted.bucket bucket retained with marked | touched | before
    · exact Or.inl (List.mem_filter.mpr ⟨marked, by simpa using among⟩)
    · exact Or.inr (Or.inl touched)
    · refine Or.inr (Or.inr ⟨fun below => before.settled (Or.inr ⟨run, atWork, ?_⟩),
        before.noLeftover, fun run' none => (nomatch none)⟩)
      obtain ⟨watermark, recorded, below⟩ | ⟨_, none, _⟩ := below
      · cases recorded
        exact lt_watermark_of_not_mem_buckets below among
      · cases none

theorem Accounted.abort {s : State} (accounted : Accounted s) :
    Accounted { s with compactor := none } := by
  refine ⟨?_, accounted.versions, fun run' none => (nomatch none), fun bucket retained => ?_⟩
  · exact accounted.origins.of_outbox rfl accounted.origins.raw accounted.origins.writers
      accounted.origins.deduplicated
  · refine (accounted.bucket bucket retained).imp_right (Or.imp_right fun before => ?_)
    refine ⟨fun below => before.settled (below.imp_right ?_), before.noLeftover,
      fun run' none => (nomatch none)⟩
    rintro ⟨_, none, _⟩
    cases none

theorem Accounted.expire {s : State} {expired : Int} (accounted : Accounted s)
    (passed : ¬ Retained s.now expired) :
    Accounted { s with rollup := s.rollup.filter fun row => row.bucket ≠ expired } := by
  have same : ∀ bucket, Retained s.now bucket →
      rollupTotals (s.rollup.filter fun row => row.bucket ≠ expired) bucket
        = rollupTotals s.rollup bucket := by
    intro bucket retained
    refine rollupTotals_filter_of_kept fun row _ here => ?_
    have different : row.bucket ≠ expired := fun same => passed (same ▸ here ▸ retained)
    simpa using different
  refine ⟨?_, fun row among => accounted.versions row (List.mem_filter.mp among).1, ?_,
    fun bucket retained => ?_⟩
  · exact accounted.origins.of_outbox rfl accounted.origins.raw accounted.origins.writers
      accounted.origins.deduplicated
  · intro run atWork
    have holds := accounted.run run atWork
    exact
      { watermark := holds.watermark
        marked := holds.marked
        version := holds.version
        newest := fun late row among => holds.newest late row (List.mem_filter.mp among).1
        rows := holds.rows
        emptied := fun phase bucket among dimensions =>
          rollupTotals_filter_eq_none _ (holds.emptied phase bucket among dimensions)
        inserted := fun phase bucket retained => by
          rw [same bucket retained]
          exact holds.inserted phase bucket retained
        replaced := fun phase bucket among dimensions own =>
          rollupTotals_filter_eq_none _ (holds.replaced phase bucket among dimensions own) }
  · refine (accounted.bucket bucket retained).imp_right (Or.imp_right fun before => ?_)
    refine ⟨?_, ?_, before.current⟩
    · rw [same bucket retained]
      exact before.settled
    · rw [NoLeftover, same bucket retained]
      exact before.noLeftover

/-! ### Every run -/

theorem Accounted.step {s after : State} {action : Action} (accounted : Accounted s)
    (careful : Careful s action) (moved : next s action = some after) : Accounted after := by
  have origins : Origins after := accounted.origins.step action moved
  cases action with
  | tick ms =>
    cases moved
    have later : s.now ≤ s.now + (ms : Int) := by omega
    exact accounted.of_same_store origins later rfl rfl rfl rfl (fun _ marked => marked)
      fun _ _ touched => Or.inr (Or.inl touched)
  | enqueue events =>
    cases moved
    rcases enqueueUsageEvents_cases s events with unchanged | ⟨fresh, _, enqueued⟩
    · rw [unchanged]
      exact accounted
    · rw [enqueued] at origins ⊢
      exact accounted.of_same_store origins le_rfl rfl rfl rfl rfl (fun _ marked => marked)
        fun _ _ touched => Or.inr (Or.inl touched)
  | claim batch =>
    obtain ⟨found, _, _, rfl⟩ := claimBatch_cases moved
    exact accounted.of_same_store origins le_rfl rfl rfl rfl rfl (fun _ marked => marked)
      fun _ _ touched => Or.inr (Or.inl (touched.mono fun _ among _ => List.mem_append_left _ among))
  | selectRepair request resolver =>
    have selected := selectRepair_cases moved
    subst selected
    exact accounted.of_same_store origins le_rfl rfl rfl rfl rfl (fun _ marked => marked)
      fun _ _ touched => Or.inr (Or.inl (touched.mono fun _ among _ => List.mem_append_left _ among))
  | markRepair index =>
    obtain ⟨generation, rows, here, rfl⟩ := markRepair_cases moved
    refine accounted.of_same_store origins le_rfl rfl rfl rfl rfl
      (fun _ marked => List.mem_union_iff.mpr (Or.inr marked)) fun _ _ touched => ?_
    refine Or.inr (Or.inl (touched.mono fun writer among inserted => ?_))
    -- The repair that marks has not inserted yet, so it is none of those that touch the bucket.
    refine mem_set_of_progress here among fun same => ?_
    rw [same] at inserted
    cases inserted
  | insert index recognised => exact accounted.insertRaw moved
  | finish index => exact accounted.finishWriter moved
  | stop index caught => exact accounted.stopWriter careful moved
  | lock startedAt delayMs limitBuckets => exact accounted.lockCompactor moved
  | selectDirty => exact accounted.selectDirty moved
  | aggregate => exact accounted.readAggregate moved
  | empty => exact accounted.deleteRollupBuckets moved
  | insertRollup => exact accounted.insertRollup moved
  | commit => exact accounted.commitCompactor careful moved
  | abort =>
    simp only [next] at moved
    split at moved
    · cases moved
      exact accounted.abort
    · cases moved
  | expire bucket =>
    simp only [next] at moved
    split at moved
    · cases moved
    · next passed =>
      cases moved
      exact accounted.expire passed

/-- The rollup rows of each bucket below the watermark that is retained and not marked are the
aggregate of its raw events. -/
def State.Consistent (s : State) : Prop :=
  ∀ bucket watermark, s.watermark = some watermark → bucket < watermark →
    Retained s.now bucket → bucket ∉ s.dirty →
    rollupTotals s.rollup bucket = aggregate s.raw bucket

theorem careful_commit_of_touched {s : State} {run : Compactor} (atWork : s.compactor = some run)
    (touched : ∀ bucket ∈ run.buckets, bucket ∈ s.dirty →
      ∃ writer ∈ s.writers, writer.progress = .inserted ∧ bucket ∈ writer.buckets) :
    Careful s .commit := by
  intro run' same bucket among _ marked untouched
  cases atWork.symm.trans same
  exact absurd (touched bucket among marked) untouched

/-- A commit loses no mark when no event came in since the run's read and the run emptied each of
its buckets that is marked. -/
theorem careful_commit_of_current {s : State} {run : Compactor} {version : Int}
    (atWork : s.compactor = some run)
    (read : run.rows = aggregateRollupBuckets s.raw run.buckets version)
    (emptied : ∀ bucket ∈ run.buckets, bucket ∈ s.dirty → bucket ∈ run.dirtyRows) :
    Careful s .commit := by
  intro run' same bucket among _ marked _
  cases atWork.symm.trans same
  have own : rollupTotals run.rows bucket = aggregate s.raw bucket := by
    rw [read]
    exact rollupTotals_aggregateRollupBuckets s.raw version among
  exact ⟨fun _ => own, fun dimensions noEvents => (congrFun own dimensions).trans noEvents,
    fun absent => absurd (emptied bucket among marked) absent⟩

def eventOf (key : String) : OutboxRow where
  dedupKey := key
  providerKey := "codex"
  userId := none
  teamId := none
  sessionId := none
  model := some "gpt-5"
  ts := 0
  inputTokens := 10
  outputTokens := 1
  cacheReadTokens := 0
  cacheCreationTokens := 0
  costUsd := 500
  logAdapter := some "codex"
  host := none
  pricingRevisionId := some "r1"
  costStatus := .priced
  costCalculationVersion := none
  cacheCreation1hTokens := none
  isFast := none

/-- The event reaches the rollup's marks: enqueued, flushed, marked. -/
def flushOf (key : String) (batch : Nat) : List Action :=
  [.enqueue [eventOf key], .claim batch, .insert 0 false, .finish 0]

/-- A compactor run up to its aggregate: two hours after the event, with the default delay and
number of buckets. -/
def compactToAggregate : List Action := [.lock 7200000 1800000 16, .selectDirty, .aggregate]

/-- **The raw events are deduplicated**: in every reachable state there is one for each key, as
there is one row of the outbox, and each has its row there. -/
theorem raw_deduplicated (now : Int) {s : State} (reached : Reachable next (State.initial now) s) :
    (s.outboxRows.map OutboxRow.dedupKey).Nodup ∧ (s.raw.map UsageRow.dedupKey).Nodup ∧
      ∀ row ∈ s.raw, s.FromOutbox row := by
  have origins : Origins s := Reachable.invariant Origins (.initial now)
    (fun _ action _ origins moved => origins.step action moved) reached
  exact ⟨origins.distinct, origins.deduplicated, origins.raw⟩

/-- The event comes again after its flush. -/
theorem raw_deduplicated_again : ∃ s, Reachable next (State.initial 7200000) s ∧
    s.raw.length = 1 ∧ (s.raw.map UsageRow.dedupKey).Nodup := by
  have reached : Reachable next (State.initial 7200000) _ :=
    .of_run (flushOf "a" 0 ++ [.enqueue [eventOf "a"]]) rfl
  exact ⟨_, reached, rfl, (raw_deduplicated 7200000 reached).2.1⟩

end Toard.Storage
