/-
**The rows of one model.**

The loop over the models touches, for each model, only that model's rows, so a transaction is a
family of independent tracks.

* **`applySnapshot_follows`**: the code does to the rows of each model what `Track.apply` does.
-/

import Toard.Pricing.History

namespace Toard.Pricing

open Toard.Library (foldl_keyed foldl_keyed_other)

/-! ### Quotes -/

structure Quote where
  sourceModelId : String
  prices : PriceColumns
  details : PricingDetails JsNumber
deriving DecidableEq

def CandidateRow.quote (row : CandidateRow) : Quote :=
  ⟨row.sourceModelId, row.prices, row.pricingDetails.parse⟩

def OpenCandidateRow.quote (row : OpenCandidateRow) : Quote :=
  ⟨row.sourceModelId, row.prices, row.pricingDetails.stringify.parse⟩

def ResolvedPricingEntry.quote (resolved : ResolvedPricingEntry) : Quote :=
  ⟨resolved.modelId, resolved.pricing.columns, (pricingDetails resolved.pricing).stringify.parse⟩

theorem PricingDetails.finite_parse (details : PricingDetails (Option ℚ)) :
    details.parse.Finite := by
  have rate : ∀ value : Option (Option ℚ),
      ∀ r ∈ value.bind fun r => r.map JsNumber.finite, r.isFinite = true := by
    intro value r among
    obtain ⟨number, -, made⟩ := Option.bind_eq_some_iff.mp among
    obtain ⟨_, -, rfl⟩ := Option.map_eq_some_iff.mp made
    rfl
  refine ⟨fun tier among => ?_, rate _⟩
  obtain ⟨_, -, rfl⟩ := List.mem_map.mp among
  exact ⟨rate _, rate _, rate _, rate _, rate _⟩

@[simp] theorem CandidateRow.quote_read (row : CandidateRow) : row.read.quote = row.quote := by
  show Quote.mk _ _ row.pricingDetails.parse.stringify.parse = _
  rw [PricingDetails.parse_stringify (PricingDetails.finite_parse _)]
  rfl

/-- **Prices that count as the same have the same columns and the same details.** -/
theorem samePricing_iff {left right : ModelPricing} : samePricing left right = true ↔
    left.columns = right.columns ∧
      (pricingDetails left).stringify = (pricingDetails right).stringify := by
  simp only [samePricing, ModelPricing.columns, Bool.and_eq_true, beq_iff_eq,
    PriceColumns.mk.injEq, and_assoc]

@[simp] theorem columns_candidatePricing (row : OpenCandidateRow) :
    (candidatePricing row).columns = row.prices := rfl

theorem quote_of_continues {previous : OpenCandidateRow} {resolved : ResolvedPricingEntry}
    (ascending : previous.pricingDetails.Ascending)
    (same : continues (some previous) (some resolved) = true) : previous.quote = resolved.quote := by
  obtain ⟨source, price⟩ := Bool.and_eq_true_iff.mp same
  obtain ⟨columns, details⟩ := samePricing_iff.mp price
  rw [pricingDetails_of_ascending (candidatePricing previous) ascending] at details
  show Quote.mk _ _ _ = Quote.mk _ _ _
  rw [beq_iff_eq.mp source, ← columns, ← details]
  rfl

/-! ### Tracks -/

/-- The rows of one model: the closed ones, and the open one beside the transaction's copy. -/
structure Track where
  closed : List CandidateRow
  current : Option (CandidateRow × OpenCandidateRow)
  seen : Bool

namespace Track

def empty : Track := ⟨[], none, false⟩

def rows (track : Track) : List CandidateRow :=
  track.closed ++ (track.current.map Prod.fst).toList

def closedAt (track : Track) (boundary : Int) : List CandidateRow :=
  match track.current with
  | some (row, copy) =>
    if boundary > copy.effectiveAt then
      track.closed ++ [{ row with validUntil := some boundary }]
    else track.closed
  | none => track.closed

def startAt (job : JobInput) (boundary : Int) (track : Track) : Int :=
  if track.seen then boundary else job.rangeFrom

def advance (job : JobInput) (model : String) (ref : PricingHistoryCommitRef)
    (resolved : Option ResolvedPricingEntry) (track : Track) : Track :=
  if continues (track.current.map Prod.snd) resolved then track
  else
    match resolved with
    | none => ⟨track.closedAt (job.boundary ref), none, track.seen⟩
    | some resolved =>
      if track.startAt job (job.boundary ref) ≥ job.rangeTo then
        ⟨track.closedAt (job.boundary ref), none, track.seen⟩
      else
        let copy := openCandidate model resolved (track.startAt job (job.boundary ref)) ref
        ⟨track.closedAt (job.boundary ref), some (copy.write, copy), true⟩

def apply (job : JobInput) (model : String) (track : Track)
    (snapshot : PricingHistorySnapshot) : Track :=
  track.advance job model snapshot.ref (resolvePricingEntry model snapshot.pricing)

def reload (track : Track) : Track where
  closed := track.closed
  current := track.current.map fun (row, _) => (row, row.read)
  seen := !track.rows.isEmpty

def finish (rangeTo : Int) (track : Track) : List CandidateRow :=
  match track.current with
  | some (row, _) =>
    if row.effectiveAt < rangeTo then track.closed ++ [{ row with validUntil := some rangeTo }]
    else track.closed
  | none => track.closed

/-- A closed row: its stretch of time is not empty and is over at `now`. -/
structure Ended (job : JobInput) (model : String) (now : Int) (row : CandidateRow) :
    Prop where
  own : row.modelId = model
  start : job.rangeFrom ≤ row.effectiveAt
  ends : ∃ stop, row.validUntil = some stop ∧ row.effectiveAt < stop ∧ stop ≤ now

/-- An open row and the copy of it: they have the same start and the same price. -/
structure Current (job : JobInput) (model : String) (now : Int) (row : CandidateRow)
    (copy : OpenCandidateRow) : Prop where
  own : row.modelId = model
  open_ : row.validUntil = none
  started : copy.effectiveAt = row.effectiveAt
  price : copy.quote = row.quote
  ascending : copy.pricingDetails.Ascending
  written : row.pricingDetails.Ascending
  start : job.rangeFrom ≤ row.effectiveAt
  past : row.effectiveAt ≤ now
  inRange : row.effectiveAt < job.rangeTo

/-- What holds of a track of `model` whose last boundary is `now`. -/
structure Sound (job : JobInput) (model : String) (now : Int) (track : Track) :
    Prop where
  closed : ∀ row ∈ track.closed, Ended job model now row
  disjoint : track.closed.Pairwise fun earlier later =>
    ∀ stop, earlier.validUntil = some stop → stop ≤ later.effectiveAt
  current : ∀ row copy, track.current = some (row, copy) → Current job model now row copy
  before : ∀ row ∈ track.closed, ∀ stop, row.validUntil = some stop →
    ∀ row' copy, track.current = some (row', copy) → stop ≤ row'.effectiveAt
  unseen : track.seen = false → track.rows = []

theorem Ended.mono {job : JobInput} {model : String} {now after : Int}
    {row : CandidateRow} (ended : Ended job model now row) (later : now ≤ after) :
    Ended job model after row :=
  let ⟨stop, ends, nonempty, past⟩ := ended.ends
  ⟨ended.own, ended.start, stop, ends, nonempty, past.trans later⟩

theorem Sound.mono {job : JobInput} {model : String} {track : Track} {now after : Int}
    (sound : Sound job model now track) (later : now ≤ after) : Sound job model after track where
  closed := fun row among => (sound.closed row among).mono later
  disjoint := sound.disjoint
  current := fun row copy current =>
    { sound.current row copy current with past := (sound.current row copy current).past.trans later }
  before := sound.before
  unseen := sound.unseen

theorem sound_empty (job : JobInput) (model : String) :
    Sound job model job.rangeFrom empty where
  closed := fun _ among => nomatch among
  disjoint := .nil
  current := fun _ _ current => nomatch current
  before := fun _ among => nomatch among
  unseen := fun _ => rfl

section Advance

variable {job : JobInput} {model : String} {ref : PricingHistoryCommitRef}
  {resolved : Option ResolvedPricingEntry} {track : Track}

/-- **What a snapshot does to a track.** It goes on with the same price; or it ends the open row
and opens none; or it ends the open row and opens one at `startAt`. -/
theorem advance_cases (job : JobInput) (model : String) (ref : PricingHistoryCommitRef)
    (resolved : Option ResolvedPricingEntry) (track : Track) :
    (∃ row copy entry, track.current = some (row, copy) ∧ resolved = some entry ∧
      continues (some copy) (some entry) = true ∧ track.advance job model ref resolved = track) ∨
    ((∀ entry, resolved = some entry → track.startAt job (job.boundary ref) ≥ job.rangeTo) ∧
      track.advance job model ref resolved
        = ⟨track.closedAt (job.boundary ref), none, track.seen⟩) ∨
    (∃ entry copy, resolved = some entry ∧ track.startAt job (job.boundary ref) < job.rangeTo ∧
      copy = openCandidate model entry (track.startAt job (job.boundary ref)) ref ∧
      track.advance job model ref resolved
        = ⟨track.closedAt (job.boundary ref), some (copy.write, copy), true⟩) := by
  unfold advance
  by_cases same : continues (track.current.map Prod.snd) resolved = true
  · left
    rw [if_pos same]
    cases current : track.current with
    | none =>
      rw [current] at same
      cases same
    | some pair =>
      cases resolved with
      | none =>
        rw [current] at same
        cases same
      | some entry =>
        rw [current] at same
        exact ⟨pair.1, pair.2, entry, rfl, rfl, same, rfl⟩
  · right
    rw [if_neg same]
    cases resolved with
    | none => exact .inl ⟨fun _ found => (nomatch found), rfl⟩
    | some entry =>
      by_cases late : track.startAt job (job.boundary ref) ≥ job.rangeTo
      · exact .inl ⟨fun _ _ => late, if_pos late⟩
      · exact .inr ⟨entry, _, rfl, not_le.mp late, rfl, if_neg late⟩

theorem mem_closedAt {boundary : Int} {row : CandidateRow} (among : row ∈ track.closedAt boundary) :
    row ∈ track.closed ∨ ∃ row' copy, track.current = some (row', copy) ∧
      copy.effectiveAt < boundary ∧ row = { row' with validUntil := some boundary } := by
  unfold closedAt at among
  cases current : track.current with
  | none =>
    rw [current] at among
    exact .inl among
  | some pair =>
    rw [current] at among
    dsimp only at among
    split at among
    case isTrue ended =>
      rcases List.mem_append.mp among with old | new
      · exact .inl old
      · exact .inr ⟨pair.1, pair.2, rfl, ended, List.mem_singleton.mp new⟩
    case isFalse => exact .inl among

theorem Sound.ended_closedAt {now : Int} (sound : Sound job model now track) {boundary : Int}
    (later : now ≤ boundary) : ∀ row ∈ track.closedAt boundary, Ended job model boundary row := by
  intro row among
  rcases mem_closedAt among with old | ⟨row', copy, current, ended, rfl⟩
  · exact (sound.closed row old).mono later
  · have held := sound.current row' copy current
    exact ⟨held.own, held.start, boundary, rfl, held.started ▸ ended, le_refl boundary⟩

theorem Sound.disjoint_closedAt {now : Int} (sound : Sound job model now track) (boundary : Int) :
    (track.closedAt boundary).Pairwise fun earlier later =>
      ∀ stop, earlier.validUntil = some stop → stop ≤ later.effectiveAt := by
  unfold closedAt
  cases current : track.current with
  | none => exact sound.disjoint
  | some pair =>
    dsimp only
    split
    case isTrue =>
      refine List.pairwise_append.mpr ⟨sound.disjoint, List.pairwise_singleton _ _, ?_⟩
      intro row among last same stop ends
      rw [List.mem_singleton.mp same]
      exact sound.before row among stop ends pair.1 pair.2 current
    case isFalse => exact sound.disjoint

theorem rangeFrom_le_boundary (job : JobInput) (ref : PricingHistoryCommitRef) :
    job.rangeFrom ≤ job.boundary ref := by
  unfold JobInput.boundary
  split <;> omega

theorem startAt_bounds (job : JobInput) (ref : PricingHistoryCommitRef)
    (track : Track) : job.rangeFrom ≤ track.startAt job (job.boundary ref) ∧
      track.startAt job (job.boundary ref) ≤ job.boundary ref := by
  have := rangeFrom_le_boundary job ref
  unfold startAt
  split <;> omega

theorem closedAt_of_rows_eq_nil (noRow : track.rows = []) (boundary : Int) :
    track.closedAt boundary = [] := by
  obtain ⟨closed, current, seen⟩ := track
  obtain ⟨closedNil, currentNil⟩ := List.append_eq_nil_iff.mp noRow
  cases current with
  | none => exact closedNil
  | some pair => cases currentNil

theorem Sound.startAt_eq {now : Int} (sound : Sound job model now track) {boundary : Int}
    {row : CandidateRow} (among : row ∈ track.closedAt boundary) :
    track.startAt job boundary = boundary := by
  refine if_pos ?_
  by_contra unseen
  rw [closedAt_of_rows_eq_nil (sound.unseen (Bool.eq_false_of_not_eq_true unseen))] at among
  cases among

/-- **Every snapshot keeps a track sound.** -/
theorem Sound.advance {now : Int} (sound : Sound job model now track)
    (later : now ≤ job.boundary ref) :
    Sound job model (job.boundary ref) (track.advance job model ref resolved) := by
  have ended := sound.ended_closedAt later
  rcases advance_cases job model ref resolved track with
    ⟨row, copy, entry, current, -, -, moved⟩ | ⟨-, moved⟩ | ⟨entry, copy, -, inRange, made, moved⟩
  · rw [moved]
    exact sound.mono later
  · rw [moved]
    exact {
      closed := ended
      disjoint := sound.disjoint_closedAt _
      current := fun _ _ current => nomatch current
      before := fun _ _ _ _ _ _ current => nomatch current
      unseen := fun unseen =>
        (List.append_nil _).trans (closedAt_of_rows_eq_nil (sound.unseen unseen) _) }
  · rw [moved]
    have start : copy.effectiveAt = track.startAt job (job.boundary ref) := by rw [made]; rfl
    have bounds := startAt_bounds job ref track
    have ascending : copy.pricingDetails.Ascending := by
      rw [made]
      exact ascending_pricingDetails _
    refine ⟨ended, sound.disjoint_closedAt _, ?_, ?_, fun unseen => nomatch unseen⟩
    · intro row' copy' current
      obtain ⟨rfl, rfl⟩ := Prod.mk.inj (Option.some_inj.mp current)
      exact {
        own := by rw [made]; rfl
        open_ := rfl
        started := rfl
        price := rfl
        ascending := ascending
        written := ascending.filterMap _
        start := bounds.1.trans_eq start.symm
        past := start.trans_le bounds.2
        inRange := start.trans_lt inRange }
    · intro row among stop ends row' copy' current
      obtain ⟨rfl, rfl⟩ := Prod.mk.inj (Option.some_inj.mp current)
      obtain ⟨stop', ends', -, past⟩ := (ended row among).ends
      show stop ≤ copy.effectiveAt
      rw [start, sound.startAt_eq among]
      rw [ends', Option.some_inj] at ends
      exact ends ▸ past

end Advance

/-! ### Reading the rows again -/

theorem rows_reload (track : Track) : track.reload.rows = track.rows := by
  unfold rows reload
  rw [Option.map_map]
  rfl

theorem Sound.reload {job : JobInput} {model : String} {now : Int} {track : Track}
    (sound : Sound job model now track) : Sound job model now track.reload := by
  have read : ∀ row copy, track.reload.current = some (row, copy) →
      copy = row.read ∧ ∃ copy', track.current = some (row, copy') := by
    intro row copy current
    obtain ⟨pair, held, made⟩ := Option.map_eq_some_iff.mp current
    obtain ⟨rfl, rfl⟩ := Prod.mk.inj made
    exact ⟨rfl, pair.2, held⟩
  refine ⟨sound.closed, sound.disjoint, ?_, ?_, ?_⟩
  · intro row copy current
    obtain ⟨rfl, copy', held⟩ := read row copy current
    exact { sound.current row copy' held with
      started := rfl
      price := row.quote_read
      ascending := (sound.current row copy' held).written.filterMap _ }
  · intro row among stop ends row' copy current
    obtain ⟨-, copy', held⟩ := read row' copy current
    exact sound.before row among stop ends row' copy' held
  · intro unseen
    rw [rows_reload]
    simpa [Track.reload] using unseen

end Track

/-! ### The code follows the tracks -/

def rowsOf (model : String) (rows : List CandidateRow) : List CandidateRow :=
  rows.filter fun row => row.modelId = model

section Rows

variable {model : String}

theorem rowsOf_map {f : CandidateRow → CandidateRow} (keeps : ∀ row, (f row).modelId = row.modelId)
    (rows : List CandidateRow) : rowsOf model (rows.map f) = (rowsOf model rows).map f := by
  unfold rowsOf
  rw [List.filter_map]
  congr 1
  refine List.filter_congr fun row _ => ?_
  show decide ((f row).modelId = model) = _
  rw [keeps row]

theorem rowsOf_map_other {f : CandidateRow → CandidateRow}
    (keeps : ∀ row, (f row).modelId = row.modelId) (other : ∀ row, row.modelId = model → f row = row)
    (rows : List CandidateRow) : rowsOf model (rows.map f) = rowsOf model rows := by
  rw [rowsOf_map keeps]
  refine (List.map_congr_left fun row among => ?_).trans (List.map_id _)
  exact other row (of_decide_eq_true (List.mem_filter.mp among).2)

theorem closeRow_keeps (k : String) (effectiveAt validUntil : Int) (row : CandidateRow) :
    (if row.modelId = k ∧ row.effectiveAt = effectiveAt then
      { row with validUntil := some validUntil } else row).modelId = row.modelId := by
  split <;> rfl

theorem rowsOf_closeRow (effectiveAt validUntil : Int) (rows : List CandidateRow) :
    rowsOf model (closeRow model effectiveAt validUntil rows)
      = closeRow model effectiveAt validUntil (rowsOf model rows) :=
  rowsOf_map (closeRow_keeps model effectiveAt validUntil) rows

theorem rowsOf_closeRow_other {k : String} (other : k ≠ model) (effectiveAt validUntil : Int)
    (rows : List CandidateRow) :
    rowsOf model (closeRow k effectiveAt validUntil rows) = rowsOf model rows :=
  rowsOf_map_other (closeRow_keeps k effectiveAt validUntil)
    (fun _ own => if_neg fun hit => other (hit.1.symm.trans own)) rows

theorem rowsOf_deleteRow (effectiveAt : Int) (rows : List CandidateRow) :
    rowsOf model (deleteRow model effectiveAt rows)
      = deleteRow model effectiveAt (rowsOf model rows) := by
  unfold rowsOf deleteRow
  rw [List.filter_filter, List.filter_filter]
  exact List.filter_congr fun row _ => Bool.and_comm _ _

theorem rowsOf_deleteRow_other {k : String} (other : k ≠ model) (effectiveAt : Int)
    (rows : List CandidateRow) :
    rowsOf model (deleteRow k effectiveAt rows) = rowsOf model rows := by
  unfold rowsOf deleteRow
  rw [List.filter_filter]
  refine List.filter_congr fun row _ => ?_
  by_cases own : row.modelId = model
  · have : model ≠ k := Ne.symm other
    simp [own, this]
  · simp [own]

theorem rowsOf_upsertRow_other {new : CandidateRow} (other : new.modelId ≠ model)
    (rows : List CandidateRow) : rowsOf model (upsertRow new rows) = rowsOf model rows := by
  unfold upsertRow
  split
  case isTrue =>
    refine rowsOf_map_other (fun row => ?_) (fun row own => ?_) rows
    · split
      case isTrue hit => exact hit.1.symm
      case isFalse => rfl
    · exact if_neg fun hit => other (hit.1.symm.trans own)
  case isFalse =>
    unfold rowsOf
    rw [List.filter_append, List.filter_cons_of_neg (by simpa using other), List.filter_nil,
      List.append_nil]

theorem rowsOf_upsertRow {new : CandidateRow} (own : new.modelId = model) {rows : List CandidateRow}
    (fresh : ∀ row ∈ rowsOf model rows, row.effectiveAt ≠ new.effectiveAt) :
    rowsOf model (upsertRow new rows) = rowsOf model rows ++ [new] := by
  have absent : (rows.any fun row => row.modelId = new.modelId ∧ row.effectiveAt = new.effectiveAt)
      = false := by
    refine List.any_eq_false.mpr fun row among hit => ?_
    obtain ⟨sameModel, sameStart⟩ := of_decide_eq_true hit
    exact fresh row (List.mem_filter.mpr ⟨among, decide_eq_true (sameModel.trans own)⟩) sameStart
  unfold upsertRow
  rw [if_neg (by rw [absent]; exact Bool.false_ne_true)]
  unfold rowsOf
  rw [List.filter_append, List.filter_cons_of_pos (by simpa using own), List.filter_nil]

end Rows

structure Follows (model : String) (work : SnapshotWork) (track : Track) : Prop where
  rows : rowsOf model work.candidates = track.rows
  opened : work.opened model = track.current.map Prod.snd
  seen : work.seen model = track.seen

section Follows

variable {job : JobInput} {model : String} {now : Int} {track : Track}
  {work : SnapshotWork} {snapshot : PricingHistorySnapshot}

theorem Track.Sound.closePrevious (sound : track.Sound job model now) {row : CandidateRow}
    {copy : OpenCandidateRow} (current : track.current = some (row, copy)) (boundary : Int) :
    (if boundary > copy.effectiveAt then closeRow model copy.effectiveAt boundary track.rows
      else deleteRow model copy.effectiveAt track.rows) = track.closedAt boundary := by
  have held := sound.current row copy current
  have differs : ∀ other ∈ track.closed, other.effectiveAt ≠ copy.effectiveAt := by
    intro other among
    obtain ⟨stop, ends, nonempty, -⟩ := (sound.closed other among).ends
    have := sound.before other among stop ends row copy current
    rw [held.started]
    omega
  have rows : track.rows = track.closed ++ [row] := by
    unfold Track.rows
    rw [current]
    rfl
  unfold Track.closedAt
  rw [rows, current]
  dsimp only
  split
  case isTrue =>
    unfold closeRow
    rw [List.map_append]
    congr 1
    · exact (List.map_congr_left fun other among =>
        if_neg fun hit => differs other among hit.2).trans (List.map_id _)
    · exact congrArg (fun last => [last]) (if_pos ⟨held.own, held.started.symm⟩)
  case isFalse =>
    unfold deleteRow
    have stay : track.closed.filter
        (fun row => ¬ (row.modelId = model ∧ row.effectiveAt = copy.effectiveAt)) = track.closed :=
      List.filter_eq_self.mpr fun other among =>
        decide_eq_true fun hit => differs other among hit.2
    rw [List.filter_append, stay, List.filter_cons_of_neg (by simp [held.own, held.started]),
      List.filter_nil, List.append_nil]

theorem Track.Sound.fresh (sound : track.Sound job model now) {boundary : Int}
    (later : now ≤ boundary) : ∀ row ∈ track.closedAt boundary,
    row.effectiveAt ≠ track.startAt job boundary := by
  intro row among
  obtain ⟨stop, -, nonempty, past⟩ := (sound.ended_closedAt later row among).ends
  rw [sound.startAt_eq among]
  omega

theorem Follows.closePrevious (follows : Follows model work track)
    (sound : track.Sound job model now) (boundary : Int) :
    Follows model (work.closePrevious model boundary)
      ⟨track.closedAt boundary, none, track.seen⟩ := by
  unfold SnapshotWork.closePrevious
  rw [follows.opened]
  cases current : track.current with
  | none =>
    refine ⟨?_, ?_, follows.seen⟩
    · show rowsOf model work.candidates = _
      rw [follows.rows]
      unfold Track.rows Track.closedAt
      rw [current]
    · exact follows.opened.trans (by rw [current])
  | some pair =>
    refine ⟨?_, Function.update_self _ _ _, follows.seen⟩
    show rowsOf model (if boundary > pair.2.effectiveAt then _ else _) = _
    rw [apply_ite (rowsOf model), rowsOf_closeRow, rowsOf_deleteRow, follows.rows,
      sound.closePrevious current]
    exact (List.append_nil _).symm

theorem Follows.closePrevious_other (follows : Follows model work track) {k : String}
    (other : k ≠ model) (boundary : Int) : Follows model (work.closePrevious k boundary) track := by
  unfold SnapshotWork.closePrevious
  cases work.opened k with
  | none => exact follows
  | some previous =>
    refine ⟨?_, ?_, follows.seen⟩
    · show rowsOf model (if boundary > previous.effectiveAt then _ else _) = _
      rw [apply_ite (rowsOf model), rowsOf_closeRow_other other, rowsOf_deleteRow_other other,
        ite_self, follows.rows]
    · exact (Function.update_of_ne (Ne.symm other) _ _).trans follows.opened

/-- **The body of the loop, at the model's own turn**: the open row ends, then a new one may
start. -/
theorem Follows.applyModel (follows : Follows model work track) (sound : track.Sound job model now)
    (later : now ≤ job.boundary snapshot.ref) :
    Follows model (applyModel job snapshot work model) (track.apply job model snapshot) := by
  unfold Track.apply
  simp only [Toard.Pricing.applyModel, follows.opened]
  generalize resolvePricingEntry model snapshot.pricing = resolved
  unfold Track.advance
  split
  case isTrue => exact follows
  case isFalse =>
    have ended := follows.closePrevious sound (job.boundary snapshot.ref)
    have start : (if (work.closePrevious model (job.boundary snapshot.ref)).seen model then
        job.boundary snapshot.ref else job.rangeFrom)
        = track.startAt job (job.boundary snapshot.ref) := by
      rw [ended.seen]
      rfl
    rw [start]
    cases resolved with
    | none => exact ended
    | some entry =>
      dsimp only
      split
      case isTrue => exact ended
      case isFalse =>
        refine ⟨?_, Function.update_self _ _ _, Function.update_self _ _ _⟩
        have rows : rowsOf model (work.closePrevious model (job.boundary snapshot.ref)).candidates
            = track.closedAt (job.boundary snapshot.ref) := ended.rows.trans (List.append_nil _)
        have fresh := sound.fresh later
        rw [← rows] at fresh
        refine (rowsOf_upsertRow ?_ fresh).trans ?_
        · exact rfl
        · rw [rows]
          rfl

theorem Follows.applyModel_other (follows : Follows model work track) {k : String} (other : k ≠ model) :
    Follows model (Toard.Pricing.applyModel job snapshot work k) track := by
  simp only [Toard.Pricing.applyModel]
  generalize resolvePricingEntry k snapshot.pricing = resolved
  split
  case isTrue => exact follows
  case isFalse =>
    have ended := follows.closePrevious_other other (job.boundary snapshot.ref)
    generalize (if (work.closePrevious k (job.boundary snapshot.ref)).seen k then
      job.boundary snapshot.ref else job.rangeFrom) = start
    cases resolved with
    | none => exact ended
    | some entry =>
      dsimp only
      split
      case isTrue => exact ended
      case isFalse =>
        refine ⟨?_, ?_, ?_⟩
        · show rowsOf model (upsertRow _ _) = _
          rw [rowsOf_upsertRow_other other, ended.rows]
        · exact (Function.update_of_ne (Ne.symm other) _ _).trans ended.opened
        · exact (Function.update_of_ne (Ne.symm other) _ _).trans ended.seen

/-- **One snapshot does to the rows of each model what it does to the model's track.** -/
theorem applySnapshot_follows (among : model ∈ job.models) (follows : Follows model work track)
    (sound : track.Sound job model now) (later : now ≤ job.boundary snapshot.ref) :
    Follows model (applySnapshot job work snapshot) (track.apply job model snapshot) :=
  foldl_keyed (Follows model) (applyModel job snapshot) model
    (fun _ _ _ other follows => follows.applyModel_other other)
    (fun _ follows => follows.applyModel sound later) job.distinct among follows

theorem applySnapshot_other (absent : model ∉ job.models) (follows : Follows model work track) :
    Follows model (applySnapshot job work snapshot) track :=
  foldl_keyed_other (Follows model) (applyModel job snapshot) model
    (fun _ _ _ other follows => follows.applyModel_other other) absent follows

/-- **Reading the rows again gives the reloaded track.** -/
theorem load_follows {candidates : List CandidateRow} (sound : track.Sound job model now)
    (rows : rowsOf model candidates = track.rows) :
    Follows model (PricingHistory.load candidates) track.reload := by
  refine ⟨rows.trans (Track.rows_reload track).symm, ?_, ?_⟩
  · show ((candidates.filter fun row => row.validUntil = none).filter fun row =>
      row.modelId = model).getLast?.map CandidateRow.read = _
    have commute : ((candidates.filter fun row => row.validUntil = none).filter fun row =>
        row.modelId = model) = track.rows.filter fun row => row.validUntil = none := by
      rw [← rows]
      unfold rowsOf
      rw [List.filter_filter, List.filter_filter]
      exact List.filter_congr fun row _ => Bool.and_comm _ _
    have ended : (track.closed.filter fun row => row.validUntil = none) = [] := by
      refine List.filter_eq_nil_iff.mpr fun row among open_ => ?_
      obtain ⟨stop, ends, -⟩ := (sound.closed row among).ends
      rw [of_decide_eq_true open_] at ends
      cases ends
    rw [commute]
    unfold Track.rows Track.reload
    rw [List.filter_append, ended, List.nil_append, Option.map_map]
    cases current : track.current with
    | none => rfl
    | some pair =>
      have open_ := (sound.current pair.1 pair.2 current).open_
      rw [Option.map_some, Option.toList_some,
        List.filter_cons_of_pos (by simpa using open_), List.filter_nil]
      rfl
  · show candidates.any (fun row => row.modelId = model) = !track.rows.isEmpty
    rw [← rows, Bool.eq_iff_iff, List.any_eq_true, Bool.not_eq_true', List.isEmpty_eq_false_iff]
    unfold rowsOf
    rw [Ne, List.filter_eq_nil_iff]
    push Not
    rfl

/-- **The end of the range ends the open row.** -/
theorem finishRows_follows {candidates : List CandidateRow} (sound : track.Sound job model now)
    (rows : rowsOf model candidates = track.rows) :
    rowsOf model (PricingHistory.finishRows job.rangeTo candidates)
      = track.finish job.rangeTo := by
  have commute : rowsOf model (PricingHistory.finishRows job.rangeTo candidates)
      = PricingHistory.finishRows job.rangeTo track.rows := by
    rw [← rows]
    unfold PricingHistory.finishRows
    rw [← rowsOf_map (fun row => by split <;> rfl)]
    unfold rowsOf
    rw [List.filter_filter, List.filter_filter]
    exact List.filter_congr fun row _ => Bool.and_comm _ _
  have ended : PricingHistory.finishRows job.rangeTo track.closed = track.closed := by
    have closed : ∀ row ∈ track.closed, row.validUntil ≠ none := by
      intro row among open_
      obtain ⟨stop, ends, -⟩ := (sound.closed row among).ends
      rw [open_] at ends
      cases ends
    have stay : (track.closed.map fun row =>
        if row.validUntil = none ∧ row.effectiveAt < job.rangeTo then
          { row with validUntil := some job.rangeTo }
        else row) = track.closed :=
      (List.map_congr_left fun row among => if_neg fun hit => closed row among hit.1).trans
        (List.map_id track.closed)
    unfold PricingHistory.finishRows
    rw [stay]
    exact List.filter_eq_self.mpr fun row among => decide_eq_true (closed row among)
  rw [commute]
  unfold Track.rows Track.finish
  cases current : track.current with
  | none =>
    rw [Option.map_none, Option.toList_none, List.append_nil]
    exact ended
  | some pair =>
    have open_ := (sound.current pair.1 pair.2 current).open_
    rw [Option.map_some, Option.toList_some]
    have split_ : PricingHistory.finishRows job.rangeTo (track.closed ++ [pair.1])
        = track.closed ++ PricingHistory.finishRows job.rangeTo [pair.1] := by
      conv_rhs => rw [← ended]
      unfold PricingHistory.finishRows
      rw [List.map_append, List.filter_append]
    rw [split_]
    unfold PricingHistory.finishRows
    by_cases inRange : pair.1.effectiveAt < job.rangeTo
    · simp [open_, inRange]
    · simp [open_, inRange]

end Follows

end Toard.Pricing
