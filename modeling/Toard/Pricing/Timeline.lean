/-
**The prices over time that a list of snapshots stands for.**

* **`Track.Records.apply`**: each snapshot keeps that; `Track.Records.reload`: so does reading the
  rows again, which restores what the transaction had in memory.

What has to be excluded is a model that loses its only row: then the table no longer shows that the
model has been seen.
-/

import Toard.Pricing.Tracks

namespace Toard.Pricing

abbrev PricingHistorySnapshot.price (snapshot : PricingHistorySnapshot) (model : String) :
    Option ResolvedPricingEntry :=
  resolvePricingEntry model snapshot.pricing

def Chronological (snapshots : List PricingHistorySnapshot) : Prop :=
  snapshots.Pairwise fun earlier later => earlier.ref.committedAt ≤ later.ref.committedAt

/-- No commit at or before the start of the range withdraws the price of a model that an earlier
one states. With one such commit, the baseline, there is nothing to withdraw. -/
def KeepsBaseline (job : JobInput) (snapshots : List PricingHistorySnapshot) : Prop :=
  ∀ model ∈ job.models, snapshots.Pairwise fun earlier later =>
    later.ref.committedAt ≤ job.rangeFrom → (earlier.price model).isSome →
      (later.price model).isSome

/-- **The price in force** at an instant, by the saved snapshots. -/
def quoteInForce (saved : List PricingHistorySnapshot) (model : String) (instant : Int) :
    Option Quote :=
  match saved.find? fun snapshot => (snapshot.price model).isSome with
  | none => none
  | some first =>
    if instant < first.ref.committedAt then (first.price model).map ResolvedPricingEntry.quote
    else
      (saved.filter fun snapshot => snapshot.ref.committedAt ≤ instant).getLast?.bind fun last =>
        (last.price model).map ResolvedPricingEntry.quote

section QuoteInForce

variable {saved : List PricingHistorySnapshot} {snapshot : PricingHistorySnapshot} {model : String}
  {instant : Int}

theorem getLast?_inForce (past : snapshot.ref.committedAt ≤ instant) :
    ((saved ++ [snapshot]).filter fun other => other.ref.committedAt ≤ instant).getLast?
      = some snapshot := by
  rw [List.filter_append, List.filter_cons_of_pos (by simpa using past), List.filter_nil,
    List.getLast?_concat]

theorem quoteInForce_first (never : ∀ other ∈ saved, other.price model = none) :
    quoteInForce (saved ++ [snapshot]) model instant
      = (snapshot.price model).map ResolvedPricingEntry.quote := by
  have absent : (saved.find? fun other => (other.price model).isSome) = none :=
    List.find?_eq_none.mpr fun other among => by rw [never other among]; exact Bool.false_ne_true
  unfold quoteInForce
  rw [List.find?_append, absent, Option.none_or, List.find?_singleton]
  cases price : snapshot.price model with
  | none => rfl
  | some entry =>
    rw [Option.isSome_some, if_pos rfl]
    dsimp only
    split
    case isTrue => rw [price]
    case isFalse past =>
      rw [getLast?_inForce (not_lt.mp past), Option.bind_some, price]

theorem quoteInForce_later (priced : ∃ other ∈ saved, (other.price model).isSome)
    (later : ∀ other ∈ saved, other.ref.committedAt ≤ snapshot.ref.committedAt) :
    quoteInForce (saved ++ [snapshot]) model instant
      = if snapshot.ref.committedAt ≤ instant then
          (snapshot.price model).map ResolvedPricingEntry.quote
        else quoteInForce saved model instant := by
  obtain ⟨other, among, price⟩ := priced
  obtain ⟨first, found⟩ := Option.isSome_iff_exists.mp
    (List.find?_isSome (p := fun other : PricingHistorySnapshot => (other.price model).isSome)
      |>.mpr ⟨other, among, price⟩)
  have notAfter := later first (List.mem_of_find?_eq_some found)
  unfold quoteInForce
  rw [List.find?_append, found, Option.some_or]
  dsimp only
  by_cases past : snapshot.ref.committedAt ≤ instant
  · rw [if_pos past, if_neg (not_lt.mpr (notAfter.trans past)), getLast?_inForce past,
      Option.bind_some]
  · rw [if_neg past, List.filter_append, List.filter_cons_of_neg (by simpa using past),
      List.filter_nil, List.append_nil]

end QuoteInForce

def CandidateRow.Covers (row : CandidateRow) (instant : Int) : Prop :=
  row.effectiveAt ≤ instant ∧ ∀ stop, row.validUntil = some stop → instant < stop

def clock (job : JobInput) (saved : List PricingHistorySnapshot) : Int :=
  match saved.getLast? with
  | none => job.rangeFrom
  | some last => job.boundary last.ref

@[simp] theorem clock_concat (job : JobInput) (saved : List PricingHistorySnapshot)
    (snapshot : PricingHistorySnapshot) :
    clock job (saved ++ [snapshot]) = job.boundary snapshot.ref := by
  unfold clock
  rw [List.getLast?_concat]

theorem clock_le_boundary (job : JobInput) {saved : List PricingHistorySnapshot}
    {snapshot : PricingHistorySnapshot}
    (later : ∀ other ∈ saved, other.ref.committedAt ≤ snapshot.ref.committedAt) :
    clock job saved ≤ job.boundary snapshot.ref := by
  unfold clock
  split
  case h_1 => exact Track.rangeFrom_le_boundary job snapshot.ref
  case h_2 last found =>
    have := later last (List.mem_of_getLast? found)
    unfold JobInput.boundary
    split <;> split <;> omega

namespace Track

section Coverage

variable {job : JobInput} {model : String} {track : Track} {now boundary instant : Int}

theorem Sound.not_covers (sound : track.Sound job model now) (later : now ≤ boundary)
    (past : boundary ≤ instant) : ∀ row ∈ track.closedAt boundary, ¬ row.Covers instant := by
  intro row among covers
  obtain ⟨stop, ends, -, ended⟩ := (sound.ended_closedAt later row among).ends
  have := covers.2 stop ends
  omega

theorem Sound.covers_closedAt (sound : track.Sound job model now) (before : instant < boundary)
    (quote : Quote) : (∃ row ∈ track.closedAt boundary, row.Covers instant ∧ row.quote = quote) ↔
      ∃ row ∈ track.rows, row.Covers instant ∧ row.quote = quote := by
  unfold rows closedAt
  cases current : track.current with
  | none => rw [Option.map_none, Option.toList_none, List.append_nil]
  | some pair =>
    have held := sound.current pair.1 pair.2 current
    have started := held.started
    rw [Option.map_some, Option.toList_some]
    dsimp only
    -- The open row and the closed one cover the same instants before the boundary.
    have same : ({ pair.1 with validUntil := some boundary } : CandidateRow).Covers instant ↔
        pair.1.Covers instant := by
      refine ⟨fun covers => ⟨covers.1, fun stop ends => ?_⟩, fun covers => ⟨covers.1, ?_⟩⟩
      · rw [held.open_] at ends
        cases ends
      · rintro stop ends
        rwa [← Option.some_inj.mp ends]
    split
    case isTrue =>
      simp only [List.mem_append, List.mem_singleton, or_and_right, exists_or, exists_eq_left, same]
      rfl
    case isFalse notEnded =>
      have out : ¬ pair.1.Covers instant := by
        intro covers
        have := covers.1
        omega
      simp only [List.mem_append, List.mem_singleton, or_and_right, exists_or, exists_eq_left, out,
        false_and, or_false]

end Coverage

/-- **The track is what these snapshots make of it.** -/
structure Records (job : JobInput) (model : String)
    (saved : List PricingHistorySnapshot) (track : Track) : Prop where
  sound : track.Sound job model (clock job saved)
  seen : track.seen = true ↔ ∃ snapshot ∈ saved, (snapshot.price model).isSome
  held : track.seen = true → track.rows ≠ []
  first : ∀ row copy, track.current = some (row, copy) → job.rangeFrom < row.effectiveAt →
    track.closed ≠ []
  quotes : ∀ instant, job.rangeFrom ≤ instant → instant < job.rangeTo → ∀ quote,
    (∃ row ∈ track.rows, row.Covers instant ∧ row.quote = quote) ↔
      quoteInForce saved model instant = some quote

theorem records_empty (job : JobInput) (model : String) :
    Records job model [] empty where
  sound := sound_empty job model
  seen := ⟨fun seen => (nomatch seen), fun ⟨_, among, _⟩ => (nomatch among)⟩
  held := fun seen => nomatch seen
  first := fun _ _ current => nomatch current
  quotes := fun _ _ _ _ =>
    ⟨fun ⟨_, among, _⟩ => (nomatch among), fun inForce => (nomatch inForce)⟩

section Apply

variable {job : JobInput} {model : String} {saved : List PricingHistorySnapshot}
  {snapshot : PricingHistorySnapshot} {track : Track}

theorem Records.price_eq_none (records : track.Records job model saved)
    (unseen : track.seen = false) : ∀ other ∈ saved, other.price model = none := by
  intro other among
  by_contra priced
  have := records.seen.mpr ⟨other, among, Option.isSome_iff_ne_none.mpr priced⟩
  rw [unseen] at this
  cases this

theorem closedAt_ne_nil (some_ : track.rows ≠ []) (boundary : Int)
    (first : ∀ row copy, track.current = some (row, copy) → boundary ≤ copy.effectiveAt →
      track.closed ≠ []) : track.closedAt boundary ≠ [] := by
  unfold closedAt
  unfold rows at some_
  cases current : track.current with
  | none =>
    rw [current] at some_
    simpa using some_
  | some pair =>
    dsimp only
    split
    case isTrue => exact List.append_ne_nil_of_right_ne_nil _ (List.cons_ne_nil _ _)
    case isFalse notEnded => exact first pair.1 pair.2 current (not_lt.mp notEnded)

theorem committedAt_le_iff (snapshot : PricingHistorySnapshot) {instant : Int} (lower : job.rangeFrom ≤ instant) :
    snapshot.ref.committedAt ≤ instant ↔ job.boundary snapshot.ref ≤ instant := by
  unfold JobInput.boundary
  split <;> omega

theorem Records.quotes_unseen (records : track.Records job model saved) (unseen : track.seen = false)
    (instant : Int) (lower : job.rangeFrom ≤ instant) (quote : Quote) :
    (∃ row ∈ (track.apply job model snapshot).rows, row.Covers instant ∧ row.quote = quote) ↔
      quoteInForce (saved ++ [snapshot]) model instant = some quote := by
  rw [quoteInForce_first (records.price_eq_none unseen)]
  have noRow := records.sound.unseen unseen
  have startAt : track.startAt job (job.boundary snapshot.ref) = job.rangeFrom :=
    if_neg (by rw [unseen]; exact Bool.false_ne_true)
  unfold apply
  rcases advance_cases job model snapshot.ref (snapshot.price model) track with
    ⟨row, copy, entry, current, -⟩ | ⟨late, moved⟩ | ⟨entry, copy, price, -, made, moved⟩
  · unfold rows at noRow
    rw [current] at noRow
    exact absurd noRow (List.append_ne_nil_of_right_ne_nil _ (List.cons_ne_nil _ _))
  · have unpriced : snapshot.price model = none := by
      by_contra priced
      obtain ⟨entry, price⟩ := Option.ne_none_iff_exists'.mp priced
      have := late entry price
      have := job.range
      omega
    rw [moved, unpriced, Option.map_none]
    unfold rows
    simp [closedAt_of_rows_eq_nil noRow]
  · rw [moved, price, Option.map_some]
    have covers : copy.write.Covers instant := by
      refine ⟨?_, fun stop ends => (nomatch ends)⟩
      rw [made]
      exact startAt.trans_le lower
    have agrees : copy.write.quote = entry.quote := by
      rw [made]
      rfl
    unfold rows
    simp [closedAt_of_rows_eq_nil noRow, covers, agrees]

theorem Records.quotes_continue (records : track.Records job model saved)
    (later : ∀ other ∈ saved, other.ref.committedAt ≤ snapshot.ref.committedAt) {row : CandidateRow}
    {copy : OpenCandidateRow} {entry : ResolvedPricingEntry}
    (current : track.current = some (row, copy))
    (same : continues (some copy) (some entry) = true) {instant : Int}
    (past : job.boundary snapshot.ref ≤ instant) (quote : Quote) :
    (∃ other ∈ track.rows, other.Covers instant ∧ other.quote = quote) ↔
      some entry.quote = some quote := by
  have onTime := clock_le_boundary job later
  have held := records.sound.current row copy current
  have agrees : row.quote = entry.quote :=
    held.price.symm.trans (quote_of_continues held.ascending same)
  have covers : row.Covers instant := by
    refine ⟨held.past.trans (onTime.trans past), fun stop ends => ?_⟩
    rw [held.open_] at ends
    cases ends
  unfold rows
  rw [current]
  constructor
  · rintro ⟨other, among, covered, rfl⟩
    rcases List.mem_append.mp among with closed | last
    · obtain ⟨stop, ends, -, ended⟩ := (records.sound.closed other closed).ends
      have := covered.2 stop ends
      omega
    · rw [List.mem_singleton.mp last, agrees]
  · intro inForce
    exact ⟨row, List.mem_append_right _ (List.mem_singleton.mpr rfl), covers,
      agrees.trans (Option.some_inj.mp inForce)⟩

theorem Records.quotes_seen (records : track.Records job model saved) (seen : track.seen = true)
    (later : ∀ other ∈ saved, other.ref.committedAt ≤ snapshot.ref.committedAt) (instant : Int)
    (lower : job.rangeFrom ≤ instant) (upper : instant < job.rangeTo) (quote : Quote) :
    (∃ row ∈ (track.apply job model snapshot).rows, row.Covers instant ∧ row.quote = quote) ↔
      quoteInForce (saved ++ [snapshot]) model instant = some quote := by
  have sound := records.sound
  have onTime := clock_le_boundary job later
  have startAt : track.startAt job (job.boundary snapshot.ref) = job.boundary snapshot.ref :=
    if_pos seen
  have ended : job.boundary snapshot.ref ≤ instant →
      ¬ ∃ row ∈ track.closedAt (job.boundary snapshot.ref), row.Covers instant ∧ row.quote = quote :=
    fun past ⟨row, among, covers, _⟩ => sound.not_covers onTime past row among covers
  have unchanged : ¬ job.boundary snapshot.ref ≤ instant →
      ((∃ row ∈ track.closedAt (job.boundary snapshot.ref), row.Covers instant ∧ row.quote = quote) ↔
        quoteInForce saved model instant = some quote) := fun early =>
    (sound.covers_closedAt (not_le.mp early) quote).trans (records.quotes instant lower upper quote)
  rw [quoteInForce_later (records.seen.mp seen) later]
  simp only [committedAt_le_iff snapshot lower]
  unfold apply
  rcases advance_cases job model snapshot.ref (snapshot.price model) track with
    ⟨row, copy, entry, current, price, same, moved⟩ | ⟨late, moved⟩ |
    ⟨entry, copy, price, -, made, moved⟩
  · rw [moved]
    split
    case isTrue past =>
      rw [price]
      exact records.quotes_continue later current same past quote
    case isFalse => exact records.quotes instant lower upper quote
  · rw [moved]
    have rows : (Track.rows ⟨track.closedAt (job.boundary snapshot.ref), none, track.seen⟩)
        = track.closedAt (job.boundary snapshot.ref) := List.append_nil _
    rw [rows]
    split
    case isTrue past =>
      have unpriced : snapshot.price model = none := by
        by_contra priced
        obtain ⟨entry, price⟩ := Option.ne_none_iff_exists'.mp priced
        have := late entry price
        omega
      rw [unpriced]
      exact iff_of_false (ended past) fun inForce => (nomatch inForce)
    case isFalse early => exact unchanged early
  · rw [moved]
    have starts : copy.write.effectiveAt = job.boundary snapshot.ref := by
      rw [made]
      exact startAt
    have agrees : copy.write.quote = entry.quote := by
      rw [made]
      rfl
    have rows : (Track.rows ⟨track.closedAt (job.boundary snapshot.ref), some (copy.write, copy),
        true⟩) = track.closedAt (job.boundary snapshot.ref) ++ [copy.write] := rfl
    rw [rows]
    simp only [List.mem_append, List.mem_singleton, or_and_right, exists_or, exists_eq_left]
    split
    case isTrue past =>
      have covers : copy.write.Covers instant :=
        ⟨starts.trans_le past, fun stop ends => (nomatch ends)⟩
      rw [price, Option.map_some, Option.some_inj]
      simp only [ended past, covers, agrees, true_and, false_or]
    case isFalse early =>
      have out : ¬ copy.write.Covers instant := fun covers => early (starts.symm.trans_le covers.1)
      simp only [out, false_and, or_false]
      exact unchanged early

/-- **One more snapshot, recorded.** -/
theorem Records.apply (records : track.Records job model saved)
    (later : ∀ other ∈ saved, other.ref.committedAt ≤ snapshot.ref.committedAt)
    (kept : ∀ other ∈ saved, snapshot.ref.committedAt ≤ job.rangeFrom →
      (other.price model).isSome → (snapshot.price model).isSome) :
    (track.apply job model snapshot).Records job model (saved ++ [snapshot]) := by
  have onTime := clock_le_boundary job later
  have pricedNow : (∃ other ∈ saved ++ [snapshot], (other.price model).isSome) ↔
      track.seen = true ∨ (snapshot.price model).isSome := by
    simp only [List.mem_append, List.mem_singleton, or_and_right, exists_or, exists_eq_left,
      records.seen]
  have quotes : ∀ instant, job.rangeFrom ≤ instant → instant < job.rangeTo → ∀ quote,
      (∃ row ∈ (track.apply job model snapshot).rows, row.Covers instant ∧ row.quote = quote) ↔
        quoteInForce (saved ++ [snapshot]) model instant = some quote := by
    intro instant lower upper quote
    cases seen : track.seen with
    | false => exact records.quotes_unseen seen instant lower quote
    | true => exact records.quotes_seen seen later instant lower upper quote
  have sound : (track.apply job model snapshot).Sound job model
      (clock job (saved ++ [snapshot])) := by
    rw [clock_concat]
    exact records.sound.advance onTime
  unfold Track.apply at sound quotes ⊢
  rcases advance_cases job model snapshot.ref (snapshot.price model) track with
    ⟨row, copy, entry, current, price, -, moved⟩ | ⟨late, moved⟩ |
    ⟨entry, copy, price, inRange, made, moved⟩
  · rw [moved] at sound quotes ⊢
    have seen : track.seen = true := by
      by_contra unseen
      have noRow := sound.unseen (Bool.eq_false_of_not_eq_true unseen)
      unfold rows at noRow
      rw [current] at noRow
      exact absurd noRow (List.append_ne_nil_of_right_ne_nil _ (List.cons_ne_nil _ _))
    exact ⟨sound, iff_of_true seen (pricedNow.mpr (.inl seen)), records.held, records.first, quotes⟩
  · rw [moved] at sound quotes ⊢
    -- A price that opens no row starts at the end of the range or later: the model has been seen.
    have unpriced : track.seen = false → snapshot.price model = none := by
      intro unseen
      by_contra priced
      obtain ⟨entry, price⟩ := Option.ne_none_iff_exists'.mp priced
      have := late entry price
      unfold startAt at this
      rw [unseen, if_neg Bool.false_ne_true] at this
      have := job.range
      omega
    refine ⟨sound, ?_, fun seen => ?_, fun _ _ current => (nomatch current), quotes⟩
    · rw [pricedNow]
      refine ⟨.inl, fun either => either.elim id fun priced => ?_⟩
      by_contra unseen
      rw [unpriced (Bool.eq_false_of_not_eq_true unseen)] at priced
      cases priced
    · show track.closedAt (job.boundary snapshot.ref) ++ [] ≠ []
      rw [List.append_nil]
      refine closedAt_ne_nil (records.held seen) _ fun row copy current notEnded => ?_
      have held := records.sound.current row copy current
      have started := held.started
      have beforeEnd := held.inRange
      cases price : snapshot.price model with
      | some entry =>
        have beyond := late entry price
        rw [Track.startAt, if_pos seen] at beyond
        omega
      | none =>
        refine records.first row copy current ?_
        by_contra early
        obtain ⟨other, among, priced⟩ := records.seen.mp seen
        have withdrawn := kept other among (by
          have := (committedAt_le_iff snapshot (le_refl job.rangeFrom)).mpr
          omega) priced
        rw [price] at withdrawn
        cases withdrawn
  · rw [moved] at sound quotes ⊢
    refine ⟨sound, iff_of_true rfl (pricedNow.mpr (.inr (by rw [price]; rfl))), fun _ =>
      List.append_ne_nil_of_right_ne_nil _ (List.cons_ne_nil _ _), ?_, quotes⟩
    intro row' copy' current late
    obtain ⟨rfl, rfl⟩ := Prod.mk.inj (Option.some_inj.mp current)
    have startAt : copy.write.effectiveAt = track.startAt job (job.boundary snapshot.ref) := by
      rw [made]
      rfl
    -- A row that starts after the start of the range is not the model's first.
    have seen : track.seen = true := by
      by_contra unseen
      rw [startAt, Track.startAt, if_neg unseen] at late
      exact lt_irrefl _ late
    refine closedAt_ne_nil (records.held seen) _ fun row copy current notEnded => ?_
    refine records.first row copy current ?_
    have started := (records.sound.current row copy current).started
    rw [startAt, Track.startAt, if_pos seen] at late
    omega

/-- **Reading the rows again restores what the transaction knew.** -/
theorem Records.reload (records : track.Records job model saved) :
    track.reload.Records job model saved where
  sound := records.sound.reload
  seen := by
    rw [← records.seen]
    show (!track.rows.isEmpty) = true ↔ track.seen = true
    constructor
    · intro some_
      by_contra unseen
      rw [records.sound.unseen (Bool.eq_false_of_not_eq_true unseen)] at some_
      cases some_
    · intro seen
      simpa using records.held seen
  held := by
    intro some_
    rw [rows_reload]
    simpa [Track.reload] using some_
  first := by
    intro row copy current
    obtain ⟨pair, held, made⟩ := Option.map_eq_some_iff.mp current
    obtain ⟨rfl, -⟩ := Prod.mk.inj made
    exact records.first pair.1 pair.2 held
  quotes := by
    rw [rows_reload]
    exact records.quotes

end Apply

end Track

end Toard.Pricing
