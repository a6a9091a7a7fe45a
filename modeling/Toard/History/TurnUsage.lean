/-
**Usage beside the turns of a session (`history-grouping.ts`).**

A turn and a usage event have no key in common. Each turn of the assistant, in order, takes the nearest
event in time that is still free.

* **`matchTurnUsage_spec`**: the three together. **`exact_turn_robbed`**: an earlier turn may take the
  event of a later one.
-/

import Toard.Library.Keyed
import Toard.Shim.PromptRecord

namespace Toard.History

open Toard.Library (OrderedMap)
open Toard.Shim (TurnRole)

structure Turn where
  dedupKey : String
  role : TurnRole
  ts : Int
deriving DecidableEq

/-- A usage event; `usage` is what is shown of it. -/
structure SessionUsageEventRow (Usage : Type) where
  ts : Int
  usage : Usage
deriving DecidableEq

variable {Usage : Type} (events : List (SessionUsageEventRow Usage))

/-- One step of the scan: a free event that is nearer than the best so far takes its place. -/
def nearer (used : List Nat) (t : Int) (best : Option (Nat × Int))
    (entry : SessionUsageEventRow Usage × Nat) : Option (Nat × Int) :=
  if entry.2 ∈ used then best
  else if best.all fun so => |entry.1.ts - t| < so.2 then some (entry.2, |entry.1.ts - t|)
  else best

def nearest (used : List Nat) (t : Int) : Option (Nat × Int) :=
  events.zipIdx.foldl (nearer used t) none

def matchTurn (toleranceMs : ℚ) (so : List (Turn × Nat)) (turn : Turn) : List (Turn × Nat) :=
  if turn.role ≠ .assistant then so
  else
    match nearest events (so.map Prod.snd) turn.ts with
    | some (best, bestDelta) => if (bestDelta : ℚ) ≤ toleranceMs then so ++ [(turn, best)] else so
    | none => so

def turnMatches (toleranceMs : ℚ) (turns : List Turn) : List (Turn × Nat) :=
  turns.foldl (matchTurn events toleranceMs) []

def shown (entries : List (Turn × Nat)) : OrderedMap String Usage :=
  entries.foldl (fun result entry =>
    match events[entry.2]? with
    | some event => result.set entry.1.dedupKey event.usage
    | none => result) .empty

def matchTurnUsage (toleranceMs : ℚ) (turns : List Turn) : OrderedMap String Usage :=
  shown events (turnMatches events toleranceMs turns)

/-! ### The scan -/

section Scan

variable {used : List Nat} {t : Int}

def IsNearest (used : List Nat) (t : Int) (entries : List (SessionUsageEventRow Usage × Nat)) :
    Option (Nat × Int) → Prop
  | none => ∀ entry ∈ entries, entry.2 ∈ used
  | some (best, bestDelta) =>
    (∃ event, (event, best) ∈ entries ∧ bestDelta = |event.ts - t|) ∧ best ∉ used ∧
      ∀ entry ∈ entries, entry.2 ∉ used → bestDelta ≤ |entry.1.ts - t|

theorem isNearest_foldl (entries : List (SessionUsageEventRow Usage × Nat)) :
    IsNearest used t entries (entries.foldl (nearer used t) none) := by
  induction entries using List.reverseRecOn with
  | nil => exact fun _ among => absurd among List.not_mem_nil
  | append_singleton entries entry ih =>
    have both : ∀ {other}, other ∈ entries ++ [entry] ↔ other ∈ entries ∨ other = entry := by
      simp
    rw [List.foldl_concat, nearer]
    split
    case isTrue taken =>
      cases so : entries.foldl (nearer used t) none with
      | none =>
        rw [so] at ih
        exact fun other among => (both.mp among).elim (ih other) fun same => same ▸ taken
      | some best =>
        rw [so] at ih
        obtain ⟨⟨event, among, isDelta⟩, free, least⟩ := ih
        refine ⟨⟨event, both.mpr (.inl among), isDelta⟩, free, fun other isOther isFree => ?_⟩
        exact (both.mp isOther).elim (fun old => least other old isFree)
          fun same => absurd (same ▸ taken) isFree
    case isFalse free =>
      cases so : entries.foldl (nearer used t) none with
      | none =>
        rw [so] at ih
        rw [Option.all_none, if_pos rfl]
        refine ⟨⟨entry.1, both.mpr (.inr rfl), rfl⟩, free, fun other isOther isFree => ?_⟩
        exact (both.mp isOther).elim (fun old => absurd (ih other old) isFree)
          fun same => (congrArg (fun other => |other.1.ts - t|) same).ge
      | some best =>
        rw [so] at ih
        obtain ⟨⟨event, among, isDelta⟩, wasFree, least⟩ := ih
        rw [Option.all_some]
        split
        case isTrue less =>
          have isLess : |entry.1.ts - t| < best.2 := of_decide_eq_true less
          refine ⟨⟨entry.1, both.mpr (.inr rfl), rfl⟩, free, fun other isOther isFree => ?_⟩
          obtain old | rfl := both.mp isOther
          · exact isLess.le.trans (least other old isFree)
          · exact le_rfl
        case isFalse notLess =>
          refine ⟨⟨event, both.mpr (.inl among), isDelta⟩, wasFree, fun other isOther isFree => ?_⟩
          obtain old | rfl := both.mp isOther
          · exact least other old isFree
          · exact not_lt.mp fun less => notLess (decide_eq_true less)

theorem nearest_some {best : Nat} {bestDelta : Int} (found : nearest events used t = some (best, bestDelta)) :
    (∃ event, events[best]? = some event ∧ bestDelta = |event.ts - t|) ∧ best ∉ used ∧
      ∀ place event, events[place]? = some event → place ∉ used → bestDelta ≤ |event.ts - t| := by
  have isNearest := @isNearest_foldl _ used t events.zipIdx
  rw [← nearest, found] at isNearest
  obtain ⟨⟨event, among, isDelta⟩, free, least⟩ := isNearest
  exact ⟨⟨event, List.mem_zipIdx_iff_getElem?.mp among, isDelta⟩, free,
    fun place event isEvent => least (event, place) (List.mem_zipIdx_iff_getElem?.mpr isEvent)⟩

theorem nearest_isSome {place : Nat} {event : SessionUsageEventRow Usage}
    (isEvent : events[place]? = some event) (free : place ∉ used) : (nearest events used t).isSome := by
  have isNearest := @isNearest_foldl _ used t events.zipIdx
  rw [← nearest] at isNearest
  cases found : nearest events used t with
  | none =>
    rw [found] at isNearest
    exact absurd (isNearest (event, place) (List.mem_zipIdx_iff_getElem?.mpr isEvent)) free
  | some => rfl

end Scan

/-! ### One turn -/

section Turns

variable {events} {toleranceMs : ℚ} {turn : Turn} {so : List (Turn × Nat)}

theorem matchTurn_cases (events : List (SessionUsageEventRow Usage)) (toleranceMs : ℚ)
    (so : List (Turn × Nat)) (turn : Turn) :
    (matchTurn events toleranceMs so turn = so ∧ (turn.role = .assistant →
      ∀ place event, events[place]? = some event → place ∉ so.map Prod.snd →
        toleranceMs < (|event.ts - turn.ts| : Int))) ∨
    ∃ best event, matchTurn events toleranceMs so turn = so ++ [(turn, best)] ∧
      turn.role = .assistant ∧ events[best]? = some event ∧ best ∉ so.map Prod.snd ∧
      ((|event.ts - turn.ts| : Int) : ℚ) ≤ toleranceMs ∧
      ∀ place other, events[place]? = some other → place ∉ so.map Prod.snd →
        |event.ts - turn.ts| ≤ |other.ts - turn.ts| := by
  rw [matchTurn]
  split
  case isTrue other => exact .inl ⟨rfl, fun same => absurd same other⟩
  case isFalse assistant =>
    split
    case h_1 best bestDelta found =>
      obtain ⟨⟨event, isEvent, rfl⟩, free, least⟩ := nearest_some events found
      split
      case isTrue close => exact .inr ⟨best, event, rfl, not_not.mp assistant, isEvent, free, close, least⟩
      case isFalse far =>
        refine .inl ⟨rfl, fun _ place other isOther isFree => (not_le.mp far).trans_le ?_⟩
        exact_mod_cast least place other isOther isFree
    case h_2 none =>
      refine .inl ⟨rfl, fun _ place event isEvent free => ?_⟩
      have found := @nearest_isSome _ events (so.map Prod.snd) turn.ts _ _ isEvent free
      rw [none] at found
      cases found

end Turns

/-! ### All turns -/

section Runs

variable {events} {toleranceMs : ℚ} {turns : List Turn}

theorem turnMatches_concat (turns : List Turn) (turn : Turn) :
    turnMatches events toleranceMs (turns ++ [turn])
      = matchTurn events toleranceMs (turnMatches events toleranceMs turns) turn :=
  List.foldl_concat ..

theorem turnMatches_append (turns more : List Turn) :
    turnMatches events toleranceMs (turns ++ more)
      = more.foldl (matchTurn events toleranceMs) (turnMatches events toleranceMs turns) :=
  List.foldl_append

theorem prefix_matchTurn (so : List (Turn × Nat)) (turn : Turn) :
    so <+: matchTurn events toleranceMs so turn := by
  rcases matchTurn_cases events toleranceMs so turn with ⟨same, -⟩ | ⟨best, event, more, -⟩
  · rw [same]
  · rw [more]
    exact List.prefix_append ..

theorem prefix_foldl (so : List (Turn × Nat)) (turns : List Turn) :
    so <+: turns.foldl (matchTurn events toleranceMs) so := by
  induction turns generalizing so with
  | nil => exact List.prefix_rfl
  | cons turn rest ih => exact (prefix_matchTurn so turn).trans (ih _)

/-- **A one-to-one matching within the tolerance.** -/
theorem turnMatches_sound (events : List (SessionUsageEventRow Usage)) (toleranceMs : ℚ)
    (turns : List Turn) :
    ((turnMatches events toleranceMs turns).map Prod.snd).Nodup ∧
    ((turnMatches events toleranceMs turns).map Prod.fst).Sublist (turns.filter (·.role = .assistant)) ∧
    ∀ entry ∈ turnMatches events toleranceMs turns, ∃ event, events[entry.2]? = some event ∧
      ((|event.ts - entry.1.ts| : Int) : ℚ) ≤ toleranceMs := by
  induction turns using List.reverseRecOn with
  | nil => exact ⟨List.nodup_nil, List.nil_sublist _, fun _ among => absurd among List.not_mem_nil⟩
  | append_singleton turns turn ih =>
    obtain ⟨once, inOrder, close⟩ := ih
    rw [turnMatches_concat, List.filter_append]
    rcases matchTurn_cases events toleranceMs (turnMatches events toleranceMs turns) turn with
      ⟨same, -⟩ | ⟨best, event, more, assistant, isEvent, free, near, -⟩
    · rw [same]
      exact ⟨once, inOrder.trans (List.sublist_append_left ..), close⟩
    · rw [more, List.map_append, List.map_append]
      refine ⟨?_, inOrder.append ?_, fun entry among => ?_⟩
      · refine List.nodup_append.mpr ⟨once, List.nodup_singleton _, fun old isOld new isNew same => ?_⟩
        obtain rfl : new = best := List.mem_singleton.mp isNew
        exact free (same ▸ isOld)
      · rw [List.filter_singleton, decide_eq_true assistant]
        exact List.Sublist.refl _
      · obtain old | new := List.mem_append.mp among
        · exact close entry old
        · rw [List.mem_singleton.mp new]
          exact ⟨event, isEvent, near⟩

/-- **No free event is within the tolerance of a turn without one.** -/
theorem turnMatches_maximal {turn : Turn} (among : turn ∈ turns) (assistant : turn.role = .assistant)
    (alone : turn ∉ (turnMatches events toleranceMs turns).map Prod.fst) {place : Nat}
    {event : SessionUsageEventRow Usage} (isEvent : events[place]? = some event)
    (free : place ∉ (turnMatches events toleranceMs turns).map Prod.snd) :
    toleranceMs < (|event.ts - turn.ts| : Int) := by
  induction turns using List.reverseRecOn with
  | nil => exact absurd among List.not_mem_nil
  | append_singleton turns last ih =>
    rw [turnMatches_concat] at alone free
    have before := @prefix_matchTurn Usage events toleranceMs (turnMatches events toleranceMs turns) last
    have wasFree : place ∉ (turnMatches events toleranceMs turns).map Prod.snd :=
      fun old => free ((before.map Prod.snd).subset old)
    obtain old | new := List.mem_append.mp among
    · exact ih old (fun matched => alone ((before.map Prod.fst).subset matched)) wasFree
    · obtain rfl := List.mem_singleton.mp new
      rcases matchTurn_cases events toleranceMs (turnMatches events toleranceMs turns) turn with
        ⟨-, far⟩ | ⟨best, _, more, -⟩
      · exact far assistant place event isEvent wasFree
      · rw [more, List.map_append] at alone
        exact absurd (List.mem_append_right _ List.mem_cons_self) alone

def isAt (events : List (SessionUsageEventRow Usage)) (instant : Int) (place : Nat) : Bool :=
  events[place]?.any (·.ts = instant)

theorem isAt_iff {instant : Int} {place : Nat} : isAt events instant place = true ↔
    ∃ event, events[place]? = some event ∧ event.ts = instant := by
  rw [isAt, Option.any_eq_true]
  simp only [decide_eq_true_eq]

theorem taken_at {instant : Int} (natural : 0 ≤ toleranceMs) {so : List (Turn × Nat)}
    (same : ∀ turn ∈ turns, turn.ts = instant) {place : Nat} (isPlace : isAt events instant place = true)
    (free : place ∉ (turns.foldl (matchTurn events toleranceMs) so).map Prod.snd) :
    turns.countP (·.role = .assistant)
      ≤ ((turns.foldl (matchTurn events toleranceMs) so).map Prod.snd).countP (isAt events instant) := by
  induction turns using List.reverseRecOn with
  | nil => exact Nat.zero_le _
  | append_singleton turns turn ih =>
    rw [List.foldl_concat] at free ⊢
    have before := (@prefix_matchTurn Usage events toleranceMs
      (turns.foldl (matchTurn events toleranceMs) so) turn).map Prod.snd
    have wasFree := fun old => free (before.subset old)
    have earlier := ih (fun other among => same other (List.mem_append_left _ among)) wasFree
    obtain ⟨event, isEvent, rfl⟩ := isAt_iff.mp isPlace
    have now : turn.ts = event.ts := same turn (List.mem_append_right _ List.mem_cons_self)
    have zero : |event.ts - turn.ts| = 0 := by rw [now, sub_self, abs_zero]
    rw [List.countP_append, List.countP_singleton]
    rcases matchTurn_cases events toleranceMs (turns.foldl (matchTurn events toleranceMs) so) turn with
      ⟨unchanged, far⟩ | ⟨best, taken, more, assistant, isTaken, -, -, least⟩
    · have user : turn.role ≠ .assistant := fun assistant => by
        have beyond := far assistant place event isEvent wasFree
        rw [zero] at beyond
        exact absurd (natural.trans_lt beyond) (by simp)
      rw [unchanged, if_neg (by simpa using user)]
      exact earlier
    · have exact : taken.ts = event.ts := by
        have none := (least place event isEvent wasFree).trans zero.le
        rw [← now]
        exact sub_eq_zero.mp (abs_nonpos_iff.mp none)
      rw [more, List.map_append, List.countP_append, List.map_singleton, List.countP_singleton,
        if_pos (isAt_iff.mpr ⟨taken, isTaken, exact⟩), if_pos (decide_eq_true assistant)]
      exact Nat.succ_le_succ earlier

theorem length_isAt (events : List (SessionUsageEventRow Usage)) (instant : Int) :
    ((events.zipIdx.filter (·.1.ts = instant)).map Prod.snd).length = events.countP (·.ts = instant) := by
  rw [List.length_map, ← List.countP_eq_length_filter]
  conv_rhs => rw [← List.zipIdx_map_fst 0 events, List.countP_map]
  rfl

theorem split_chronological (chronological : turns.Pairwise fun first next => first.ts ≤ next.ts)
    (instant : Int) : ∃ early now later, turns = early ++ now ++ later ∧
      (∀ turn ∈ early, turn.ts < instant) ∧ (∀ turn ∈ now, turn.ts = instant) ∧
      ∀ turn ∈ later, instant < turn.ts := by
  induction turns with
  | nil => exact ⟨[], [], [], rfl, by simp, by simp, by simp⟩
  | cons turn rest ih =>
    obtain ⟨after, sorted⟩ := List.pairwise_cons.mp chronological
    obtain ⟨early, now, later, rfl, isEarly, isNow, isLater⟩ := ih sorted
    rcases lt_trichotomy turn.ts instant with less | same | more
    · exact ⟨turn :: early, now, later, rfl, by simpa using ⟨less, isEarly⟩, isNow, isLater⟩
    · have none : early = [] := List.eq_nil_iff_forall_not_mem.mpr fun other among =>
        absurd (isEarly other among) (not_lt.mpr (same ▸ after other (by simp [among])))
      subst none
      exact ⟨[], turn :: now, later, rfl, isEarly, by simpa using ⟨same, isNow⟩, isLater⟩
    · have late : ∀ other ∈ early ++ now ++ later, instant < other.ts := fun other among =>
        more.trans_le (after other among)
      exact ⟨[], [], turn :: (early ++ now ++ later), rfl, by simp, by simp,
        List.forall_mem_cons.mpr ⟨more, late⟩⟩

/-- **An event is taken by its instant**, if as many turns of the assistant are at that instant. -/
theorem taken_by_then (chronological : turns.Pairwise fun first next => first.ts ≤ next.ts)
    (natural : 0 ≤ toleranceMs) {place : Nat} {event : SessionUsageEventRow Usage}
    (isEvent : events[place]? = some event) (enough : events.countP (·.ts = event.ts)
      ≤ turns.countP fun turn => turn.role = .assistant ∧ turn.ts = event.ts) :
    ∃ turn, (turn, place) ∈ turnMatches events toleranceMs turns ∧ turn.ts ≤ event.ts := by
  obtain ⟨early, now, later, rfl, isEarly, isNow, isLater⟩ := split_chronological chronological event.ts
  have front : turnMatches events toleranceMs (early ++ now) <+:
      turnMatches events toleranceMs (early ++ now ++ later) := by
    rw [turnMatches_append (early ++ now) later]
    exact prefix_foldl _ later
  obtain ⟨once, inOrder, -⟩ := turnMatches_sound events toleranceMs (early ++ now)
  by_cases among : place ∈ (turnMatches events toleranceMs (early ++ now)).map Prod.snd
  · obtain ⟨⟨turn, _⟩, isMatch, rfl⟩ := List.mem_map.mp among
    refine ⟨turn, front.subset isMatch, ?_⟩
    have isTurn := (List.mem_filter.mp (inOrder.subset (List.mem_map_of_mem isMatch))).1
    obtain before | at' := List.mem_append.mp isTurn
    · exact (isEarly turn before).le
    · exact (isNow turn at').le
  · exfalso
    have isPlace := isAt_iff.mpr ⟨event, isEvent, rfl⟩
    have count : (early ++ now ++ later).countP (fun turn => turn.role = .assistant ∧ turn.ts = event.ts)
        = now.countP (·.role = .assistant) := by
      have none : ∀ {others : List Turn}, (∀ turn ∈ others, turn.ts ≠ event.ts) →
          others.countP (fun turn => turn.role = .assistant ∧ turn.ts = event.ts) = 0 := fun other =>
        List.countP_eq_zero.mpr fun turn isOther => by simp [other turn isOther]
      rw [List.countP_append, List.countP_append, none fun turn isTurn => (isEarly turn isTurn).ne,
        none fun turn isTurn => (isLater turn isTurn).ne', Nat.zero_add, Nat.add_zero]
      exact List.countP_congr fun turn isTurn => by simp [isNow turn isTurn]
    have taken := @taken_at Usage events toleranceMs now event.ts natural
      (turnMatches events toleranceMs early) isNow place isPlace
    rw [turnMatches_append] at among once
    have some := (count ▸ enough).trans (taken among)
    -- these places and the free one are all among those of the instant
    let places := ((now.foldl (matchTurn events toleranceMs) (turnMatches events toleranceMs early)).map
      Prod.snd).filter (isAt events event.ts)
    have distinct : (place :: places).Nodup :=
      List.nodup_cons.mpr ⟨fun inside => among (List.mem_filter.mp inside).1, once.filter _⟩
    have inside : place :: places ⊆ (events.zipIdx.filter (·.1.ts = event.ts)).map Prod.snd := by
      have ofInstant : ∀ other, isAt events event.ts other = true →
          other ∈ (events.zipIdx.filter (·.1.ts = event.ts)).map Prod.snd := by
        intro other isOther
        obtain ⟨found, isFound, same⟩ := isAt_iff.mp isOther
        exact List.mem_map.mpr ⟨(found, other), List.mem_filter.mpr
          ⟨List.mem_zipIdx_iff_getElem?.mpr isFound, decide_eq_true same⟩, rfl⟩
      exact List.cons_subset.mpr ⟨ofInstant place isPlace,
        fun other isOther => ofInstant other (List.mem_filter.mp isOther).2⟩
    have size := (List.subperm_of_subset distinct inside).length_le
    rw [length_isAt, List.length_cons, ← List.countP_eq_length_filter] at size
    omega

/-! ### What is shown -/

theorem get_shown {entries : List (Turn × Nat)} (distinct : (entries.map (·.1.dedupKey)).Nodup)
    (key : String) (usage : Usage) : (shown events entries).get key = some usage ↔
      ∃ entry ∈ entries, ∃ event, events[entry.2]? = some event ∧ entry.1.dedupKey = key ∧
        event.usage = usage := by
  induction entries using List.reverseRecOn with
  | nil => simp [shown, OrderedMap.get_eq_some, OrderedMap.empty]
  | append_singleton entries entry ih =>
    rw [List.map_append, List.nodup_append] at distinct
    obtain ⟨once, -, apart⟩ := distinct
    have step : (∃ other ∈ entries ++ [entry], ∃ event, events[other.2]? = some event ∧
          other.1.dedupKey = key ∧ event.usage = usage) ↔
        (shown events entries).get key = some usage ∨
          ∃ event, events[entry.2]? = some event ∧ entry.1.dedupKey = key ∧ event.usage = usage := by
      simp only [ih once, List.mem_append, List.mem_singleton, or_and_right, exists_or, exists_eq_left]
    rw [step, shown, List.foldl_concat, ← shown]
    cases found : events[entry.2]? with
    | none => simp
    | some event =>
      dsimp only
      rw [OrderedMap.get_set]
      by_cases same : key = entry.1.dedupKey
      · subst same
        have fresh : (shown events entries).get entry.1.dedupKey ≠ some usage := fun old => by
          obtain ⟨other, among, -, -, isKey, -⟩ := (ih once).mp old
          exact apart _ (List.mem_map_of_mem among) _ List.mem_cons_self isKey
        simp [fresh]
      · simp [same, Ne.symm same]

/-- **Usage beside its turn.** The map is that of a one-to-one matching within the tolerance; no free
event is within the tolerance of a turn of the assistant without one; and an event at the instant of as
many turns goes to one of them or to an earlier turn. -/
theorem matchTurnUsage_spec (distinct : (turns.map (·.dedupKey)).Nodup)
    (chronological : turns.Pairwise fun first next => first.ts ≤ next.ts) :
    ∃ matching : List (Turn × Nat),
      (∀ key usage, (matchTurnUsage events toleranceMs turns).get key = some usage ↔
        ∃ entry ∈ matching, ∃ event, events[entry.2]? = some event ∧ entry.1.dedupKey = key ∧
          event.usage = usage) ∧
      (matching.map Prod.snd).Nodup ∧
      (matching.map Prod.fst).Sublist (turns.filter (·.role = .assistant)) ∧
      (∀ entry ∈ matching, ∃ event, events[entry.2]? = some event ∧
        ((|event.ts - entry.1.ts| : Int) : ℚ) ≤ toleranceMs) ∧
      (∀ turn ∈ turns, turn.role = .assistant → turn ∉ matching.map Prod.fst → ∀ place event,
        events[place]? = some event → place ∉ matching.map Prod.snd →
          toleranceMs < (|event.ts - turn.ts| : Int)) ∧
      (0 ≤ toleranceMs → ∀ place event, events[place]? = some event → events.countP (·.ts = event.ts)
          ≤ turns.countP (fun turn => turn.role = .assistant ∧ turn.ts = event.ts) →
        ∃ turn, (turn, place) ∈ matching ∧ turn.ts ≤ event.ts) := by
  obtain ⟨once, inOrder, close⟩ := turnMatches_sound events toleranceMs turns
  have keys : ((turnMatches events toleranceMs turns).map (·.1.dedupKey)).Nodup := by
    have sub := (inOrder.trans List.filter_sublist).map Turn.dedupKey
    rw [List.map_map] at sub
    exact distinct.sublist sub
  exact ⟨turnMatches events toleranceMs turns, get_shown keys, once, inOrder, close,
    fun turn among assistant alone place event isEvent free =>
      turnMatches_maximal among assistant alone isEvent free,
    fun natural place event isEvent enough => taken_by_then chronological natural isEvent enough⟩

end Runs

/-! ### Two events -/

def assistantAt (dedupKey : String) (ts : Int) : Turn := ⟨dedupKey, .assistant, ts⟩

def eventAt (ts : Int) : SessionUsageEventRow Int := ⟨ts, ts⟩

theorem matchTurnUsage_spec_two : ∃ matching : List (Turn × Nat),
    (∀ key usage, (matchTurnUsage [eventAt 9, eventAt 0] 10 [assistantAt "a" 0, assistantAt "b" 9]).get key
        = some usage ↔ ∃ entry ∈ matching, ∃ event, [eventAt 9, eventAt 0][entry.2]? = some event ∧
          entry.1.dedupKey = key ∧ event.usage = usage) ∧ (matching.map Prod.snd).Nodup := by
  obtain ⟨matching, isMap, once, -⟩ := @matchTurnUsage_spec Int [eventAt 9, eventAt 0] 10
    [assistantAt "a" 0, assistantAt "b" 9] (by decide) (by decide)
  exact ⟨matching, isMap, once⟩

/-- An earlier turn without an event of its own takes that of the turn behind it. -/
theorem exact_turn_robbed : ¬ ∀ (toleranceMs : ℚ) (turns : List Turn)
    (events : List (SessionUsageEventRow Int)), turns.Pairwise (fun first next => first.ts ≤ next.ts) →
      (turns.map (·.dedupKey)).Nodup → ∀ event ∈ events,
        0 < turns.countP (fun turn => turn.role = .assistant ∧ turn.ts = event.ts) →
        events.countP (·.ts = event.ts)
          ≤ turns.countP (fun turn => turn.role = .assistant ∧ turn.ts = event.ts) →
        ∃ turn ∈ turns, turn.ts = event.ts ∧
          (matchTurnUsage events toleranceMs turns).get turn.dedupKey = some event.usage := by
  intro claim
  obtain ⟨turn, among, same, found⟩ := claim 10 [assistantAt "a" 0, assistantAt "b" 9] [eventAt 9]
    (by decide) (by decide) (eventAt 9) List.mem_cons_self (by decide) (by decide)
  have first : (matchTurnUsage [eventAt 9] 10 [assistantAt "a" 0, assistantAt "b" 9]).get "b" = none := by
    decide
  obtain rfl | rfl := by simpa only [List.mem_cons, List.not_mem_nil, or_false] using among
  · exact absurd same (by decide)
  · rw [show (assistantAt "b" 9).dedupKey = "b" from rfl, first] at found
    cases found

end Toard.History
