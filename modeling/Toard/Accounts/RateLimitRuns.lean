/-
**Credential attempts in every run.**

Attempts and clears run side by side. Between the preflight of an attempt, its block and the
consumption that follows a rolled-back block, anything may happen; time never goes back.

* `Promises`: what holds of a state and of the steps from it; **`promises`**: in every run.
* **`denied_attempt_interferes`**: an attempt denied for its account removes another scope's row,
  and one that is overtaken by the end of its window is denied without a time to wait.
-/

import Toard.Accounts.RateLimit
import Toard.Library.Transition

namespace Toard.Accounts.RateLimit

open Library

/-! ### The system -/

inductive Event where
  | allowed (key : Key) (time : Int)
  | cleared (key : Key)
deriving DecidableEq

/-- How far an attempt is: past its preflight, or with its block rolled back for a scope. -/
inductive Phase where
  | admitted (keys : Keys)
  | exceeded (keys : Keys) (scope : Scope)
deriving DecidableEq

structure State where
  now : Int
  limits : Limits
  calls : Nat → Option Phase
  answers : List (Keys × Answer)
  /-- The budgets consumed by allowed attempts, and those cleared, the latest first. -/
  log : List Event

def State.initial (now : Int) : State := ⟨now, .empty, fun _ => none, [], []⟩

inductive Action where
  | start (call : Nat) (globalKey ipKey accountKey : Option (List UInt8)) (now : Int)
  | consume (call : Nat) (moments : Scope → Moment)
  | again (call : Nat) (moment : Moment)
  | crash (call : Nat)
  | clear (keyHash : Option (List UInt8)) (now : Int)

def logged (keys : Keys) (moments : Scope → Moment) (log : List Event) : List Event :=
  .allowed (keys.of .global) (moments .global).now :: .allowed (keys.of .ip) (moments .ip).now ::
    .allowed (keys.of .account) (moments .account).now :: log

def Ordered (now : Int) (moments : Scope → Moment) : Prop :=
  now ≤ (moments .account).now ∧ (moments .account).now ≤ (moments .ip).now ∧
    (moments .ip).now ≤ (moments .global).now

instance (now : Int) (moments : Scope → Moment) : Decidable (Ordered now moments) := by
  unfold Ordered
  infer_instance

def startCall (state : State) (call : Nat) (keys : Keys) (now : Int) : State :=
  let retry := preflight now keys state.limits
  if 0 < retry then { state with now, answers := (keys, ⟨false, retry⟩) :: state.answers }
  else { state with now, calls := Function.update state.calls call (some (.admitted keys)) }

def consumeCall (state : State) (call : Nat) (keys : Keys) (moments : Scope → Moment) : State :=
  match consumeScopes moments keys state.limits with
  | .ok after =>
    { now := (moments .global).now
      limits := after
      calls := Function.update state.calls call none
      answers := (keys, ⟨true, 0⟩) :: state.answers
      log := logged keys moments state.log }
  | .error scope =>
    { state with
      now := (moments scope).now
      calls := Function.update state.calls call (some (.exceeded keys scope)) }

def consumeAgain (state : State) (call : Nat) (keys : Keys) (scope : Scope) (moment : Moment) :
    State :=
  let (answer, after) := consumeKey moment (keys.of scope) state.limits
  { state with
    now := moment.now
    limits := after
    calls := Function.update state.calls call none
    answers := (keys, ⟨false, answer.retryAfterSeconds⟩) :: state.answers }

def next (state : State) : Action → Option State
  | .start call globalKey ipKey accountKey now =>
    if state.calls call = none ∧ state.now ≤ now then
      match Keys.ofOctets? globalKey ipKey accountKey with
      | none => some { state with now }
      | some keys => some (startCall state call keys now)
    else none
  | .consume call moments =>
    match state.calls call with
    | some (.admitted keys) =>
      if Ordered state.now moments then some (consumeCall state call keys moments) else none
    | _ => none
  | .again call moment =>
    match state.calls call with
    | some (.exceeded keys scope) =>
      if state.now ≤ moment.now then some (consumeAgain state call keys scope moment) else none
    | _ => none
  | .crash call => some { state with calls := Function.update state.calls call none }
  | .clear keyHash now =>
    if state.now ≤ now then
      match KeyHash.ofOctets? keyHash with
      | none => some { state with now }
      | some keyHash =>
        some { state with
          now
          limits := state.limits.delete ⟨.account, keyHash⟩
          log := .cleared ⟨.account, keyHash⟩ :: state.log }
    else none

def Action.Clears (key : Key) : Action → Prop
  | .clear keyHash _ => ∃ hash, KeyHash.ofOctets? keyHash = some hash ∧ key = ⟨.account, hash⟩
  | _ => False

/-! ### Allowed attempts -/

/-- The attempts of a key that were allowed from a time on, since the key was last cleared. -/
def allowedSince (key : Key) (start : Int) : List Event → Nat
  | [] => 0
  | .allowed consumed time :: earlier =>
    (if consumed = key ∧ start ≤ time then 1 else 0) + allowedSince key start earlier
  | .cleared gone :: earlier => if gone = key then 0 else allowedSince key start earlier

theorem allowedSince_anti (key : Key) {start later : Int} (le : start ≤ later) (log : List Event) :
    allowedSince key later log ≤ allowedSince key start log := by
  induction log with
  | nil => exact le_refl 0
  | cons event earlier ih =>
    cases event with
    | allowed consumed time =>
      refine Nat.add_le_add ?_ ih
      split
      case isTrue both => rw [if_pos ⟨both.1, le.trans both.2⟩]
      case isFalse => exact Nat.zero_le _
    | cleared gone =>
      unfold allowedSince
      split
      case isTrue => exact le_refl 0
      case isFalse => exact ih

theorem allowedSince_eq_zero {key : Key} {start later : Int} (le : start ≤ later) {log : List Event}
    (none_ : allowedSince key start log = 0) : allowedSince key later log = 0 :=
  Nat.le_zero.mp (none_ ▸ allowedSince_anti key le log)

theorem allowedSince_other {key consumed : Key} (differs : consumed ≠ key) (start time : Int)
    (log : List Event) :
    allowedSince key start (.allowed consumed time :: log) = allowedSince key start log := by
  show (if consumed = key ∧ start ≤ time then 1 else 0) + _ = _
  rw [if_neg fun both => differs both.1, Nat.zero_add]

def Tracked (key : Key) (log : List Event) (now : Int) : Option Row → Prop
  | none => allowedSince key now log = 0
  | some row => row.Sound (limitOf key.scope) ∧ row.updatedAt ≤ now ∧
      allowedSince key (row.updatedAt + 1) log = 0 ∧
      allowedSince key row.windowStartedAt log ≤ min (limitOf key.scope) row.attempts

def Tracks (log : List Event) (now : Int) (limits : Limits) : Prop :=
  ∀ key, Tracked key log now (limits.get key)

theorem Tracks.sound {log : List Event} {now : Int} {limits : Limits}
    (tracks : Tracks log now limits) : Sound limits := by
  intro key row present
  have tracked := tracks key
  rw [present] at tracked
  exact tracked.1

theorem Tracked.later {key : Key} {log : List Event} {now now' : Int} (le : now ≤ now')
    {row : Option Row} (tracked : Tracked key log now row) : Tracked key log now' row := by
  cases row with
  | none => exact allowedSince_eq_zero le tracked
  | some row => exact ⟨tracked.1, tracked.2.1.trans le, tracked.2.2⟩

theorem Tracked.other {key consumed : Key} (differs : consumed ≠ key) {log : List Event}
    {now time : Int} {row : Option Row} (tracked : Tracked key log now row) :
    Tracked key (.allowed consumed time :: log) now row := by
  cases row with
  | none => exact (allowedSince_other differs now time log).trans tracked
  | some row =>
    obtain ⟨sound, updated, recent, counts⟩ := tracked
    refine ⟨sound, updated, ?_, ?_⟩
    · rw [allowedSince_other differs]
      exact recent
    · rw [allowedSince_other differs]
      exact counts

theorem Tracked.none_since {key : Key} {log : List Event} {now now' : Int} (le : now ≤ now')
    {row : Option Row} (tracked : Tracked key log now row)
    (updated : ∀ found, row = some found → found.updatedAt < now') :
    allowedSince key now' log = 0 := by
  cases row with
  | none => exact allowedSince_eq_zero le tracked
  | some row => exact allowedSince_eq_zero (updated row rfl) tracked.2.2.1

theorem Tracked.spared {key : Key} {log : List Event} {now now' : Int} (le : now ≤ now')
    {before after : Option Row} (tracked : Tracked key log now before)
    (spared : Spared now' before after) : Tracked key log now' after := by
  rcases spared with same | ⟨gone, row, present, stale, -⟩
  · rw [same]
    exact tracked.later le
  · rw [gone]
    refine tracked.none_since le fun found same => ?_
    cases present.symm.trans same
    unfold day seconds at stale
    omega

theorem tracked_opened {key : Key} {log : List Event} {now : Int}
    (none_ : allowedSince key now log = 0) : Tracked key log now (some (opened now)) :=
  ⟨.opened _ now, le_refl now, allowedSince_eq_zero (by show now ≤ now + 1; omega) none_,
    none_.le.trans (Nat.zero_le _)⟩

/-- **Counting an attempt.** The row says the same of the attempts allowed so far, and of this one
too where it is allowed. -/
theorem tracked_counted {key : Key} {log : List Event} {now : Int} {row : Row}
    (tracked : Tracked key log now (some row)) (open_ : blockedFor now (some row) = none) :
    Tracked key log now (some (counted now (limitOf key.scope) row).1) ∧
      ((counted now (limitOf key.scope) row).2 = 0 → Tracked key (.allowed key now :: log) now
        (some (counted now (limitOf key.scope) row).1)) := by
  obtain ⟨sound, updated, recent, counts⟩ := tracked
  have positive := limitOf_pos key.scope
  have sound' := sound.counted positive updated open_
  have recent' : allowedSince key (now + 1) log = 0 :=
    allowedSince_eq_zero (by omega) recent
  have own : ∀ start, start ≤ now → allowedSince key start (.allowed key now :: log)
      = 1 + allowedSince key start log := fun start le => by
    show (if key = key ∧ start ≤ now then 1 else 0) + _ = _
    rw [if_pos ⟨rfl, le⟩]
  have later : allowedSince key (now + 1) (.allowed key now :: log) = 0 := by
    show (if key = key ∧ now + 1 ≤ now then 1 else 0) + _ = 0
    rw [if_neg (by omega), recent']
  have counts := Nat.le_min.mp counts
  rcases counted_cases now positive row with ⟨ended, same⟩ | ⟨running, within, same⟩ |
    ⟨running, reached, backoff, least, -, same⟩
  · have none_ : allowedSince key now log = 0 :=
      allowedSince_eq_zero (by have := sound.running; omega) recent
    rw [same] at sound' ⊢
    refine ⟨⟨sound', le_refl now, recent', none_.le.trans (Nat.zero_le _)⟩, fun _ =>
      ⟨sound', le_refl now, later, ?_⟩⟩
    show allowedSince key now (.allowed key now :: log) ≤ min (limitOf key.scope) 1
    rw [own now (le_refl now), none_]
    exact Nat.le_min.mpr ⟨positive, le_refl 1⟩
  · rw [same] at sound' ⊢
    refine ⟨⟨sound', le_refl now, recent',
        Nat.le_min.mpr ⟨counts.1, counts.2.trans (Nat.le_succ _)⟩⟩,
      fun _ => ⟨sound', le_refl now, later, ?_⟩⟩
    show allowedSince key row.windowStartedAt (.allowed key now :: log)
      ≤ min (limitOf key.scope) (row.attempts + 1)
    rw [own _ (sound.started.trans updated)]
    exact Nat.le_min.mpr ⟨by omega, by omega⟩
  · rw [same] at sound' ⊢
    refine ⟨⟨sound', le_refl now, recent',
        Nat.le_min.mpr ⟨counts.1, counts.2.trans (Nat.le_succ _)⟩⟩,
      fun free => ?_⟩
    have free : backoff = 0 := free
    omega

/-- **The step of the bound.** A consumption keeps what the table says, and says the same of the
attempt that it allows. -/
theorem tracks_consumeKey {log : List Event} {now : Int} {limits : Limits}
    (tracks : Tracks log now limits) {moment : Moment} (le : now ≤ moment.now) (key : Key) :
    Tracks log moment.now (consumeKey moment key limits).2 ∧
      ((consumeKey moment key limits).1.isAllowed →
        Tracks (.allowed key moment.now :: log) moment.now (consumeKey moment key limits).2) := by
  have others : ∀ other, other ≠ key →
      Tracked other log moment.now ((consumeKey moment key limits).2.get other) :=
    fun other differs => (tracks other).spared le (spared_consumeKey tracks.sound moment differs)
  suffices own : Tracked key log moment.now ((consumeKey moment key limits).2.get key) ∧
      ((consumeKey moment key limits).1.isAllowed → Tracked key (.allowed key moment.now :: log)
        moment.now ((consumeKey moment key limits).2.get key)) by
    refine ⟨fun other => ?_, fun allowed other => ?_⟩
    · by_cases here : other = key
      · exact here ▸ own.1
      · exact others other here
    · by_cases here : other = key
      · exact here ▸ own.2 allowed
      · exact (others other here).other (Ne.symm here)
  rcases consumeKey_cases moment key limits with
    ⟨retry, -, same⟩ | ⟨open_, row, backoff, after, counts, same, present, -⟩
  · rw [same]
    refine ⟨(tracks key).later le, fun allowed => ?_⟩
    cases allowed
  · rw [same]
    show Tracked _ _ _ (after.get key) ∧
      (decide (backoff = 0) = true → Tracked _ _ _ (after.get key))
    have found : Tracked key log moment.now (some (foundRow moment key limits)) ∧
        blockedFor moment.now (some (foundRow moment key limits)) = none := by
      rcases foundRow_cases tracks.sound moment key with own | ⟨made, ended⟩
      · rw [← own]
        exact ⟨(tracks key).later le, open_⟩
      · rw [made]
        refine ⟨tracked_opened ((tracks key).none_since le fun found present => ?_),
          blockedFor_opened _⟩
        exact (tracks.sound key found present).running.trans_le (ended found present)
    have kept := tracked_counted found.1 found.2
    rw [present]
    rw [counts] at kept
    exact ⟨kept.1, fun free => kept.2 (of_decide_eq_true free)⟩

/-! ### The block -/

theorem consumeScope_eq_ok {moment : Moment} {keys : Keys} {scope : Scope} {limits after : Limits} :
    consumeScope moment keys scope limits = .ok after ↔
      (consumeKey moment (keys.of scope) limits).1.isAllowed ∧
        (consumeKey moment (keys.of scope) limits).2 = after := by
  unfold consumeScope
  by_cases allowed : (consumeKey moment (keys.of scope) limits).1.isAllowed <;> simp [allowed]

theorem consumeScope_eq_error {moment : Moment} {keys : Keys} {scope raised : Scope}
    {limits : Limits} : consumeScope moment keys scope limits = .error raised ↔
      (consumeKey moment (keys.of scope) limits).1.isAllowed = false ∧ scope = raised := by
  unfold consumeScope
  by_cases allowed : (consumeKey moment (keys.of scope) limits).1.isAllowed <;> simp [allowed]

theorem consumeScope_spec {log : List Event} {now : Int} {limits after : Limits}
    (tracks : Tracks log now limits) {moment : Moment} (le : now ≤ moment.now) {keys : Keys}
    {scope : Scope} (consumed : consumeScope moment keys scope limits = .ok after) :
    Tracks (.allowed (keys.of scope) moment.now :: log) moment.now after ∧
      (∀ key, Lasts moment.now (limits.get key) (after.get key)) ∧
      ∀ key, key ≠ keys.of scope → Spared moment.now (limits.get key) (after.get key) := by
  obtain ⟨allowed, rfl⟩ := consumeScope_eq_ok.mp consumed
  exact ⟨(tracks_consumeKey tracks le (keys.of scope)).2 allowed,
    fun key => lasts_consumeKey tracks.sound moment (keys.of scope) key,
    fun key differs => spared_consumeKey tracks.sound moment differs⟩

theorem consumeScopes_cases (moments : Scope → Moment) (keys : Keys) (limits : Limits) :
    (∃ raised, consumeScope (moments .account) keys .account limits = .error raised ∧
      consumeScopes moments keys limits = .error raised) ∨
    ∃ first, consumeScope (moments .account) keys .account limits = .ok first ∧
      ((∃ raised, consumeScope (moments .ip) keys .ip first = .error raised ∧
        consumeScopes moments keys limits = .error raised) ∨
      ∃ second, consumeScope (moments .ip) keys .ip first = .ok second ∧
        consumeScopes moments keys limits
          = consumeScope (moments .global) keys .global second) := by
  unfold consumeScopes
  cases account : consumeScope (moments .account) keys .account limits with
  | error raised => exact .inl ⟨raised, rfl, rfl⟩
  | ok first =>
    refine .inr ⟨first, rfl, ?_⟩
    cases ip : consumeScope (moments .ip) keys .ip first with
    | error raised => exact .inl ⟨raised, rfl, by simp only [bind, Except.bind, ip]⟩
    | ok second => exact .inr ⟨second, rfl, by simp only [bind, Except.bind, ip]⟩

/-- **A block that is committed.** -/
theorem consumeScopes_ok {log : List Event} {now : Int} {limits after : Limits}
    (tracks : Tracks log now limits) {moments : Scope → Moment} (ordered : Ordered now moments)
    {keys : Keys} (consumed : consumeScopes moments keys limits = .ok after) :
    Tracks (logged keys moments log) (moments .global).now after ∧
      ∀ key, Lasts (moments .global).now (limits.get key) (after.get key) := by
  rcases consumeScopes_cases moments keys limits with
    ⟨raised, -, failed⟩ | ⟨first, account, ⟨raised, -, failed⟩ | ⟨second, ip, same⟩⟩
  · cases consumed.symm.trans failed
  · cases consumed.symm.trans failed
  · obtain ⟨one, lasts, -⟩ := consumeScope_spec tracks ordered.1 account
    obtain ⟨two, lasts', -⟩ := consumeScope_spec one ordered.2.1 ip
    obtain ⟨three, lasts'', -⟩ := consumeScope_spec two ordered.2.2 (same.symm.trans consumed)
    exact ⟨three, fun key =>
      ((lasts key).trans ordered.2.1 (lasts' key)).trans ordered.2.2 (lasts'' key)⟩

theorem Spared.present {now : Int} {before after : Option Row} (spared : Spared now before after)
    {row : Row} (present : after = some row) : before = some row := by
  rcases spared with same | ⟨gone, -⟩
  · exact same ▸ present
  · exact absurd (gone.symm.trans present) (by simp)

theorem Keys.scope_of (keys : Keys) (scope : Scope) : (keys.of scope).scope = scope := by
  cases scope <;> rfl

theorem Keys.of_ne (keys : Keys) {scope scope' : Scope} (differs : scope ≠ scope') :
    keys.of scope ≠ keys.of scope' := fun same =>
  differs ((keys.scope_of scope).symm.trans
    ((congrArg Key.scope same).trans (keys.scope_of scope')))

/-- **A block that is rolled back**: when it began, the budget that was exceeded had a row whose
attempts had reached the limit. -/
theorem consumeScopes_error {log : List Event} {now : Int} {limits : Limits}
    (tracks : Tracks log now limits) {moments : Scope → Moment} (ordered : Ordered now moments)
    {keys : Keys} {scope : Scope} (raised : consumeScopes moments keys limits = .error scope) :
    ∃ row, limits.get (keys.of scope) = some row ∧ limitOf scope ≤ row.attempts := by
  have denied : ∀ {log now limits moment raised scope}, Tracks log now limits →
      consumeScope moment keys scope limits = .error raised → scope = raised ∧
        ∃ row, limits.get (keys.of scope) = some row ∧ limitOf scope ≤ row.attempts := by
    intro log now limits moment raised scope tracks failed
    obtain ⟨refused, same⟩ := consumeScope_eq_error.mp failed
    obtain ⟨row, present, reached⟩ := reached_of_denied tracks.sound refused
    exact ⟨same, row, present, keys.scope_of scope ▸ reached⟩
  rcases consumeScopes_cases moments keys limits with
    ⟨scope', failed, same⟩ | ⟨first, account, ⟨scope', failed, same⟩ | ⟨second, ip, same⟩⟩
  · cases raised.symm.trans same
    obtain ⟨rfl, found⟩ := denied tracks failed
    exact found
  · cases raised.symm.trans same
    obtain ⟨one, -, spared⟩ := consumeScope_spec tracks ordered.1 account
    obtain ⟨rfl, row, present, reached⟩ := denied one failed
    exact ⟨row, (spared _ (keys.of_ne (by decide))).present present, reached⟩
  · obtain ⟨one, -, spared⟩ := consumeScope_spec tracks ordered.1 account
    obtain ⟨two, -, spared'⟩ := consumeScope_spec one ordered.2.1 ip
    obtain ⟨rfl, row, present, reached⟩ := denied two (same.symm.trans raised)
    have present' := (spared' _ (keys.of_ne (by decide))).present present
    exact ⟨row, (spared _ (keys.of_ne (by decide))).present present', reached⟩

/-! ### Runs -/

def State.Consistent (state : State) : Prop := Tracks state.log state.now state.limits

theorem Ordered.le {now : Int} {moments : Scope → Moment} (ordered : Ordered now moments)
    (scope : Scope) : now ≤ (moments scope).now := by
  obtain ⟨first, second, third⟩ := ordered
  cases scope with
  | account => exact first
  | ip => exact first.trans second
  | global => exact (first.trans second).trans third

theorem Tracks.later {log : List Event} {now now' : Int} (le : now ≤ now') {limits : Limits}
    (tracks : Tracks log now limits) : Tracks log now' limits :=
  fun key => (tracks key).later le

theorem tracks_clear {log : List Event} {now : Int} {limits : Limits}
    (tracks : Tracks log now limits) (gone : Key) :
    Tracks (.cleared gone :: log) now (limits.delete gone) := by
  intro key
  rw [OrderedMap.get_delete]
  by_cases here : key = gone
  · rw [if_pos here]
    show (if gone = key then 0 else allowedSince key now log) = 0
    rw [if_pos here.symm]
  · rw [if_neg here]
    have kept : ∀ start,
        allowedSince key start (.cleared gone :: log) = allowedSince key start log :=
      fun start => if_neg (Ne.symm here)
    have tracked := tracks key
    cases present : limits.get key with
    | none =>
      rw [present] at tracked
      exact (kept now).trans tracked
    | some row =>
      rw [present] at tracked
      exact ⟨tracked.1, tracked.2.1, (kept _).trans tracked.2.2.1, (kept _).trans_le tracked.2.2.2⟩

/-- What every step does: time goes on, the table says what it did, and each window that is not
cleared lasts. -/
structure Steps (before : State) (action : Action) (after : State) : Prop where
  forward : before.now ≤ after.now
  consistent : after.Consistent
  lasts : ∀ key, ¬ action.Clears key →
    Lasts after.now (before.limits.get key) (after.limits.get key)

theorem Steps.of_same {before after : State} {action : Action} (consistent : before.Consistent)
    (forward : before.now ≤ after.now) (limits : after.limits = before.limits)
    (log : after.log = before.log) : Steps before action after where
  forward := forward
  consistent := by
    unfold State.Consistent
    rw [limits, log]
    exact Tracks.later forward consistent
  lasts := fun key _ => limits ▸ .refl after.now _

theorem startCall_limits (state : State) (call : Nat) (keys : Keys) (now : Int) :
    (startCall state call keys now).limits = state.limits ∧
      (startCall state call keys now).log = state.log ∧
      (startCall state call keys now).now = now := by
  unfold startCall
  dsimp only
  split <;> exact ⟨rfl, rfl, rfl⟩

theorem steps_consumeCall {state : State} (consistent : state.Consistent) {call : Nat} {keys : Keys}
    {moments : Scope → Moment} (ordered : Ordered state.now moments) :
    Steps state (.consume call moments) (consumeCall state call keys moments) := by
  unfold consumeCall
  cases consumed : consumeScopes moments keys state.limits with
  | ok after =>
    obtain ⟨tracks, lasts⟩ := consumeScopes_ok consistent ordered consumed
    exact ⟨ordered.le .global, tracks, fun key _ => lasts key⟩
  | error scope => exact .of_same consistent (ordered.le scope) rfl rfl

theorem steps_consumeAgain {state : State} (consistent : state.Consistent) {call : Nat}
    {keys : Keys} {scope : Scope} {moment : Moment} (le : state.now ≤ moment.now) :
    Steps state (.again call moment) (consumeAgain state call keys scope moment) where
  forward := le
  consistent := (tracks_consumeKey consistent le (keys.of scope)).1
  lasts := fun key _ => lasts_consumeKey (Tracks.sound consistent) moment (keys.of scope) key

/-- **Each step keeps what the table says.** -/
theorem steps_next {state after : State} (consistent : state.Consistent) {action : Action}
    (moved : next state action = some after) : Steps state action after := by
  cases action with
  | start call globalKey ipKey accountKey now =>
    simp only [next] at moved
    split at moved
    case isFalse => cases moved
    case isTrue free =>
      split at moved
      · cases moved
        exact .of_same consistent free.2 rfl rfl
      · cases moved
        rename_i keys _
        obtain ⟨limits, log, time⟩ := startCall_limits state call keys now
        exact .of_same consistent (free.2.trans_eq time.symm) limits log
  | consume call moments =>
    simp only [next] at moved
    split at moved
    · split at moved
      case isFalse => cases moved
      case isTrue ordered =>
        cases moved
        exact steps_consumeCall consistent ordered
    · cases moved
  | again call moment =>
    simp only [next] at moved
    split at moved
    · split at moved
      case isFalse => cases moved
      case isTrue le =>
        cases moved
        exact steps_consumeAgain consistent le
    · cases moved
  | crash call =>
    cases moved
    exact .of_same consistent (le_refl _) rfl rfl
  | clear keyHash now =>
    simp only [next] at moved
    split at moved
    case isFalse => cases moved
    case isTrue le =>
      split at moved
      · cases moved
        exact .of_same consistent le rfl rfl
      · cases moved
        rename_i hash valid
        refine ⟨le, tracks_clear (Tracks.later le consistent) ⟨.account, hash⟩,
          fun key spares => ?_⟩
        show Lasts now _ ((state.limits.delete ⟨.account, hash⟩).get key)
        rw [OrderedMap.get_delete, if_neg fun here => spares ⟨hash, valid, here⟩]
        exact .refl now _

theorem consistent_initial (now : Int) : (State.initial now).Consistent := by
  intro key
  show Tracked key [] now ((OrderedMap.empty : Limits).get key)
  rw [OrderedMap.get_empty]
  rfl

theorem consistent_of_reachable {begins : Int} {state : State}
    (reached : Reachable next (.initial begins) state) : state.Consistent :=
  Reachable.invariant State.Consistent (consistent_initial begins)
    (fun _ _ _ consistent moved => (steps_next consistent moved).consistent) reached

theorem reached_lasts {state : State} (consistent : state.Consistent) {key : Key} {row : Row}
    (present : state.limits.get key = some row) (reached : limitOf key.scope ≤ row.attempts)
    {later : State} (moves : ReachableBy next (fun _ action => ¬ action.Clears key) state later) :
    later.Consistent ∧ (later.now < row.windowStartedAt + window → ∃ found,
      later.limits.get key = some found ∧ found.windowStartedAt = row.windowStartedAt ∧
        limitOf key.scope ≤ found.attempts) := by
  refine ReachableBy.invariant (fun later => later.Consistent ∧
    (later.now < row.windowStartedAt + window → ∃ found, later.limits.get key = some found ∧
      found.windowStartedAt = row.windowStartedAt ∧ limitOf key.scope ≤ found.attempts))
    ⟨consistent, fun _ => ⟨row, present, rfl, reached⟩⟩ ?_ moves
  rintro before action after ⟨consistent, holds⟩ spares moved
  have steps := steps_next consistent moved
  refine ⟨steps.consistent, fun running => ?_⟩
  obtain ⟨found, present, same, reached⟩ := holds (steps.forward.trans_lt running)
  rcases steps.lasts key spares found present with ended | ⟨next_, present', same', more⟩
  · exact absurd running (not_lt.mpr (same ▸ ended))
  · exact ⟨next_, present', same'.trans same, reached.trans more⟩

/-! ### The promises -/

/-- What the rate limit promises, of a state and of the steps from it. -/
structure Promises (state : State) : Prop where
  /-- The attempts allowed to a key since its window began, or was cleared, are within its limit. -/
  bounded : ∀ key row, state.limits.get key = some row →
    allowedSince key row.windowStartedAt state.log ≤ limitOf key.scope
  lasting : ∀ action after, next state action = some after → ∀ key row,
    state.limits.get key = some row → action.Clears key ∨
      row.windowStartedAt + window ≤ after.now ∨ ∃ later, after.limits.get key = some later ∧
        later.windowStartedAt = row.windowStartedAt
  /-- An attempt that is denied at its preflight leaves every row, and has a time to wait. -/
  turnedAway : ∀ call globalKey ipKey accountKey now after,
    next state (.start call globalKey ipKey accountKey now) = some after →
      after.limits = state.limits ∧ (after.answers = state.answers ∨ ∃ keys retry, 0 < retry ∧
        after.answers = (keys, ⟨false, retry⟩) :: state.answers)
  rolledBack : ∀ call moments after keys scope, next state (.consume call moments) = some after →
    after.calls call = some (.exceeded keys scope) →
      after.limits = state.limits ∧ after.answers = state.answers
  spares : ∀ call moment keys scope after, state.calls call = some (.exceeded keys scope) →
    next state (.again call moment) = some after →
      (∃ retry, after.answers = (keys, ⟨false, retry⟩) :: state.answers) ∧
      ∀ key, key ≠ keys.of scope →
        Spared moment.now (state.limits.get key) (after.limits.get key)
  /-- It has a time to wait, if the window that it exceeded still runs and was not cleared. -/
  waits : ∀ call moments middle keys scope, next state (.consume call moments) = some middle →
    middle.calls call = some (.exceeded keys scope) →
      ∃ row, middle.limits.get (keys.of scope) = some row ∧
        ∀ later, ReachableBy next (fun _ action => ¬ action.Clears (keys.of scope)) middle later →
          later.calls call = some (.exceeded keys scope) → ∀ moment after,
            next later (.again call moment) = some after →
              moment.now < row.windowStartedAt + window →
                ∃ retry, 0 < retry ∧ after.answers = (keys, ⟨false, retry⟩) :: later.answers

theorem next_consume {state after : State} {call : Nat} {moments : Scope → Moment}
    (moved : next state (.consume call moments) = some after) : ∃ keys,
      Ordered state.now moments ∧ after = consumeCall state call keys moments := by
  simp only [next] at moved
  split at moved
  · rename_i keys _
    split at moved
    case isFalse => cases moved
    case isTrue ordered => exact ⟨keys, ordered, (Option.some_inj.mp moved).symm⟩
  · cases moved

theorem next_again {state after : State} {call : Nat} {moment : Moment} {keys : Keys}
    {scope : Scope} (phase : state.calls call = some (.exceeded keys scope))
    (moved : next state (.again call moment) = some after) :
    state.now ≤ moment.now ∧ after = consumeAgain state call keys scope moment := by
  simp only [next, phase] at moved
  split at moved
  case isFalse => cases moved
  case isTrue le => exact ⟨le, (Option.some_inj.mp moved).symm⟩

theorem consumeCall_exceeded {state : State} {call : Nat} {keys keys' : Keys} {scope : Scope}
    {moments : Scope → Moment}
    (phase : (consumeCall state call keys moments).calls call = some (.exceeded keys' scope)) :
    keys' = keys ∧ consumeScopes moments keys state.limits = .error scope ∧
      (consumeCall state call keys moments).limits = state.limits ∧
      (consumeCall state call keys moments).answers = state.answers := by
  unfold consumeCall at phase ⊢
  cases consumed : consumeScopes moments keys state.limits with
  | ok after =>
    rw [consumed] at phase
    have gone : Function.update state.calls call none call = some (.exceeded keys' scope) := phase
    rw [Function.update_self] at gone
    cases gone
  | error raised =>
    rw [consumed] at phase
    have now : Function.update state.calls call (some (.exceeded keys raised)) call
        = some (.exceeded keys' scope) := phase
    rw [Function.update_self] at now
    cases now
    exact ⟨rfl, rfl, rfl, rfl⟩

theorem turnedAway_next {state after : State} {call : Nat}
    {globalKey ipKey accountKey : Option (List UInt8)} {now : Int}
    (moved : next state (.start call globalKey ipKey accountKey now) = some after) :
    after.limits = state.limits ∧ (after.answers = state.answers ∨ ∃ keys retry, 0 < retry ∧
      after.answers = (keys, ⟨false, retry⟩) :: state.answers) := by
  simp only [next] at moved
  split at moved
  case isFalse => cases moved
  case isTrue =>
    split at moved
    · cases moved
      exact ⟨rfl, .inl rfl⟩
    · cases moved
      rename_i keys _
      unfold startCall
      dsimp only
      split
      case isTrue waits => exact ⟨rfl, .inr ⟨keys, _, waits, rfl⟩⟩
      case isFalse => exact ⟨rfl, .inl rfl⟩

/-- **The rate limit keeps its promises in every run.** -/
theorem promises {begins : Int} {state : State}
    (reached : Reachable next (.initial begins) state) : Promises state := by
  have consistent := consistent_of_reachable reached
  refine ⟨fun key row present => ?_, fun action after moved key row present => ?_,
    fun call _ _ _ now after moved => turnedAway_next moved,
    fun call moments after keys scope moved phase => ?_,
    fun call moment keys scope after phase moved => ?_,
    fun call moments middle keys scope moved phase => ?_⟩
  · have tracked := consistent key
    rw [present] at tracked
    exact (Nat.le_min.mp tracked.2.2.2).1
  · refine or_iff_not_imp_left.mpr fun spares => ?_
    rcases (steps_next consistent moved).lasts key spares row present with
      ended | ⟨later, present, same, -⟩
    · exact .inl ended
    · exact .inr ⟨later, present, same⟩
  · obtain ⟨keys', -, rfl⟩ := next_consume moved
    obtain ⟨-, -, limits, answers⟩ := consumeCall_exceeded phase
    exact ⟨limits, answers⟩
  · obtain ⟨-, rfl⟩ := next_again phase moved
    exact ⟨⟨_, rfl⟩, fun key differs =>
      spared_consumeKey (Tracks.sound consistent) moment differs⟩
  · obtain ⟨keys', ordered, rfl⟩ := next_consume moved
    obtain ⟨rfl, raised, limits, -⟩ := consumeCall_exceeded phase
    obtain ⟨row, present, full⟩ := consumeScopes_error consistent ordered raised
    have middle := (steps_next consistent moved).consistent
    refine ⟨row, limits ▸ present, fun later moves phase' moment after moved' running => ?_⟩
    obtain ⟨consistent', holds⟩ := reached_lasts middle (limits ▸ present)
      (by rw [Keys.scope_of]; exact full) moves
    obtain ⟨le, rfl⟩ := next_again phase' moved'
    obtain ⟨found, present', same, full'⟩ := holds (le.trans_lt running)
    exact ⟨_, retry_of_reached (Tracks.sound consistent') present' full' (same ▸ running), rfl⟩

def digest (octet : UInt8) : KeyHash := ⟨List.replicate 32 octet, List.length_replicate⟩

/-- An attempt of the account, from the address: its preflight and its block. -/
def attempt (account ip : UInt8) (time : Int) : List Action :=
  [.start 0 (some (digest 0).octets) (some (digest ip).octets) (some (digest account).octets) time,
    .consume 0 fun _ => ⟨time, fun _ => 0⟩]

/-- The limit is reached: five attempts are allowed to an account. -/
theorem promises_five : ∃ state row,
    run next (.initial 0) (List.replicate 5 (attempt 1 1 0)).flatten = some state ∧
      state.limits.get ⟨.account, digest 1⟩ = some row ∧
      allowedSince ⟨.account, digest 1⟩ row.windowStartedAt state.log = 5 ∧ Promises state := by
  have computed : ((run next (.initial 0) (List.replicate 5 (attempt 1 1 0)).flatten).bind
      fun state => (state.limits.get ⟨.account, digest 1⟩).map fun row =>
        allowedSince ⟨.account, digest 1⟩ row.windowStartedAt state.log) = some 5 := by
    decide
  obtain ⟨state, ends, found⟩ := Option.bind_eq_some_iff.mp computed
  obtain ⟨row, present, counts⟩ := Option.map_eq_some_iff.mp found
  exact ⟨state, row, ends, present, counts, promises (.of_run _ ends)⟩

/-- The clock of a call that takes no time. -/
def still : Clock := ⟨0, fun _ => ⟨0, fun _ => 0⟩, ⟨0, fun _ => 0⟩⟩

/-- **A denied attempt touches more than its own row, and need not have a time to wait.** An address
was last seen a day ago; an attempt from it is denied for its account, and its row is gone. And an
attempt that exceeds its account's window just before the end is counted again just after it: it is
denied, with nothing to wait for. -/
theorem denied_attempt_interferes :
    ((run next (.initial 0) (attempt 1 1 0 ++
        (List.replicate 5 (attempt 2 2 (day - seconds 60))).flatten ++
        attempt 2 1 (day + seconds 1))).bind fun before =>
      (next before (.again 0 ⟨day + seconds 1, fun _ => 0⟩)).map fun after =>
        (before.calls 0, before.limits.get ⟨.ip, digest 1⟩, after.limits.get ⟨.ip, digest 1⟩,
          after.answers.head?))
      = some (some (.exceeded ⟨digest 0, digest 1, digest 2⟩ .account), some ⟨0, 1, none, 0⟩, none,
          some (⟨digest 0, digest 1, digest 2⟩, ⟨false, 30⟩)) ∧
    ((run next (.initial 0) ((List.replicate 5 (attempt 1 1 0)).flatten ++
        attempt 1 1 (window - 1) ++ [.again 0 ⟨window, fun _ => 0⟩])).map fun after =>
          after.answers.head?)
      = some (some (⟨digest 0, digest 1, digest 1⟩, ⟨false, 0⟩)) := by
  constructor <;> decide

end Toard.Accounts.RateLimit
