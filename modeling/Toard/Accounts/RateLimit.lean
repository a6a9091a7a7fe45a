/-
**The budgets of credential attempts.**

`credential_rate_limits` holds a row for each account, client address and for the whole site: when
its window began, the attempts counted in it and until when it is blocked. An attempt consumes one
of each of its three budgets, in a block that is rolled back as soon as one of them is exceeded;
that one is then consumed once more, by itself, to leave its block. Times are microseconds, and a
day of the session has 24 hours.
-/

import Mathlib.Algebra.Order.Ring.Int
import Mathlib.Data.List.Sort
import Toard.Library.Keyed

namespace Toard.Accounts.RateLimit

open Library

/-! ### The table -/

def seconds (count : Int) : Int := count * 1000000

def window : Int := seconds (15 * 60)

def day : Int := seconds (24 * 60 * 60)

inductive Scope where
  | account
  | ip
  | global
deriving DecidableEq

structure KeyHash where
  octets : List UInt8
  length_octets : octets.length = 32
deriving DecidableEq

/-- `p_key_hash IS NULL OR octet_length(p_key_hash) <> 32` -/
def KeyHash.ofOctets? (value : Option (List UInt8)) : Option KeyHash :=
  value.bind fun octets => if valid : octets.length = 32 then some ⟨octets, valid⟩ else none

structure Key where
  scope : Scope
  keyHash : KeyHash
deriving DecidableEq

/-- A row of `credential_rate_limits`, its key apart. -/
structure Row where
  windowStartedAt : Int
  attempts : Nat
  blockedUntil : Option Int
  updatedAt : Int
deriving DecidableEq

abbrev Limits := OrderedMap Key Row

/-- `TABLE (is_allowed BOOLEAN, retry_after_seconds INTEGER)` -/
structure Answer where
  isAllowed : Bool
  retryAfterSeconds : Int
deriving DecidableEq

/-- What a consumption takes from its surroundings: the clock, and which of the rows last updated
at the same time come first. -/
structure Moment where
  now : Int
  rank : Key → Nat

/-! ### One budget -/

def limitOf : Scope → Nat
  | .account => 5
  | .ip => 60
  | .global => 300

/-- `GREATEST(1, CEIL(EXTRACT(EPOCH FROM (blocked_until - v_now)))::INTEGER)` -/
def retryAfter (blockedUntil now : Int) : Int :=
  max 1 ((blockedUntil - now + 999999) / 1000000)

/-- `v_blocked_until IS NOT NULL AND v_blocked_until > v_now`, and then the seconds to wait. -/
def blockedFor (now : Int) (row : Option Row) : Option Int :=
  match row.bind Row.blockedUntil with
  | none => none
  | some blockedUntil =>
    if now < blockedUntil then some (retryAfter blockedUntil now) else none

/-- The keys of the rows that a cleanup removes: a hundred, the oldest first. -/
def staleKeys (moment : Moment) (limits : Limits) : List Key :=
  (((limits.entries.filter fun entry => entry.2.updatedAt < moment.now - day).insertionSort
    fun left right => left.2.updatedAt < right.2.updatedAt ∨
      left.2.updatedAt = right.2.updatedAt ∧ moment.rank left.1 ≤ moment.rank right.1).take
    100).map Prod.fst

def cleanup (moment : Moment) (limits : Limits) : Limits :=
  limits.filterKeys fun key => key ∉ staleKeys moment limits

def opened (now : Int) : Row := ⟨now, 0, none, now⟩

/-- `INSERT … ON CONFLICT (scope, key_hash) DO NOTHING` -/
def insertNew (key : Key) (row : Row) (limits : Limits) : Limits :=
  if (limits.get key).isNone then limits.set key row else limits

/-- `LEAST(900, (30 * POWER(2, LEAST(GREATEST(v_attempts - v_limit - 1, 0), 5)))::INTEGER)` -/
def backoffSeconds (limit attempts : Nat) : Int :=
  min 900 (30 * 2 ^ min (attempts - limit - 1) 5)

def counted (now : Int) (limit : Nat) (row : Row) : Row × Int :=
  let (attempts, windowStartedAt) :=
    if row.windowStartedAt ≤ now - window then (1, now)
    else (row.attempts + 1, row.windowStartedAt)
  if limit < attempts then
    let backoff := backoffSeconds limit attempts
    (⟨windowStartedAt, attempts, some (now + seconds backoff), now⟩, backoff)
  else (⟨windowStartedAt, attempts, none, now⟩, 0)

/-- `consume_credential_rate_limit`, for a valid key. -/
def consumeKey (moment : Moment) (key : Key) (limits : Limits) : Answer × Limits :=
  match blockedFor moment.now (limits.get key) with
  | some retry => (⟨false, retry⟩, limits)
  | none =>
    let inserted := insertNew key (opened moment.now) (cleanup moment limits)
    match blockedFor moment.now (inserted.get key) with
    | some retry => (⟨false, retry⟩, inserted)
    | none =>
      match inserted.get key with
      -- without a row the variables are NULL, and nothing is updated
      | none => (⟨true, 0⟩, inserted)
      | some row =>
        let (row, backoff) := counted moment.now (limitOf key.scope) row
        (⟨backoff = 0, backoff⟩, inserted.set key row)

/-! ### The three budgets of an attempt -/

structure Keys where
  global : KeyHash
  ip : KeyHash
  account : KeyHash
deriving DecidableEq

def Keys.of (keys : Keys) : Scope → Key
  | .account => ⟨.account, keys.account⟩
  | .ip => ⟨.ip, keys.ip⟩
  | .global => ⟨.global, keys.global⟩

def Keys.ofOctets? (globalKey ipKey accountKey : Option (List UInt8)) : Option Keys := do
  return ⟨← KeyHash.ofOctets? globalKey, ← KeyHash.ofOctets? ipKey, ← KeyHash.ofOctets? accountKey⟩

/-- `COALESCE(MAX(…), 0)` of the three keys' blocks. -/
def preflight (now : Int) (keys : Keys) (limits : Limits) : Int :=
  ([Scope.global, .ip, .account].filterMap fun scope =>
    blockedFor now (limits.get (keys.of scope))).max?.getD 0

def consumeScope (moment : Moment) (keys : Keys) (scope : Scope) (limits : Limits) :
    Except Scope Limits :=
  let (answer, after) := consumeKey moment (keys.of scope) limits
  if answer.isAllowed then .ok after else .error scope

/-- The block: it is committed as a whole, or raises the scope that was exceeded. -/
def consumeScopes (moments : Scope → Moment) (keys : Keys) (limits : Limits) :
    Except Scope Limits := do
  let limits ← consumeScope (moments .account) keys .account limits
  let limits ← consumeScope (moments .ip) keys .ip limits
  consumeScope (moments .global) keys .global limits

/-- The clock of a call: at its preflight, in its block and when it consumes again. -/
structure Clock where
  preflight : Int
  scopes : Scope → Moment
  again : Moment

/-- `consume_credential_rate_limits`, where nothing comes between its statements. -/
def consumeCredentialRateLimits (clock : Clock) (globalKey ipKey accountKey : Option (List UInt8))
    (limits : Limits) : Except String (Answer × Limits) :=
  match Keys.ofOctets? globalKey ipKey accountKey with
  | none => .error "invalid credential rate-limit key"
  | some keys =>
    let retry := preflight clock.preflight keys limits
    if 0 < retry then .ok (⟨false, retry⟩, limits)
    else match consumeScopes clock.scopes keys limits with
      | .ok after => .ok (⟨true, 0⟩, after)
      | .error scope =>
        let (answer, after) := consumeKey clock.again (keys.of scope) limits
        .ok (⟨false, answer.retryAfterSeconds⟩, after)

/-- `clear_credential_account_rate_limit` -/
def clearCredentialAccountRateLimit (keyHash : Option (List UInt8)) (limits : Limits) :
    Except String Limits :=
  match KeyHash.ofOctets? keyHash with
  | none => .error "invalid credential rate-limit key"
  | some keyHash => .ok (limits.delete ⟨.account, keyHash⟩)

/-! ### What one consumption does -/

theorem retryAfter_pos (blockedUntil now : Int) : 0 < retryAfter blockedUntil now := by
  unfold retryAfter
  omega

theorem blockedFor_eq_some {now : Int} {row : Option Row} {retry : Int} :
    blockedFor now row = some retry ↔ ∃ found blockedUntil, row = some found ∧
      found.blockedUntil = some blockedUntil ∧ now < blockedUntil ∧
        retry = retryAfter blockedUntil now := by
  unfold blockedFor
  rcases row with _ | ⟨windowStartedAt, attempts, _ | blockedUntil, updatedAt⟩
  · simp
  · simp
  · by_cases later : now < blockedUntil <;> simp [later, eq_comm]

theorem blockedFor_opened (now : Int) : blockedFor now (some (opened now)) = none := rfl

theorem backoffSeconds_mem (limit attempts : Nat) :
    30 ≤ backoffSeconds limit attempts ∧ backoffSeconds limit attempts ≤ 900 := by
  have power : (0 : Int) < 2 ^ min (attempts - limit - 1) 5 := pow_pos (by decide) _
  unfold backoffSeconds
  omega

/-- **What counting an attempt does to a row**: a window that is over begins anew; else the attempt
is within the limit, or exceeds it. -/
theorem counted_cases (now : Int) {limit : Nat} (positive : 1 ≤ limit) (row : Row) :
    (row.windowStartedAt + window ≤ now ∧ counted now limit row = (⟨now, 1, none, now⟩, 0)) ∨
    (now < row.windowStartedAt + window ∧ row.attempts + 1 ≤ limit ∧
      counted now limit row = (⟨row.windowStartedAt, row.attempts + 1, none, now⟩, 0)) ∨
    (now < row.windowStartedAt + window ∧ limit ≤ row.attempts ∧
      ∃ backoff, 30 ≤ backoff ∧ backoff ≤ 900 ∧ counted now limit row =
        (⟨row.windowStartedAt, row.attempts + 1, some (now + seconds backoff), now⟩, backoff)) := by
  unfold counted
  by_cases ended : row.windowStartedAt ≤ now - window
  · exact .inl ⟨by omega, by rw [if_pos ended]; exact if_neg (show ¬ limit < 1 by omega)⟩
  · rw [if_neg ended]
    by_cases within : row.attempts + 1 ≤ limit
    · exact .inr (.inl ⟨by omega, within,
        if_neg (show ¬ limit < row.attempts + 1 by omega)⟩)
    · obtain ⟨least, most⟩ := backoffSeconds_mem limit (row.attempts + 1)
      exact .inr (.inr ⟨by omega, by omega, _, least, most,
        if_pos (show limit < row.attempts + 1 by omega)⟩)

theorem limitOf_pos (scope : Scope) : 1 ≤ limitOf scope := by
  cases scope <;> decide

theorem get_cleanup (moment : Moment) (limits : Limits) (key : Key) :
    (cleanup moment limits).get key = limits.get key ∨
      ∃ row, limits.get key = some row ∧ row.updatedAt < moment.now - day ∧
        (cleanup moment limits).get key = none := by
  unfold cleanup
  rw [OrderedMap.get_filterKeys]
  by_cases stale : key ∈ staleKeys moment limits
  · refine .inr ?_
    obtain ⟨entry, among, rfl⟩ := List.mem_map.mp stale
    have old := List.mem_filter.mp ((List.mem_insertionSort _).mp (List.mem_of_mem_take among))
    exact ⟨entry.2, OrderedMap.get_eq_some.mpr old.1, of_decide_eq_true old.2, by simp [stale]⟩
  · exact .inl (by simp [stale])

theorem get_insertNew (key : Key) (row : Row) (limits : Limits) (k : Key) :
    (insertNew key row limits).get k
      = if k = key then some ((limits.get key).getD row) else limits.get k := by
  unfold insertNew
  cases present : limits.get key with
  | none => exact OrderedMap.get_set limits key row k
  | some found =>
    show limits.get k = _
    split
    case isTrue here => rw [here, present, Option.getD_some]
    case isFalse => rfl

/-- The row that a consumption finds when it has cleaned up and inserted. -/
def foundRow (moment : Moment) (key : Key) (limits : Limits) : Row :=
  ((cleanup moment limits).get key).getD (opened moment.now)

/-- **What a consumption does.** A blocked key is answered, and nothing else happens; of any other
the row is counted up, after a cleanup. -/
theorem consumeKey_cases (moment : Moment) (key : Key) (limits : Limits) :
    (∃ retry, blockedFor moment.now (limits.get key) = some retry ∧
      consumeKey moment key limits = (⟨false, retry⟩, limits)) ∨
    (blockedFor moment.now (limits.get key) = none ∧
      ∃ row backoff after, counted moment.now (limitOf key.scope) (foundRow moment key limits)
          = (row, backoff) ∧
        consumeKey moment key limits = (⟨backoff = 0, backoff⟩, after) ∧ after.get key = some row ∧
        ∀ other, other ≠ key → after.get other = (cleanup moment limits).get other) := by
  unfold consumeKey
  cases blocked : blockedFor moment.now (limits.get key) with
  | some retry => exact .inl ⟨retry, rfl, rfl⟩
  | none =>
    have inserted : (insertNew key (opened moment.now) (cleanup moment limits)).get key
        = some (foundRow moment key limits) := by
      rw [get_insertNew, if_pos rfl]
      rfl
    have open_ : blockedFor moment.now (some (foundRow moment key limits)) = none := by
      unfold foundRow
      rcases get_cleanup moment limits key with same | ⟨row, present, -, gone⟩
      · rw [same]
        cases present : limits.get key with
        | none => exact blockedFor_opened moment.now
        | some row =>
          rw [Option.getD_some, ← present]
          exact blocked
      · rw [gone]
        exact blockedFor_opened moment.now
    generalize made : counted moment.now (limitOf key.scope) (foundRow moment key limits) = next
    refine .inr ⟨rfl, next.1, next.2,
      (insertNew key (opened moment.now) (cleanup moment limits)).set key next.1, rfl, ?_, ?_,
      fun other differs => ?_⟩
    · simp only [inserted, open_, made]
    · rw [OrderedMap.get_set, if_pos rfl]
    · rw [OrderedMap.get_set, if_neg differs, get_insertNew, if_neg differs]

/-! ### What the rows keep -/

/-- What holds of every row. While it is over its limit its attempts are half a minute apart, so
that few of them fit its window. -/
structure Row.Sound (limit : Nat) (row : Row) : Prop where
  started : row.windowStartedAt ≤ row.updatedAt
  running : row.updatedAt < row.windowStartedAt + window
  blocked : ∀ blockedUntil, row.blockedUntil = some blockedUntil →
    limit < row.attempts ∧ blockedUntil ≤ row.updatedAt + window
  exceeded : limit < row.attempts →
    ∃ blockedUntil, row.blockedUntil = some blockedUntil ∧ row.updatedAt + seconds 30 ≤ blockedUntil
  spaced : row.windowStartedAt + seconds (30 * (row.attempts - limit - 1 : Nat)) ≤ row.updatedAt

theorem Row.Sound.opened (limit : Nat) (now : Int) : (opened now).Sound limit where
  started := le_refl now
  running := by
    show now < now + window
    unfold window seconds
    omega
  blocked := fun _ none_ => absurd none_ (by simp [RateLimit.opened])
  exceeded := fun more => absurd more (Nat.not_lt_zero limit)
  spaced := by
    show now + seconds (30 * (0 - limit - 1 : Nat)) ≤ now
    unfold seconds
    omega

theorem blockedFor_eq_none {now : Int} {row : Row} : blockedFor now (some row) = none ↔
    ∀ blockedUntil, row.blockedUntil = some blockedUntil → blockedUntil ≤ now := by
  rw [Option.eq_none_iff_forall_ne_some]
  constructor
  · intro open_ blockedUntil blocked
    by_contra later
    exact open_ _ (blockedFor_eq_some.mpr ⟨row, _, rfl, blocked, not_le.mp later, rfl⟩)
  · rintro ends retry some_
    obtain ⟨_, blockedUntil, same, blocked, later, -⟩ := blockedFor_eq_some.mp some_
    cases same
    exact absurd later (not_lt.mpr (ends blockedUntil blocked))

theorem Row.Sound.counted {limit : Nat} (positive : 1 ≤ limit) {row : Row} (sound : row.Sound limit)
    {now : Int} (later : row.updatedAt ≤ now) (open_ : blockedFor now (some row) = none) :
    (counted now limit row).1.Sound limit := by
  have started := sound.started
  have spaced := sound.spaced
  rcases counted_cases now positive row with ⟨-, same⟩ | ⟨running, within, same⟩ |
    ⟨running, reached, backoff, least, most, same⟩
  · rw [same]
    refine ⟨le_refl now, ?_, by rintro _ ⟨⟩, fun more => absurd more (Nat.not_lt.mpr positive), ?_⟩
    · show now < now + window
      unfold window seconds
      omega
    · show now + seconds (30 * (1 - limit - 1 : Nat)) ≤ now
      unfold seconds
      omega
  · rw [same]
    refine ⟨started.trans later, running, by rintro _ ⟨⟩,
      fun more => absurd more (Nat.not_lt.mpr within), ?_⟩
    show row.windowStartedAt + seconds (30 * (row.attempts + 1 - limit - 1 : Nat)) ≤ now
    unfold seconds
    omega
  · rw [same]
    refine ⟨started.trans later, running, ?_, fun _ => ⟨_, rfl, ?_⟩, ?_⟩
    · rintro _ ⟨⟩
      refine ⟨Nat.lt_succ_of_le reached, ?_⟩
      show now + seconds backoff ≤ now + window
      unfold window seconds
      omega
    · show now + seconds 30 ≤ now + seconds backoff
      unfold seconds
      omega
    · show row.windowStartedAt + seconds (30 * (row.attempts + 1 - limit - 1 : Nat)) ≤ now
      by_cases more : limit < row.attempts
      · obtain ⟨blockedUntil, blocked, apart⟩ := sound.exceeded more
        have ended := blockedFor_eq_none.mp open_ blockedUntil blocked
        unfold seconds at *
        omega
      · unfold seconds
        omega

theorem Row.Sound.over {limit : Nat} {row : Row} (sound : row.Sound limit) {now : Int}
    (stale : row.updatedAt < now - day) :
    row.windowStartedAt + window ≤ now ∧ blockedFor now (some row) = none := by
  have started := sound.started
  constructor
  · unfold window day seconds at *
    omega
  · refine blockedFor_eq_none.mpr fun blockedUntil blocked => ?_
    have within := (sound.blocked blockedUntil blocked).2
    unfold window day seconds at *
    omega

/-! ### What happens to a row -/

/-- The window of a row goes on, with no attempt forgotten, or is over by then. -/
def Lasts (time : Int) (before after : Option Row) : Prop :=
  ∀ row, before = some row → row.windowStartedAt + window ≤ time ∨
    ∃ later, after = some later ∧ later.windowStartedAt = row.windowStartedAt ∧
      row.attempts ≤ later.attempts

theorem Lasts.refl (time : Int) (row : Option Row) : Lasts time row row :=
  fun found same => .inr ⟨found, same, rfl, le_refl _⟩

theorem Lasts.trans {time time' : Int} (le : time ≤ time') {first second third : Option Row}
    (before : Lasts time first second) (after : Lasts time' second third) :
    Lasts time' first third := by
  intro row present
  rcases before row present with over_ | ⟨middle, present, same, more⟩
  · exact .inl (over_.trans le)
  · rcases after middle present with over_ | ⟨last, present, same', more'⟩
    · exact .inl (same ▸ over_)
    · exact .inr ⟨last, present, same'.trans same, more.trans more'⟩

/-- A row is as it was; or it was last updated a day ago, with its window and its block over, and is
gone. -/
def Spared (now : Int) (before after : Option Row) : Prop :=
  after = before ∨ after = none ∧ ∃ row, before = some row ∧ row.updatedAt < now - day ∧
    row.windowStartedAt + window ≤ now ∧ blockedFor now (some row) = none

theorem Spared.lasts {now : Int} {before after : Option Row} (spared : Spared now before after) :
    Lasts now before after := by
  rcases spared with same | ⟨-, row, rfl, -, ended, -⟩
  · rw [same]
    exact .refl now before
  · rintro _ ⟨⟩
    exact .inl ended

def Sound (limits : Limits) : Prop :=
  ∀ key row, limits.get key = some row → row.Sound (limitOf key.scope)

theorem spared_cleanup {limits : Limits} (sound : Sound limits) (moment : Moment) (key : Key) :
    Spared moment.now (limits.get key) ((cleanup moment limits).get key) := by
  rcases get_cleanup moment limits key with same | ⟨row, present, stale, gone⟩
  · exact .inl same
  · exact .inr ⟨gone, row, present, stale, (sound key row present).over stale⟩

/-- **A consumption spares the other keys.** -/
theorem spared_consumeKey {limits : Limits} (sound : Sound limits) (moment : Moment)
    {key other : Key} (differs : other ≠ key) :
    Spared moment.now (limits.get other) ((consumeKey moment key limits).2.get other) := by
  rcases consumeKey_cases moment key limits with ⟨_, -, same⟩ | ⟨-, _, _, after, -, same, -, others⟩
  · rw [same]
    exact .inl rfl
  · rw [same]
    show Spared _ _ (after.get other)
    rw [others other differs]
    exact spared_cleanup sound moment other

theorem foundRow_cases {limits : Limits} (sound : Sound limits) (moment : Moment) (key : Key) :
    (limits.get key = some (foundRow moment key limits)) ∨
      foundRow moment key limits = opened moment.now ∧
        ∀ row, limits.get key = some row → row.windowStartedAt + window ≤ moment.now := by
  unfold foundRow
  rcases get_cleanup moment limits key with same | ⟨row, present, stale, gone⟩
  · rw [same]
    cases present : limits.get key with
    | none => exact .inr ⟨rfl, by rintro _ ⟨⟩⟩
    | some row => exact .inl rfl
  · rw [gone, present]
    refine .inr ⟨rfl, ?_⟩
    rintro _ ⟨⟩
    exact ((sound key row present).over stale).1

/-- **A consumption keeps its own key's window** until it is over. -/
theorem lasts_consumeKey {limits : Limits} (sound : Sound limits) (moment : Moment)
    (key other : Key) :
    Lasts moment.now (limits.get other) ((consumeKey moment key limits).2.get other) := by
  by_cases own : other = key
  · subst own
    rcases consumeKey_cases moment other limits with
      ⟨_, -, same⟩ | ⟨-, next, backoff, after, counts, same, present, -⟩
    · rw [same]
      exact .refl _ _
    · rw [same]
      show Lasts _ _ (after.get other)
      rw [present]
      intro row found
      rcases foundRow_cases sound moment other with own | ⟨-, ended⟩
      · obtain rfl : row = foundRow moment other limits := Option.some_inj.mp (found.symm.trans own)
        rcases counted_cases moment.now (limitOf_pos other.scope)
            (foundRow moment other limits) with
          ⟨ended, -⟩ | ⟨-, -, made⟩ | ⟨-, -, _, -, -, made⟩
        · exact .inl ended
        · rw [made] at counts
          cases counts
          exact .inr ⟨_, rfl, rfl, Nat.le_succ _⟩
        · rw [made] at counts
          cases counts
          exact .inr ⟨_, rfl, rfl, Nat.le_succ _⟩
      · exact .inl (ended row found)
  · exact (spared_consumeKey sound moment own).lasts

/-- **A denied consumption** finds a row whose attempts have reached the limit. -/
theorem reached_of_denied {limits : Limits} (sound : Sound limits) {moment : Moment} {key : Key}
    (denied : (consumeKey moment key limits).1.isAllowed = false) :
    ∃ row, limits.get key = some row ∧ limitOf key.scope ≤ row.attempts := by
  rcases consumeKey_cases moment key limits with
    ⟨retry, blocked, -⟩ | ⟨-, next, backoff, after, counts, same, -⟩
  · obtain ⟨row, blockedUntil, present, blocked, -⟩ := blockedFor_eq_some.mp blocked
    exact ⟨row, present, ((sound key row present).blocked blockedUntil blocked).1.le⟩
  · rw [same] at denied
    have waits : backoff ≠ 0 := of_decide_eq_false denied
    rcases counted_cases moment.now (limitOf_pos key.scope) (foundRow moment key limits) with
      ⟨-, made⟩ | ⟨-, -, made⟩ | ⟨-, reached, -⟩
    · exact absurd (congrArg Prod.snd (counts.symm.trans made)) waits
    · exact absurd (congrArg Prod.snd (counts.symm.trans made)) waits
    · rcases foundRow_cases sound moment key with present | ⟨made, -⟩
      · exact ⟨_, present, reached⟩
      · rw [made] at reached
        exact absurd (limitOf_pos key.scope) (Nat.not_le.mpr (Nat.lt_succ_of_le reached))

/-- **Consuming a key whose attempts have reached the limit**, while its window runs, is denied with
a time to wait. -/
theorem retry_of_reached {limits : Limits} (sound : Sound limits) {moment : Moment} {key : Key}
    {row : Row} (present : limits.get key = some row) (reached : limitOf key.scope ≤ row.attempts)
    (running : moment.now < row.windowStartedAt + window) :
    0 < (consumeKey moment key limits).1.retryAfterSeconds := by
  rcases consumeKey_cases moment key limits with
    ⟨retry, blocked, same⟩ | ⟨-, next, backoff, after, counts, same, -⟩
  · rw [same]
    obtain ⟨_, blockedUntil, -, -, -, rfl⟩ := blockedFor_eq_some.mp blocked
    exact retryAfter_pos blockedUntil moment.now
  · rw [same]
    show 0 < backoff
    rcases foundRow_cases sound moment key with own | ⟨-, ended⟩
    · obtain rfl : row = foundRow moment key limits := Option.some_inj.mp (present.symm.trans own)
      rcases counted_cases moment.now (limitOf_pos key.scope) (foundRow moment key limits) with
        ⟨ended, -⟩ | ⟨-, within, -⟩ | ⟨-, -, wait, least, -, made⟩
      · exact absurd running (not_lt.mpr ended)
      · exact absurd reached (Nat.not_le.mpr within)
      · have same := congrArg Prod.snd (counts.symm.trans made)
        show 0 < backoff
        rw [show backoff = wait from same]
        omega
    · exact absurd running (not_lt.mpr (ended row present))

end Toard.Accounts.RateLimit
