/-
**Local dates and hours (`timezone.ts`).**

A time zone is known by the offset of its wall clock from UTC. The offset may change any number of
times and in either direction; it is a whole number of quarters of an hour, and constant on each
quarter of an hour of UTC. Local dates are numbered like days of UTC, which is the order of their
`YYYY-MM-DD` keys.
-/

import Toard.Library.Bisection
import Toard.Storage.Rollup

namespace Toard.Timezone

open Toard.Library (bisect bisect_spec)
open Toard.Storage (fifteenMinutesMs)

/-! ### Wall clocks -/

def hourMs : Int := 60 * 60 * 1000

def dayMs : Int := 24 * hourMs

/-- The offsets of a time zone from UTC: of each quarter of an hour, in quarters of an hour. -/
structure Zone where
  quarters : Int → Int

def Zone.offset (zone : Zone) (instant : Int) : Int :=
  zone.quarters (instant / fifteenMinutesMs) * fifteenMinutesMs

def Zone.wallClock (zone : Zone) (instant : Int) : Int := instant + zone.offset instant

def localDateKey (zone : Zone) (instant : Int) : Int := zone.wallClock instant / dayMs

/-- The start of an instant's local hour: `date_trunc('hour', instant, timezone)` in Postgres, and
`toStartOfInterval(instant, INTERVAL 1 HOUR, timezone)` in ClickHouse. -/
def startOfHour (zone : Zone) (instant : Int) : Int :=
  instant - zone.wallClock instant % hourMs

def searchWindowMs : Int := 48 * 60 * 60 * 1000

/-- The first instant of a local date; none where it throws, as the date is skipped. Four days of
milliseconds are halved less than 29 times. -/
def firstInstantOfLocalDate (zone : Zone) (date : Int) : Option Int :=
  let midnightUtc := date * dayMs
  let low := bisect (fun instant => localDateKey zone instant < date) 29
    (midnightUtc - searchWindowMs) (midnightUtc + searchWindowMs)
  if localDateKey zone low = date then some low else none

def nextTimezoneDayStart (zone : Zone) (bucket : Int) : Option Int :=
  firstInstantOfLocalDate zone (localDateKey zone bucket + 1)

/-! ### Quarters of an hour -/

theorem dayMs_eq : dayMs = fifteenMinutesMs * 96 := rfl

theorem hourMs_eq : hourMs = fifteenMinutesMs * 4 := rfl

theorem fifteenMinutesMs_pos : 0 < fifteenMinutesMs := by decide

theorem localDateKey_eq (zone : Zone) (instant : Int) : localDateKey zone instant
    = (instant / fifteenMinutesMs + zone.quarters (instant / fifteenMinutesMs)) / 96 := by
  rw [localDateKey, Zone.wallClock, Zone.offset, dayMs_eq,
    ← Int.ediv_ediv_of_nonneg fifteenMinutesMs_pos.le,
    Int.add_mul_ediv_right _ _ fifteenMinutesMs_pos.ne']

theorem localDateKey_pred (zone : Zone) {instant : Int} (inside : ¬ fifteenMinutesMs ∣ instant) :
    localDateKey zone (instant - 1) = localDateKey zone instant := by
  have same : (instant - 1) / fifteenMinutesMs = instant / fifteenMinutesMs := by
    simp only [fifteenMinutesMs] at inside ⊢
    omega
  rw [localDateKey_eq, localDateKey_eq, same]

/-- **The first instant of a date is one of the date, and starts a quarter.** -/
theorem firstInstantOfLocalDate_spec {zone : Zone} {date instant : Int}
    (found : firstInstantOfLocalDate zone date = some instant) :
    localDateKey zone instant = date ∧ fifteenMinutesMs ∣ instant := by
  rw [firstInstantOfLocalDate] at found
  split at found
  case isFalse => cases found
  case isTrue same =>
    cases found
    refine ⟨same, ?_⟩
    obtain ⟨lower, -, -, starts⟩ := @bisect_spec
      (fun instant => decide (localDateKey zone instant < date)) 29
      (date * dayMs - searchWindowMs) (date * dayMs + searchWindowMs)
      (by simp only [searchWindowMs]; omega) (by simp only [searchWindowMs]; omega)
    by_contra inside
    rcases eq_or_lt_of_le lower with first | later
    · refine inside (first ▸ ?_)
      simp only [fifteenMinutesMs, dayMs, hourMs, searchWindowMs]
      omega
    · have earlier := of_decide_eq_true (starts later)
      rw [localDateKey_pred zone inside, same] at earlier
      exact lt_irrefl _ earlier

/-- **An hour that starts on a full local hour is the local hour of an instant in it exactly if the
offset at that instant still puts its start on a full hour.** -/
theorem startOfHour_eq_iff {zone : Zone} {bucket instant : Int} (lower : bucket ≤ instant)
    (upper : instant < bucket + hourMs) :
    startOfHour zone instant = bucket ↔ hourMs ∣ bucket + zone.offset instant := by
  simp only [startOfHour, Zone.wallClock, hourMs] at *
  omega

end Toard.Timezone
