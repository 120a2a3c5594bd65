import Vsms.Schema.Types
import Mathlib.Order.Basic

/-! # The range of `chrono`

`DateTime<Utc>` reaches from the year -262143 to the year 262142, and `Duration` holds a 64-bit
number of milliseconds. The operators and constructors panic outside these ranges: here they give
`none`. -/

namespace Vsms.Core.Chrono

open Vsms.Schema.Types

/-- `DateTime::<Utc>::MIN_UTC` -/
def minUtc : Time := seconds (-8334601228800)

/-- `DateTime::<Utc>::MAX_UTC`, to the microsecond. -/
def maxUtc : Time := seconds 8210266876799 + 999999

/-- A time that `DateTime<Utc>` can hold. -/
def Representable (t : Time) : Prop := minUtc ≤ t ∧ t ≤ maxUtc

instance (t : Time) : Decidable (Representable t) := by unfold Representable; infer_instance

/-- `DateTime + Duration` -/
def addDuration (t d : Time) : Option Time := if Representable (t + d) then some (t + d) else none

/-- `DateTime - Duration` -/
def subDuration (t d : Time) : Option Time := if Representable (t - d) then some (t - d) else none

/-- `i64::MAX` -/
def maxI64 : ℤ := 9223372036854775807

/-- `Duration::MAX`: so many milliseconds. -/
def maxDuration : Time := maxI64 * 1000

/-- `Duration::seconds`, of an `i64`. -/
def durationSeconds (n : ℤ) : Option Time :=
  if -maxDuration ≤ seconds n ∧ seconds n ≤ maxDuration then some (seconds n) else none

/-- `Duration::minutes`, of an `i64`. -/
def durationMinutes (n : ℤ) : Option Time :=
  if -maxDuration ≤ minutes n ∧ minutes n ≤ maxDuration then some (minutes n) else none

/-- The day of the month, of a day counted from the epoch in the proleptic Gregorian calendar: years
begin in March, and are counted in cycles of four hundred. -/
def dayOfMonth (day : ℤ) : ℤ :=
  let ofCycle := (day + 719468) % 146097
  let year := (ofCycle - ofCycle / 1460 + ofCycle / 36524 - ofCycle / 146096) / 365
  let ofYear := ofCycle - (365 * year + year / 4 - year / 100)
  let month := (5 * ofYear + 2) / 153
  ofYear - (153 * month + 2) / 5 + 1

/-- Midnight on the first of the month. -/
def monthStart (now : Time) : Time := days (now / days 1 - (dayOfMonth (now / days 1) - 1))

/-- `Timelike::hour` -/
def hour (t : Time) : ℤ := t / hours 1 % 24

theorem addDuration_eq_some {t d u : Time} (h : addDuration t d = some u) : u = t + d := by
  unfold addDuration at h
  split_ifs at h
  exact (Option.some.inj h).symm

end Vsms.Core.Chrono
