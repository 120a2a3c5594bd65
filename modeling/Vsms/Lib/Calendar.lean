import Mathlib.Algebra.BigOperators.Group.List.Basic
import Mathlib.Algebra.Order.BigOperators.Group.List
import Mathlib.Data.Int.Notation
import Mathlib.Tactic.IntervalCases
import Mathlib.Tactic.SplitIfs

/-! # The calendar

Dates of the proleptic Gregorian calendar, and their numbers: the days from the first of January
1970. A date is found from its number by the year, from an estimate that is at most one off, and
then by counting down the months. The two ways are inverse (`dayNumber_ofDayNumber`,
`ofDayNumber_dayNumber`), and the number grows with the year, the month and the day, in this order
(`dayNumber_lt_iff`). -/

namespace Vsms.Lib.Calendar

/-- A leap year. -/
def Leap (year : ℤ) : Prop := year % 4 = 0 ∧ (year % 100 ≠ 0 ∨ year % 400 = 0)

instance (year : ℤ) : Decidable (Leap year) := inferInstanceAs (Decidable (_ ∧ _))

def monthLengths (year : ℤ) : List ℕ :=
  [31, if Leap year then 29 else 28, 31, 30, 31, 30, 31, 31, 30, 31, 30, 31]

def monthLength (year : ℤ) (month : ℕ) : ℕ := (monthLengths year).getD (month - 1) 0

/-- **A date**: months and days are counted from one. -/
structure Date where
  year : ℤ
  month : ℕ
  day : ℕ
  month_pos : 1 ≤ month
  month_le : month ≤ 12
  day_pos : 1 ≤ day
  day_le : day ≤ monthLength year month
  deriving DecidableEq

theorem monthLength_le (year : ℤ) (month : ℕ) : monthLength year month ≤ 31 := by
  unfold monthLength monthLengths
  rw [List.getD_eq_getElem?_getD]
  cases hlength : [31, if Leap year then 29 else 28, 31, 30, 31, 30, 31, 31, 30, 31, 30,
    31][month - 1]? with
  | none => exact Nat.zero_le _
  | some length =>
    have hmem := List.mem_of_getElem? hlength
    simp only [List.mem_cons, List.not_mem_nil, or_false] at hmem
    rw [Option.getD_some]
    split_ifs at hmem <;> omega

/-- The number of the first of January. -/
def yearStart (year : ℤ) : ℤ :=
  365 * year + (year - 1) / 4 - (year - 1) / 100 + (year - 1) / 400 - 719527

/-- The days of a year before a month. -/
def monthStart (year : ℤ) (month : ℕ) : ℕ := ((monthLengths year).take (month - 1)).sum

def Date.dayNumber (d : Date) : ℤ := yearStart d.year + monthStart d.year d.month + d.day - 1

/-! ### Years -/

/-- The days of a year. -/
def yearLength (year : ℤ) : ℕ := (monthLengths year).sum

theorem yearLength_eq (year : ℤ) : yearLength year = if Leap year then 366 else 365 := by
  unfold yearLength monthLengths
  split_ifs <;> rfl

theorem yearStart_succ (year : ℤ) : yearStart (year + 1) = yearStart year + yearLength year := by
  unfold yearStart
  rw [yearLength_eq]
  by_cases hleap : Leap year
  · rw [if_pos hleap]
    unfold Leap at hleap
    push_cast
    omega
  · rw [if_neg hleap]
    unfold Leap at hleap
    push_cast
    omega

theorem le_yearLength (year : ℤ) : 1 ≤ yearLength year := by
  rw [yearLength_eq]
  split_ifs <;> decide

theorem yearStart_add_le (year : ℤ) (n : ℕ) : yearStart year + n ≤ yearStart (year + n) := by
  induction n with
  | zero => simp
  | succ n ih =>
    have hstep := yearStart_succ (year + n)
    have hlength := le_yearLength (year + n)
    rw [show year + ((n + 1 : ℕ) : ℤ) = year + n + 1 by omega, hstep]
    push_cast
    omega

theorem yearStart_mono {year year' : ℤ} (h : year ≤ year') : yearStart year ≤ yearStart year' := by
  have hadd := yearStart_add_le year (year' - year).toNat
  rw [Int.toNat_of_nonneg (by omega), show year + (year' - year) = year' by omega] at hadd
  omega

/-! ### Months -/

theorem monthStart_succ (year : ℤ) {month : ℕ} (hpos : 1 ≤ month) (hle : month ≤ 12) :
    monthStart year (month + 1) = monthStart year month + monthLength year month := by
  obtain ⟨n, rfl⟩ := Nat.exists_eq_add_of_le' hpos
  have hlt : n < (monthLengths year).length := by
    rw [monthLengths]
    simp only [List.length_cons, List.length_nil]
    omega
  unfold monthStart monthLength
  rw [Nat.add_sub_cancel, Nat.add_sub_cancel, List.sum_take_succ _ n hlt,
    List.getD_eq_getElem?_getD, List.getElem?_eq_getElem hlt, Option.getD_some]

theorem monthStart_mono (year : ℤ) {month month' : ℕ} (h : month ≤ month') :
    monthStart year month ≤ monthStart year month' := by
  unfold monthStart
  exact (List.take_sublist_take_left (by omega)).sum_le_sum fun _ _ => Nat.zero_le _

theorem monthStart_le (year : ℤ) (month : ℕ) : monthStart year month ≤ yearLength year :=
  (List.take_sublist _ _).sum_le_sum fun _ _ => Nat.zero_le _

/-- A day is before the next month. -/
theorem Date.lt_monthStart (d : Date) :
    monthStart d.year d.month + d.day ≤ monthStart d.year (d.month + 1) := by
  rw [monthStart_succ d.year d.month_pos d.month_le]
  exact Nat.add_le_add_left d.day_le _

/-! ### The order of the dates -/

theorem Date.yearStart_le (d : Date) : yearStart d.year ≤ d.dayNumber := by
  have := d.day_pos
  unfold Date.dayNumber
  omega

theorem Date.lt_yearStart (d : Date) : d.dayNumber < yearStart (d.year + 1) := by
  have hmonth := d.lt_monthStart
  have hyear := monthStart_le d.year (d.month + 1)
  rw [yearStart_succ]
  unfold Date.dayNumber
  omega

/-- **The year of a day**, from its number. -/
theorem Date.le_year_iff (d : Date) {year : ℤ} : year ≤ d.year ↔ yearStart year ≤ d.dayNumber := by
  constructor
  · exact fun h => (yearStart_mono h).trans d.yearStart_le
  · intro h
    by_contra hlt
    have hstart := yearStart_mono (Int.add_one_le_of_lt (not_le.mp hlt))
    exact absurd d.lt_yearStart (not_lt.mpr (hstart.trans h))

theorem dayNumber_lt_of_year {d e : Date} (h : d.year < e.year) : d.dayNumber < e.dayNumber :=
  d.lt_yearStart.trans_le ((yearStart_mono (by omega)).trans e.yearStart_le)

theorem dayNumber_lt_of_month {d e : Date} (hyear : d.year = e.year) (h : d.month < e.month) :
    d.dayNumber < e.dayNumber := by
  have hmonth := d.lt_monthStart
  have hnext : monthStart d.year (d.month + 1) ≤ monthStart d.year e.month :=
    monthStart_mono d.year h
  have hday := e.day_pos
  unfold Date.dayNumber
  rw [← hyear]
  omega

theorem dayNumber_lt_of_day {d e : Date} (hyear : d.year = e.year) (hmonth : d.month = e.month)
    (h : d.day < e.day) : d.dayNumber < e.dayNumber := by
  unfold Date.dayNumber
  rw [← hyear, ← hmonth]
  omega

/-- **The number grows with the year, the month and the day**, in this order. -/
theorem dayNumber_lt_iff {d e : Date} : d.dayNumber < e.dayNumber ↔
    d.year < e.year ∨
    d.year = e.year ∧ (d.month < e.month ∨ d.month = e.month ∧ d.day < e.day) := by
  constructor
  · intro h
    rcases lt_trichotomy d.year e.year with hyear | hyear | hyear
    · exact .inl hyear
    · refine .inr ⟨hyear, ?_⟩
      rcases lt_trichotomy d.month e.month with hmonth | hmonth | hmonth
      · exact .inl hmonth
      · refine .inr ⟨hmonth, ?_⟩
        unfold Date.dayNumber at h
        rw [hyear, hmonth] at h
        omega
      · exact absurd (dayNumber_lt_of_month hyear.symm hmonth) (not_lt.mpr h.le)
    · exact absurd (dayNumber_lt_of_year hyear) (not_lt.mpr h.le)
  · rintro (hyear | ⟨hyear, hmonth | ⟨hmonth, hday⟩⟩)
    · exact dayNumber_lt_of_year hyear
    · exact dayNumber_lt_of_month hyear hmonth
    · exact dayNumber_lt_of_day hyear hmonth hday

theorem dayNumber_inj {d e : Date} : d.dayNumber = e.dayNumber ↔ d = e := by
  refine ⟨fun h => ?_, fun h => h ▸ rfl⟩
  have hd := mt dayNumber_lt_iff.mpr (not_lt.mpr h.ge)
  have he := mt dayNumber_lt_iff.mpr (not_lt.mpr h.le)
  obtain ⟨year, month, day, _⟩ := d
  obtain ⟨year', month', day', _⟩ := e
  simp only [not_or, not_and, not_lt] at hd he
  obtain rfl : year = year' := by omega
  obtain rfl : month = month' := by
    have := (hd.2 rfl).1
    have := (he.2 rfl).1
    omega
  obtain rfl : day = day' := by
    have := (hd.2 rfl).2 rfl
    have := (he.2 rfl).2 rfl
    omega
  rfl

/-! ### The date of a number -/

/-- The year of a day, from an estimate: four hundred years have 146097 days. -/
def yearOf (n : ℤ) : ℤ :=
  let year := 400 * (n + 719162) / 146097 + 1
  if n < yearStart year then year - 1 else if yearStart (year + 1) ≤ n then year + 1 else year

theorem yearOf_spec (n : ℤ) : yearStart (yearOf n) ≤ n ∧ n < yearStart (yearOf n + 1) := by
  unfold yearOf
  dsimp only
  unfold yearStart
  split_ifs <;> omega

/-- The month that a day of a year is in, and the day of the month. -/
def splitDays : List ℕ → ℕ → ℕ × ℕ
  | [], d => (1, d + 1)
  | l :: ls, d => if d < l then (1, d + 1)
      else ((splitDays ls (d - l)).1 + 1, (splitDays ls (d - l)).2)

theorem splitDays_spec {ls : List ℕ} {d : ℕ} (h : d < ls.sum) :
    1 ≤ (splitDays ls d).1 ∧ (splitDays ls d).1 ≤ ls.length ∧ 1 ≤ (splitDays ls d).2 ∧
      (splitDays ls d).2 ≤ ls.getD ((splitDays ls d).1 - 1) 0 ∧
      (ls.take ((splitDays ls d).1 - 1)).sum + (splitDays ls d).2 = d + 1 := by
  induction ls generalizing d with
  | nil => simp at h
  | cons l ls ih =>
    rw [splitDays]
    split_ifs with hd
    · simpa using Nat.succ_le_of_lt hd
    · rw [List.sum_cons] at h
      obtain ⟨hpos, hle, hday, hlen, hsum⟩ := ih (d := d - l) (by omega)
      obtain ⟨m, hm⟩ := Nat.exists_eq_add_of_le' hpos
      rw [hm] at hle hlen hsum ⊢
      simp only [Nat.add_sub_cancel, List.length_cons, List.getD_cons_succ, List.take_succ_cons,
        List.sum_cons] at hle hlen hsum ⊢
      omega

/-- **The date of a day.** -/
def ofDayNumber (n : ℤ) : Date :=
  have hyear := yearOf_spec n
  have hsucc := yearStart_succ (yearOf n)
  have hlt : (n - yearStart (yearOf n)).toNat < (monthLengths (yearOf n)).sum := by
    unfold yearLength at hsucc
    omega
  have hspec := splitDays_spec hlt
  { year := yearOf n
    month := (splitDays (monthLengths (yearOf n)) (n - yearStart (yearOf n)).toNat).1
    day := (splitDays (monthLengths (yearOf n)) (n - yearStart (yearOf n)).toNat).2
    month_pos := hspec.1
    month_le := hspec.2.1
    day_pos := hspec.2.2.1
    day_le := hspec.2.2.2.1 }

@[simp] theorem dayNumber_ofDayNumber (n : ℤ) : (ofDayNumber n).dayNumber = n := by
  have hyear := yearOf_spec n
  have hsucc := yearStart_succ (yearOf n)
  unfold yearLength at hsucc
  have hlt : (n - yearStart (yearOf n)).toNat < (monthLengths (yearOf n)).sum := by omega
  obtain ⟨-, -, -, -, hsum⟩ := splitDays_spec hlt
  unfold Date.dayNumber ofDayNumber monthStart
  dsimp only
  omega

@[simp] theorem ofDayNumber_dayNumber (d : Date) : ofDayNumber d.dayNumber = d :=
  dayNumber_inj.mp (dayNumber_ofDayNumber _)

end Vsms.Lib.Calendar
