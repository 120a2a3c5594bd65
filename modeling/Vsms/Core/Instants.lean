import Vsms.Lib.Calendar
import Vsms.Lib.Decimals
import Vsms.Schema.Types
import Mathlib.Data.Rat.Floor
import Mathlib.Tactic.Ring

/-! # The texts of the instants

Instants are sent as texts: the date, the time of day and a `Z`. Each program has a form of its own.
`chrono` writes a fraction of 0, 3, 6 or 9 digits (`rfc3339`), JavaScript one of 3 (`toISOString`),
and what `z.string().datetime()` accepts (`datetime`) may have any number of digits, or no seconds
at all. A `Stamp` is what all these texts say: it is read from its own text and from no other
(`datetime_eq_some`), and the texts are in the order of the instants, but where one goes on where
the other ends (`Stamp.agrees`). -/

namespace Vsms.Core.Instants

open Vsms.Schema.Types Vsms.Lib.Calendar Vsms.Lib.Decimals

/-! ## Dates -/

/-- A date with a year of four digits. -/
structure IsoDate extends Date where
  year_nonneg : 0 ≤ year
  year_le : year ≤ 9999
  deriving DecidableEq

/-- `YYYY-MM-DD` -/
def IsoDate.text (d : IsoDate) : List Char :=
  numeral 4 d.year.toNat ++ '-' :: (numeral 2 d.month ++ '-' :: numeral 2 d.day)

/-- One character. -/
def readSign (c : Char) : List Char → Option (List Char)
  | [] => none
  | d :: s => if d = c then some s else none

def readDate (s : List Char) : Option (IsoDate × List Char) := do
  let (year, s) ← readNumeral 4 s
  let s ← readSign '-' s
  let (month, s) ← readNumeral 2 s
  let s ← readSign '-' s
  let (day, s) ← readNumeral 2 s
  if h : year ≤ 9999 ∧ (1 ≤ month ∧ month ≤ 12) ∧ 1 ≤ day ∧ day ≤ monthLength year month then
    some (⟨⟨year, month, day, h.2.1.1, h.2.1.2, h.2.2.1, h.2.2.2⟩, by simp, by simpa using h.1⟩, s)
  else none

theorem readSign_eq_some {c : Char} {s r : List Char} : readSign c s = some r ↔ s = c :: r := by
  cases s with
  | nil => simp [readSign]
  | cons d s =>
    rw [readSign, List.cons.injEq]
    split_ifs with h <;> simp [h]

theorem IsoDate.year_lt (d : IsoDate) : d.year.toNat < 10 ^ 4 := by
  have := d.year_le
  omega

theorem month_lt (d : Date) : d.month < 10 ^ 2 := d.month_le.trans_lt (by norm_num)

theorem day_lt (d : Date) : d.day < 10 ^ 2 :=
  d.day_le.trans_lt ((monthLength_le _ _).trans_lt (by norm_num))

theorem readDate_eq_some {s r : List Char} {d : IsoDate} : readDate s = some (d, r) ↔
    s = d.text ++ r := by
  simp only [readDate, Option.bind_eq_bind, Option.bind_eq_some_iff, Prod.exists,
    readNumeral_eq_some, readSign_eq_some]
  constructor
  · rintro ⟨year, _, ⟨hyear, rfl⟩, _, rfl, month, _, ⟨hmonth, rfl⟩, _, rfl, day, _, ⟨hday, rfl⟩, h⟩
    split_ifs at h
    cases h
    simp [IsoDate.text]
  · rintro rfl
    refine ⟨d.year.toNat, _, ⟨d.year_lt, ?_⟩, _, rfl, d.month, _, ⟨month_lt _, rfl⟩, _,
      rfl, d.day, r, ⟨day_lt _, rfl⟩, ?_⟩
    · simp [IsoDate.text]
    · obtain ⟨⟨year, month, day, hpos, hle, hday, hlength⟩, hnonneg, hyear⟩ := d
      lift year to ℕ using hnonneg
      have hyear : year ≤ 9999 := Int.ofNat_le.mp hyear
      exact dif_pos ⟨hyear, ⟨hpos, hle⟩, hday, hlength⟩

theorem IsoDate.length_text (d e : IsoDate) : d.text.length = e.text.length := by
    simp [IsoDate.text]

/-- **Dates are in the order of their texts.** -/
theorem IsoDate.text_lt_iff {d e : IsoDate} : d.text < e.text ↔ d.dayNumber < e.dayNumber := by
  have hd := d.year_nonneg
  have he := e.year_nonneg
  have hlength : ∀ w m n, (numeral w m).length = (numeral w n).length := by simp
  rw [IsoDate.text, IsoDate.text, append_lt_append_iff (hlength _ _ _), List.cons_lt_cons_self,
    append_lt_append_iff (hlength _ _ _), List.cons_lt_cons_self,
      numeral_lt_iff d.year_lt e.year_lt,
    numeral_inj d.year_lt e.year_lt, numeral_lt_iff (month_lt _) (month_lt _),
      numeral_inj (month_lt _) (month_lt _),
    numeral_lt_iff (day_lt _) (day_lt _), dayNumber_lt_iff]
  have hyear : d.year.toNat < e.year.toNat ↔ d.year < e.year := by omega
  have hyear' : d.year.toNat = e.year.toNat ↔ d.year = e.year := by omega
  rw [hyear, hyear']

/-! ## Stamps -/

/-- **A time of day.** The seconds may be left out, and have digits after the point. -/
structure Clock where
  hour : Fin 24
  minute : Fin 60
  seconds : Option (Fin 60 × List (Fin 10))
  deriving DecidableEq

/-- **A date and a time of day**, in UTC. -/
structure Stamp where
  date : IsoDate
  clock : Clock
  deriving DecidableEq

def fractionText : List (Fin 10) → List Char
  | [] => []
  | d :: ds => '.' :: (d :: ds).map digitChar

def secondsText : Option (Fin 60 × List (Fin 10)) → List Char
  | none => []
  | some (s, ds) => ':' :: (numeral 2 s ++ fractionText ds)

/-- `HH:MM:SS.sss` -/
def Clock.text (t : Clock) : List Char :=
  numeral 2 t.hour ++ ':' :: (numeral 2 t.minute ++ secondsText t.seconds)

/-- The text, but for the `Z` at its end. -/
def Stamp.stem (b : Stamp) : List Char := b.date.text ++ 'T' :: b.clock.text

def Stamp.text (b : Stamp) : List Char := b.stem ++ ['Z']

def secondsValue : Option (Fin 60 × List (Fin 10)) → ℚ
  | none => 0
  | some (s, ds) => (s : ℕ) + fraction ds

/-- The seconds from midnight. -/
def Clock.value (t : Clock) : ℚ :=
  (t.hour : ℕ) * 3600 + ((t.minute : ℕ) * 60 + secondsValue t.seconds)

/-- **The instant**, in seconds from the first of January 1970. -/
def Stamp.instant (b : Stamp) : ℚ := b.date.dayNumber * 86400 + b.clock.value

/-! ### The order of the texts -/

theorem hour_lt (n : Fin 24) : n.val < 10 ^ 2 := n.isLt.trans (by norm_num)

theorem minute_lt (n : Fin 60) : n.val < 10 ^ 2 := n.isLt.trans (by norm_num)

theorem digitChar_below (d : Fin 10) : digitChar d < 'Z' := by
  revert d
  decide

theorem agrees_fractionText (ds es : List (Fin 10)) :
    Agrees 'Z' (fractionText ds) (fractionText es) (fraction ds) (fraction es) := by
  cases ds with
  | nil =>
    cases es with
    | nil => exact .nil
    | cons e es => exact .nil_left (by decide) (fraction_nonneg (e :: es))
  | cons d ds =>
    cases es with
    | nil => exact .nil_right (by decide) (fraction_nonneg (d :: ds))
    | cons e es =>
        exact (agrees_fraction digitChar_strictMono digitChar_below (d :: ds) (e :: es)).cons '.'

theorem fraction_bounds (ds : List (Fin 10)) : 0 ≤ fraction ds ∧ fraction ds < 1 :=
  ⟨fraction_nonneg ds, fraction_lt_one ds⟩

theorem secondsValue_bounds (seconds : Option (Fin 60 × List (Fin 10))) :
    0 ≤ secondsValue seconds ∧ secondsValue seconds < 60 := by
  rcases seconds with _ | ⟨s, ds⟩
  · simp [secondsValue]
  · have hs : ((s : ℕ) : ℚ) ≤ 59 := by exact_mod_cast Nat.le_of_lt_succ s.isLt
    obtain ⟨hnonneg, hlt⟩ := fraction_bounds ds
    rw [secondsValue]
    constructor
    · positivity
    · linarith

theorem agrees_secondsText (x y : Option (Fin 60 × List (Fin 10))) :
    Agrees 'Z' (secondsText x) (secondsText y) (secondsValue x) (secondsValue y) := by
  rcases x with _ | ⟨s, ds⟩
  · rcases y with _ | ⟨s', es⟩
    · exact .nil
    · exact .nil_left (by decide) (secondsValue_bounds _).1
  · rcases y with _ | ⟨s', es⟩
    · exact .nil_right (by decide) (secondsValue_bounds _).1
    · have hdigits :=
        (agrees_fractionText ds es).numeral (minute_lt s) (minute_lt s') (fraction_bounds ds)
        (fraction_bounds es)
      exact (hdigits.cons ':').congr (by simp [secondsValue]) (by simp [secondsValue])

/-- A part of a number that counts less than the whole. -/
theorem part_bounds {m k : ℕ} (hm : m < k) {c v : ℚ} (hv : 0 ≤ v ∧ v < c) :
    0 ≤ m * c + v ∧ m * c + v < k * c := by
  have hc : 0 < c := hv.1.trans_lt hv.2
  have hle : ((m : ℚ) + 1) * c ≤ k * c := by
    refine mul_le_mul_of_nonneg_right ?_ hc.le
    exact_mod_cast hm
  constructor
  · have := hv.1
    positivity
  · linarith [hv.2]

theorem minutes_bounds (t : Clock) : 0 ≤ (t.minute : ℕ) * 60 + secondsValue t.seconds ∧
    (t.minute : ℕ) * 60 + secondsValue t.seconds < 3600 := by
  have hpart := part_bounds t.minute.isLt (secondsValue_bounds t.seconds)
  norm_num at hpart
  exact hpart

theorem Clock.value_bounds (t : Clock) : 0 ≤ t.value ∧ t.value < 86400 := by
  have hpart := part_bounds t.hour.isLt (minutes_bounds t)
  norm_num at hpart
  exact hpart

theorem Clock.agrees (t u : Clock) : Agrees 'Z' t.text u.text t.value u.value := by
  have hminutes :=
    (agrees_secondsText t.seconds u.seconds).numeral (minute_lt t.minute) (minute_lt u.minute)
    (secondsValue_bounds _) (secondsValue_bounds _)
  exact (hminutes.cons ':').numeral (hour_lt t.hour) (hour_lt u.hour) (minutes_bounds t)
    (minutes_bounds u)

/-- **The texts are in the order of the instants**, but where one goes on where the other ends. -/
theorem Stamp.agrees (b c : Stamp) : Agrees 'Z' b.stem c.stem b.instant c.instant :=
  ((b.clock.agrees c.clock).cons 'T').append
    (b.date.length_text c.date) IsoDate.text_lt_iff IsoDate.text_lt_iff
    b.clock.value_bounds c.clock.value_bounds

/-! ## Reading -/

/-- `(?:\.\d+)?` -/
def readPoint : List Char → Option (List (Fin 10) × List Char)
  | '.' :: s => if (readFraction s).1 = [] then none else some (readFraction s)
  | s => some ([], s)

/-- `(?::[0-5]\d(?:\.\d+)?)?` -/
def readSeconds : List Char → Option (Option (Fin 60 × List (Fin 10)) × List Char)
  | ':' :: s => do
    let (n, s) ← readNumeral 2 s
    let (ds, s) ← readPoint s
    if h : n < 60 then some (some (⟨n, h⟩, ds), s) else none
  | s => some (none, s)

/-- `(?:[01]\d|2[0-3]):[0-5]\d`, and the seconds. -/
def readClock (s : List Char) : Option (Clock × List Char) := do
  let (hour, s) ← readNumeral 2 s
  let s ← readSign ':' s
  let (minute, s) ← readNumeral 2 s
  let (seconds, s) ← readSeconds s
  if h : hour < 24 ∧ minute < 60 then some (⟨⟨hour, h.1⟩, ⟨minute, h.2⟩, seconds⟩, s) else none

/-- **`z.string().datetime()`** -/
def datetime (s : List Char) : Option Stamp := do
  let (date, s) ← readDate s
  let s ← readSign 'T' s
  let (clock, s) ← readClock s
  if s = ['Z'] then some ⟨date, clock⟩ else none

theorem readPoint_sound {s r : List Char} {ds : List (Fin 10)} (h : readPoint s = some (ds, r)) :
    s = fractionText ds ++ r := by
  unfold readPoint at h
  split at h
  · next s =>
    have hspec := readFraction_spec s
    split_ifs at h with hempty
    obtain ⟨d, ds', hds⟩ := List.exists_cons_of_ne_nil hempty
    rw [Option.some.inj h] at hds hspec
    rw [show ds = d :: ds' from hds, fractionText, List.cons_append, ← hspec]
    exact congrArg _ (congrArg (fun es => es.map digitChar ++ r) hds)
  · cases h
    rfl

theorem readPoint_complete (ds : List (Fin 10)) :
    readPoint (fractionText ds ++ ['Z']) = some (ds, ['Z']) := by
  cases ds with
  | nil => rfl
  | cons d ds =>
    have hfraction : readFraction ((d :: ds).map digitChar ++ ['Z']) = (d :: ds, ['Z']) :=
      readFraction_append (d :: ds) (by decide) []
    rw [fractionText, List.cons_append, readPoint, hfraction, if_neg (List.cons_ne_nil d ds)]

theorem readSeconds_sound {s r : List Char} {seconds : Option (Fin 60 × List (Fin 10))}
    (h : readSeconds s = some (seconds, r)) : s = secondsText seconds ++ r := by
  unfold readSeconds at h
  split at h
  · simp only [Option.bind_eq_bind, Option.bind_eq_some_iff, Prod.exists, readNumeral_eq_some] at h
    obtain ⟨n, tail, ⟨-, rfl⟩, ds, rest, hpoint, h⟩ := h
    obtain rfl := readPoint_sound hpoint
    split_ifs at h with hn
    cases h
    simp [secondsText]
  · cases h
    rfl

theorem readSeconds_complete (seconds : Option (Fin 60 × List (Fin 10))) :
    readSeconds (secondsText seconds ++ ['Z']) = some (seconds, ['Z']) := by
  rcases seconds with _ | ⟨s, ds⟩
  · rfl
  · have hread : readNumeral 2 (numeral 2 s ++ (fractionText ds ++ ['Z'])) =
        some (s.val, fractionText ds ++ ['Z']) := readNumeral_eq_some.mpr ⟨minute_lt s, rfl⟩
    rw [secondsText, List.cons_append, List.append_assoc, readSeconds, hread]
    simp [readPoint_complete]

/-- **A text is accepted if it is the text of a stamp**, and that is what it says. -/
theorem datetime_eq_some {s : List Char} {b : Stamp} : datetime s = some b ↔ s = b.text := by
  simp only [datetime, readClock, Option.bind_eq_bind, Option.bind_eq_some_iff, Prod.exists,
    readDate_eq_some, readNumeral_eq_some, readSign_eq_some]
  constructor
  · rintro ⟨date, _, rfl, _, rfl, clock, rest, hread, hend⟩
    obtain ⟨hour, _, ⟨-, rfl⟩, _, rfl, minute, tail, ⟨-, rfl⟩, seconds, r, hseconds, hclock⟩ :=
      hread
    obtain rfl := readSeconds_sound hseconds
    split_ifs at hclock hend with hbounds hz
    cases hclock
    cases hend
    simp [Stamp.text, Stamp.stem, Clock.text, hz]
  · rintro rfl
    have hdate : b.text = b.date.text ++ 'T' :: (b.clock.text ++ ['Z']) := by
      rw [Stamp.text, Stamp.stem, List.append_assoc, List.cons_append]
    have hclock :
      b.clock.text ++ ['Z'] = numeral 2 b.clock.hour ++ ':' :: (numeral 2 b.clock.minute ++
        (secondsText b.clock.seconds ++ ['Z'])) := by
      rw [Clock.text, List.append_assoc, List.cons_append, List.append_assoc]
    refine ⟨b.date, _, hdate, _, rfl, b.clock, ['Z'], ?_, if_pos rfl⟩
    refine ⟨b.clock.hour, _, ⟨hour_lt _, hclock⟩, _, rfl, b.clock.minute, _, ⟨minute_lt _, rfl⟩,
      b.clock.seconds, ['Z'], readSeconds_complete _, ?_⟩
    exact dif_pos ⟨b.clock.hour.isLt, b.clock.minute.isLt⟩

/-! ## Writing -/

/-- The time of day, of the seconds from midnight. -/
def Clock.ofSeconds (s : Fin 86400) (ds : List (Fin 10)) : Clock where
  hour := ⟨s / 3600, by omega⟩
  minute := ⟨s / 60 % 60, Nat.mod_lt _ (by norm_num)⟩
  seconds := some (⟨s % 60, Nat.mod_lt _ (by norm_num)⟩, ds)

theorem Clock.value_ofSeconds (s : Fin 86400) (ds : List (Fin 10)) :
    (Clock.ofSeconds s ds).value = (s : ℕ) + fraction ds := by
  have hsplit : s.val / 3600 * 3600 + (s.val / 60 % 60 * 60 + s.val % 60) = s.val := by omega
  have hcast : ((s.val / 3600 : ℕ) : ℚ) * 3600 +
      (((s.val / 60 % 60 : ℕ) : ℚ) * 60 + ((s.val % 60 : ℕ) : ℚ)) = s.val := by
        exact_mod_cast hsplit
  unfold Clock.value secondsValue Clock.ofSeconds
  dsimp only
  linarith

/-- The year of the day has four digits. -/
def FourDigits (day : ℤ) : Prop := 0 ≤ (ofDayNumber day).year ∧ (ofDayNumber day).year ≤ 9999

instance (day : ℤ) : Decidable (FourDigits day) := inferInstanceAs (Decidable (_ ∧ _))

def isoDate (day : ℤ) (h : FourDigits day) : IsoDate := ⟨ofDayNumber day, h.1, h.2⟩

theorem zero_lt_day : 0 < 86400 := by norm_num

/-- `YYYY-MM-DDT00:00:00.000Z` -/
def startOfDay (d : IsoDate) : Stamp := ⟨d, .ofSeconds ⟨0, zero_lt_day⟩ (decimals 3 0)⟩

theorem instant_startOfDay (d : IsoDate) : (startOfDay d).instant = d.dayNumber * 86400 := by
  have hfraction : fraction (decimals 3 0) = 0 := by
    rw [fraction_decimals (by norm_num)]
    norm_num
  rw [Stamp.instant, startOfDay, Clock.value_ofSeconds, hfraction]
  simp

/-! ### `chrono` -/

def nanosPerSecond : ℤ := 1000000000

def nanosPerDay : ℤ := 86400 * nanosPerSecond

/-- The digits after the point: `SecondsFormat::AutoSi`. -/
def autoSi (nanos : ℕ) : List (Fin 10) :=
  if nanos = 0 then []
  else if nanos % 1000000 = 0 then decimals 3 (nanos / 1000000)
  else if nanos % 1000 = 0 then decimals 6 (nanos / 1000)
  else decimals 9 nanos

/-- **A `DateTime<Utc>` as it is serialised**: the stamp of so many nanoseconds. -/
def rfc3339 (n : ℤ) (h : FourDigits (n / nanosPerDay)) : Stamp where
  date := isoDate (n / nanosPerDay) h
  clock :=
    .ofSeconds ⟨(n / nanosPerSecond % 86400).toNat, by omega⟩ (autoSi (n % nanosPerSecond).toNat)

theorem fraction_autoSi {nanos : ℕ} (h : nanos < 1000000000) :
    fraction (autoSi nanos) = nanos / 1000000000 := by
  unfold autoSi
  split_ifs with hzero hmillis hmicros
  · simp [hzero, fraction]
  · obtain ⟨k, rfl⟩ := Nat.dvd_of_mod_eq_zero hmillis
    rw [Nat.mul_div_cancel_left k (by norm_num), fraction_decimals (by omega)]
    push_cast
    ring
  · obtain ⟨k, rfl⟩ := Nat.dvd_of_mod_eq_zero hmicros
    rw [Nat.mul_div_cancel_left k (by norm_num), fraction_decimals (by omega)]
    push_cast
    ring
  · rw [fraction_decimals (by omega)]
    norm_num

theorem instant_rfc3339 (n : ℤ) (h : FourDigits (n / nanosPerDay)) :
    (rfc3339 n h).instant = n / (nanosPerSecond : ℚ) := by
  have hnanos : (n % nanosPerSecond).toNat < 1000000000 := by
    unfold nanosPerSecond
    omega
  have hparts : (n / nanosPerDay * 86400 + (n / nanosPerSecond % 86400).toNat) * nanosPerSecond +
      (n % nanosPerSecond).toNat = n := by
    unfold nanosPerDay nanosPerSecond
    omega
  have hcast : ((n / nanosPerDay : ℤ) * 86400 + ((n / nanosPerSecond % 86400).toNat : ℚ)) *
    1000000000 +
      (n % nanosPerSecond).toNat = n := by
    exact_mod_cast hparts
  unfold Stamp.instant rfc3339 isoDate
  dsimp only
  rw [Clock.value_ofSeconds, fraction_autoSi hnanos, dayNumber_ofDayNumber, ← hcast]
  unfold nanosPerSecond
  push_cast
  ring

/-! ### JavaScript -/

/-- Six digits and a sign where four are not enough. -/
def yearText (year : ℤ) : List Char :=
  if 0 ≤ year ∧ year ≤ 9999 then numeral 4 year.toNat
  else (if year < 0 then '-' else '+') :: numeral 6 year.natAbs

def dateText (d : Date) : List Char :=
  yearText d.year ++ '-' :: (numeral 2 d.month ++ '-' :: numeral 2 d.day)

def msPerDay : ℤ := 86400000

def clockOfMs (ms : ℤ) : Clock :=
  .ofSeconds ⟨(ms / 1000 % 86400).toNat, by omega⟩ (decimals 3 (ms % 1000).toNat)

/-- What a `Date` can hold, on both sides of the epoch. -/
def maxTime : ℤ := 8640000000000000

/-- **`toISOString`**: a `Date` that holds no time throws a `RangeError`. -/
def toISOString (ms : ℤ) : Option (List Char) :=
  if -maxTime ≤ ms ∧ ms ≤ maxTime then
    some (dateText (ofDayNumber (ms / msPerDay)) ++ 'T' :: ((clockOfMs ms).text ++ ['Z']))
  else none

theorem dateText_isoDate (d : IsoDate) : dateText d.toDate = d.text := by
  rw [dateText, yearText, if_pos ⟨d.year_nonneg, d.year_le⟩, IsoDate.text]

theorem fourDigits_iff {day : ℤ} : FourDigits day ↔ -719528 ≤ day ∧ day < 2932897 := by
  have hlow : 0 ≤ (ofDayNumber day).year ↔ yearStart 0 ≤ day := by
    rw [Date.le_year_iff, dayNumber_ofDayNumber]
  have hhigh : 10000 ≤ (ofDayNumber day).year ↔ yearStart 10000 ≤ day := by
    rw [Date.le_year_iff, dayNumber_ofDayNumber]
  rw [show yearStart 0 = -719528 by decide] at hlow
  rw [show yearStart 10000 = 2932897 by decide] at hhigh
  unfold FourDigits
  omega

theorem IsoDate.fourDigits (d : IsoDate) : FourDigits d.dayNumber := by
  unfold FourDigits
  rw [ofDayNumber_dayNumber]
  exact ⟨d.year_nonneg, d.year_le⟩

/-- A `Date` of a day whose year has four digits: its text begins with that of the day. -/
theorem toISOString_of_day {ms : ℤ} {d : IsoDate} (h : ms / msPerDay = d.dayNumber) :
    toISOString ms = some (d.text ++ 'T' :: ((clockOfMs ms).text ++ ['Z'])) := by
  have hbounds := fourDigits_iff.mp d.fourDigits
  have htime : -maxTime ≤ ms ∧ ms ≤ maxTime := by
    unfold maxTime
    rw [← h] at hbounds
    unfold msPerDay at hbounds
    omega
  rw [toISOString, if_pos htime, h, ofDayNumber_dayNumber, dateText_isoDate]

/-- Another one: its text begins with a sign. -/
theorem toISOString_of_not_fourDigits {ms : ℤ} (h : ¬ FourDigits (ms / msPerDay)) {s : List Char}
    (hs : toISOString ms = some s) :
    ∃ rest, s = (if (ofDayNumber (ms / msPerDay)).year < 0 then '-' else '+') :: rest := by
  unfold FourDigits at h
  unfold toISOString at hs
  split_ifs at hs
  rw [← Option.some.inj hs, dateText, yearText, if_neg h]
  exact ⟨_, rfl⟩

/-- **Midnight.** -/
theorem toISOString_startOfDay (d : IsoDate) :
    toISOString (d.dayNumber * msPerDay) = some (startOfDay d).text := by
  have hday : d.dayNumber * msPerDay / msPerDay = d.dayNumber := Int.mul_ediv_cancel _ (by decide)
  have hseconds : (d.dayNumber * msPerDay / 1000 % 86400).toNat = 0 := by
    unfold msPerDay
    omega
  have hmillis : (d.dayNumber * msPerDay % 1000).toNat = 0 := by
    unfold msPerDay
    omega
  have hclock : clockOfMs (d.dayNumber * msPerDay) =
      .ofSeconds ⟨0, zero_lt_day⟩ (decimals 3 0) := by
    unfold clockOfMs
    simp only [hseconds, hmillis]
  rw [toISOString_of_day hday, hclock, Stamp.text, Stamp.stem, List.append_assoc, List.cons_append]
  rfl

end Vsms.Core.Instants
