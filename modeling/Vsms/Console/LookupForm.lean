import Vsms.Api.Windows
import Vsms.Console.DateFilter
import Vsms.Hooks.Subscriptions
import Vsms.Routing.Simulate

/-! # The form of a delivery lookup

A lookup by reference or by number asks about a window of whole days. The form checks the dates as
days, as texts `YYYY-MM-DD`, against the day of its own clock; the server checks the instants of the
window against its own. The window that is sent goes from the start of the one day to the start of
the day after the other, so ninety days are ninety days for both, and a day that is eighty-nine
before today starts less than ninety days before any time of today.

`utcDate` takes the first ten characters of a text that is longer where a year has more than four
digits: from such a clock, the earliest day that the form accepts is a sign and six digits of a
year, which is before every date. What the form accepts the server searches, both days whole,
exactly if this does not happen and the server can count ninety days back (`form_agrees_iff`). -/

namespace Vsms.Console.LookupForm

open Vsms.Schema.Types Vsms.Lib.Calendar Vsms.Lib.Decimals Vsms.Core.Instants Vsms.Core.Chrono
    Vsms.Core.Numbers
open Vsms.Api.Delivery Vsms.Console.LiveList Vsms.Console.DateFilter
open Vsms.Api.Lookups (Asker Key)
open Vsms.Hooks.Subscriptions (isJsSpace jsTrim)
open Vsms.Routing.Simulate (mobileLib mobileMsisdn parseMobile_mobileLib)

/-! ## The form -/

/-- Which key a lookup names. -/
inductive LookupKind
  | id
  | ref
  | number
  deriving DecidableEq, Repr

inductive Field
  | messageId
  | appId
  | clientRef
  | msisdn
  | «from»
  | «to»
  deriving DecidableEq, Repr

structure LookupFormValues where
  messageId : String
  appId : String
  clientRef : String
  msisdn : String
  «from» : String
  «to» : String
  deriving DecidableEq, Repr

/-- An issue of the form: the field, and what is said of it. -/
abbrev Issue := Field × String

/-- `MAX_WINDOW_DAYS` -/
def maxFormDays : ℤ := 90

/-- The days of `WINDOW_PRESETS`. -/
def windowPresets : List ℤ := [7, 30, 90]

def numberReach : String := "A lookup by phone number reaches back 90 days at most."

def windowWidth : String := "Choose a window of 90 days or less."

def windowOrder : String := "The end date is before the start date."

/-- `s.trim()` -/
def trimmed (s : String) : String := String.ofList (jsTrim s.toList)

/-- `/^[a-z0-9]{2,32}$/` -/
def isValidMessageId (id : String) : Bool :=
  2 ≤ id.toList.length && id.toList.length ≤ 32 && id.toList.all fun c => c.isLower || c.isDigit

/-- **`utcDate`**: the day of a clock, so many days on. A `Date` that holds no time throws. -/
def utcDate (now offsetDays : ℤ) : Option String :=
  (toISOString (now + offsetDays * msPerDay)).map fun s => String.ofList (s.take 10)

/-- **`presetWindow`** -/
def presetWindow (days now : ℤ) : Option (String × String) := do
  let since ← utcDate now (-(days - 1))
  let last ← utcDate now 0
  some (since, last)

/-- The earliest day that a lookup accepts, if there is one. -/
def earliestFrom (kind : LookupKind) (now : ℤ) : Option (Option String) :=
  match kind with
  | .number => (utcDate now (-(maxFormDays - 1))).map some
  | _ => some none

/-- The start of a day, as it is sent. -/
def startText (date : String) : String := date ++ "T00:00:00.000Z"

/-- `Date.parse`, of such a text: it is not a number if the date is none. -/
def dateParse (s : String) : Option ℤ := (datetime s.toList).map fun b => ⌊b.instant * 1000⌋

/-- Both days are counted; midnights are whole days apart. -/
def inclusiveDays (since last : String) : Option ℤ := do
  let start ← dateParse (startText since)
  let stop ← dateParse (startText last)
  some ((stop - start) / msPerDay + 1)

/-- The checks of the key. -/
def keyIssues (values : LookupFormValues) : LookupKind → List Issue
  | .id =>
    let id := trimmed values.messageId
    if id = "" then [(.messageId, "Enter the message id.")]
    else if !isValidMessageId id then
      [(.messageId, "That is not a message id: ids are lowercase letters and digits.")]
    else []
  | .ref =>
    let appId := trimmed values.appId
    (if trimmed values.clientRef = "" then [(.clientRef, "Enter the client reference.")] else []) ++
      if appId = "" then [(.appId, "Name the app this reference belongs to.")]
      else if !isValidMessageId appId then
        [(.appId, "That is not an app id: ids are lowercase letters and digits.")]
      else []
  | .number => if trimmed values.msisdn = "" then [(.msisdn, "Enter the whole mobile number.")]
      else []

/-- The checks of the window. A comparison with what is not a number is false. -/
def windowIssues (floor : Option String) (values : LookupFormValues) : List Issue :=
  (if values.from = "" then [(.from, "Choose a start date.")] else []) ++
    (if values.to = "" then [(.to, "Choose an end date.")] else []) ++
    if values.from = "" ∨ values.to = "" then []
    else if jsLt values.to values.from then [(.to, windowOrder)]
    else if (inclusiveDays values.from values.to).any (maxFormDays < ·) then [(.from, windowWidth)]
    else if floor.any (jsLt values.from ·) then [(.from, numberReach)]
    else []

/-- **`lookupSchema`**: the issues of the values; there are none if they are accepted. -/
def lookupSchema (kind : LookupKind) (now : ℤ) (values : LookupFormValues) :
    Option (List Issue) := do
  let floor ← earliestFrom kind now
  some (keyIssues values kind ++ if kind = .id then [] else windowIssues floor values)

/-! ## What is sent -/

structure LookupArgs where
  messageId : Option String
  appId : Option String
  clientRef : Option String
  msisdn : Option String
  since : Option String
  «until» : Option String
  deriving DecidableEq, Repr

/-- The start of the day after. -/
def startOfNextDay (date : String) : Option String := do
  let start ← dateParse (startText date)
  let s ← toISOString (start + msPerDay)
  some (String.ofList s)

/-- **`toLookupArgs`** -/
def toLookupArgs (values : LookupFormValues) : LookupKind → Option LookupArgs
  | .id => some ⟨some (trimmed values.messageId), none, none, none, none, none⟩
  | .ref => do
    let stop ← startOfNextDay values.to
    some ⟨none, some (trimmed values.appId), some (trimmed values.clientRef), none,
      some (startText values.from), some stop⟩
  | .number => do
    let stop ← startOfNextDay values.to
    some ⟨none, none, none, some (trimmed values.msisdn), some (startText values.from), some stop⟩

/-- A `DateTime<Utc>` as the server reads it, to the microsecond. RFC 3339 does not leave out the
seconds. -/
def readInstant (s : String) : Option Time := do
  let b ← datetime s.toList
  if b.clock.seconds.isSome then some ⌊b.instant * 1000000⌋ else none

def readBound : Option String → Option (Option Time)
  | none => some none
  | some s => (readInstant s).map some

/-- The arguments as `from_args` gets them: the console sends no `limit`. -/
def LookupArgs.query (args : LookupArgs) : Option DeliveryStatusQuery := do
  let since ← readBound args.since
  let stop ← readBound args.until
  some ⟨args.messageId, args.appId, args.clientRef, args.msisdn, since, stop, none⟩

/-! ## What is promised -/

/-- A date of the years that the form is asked about. -/
def InYears (d : IsoDate) : Prop := 1970 ≤ d.year ∧ d.year ≤ 9998

/-- **The form is filled in**: with real dates, and with a key that the server knows the shape of.
-/
structure Filled (phones : PhoneLib) (kind : LookupKind) (values : LookupFormValues)
    (first last : IsoDate) :
    Prop where
  from_text : values.from = String.ofList first.text
  to_text : values.to = String.ofList last.text
  from_years : InYears first
  to_years : InYears last
  number : kind = .number → ∃ number, parseMobile phones (trimmed values.msisdn) = .ok number
  reference : kind = .ref →
    ∃ c ∈ values.clientRef.toList, isJsSpace c = false ∧ Core.Pack.isWhitespace c = false

/-- **The server searches both days whole.** -/
def Searches (phones : PhoneLib) (kind : LookupKind) (values : LookupFormValues)
    (first last : IsoDate) (server : Time) : Prop :=
  ∃ args query plan, toLookupArgs values kind = some args ∧ args.query = some query ∧
    LookupPlan.fromArgs phones query .person server = .ok plan ∧
      plan.since = some (days first.dayNumber) ∧
      plan.until = some (days (last.dayNumber + 1))

/-- **A lookup by number**: the earliest day is one of a year of four digits at most, and the server
can count ninety days back. -/
def Reaches (kind : LookupKind) (now : ℤ) (server : Time) : Prop :=
  kind = .number →
    (ofDayNumber (now / msPerDay - 89)).year ≤ 9999 ∧ Representable (server - days maxWindowDays)

/-! ## Dates -/

theorem date_le (d : IsoDate) : ∀ c ∈ d.text, c ≤ 'Z' := by
  rw [IsoDate.text]
  simp only [List.forall_mem_append, List.forall_mem_cons]
  exact ⟨numeral_le _ _, by decide, numeral_le _ _, by decide, numeral_le _ _⟩

theorem jsLt_date {d e : IsoDate} :
    jsLt (String.ofList d.text) (String.ofList e.text) = true ↔ d.dayNumber < e.dayNumber := by
  rw [jsLt_ofList (date_le d) (date_le e), IsoDate.text_lt_iff]

theorem date_ne_empty (d : IsoDate) : String.ofList d.text ≠ "" := by
  intro h
  have hlength := congrArg (fun s => s.toList.length) h
  simp [IsoDate.text] at hlength

theorem toList_startText (d : IsoDate) :
    (startText (String.ofList d.text)).toList = (startOfDay d).text := by
  have hmidnight : "T00:00:00.000Z".toList = 'T' :: ((startOfDay d).clock.text ++ ['Z']) := by
    exact (by decide : "T00:00:00.000Z".toList =
      'T' :: (Clock.text (.ofSeconds ⟨0, zero_lt_day⟩ (decimals 3 0)) ++ ['Z']))
  rw [startText, String.toList_append, String.toList_ofList, hmidnight, Stamp.text, Stamp.stem,
    List.append_assoc, List.cons_append]
  rfl

theorem dateParse_startText (d : IsoDate) :
    dateParse (startText (String.ofList d.text)) = some (d.dayNumber * msPerDay) := by
  have hread : datetime (startOfDay d).text = some (startOfDay d) := datetime_eq_some.mpr rfl
  have hfloor : ⌊(startOfDay d).instant * 1000⌋ = d.dayNumber * msPerDay := by
    rw [instant_startOfDay, Int.floor_eq_iff]
    unfold msPerDay
    push_cast
    constructor <;> linarith
  rw [dateParse, toList_startText, hread, Option.map_some, hfloor]

theorem inclusiveDays_eq (d e : IsoDate) :
    inclusiveDays (String.ofList d.text) (String.ofList e.text) =
    some (e.dayNumber - d.dayNumber + 1) := by
  have hdays : (e.dayNumber * msPerDay - d.dayNumber * msPerDay) / msPerDay =
      e.dayNumber - d.dayNumber := by
    rw [← sub_mul]
    exact Int.mul_ediv_cancel _ (by decide)
  simp only [inclusiveDays, dateParse_startText, Option.bind_eq_bind, Option.bind_some, hdays]

/-- The years, as days. -/
theorem InYears.bounds {d : IsoDate} (h : InYears d) : 0 ≤ d.dayNumber ∧ d.dayNumber < 2932532 := by
  have hlow : yearStart 1970 = 0 := by decide
  have hhigh : yearStart 9999 = 2932532 := by decide
  have hlast : ¬ 9999 ≤ d.year := not_le.mpr (Int.lt_add_one_of_le h.2)
  rw [d.le_year_iff, hhigh] at hlast
  exact ⟨hlow ▸ d.le_year_iff.mp h.1, not_le.mp hlast⟩

/-- The day after a date of the years has a year of four digits. -/
theorem exists_next {d : IsoDate} (h : InYears d) :
    ∃ next : IsoDate, next.dayNumber = d.dayNumber + 1 := by
  have hbounds := h.bounds
  have hfour : FourDigits (d.dayNumber + 1) := fourDigits_iff.mpr (by omega)
  exact ⟨isoDate _ hfour, dayNumber_ofDayNumber _⟩

theorem startOfNextDay_eq {d next : IsoDate} (h : next.dayNumber = d.dayNumber + 1) :
    startOfNextDay (String.ofList d.text) = some (iso (startOfDay next)) := by
  have hms : d.dayNumber * msPerDay + msPerDay = next.dayNumber * msPerDay := by
    rw [h, add_mul, one_mul]
  simp only [startOfNextDay, dateParse_startText, Option.bind_eq_bind, Option.bind_some, hms,
    toISOString_startOfDay, iso]

theorem readInstant_eq {s : String} {d : IsoDate} (h : s.toList = (startOfDay d).text) :
    readInstant s = some (days d.dayNumber) := by
  have hread : datetime (startOfDay d).text = some (startOfDay d) := datetime_eq_some.mpr rfl
  have hfloor : ⌊(startOfDay d).instant * 1000000⌋ = days d.dayNumber := by
    rw [instant_startOfDay, Int.floor_eq_iff]
    unfold days hours minutes seconds
    push_cast
    constructor <;> linarith
  simp only [readInstant, h, hread, Option.bind_eq_bind, Option.bind_some, hfloor]
  rfl

/-! ## The day of a clock -/

theorem day_add (now offsetDays : ℤ) :
    (now + offsetDays * msPerDay) / msPerDay = now / msPerDay + offsetDays :=
  Int.add_mul_ediv_right _ _ (by decide)

theorem utcDate_eq {now offsetDays : ℤ} {d : IsoDate}
    (h : d.dayNumber = now / msPerDay + offsetDays) :
    utcDate now offsetDays = some (String.ofList d.text) := by
  have hday : (now + offsetDays * msPerDay) / msPerDay = d.dayNumber :=
    (day_add now offsetDays).trans h.symm
  have hlength : d.text.length = 10 := by simp [IsoDate.text]
  rw [utcDate, toISOString_of_day hday, Option.map_some, List.take_left' hlength]

/-- A sign is before every digit. -/
theorem not_lt_sign (d : IsoDate) {sign : Char} (hsign : sign < '0') (rest : List Char) :
    ¬ jsLt (String.ofList d.text) (String.ofList (sign :: rest)) = true := by
  have hdigit : ∀ e, '0' ≤ digitChar e := by decide
  have hfirst := hdigit (Fin.ofNat 10 (d.year.toNat / 10 ^ 3))
  have hunits : sign.toNat < (digitChar (Fin.ofNat 10 (d.year.toNat / 10 ^ 3))).toNat :=
    Char.lt_def.mp (hsign.trans_le hfirst)
  rw [IsoDate.text, numeral_succ, List.cons_append]
  unfold jsLt
  rw [utf16_cons (digitChar_below _).le, utf16_cons (hsign.le.trans (by decide)),
    decide_eq_true_iff, List.cons_lt_cons_iff]
  omega

/-- **What is earlier than the floor**: a clock of more than four digits has none. -/
theorem lt_floor_iff {first : IsoDate} (hyears : InYears first) {now offsetDays : ℤ}
    {floor : String} (hfloor : utcDate now offsetDays = some floor) :
    jsLt (String.ofList first.text) floor = true ↔
      (ofDayNumber (now / msPerDay + offsetDays)).year ≤ 9999 ∧
        first.dayNumber < now / msPerDay + offsetDays := by
  have hbounds := hyears.bounds
  by_cases hfour : FourDigits (now / msPerDay + offsetDays)
  · have hdate : (isoDate _ hfour).dayNumber = now / msPerDay + offsetDays :=
      dayNumber_ofDayNumber _
    rw [utcDate_eq hdate] at hfloor
    rw [← Option.some.inj hfloor, jsLt_date, hdate]
    exact (and_iff_right hfour.2).symm
  · have hlow : ¬ ((ofDayNumber (now / msPerDay + offsetDays)).year ≤ 9999 ∧
        first.dayNumber < now / msPerDay + offsetDays) := by
      rintro ⟨hyear, hlt⟩
      refine hfour ⟨?_, hyear⟩
      rw [Date.le_year_iff, dayNumber_ofDayNumber, show yearStart 0 = -719528 by decide]
      omega
    refine iff_of_false ?_ hlow
    obtain ⟨s, hs, rfl⟩ := Option.map_eq_some_iff.mp hfloor
    obtain ⟨rest, rfl⟩ := toISOString_of_not_fourDigits (by rwa [day_add]) hs
    rw [List.take_succ_cons]
    exact not_lt_sign first (by split_ifs <;> decide) _

/-! ## What the form accepts -/

section form
variable {values : LookupFormValues} {first last : IsoDate}

theorem windowIssues_eq_nil (hfrom : values.from = String.ofList first.text)
    (hto : values.to = String.ofList last.text) {floor : Option String} :
    windowIssues floor values = [] ↔ first.dayNumber ≤ last.dayNumber ∧
      last.dayNumber - first.dayNumber + 1 ≤ maxFormDays ∧
      ¬ floor.any (jsLt values.from ·) = true := by
  unfold windowIssues
  have hfrom' : values.from ≠ "" := hfrom ▸ date_ne_empty first
  have hto' : values.to ≠ "" := hto ▸ date_ne_empty last
  rw [if_neg hfrom', if_neg hto', if_neg (not_or.mpr ⟨hfrom', hto'⟩), List.nil_append,
    List.nil_append]
  rw [hto, hfrom, inclusiveDays_eq, Option.any_some]
  split_ifs with horder hwidth hfloor
  · exact iff_of_false id fun h => absurd (jsLt_date.mp horder) (not_lt.mpr h.1)
  · exact iff_of_false id fun h => absurd (of_decide_eq_true hwidth) (not_lt.mpr h.2.1)
  · exact iff_of_false id fun h => h.2.2 hfloor
  · exact iff_of_true rfl ⟨not_lt.mp (mt jsLt_date.mpr horder),
      not_lt.mp (mt decide_eq_true hwidth), hfloor⟩

theorem lookupSchema_eq_nil {kind : LookupKind} (hkind : kind ≠ .id) {now : ℤ} :
    lookupSchema kind now values = some [] ↔ keyIssues values kind = [] ∧
      ∃ floor, earliestFrom kind now = some floor ∧ windowIssues floor values = [] := by
  simp only [lookupSchema, if_neg hkind, Option.bind_eq_bind, Option.bind_eq_some_iff,
    Option.some.injEq, List.append_eq_nil_iff]
  exact ⟨fun ⟨floor, hfloor, hkey, hwindow⟩ => ⟨hkey, floor, hfloor, hwindow⟩,
    fun ⟨hkey, floor, hfloor, hwindow⟩ => ⟨floor, hfloor, hkey, hwindow⟩⟩

/-- **The window of a form that is accepted**, in days. -/
structure Window (kind : LookupKind) (now : ℤ) (first last : IsoDate) : Prop where
  order : first.dayNumber ≤ last.dayNumber
  width : last.dayNumber - first.dayNumber + 1 ≤ maxFormDays
  reach : kind = .number → (ofDayNumber (now / msPerDay - 89)).year ≤ 9999 →
    now / msPerDay - 89 ≤ first.dayNumber

theorem window_of_accepted (hfrom : values.from = String.ofList first.text)
    (hto : values.to = String.ofList last.text) (hyears : InYears first) {kind : LookupKind}
    (hkind : kind ≠ .id) {now : ℤ} (h : lookupSchema kind now values = some []) :
    Window kind now first last := by
  obtain ⟨-, floor, hfloor, hwindow⟩ := (lookupSchema_eq_nil hkind).mp h
  obtain ⟨horder, hwidth, hreach⟩ := (windowIssues_eq_nil hfrom hto).mp hwindow
  refine ⟨horder, hwidth, ?_⟩
  rintro rfl hyear
  obtain ⟨text, htext, rfl⟩ := Option.map_eq_some_iff.mp hfloor
  rw [hfrom, Option.any_some, lt_floor_iff hyears htext] at hreach
  by_contra hlt
  exact hreach ⟨hyear, not_le.mp hlt⟩

theorem utf8ByteSize_of_ascii {s : List Char} (hs : ∀ c ∈ s, c.utf8Size = 1) :
    (String.ofList s).utf8ByteSize = s.length := by
  induction s with
  | nil => rfl
  | cons c s ih =>
    obtain ⟨hc, hs⟩ := List.forall_mem_cons.mp hs
    rw [String.ofList_cons, String.utf8ByteSize_append, String.utf8ByteSize_singleton, hc, ih hs,
      List.length_cons, Nat.add_comm]

theorem isCuid_of_valid {id : String} (h : isValidMessageId id = true) : isCuid id = true := by
  unfold isValidMessageId at h
  simp only [Bool.and_eq_true, decide_eq_true_iff] at h
  obtain ⟨⟨hlow, hhigh⟩, hall⟩ := h
  have hascii : ∀ c ∈ id.toList, c.utf8Size = 1 := by
    intro c hc
    have hletter := List.all_eq_true.mp hall c hc
    rw [Char.utf8Size_eq_one_iff]
    rcases Bool.or_eq_true_iff.mp hletter with h | h
    · exact UInt32.le_trans (of_decide_eq_true (Bool.and_eq_true_iff.mp h).2) (by decide)
    · exact UInt32.le_trans (of_decide_eq_true (Bool.and_eq_true_iff.mp h).2) (by decide)
  have hsize : id.utf8ByteSize = id.toList.length := by
    rw [← utf8ByteSize_of_ascii hascii, String.ofList_toList]
  unfold isCuid
  rw [hsize, hall]
  simp [hlow, hhigh]

theorem isCuid_of_accepted (h : keyIssues values .ref = []) :
    isCuid (trimmed values.appId) = true := by
  unfold keyIssues at h
  have happ := (List.append_eq_nil_iff.mp h).2
  split_ifs at happ with hempty hvalid
  exact isCuid_of_valid (by simpa using hvalid)

/-- A character that is no white space is not taken off. -/
theorem mem_trimmed {s : String} {c : Char} (hc : c ∈ s.toList) (hspace : isJsSpace c = false) :
    c ∈ (trimmed s).toList := by
  unfold trimmed jsTrim
  rw [String.toList_ofList]
  exact Lib.Words.mem_trim hc hspace

end form

/-! ## What the server does with it -/

section server
variable (phones : PhoneLib) {since stop : Time} (server : Time)

theorem fromArgs_reference {appId reference : String} (happ : isCuid appId = true)
    (href : Core.Pack.trim reference.toList ≠ []) (hle : since ≤ stop)
    (hwidth : stop - since ≤ days maxWindowDays)
    (hstart : Representable (stop - days defaultWindowDays)) :
    LookupPlan.fromArgs phones ⟨none, some appId, some reference, none, some since, some stop,
      none⟩ .person
        server = .ok ⟨.clientRef reference, some appId, some since, some stop, defaultLimit⟩ := by
  simp [LookupPlan.fromArgs, oneKey, planApp, ensureAppId, planKey, planLimit, planWindow,
    subDuration, ensureWindowOf, ensureWindow, happ, href, hstart, not_lt.mpr hle,
    not_lt.mpr hwidth, defaultLimit, maxLimit, bind, Except.bind]

theorem ensureWindow_mobile (e164 : String) :
    ensureWindow (.msisdn e164) server since stop = .ok () ↔
    since ≤ stop ∧ stop - since ≤ days maxWindowDays ∧ Representable (server - days maxWindowDays) ∧
      server - days maxWindowDays ≤ since := by
  unfold ensureWindow subDuration
  split_ifs with horder hwide hretention
  · exact iff_of_false (invalid_ne_ok _ _) fun h => absurd h.1 (not_le.mpr horder)
  · exact iff_of_false (invalid_ne_ok _ _) fun h => absurd h.2.1 (not_le.mpr hwide)
  · dsimp only
    split_ifs with hearly
    · exact iff_of_false (invalid_ne_ok _ _) fun h => absurd h.2.2.2 (not_le.mpr hearly)
    · exact iff_of_true rfl ⟨not_lt.mp horder, not_lt.mp hwide, hretention, not_lt.mp hearly⟩
  · exact iff_of_false (by simp) fun h => hretention h.2.2.1

/-- A number gets as far as the checks of the window. -/
theorem fromArgs_mobile (since : Time) {raw : String} {number : Msisdn}
    (hparse : parseMobile phones raw = .ok number)
    (hstart : Representable (stop - days defaultWindowDays)) :
    LookupPlan.fromArgs phones ⟨none, none, none, some raw, some since, some stop,
      none⟩ .person server =
      (ensureWindow (.msisdn number.e164) server since stop).map fun _ =>
        ⟨.msisdn number.e164, none, some since, some stop, defaultLimit⟩ := by
  simp [LookupPlan.fromArgs, oneKey, planApp, ensureAppId, planKey, planLimit, planWindow,
    subDuration, ensureWindowOf, hparse, hstart, defaultLimit, maxLimit, bind, Except.bind]
  rfl

end server

/-! ## The form and the server -/

section agreement
variable {phones : PhoneLib} {kind : LookupKind} {values : LookupFormValues} {first last : IsoDate}
variable {now : ℤ} {server : Time}

theorem days_eq (n : ℤ) : days n = n * 86400000000 := by
  unfold days hours minutes seconds
  ring

/-- The server can count back the seven days of a window that it is not asked for. -/
theorem representable_start (hlast : InYears last) :
    Representable (days (last.dayNumber + 1) - days defaultWindowDays) := by
  have hbounds := hlast.bounds
  unfold Representable minUtc maxUtc seconds defaultWindowDays
  rw [days_eq, days_eq]
  constructor <;> linarith

/-- Days, as the server counts them. -/
theorem Window.bounded (h : Window kind now first last) :
    days first.dayNumber ≤ days (last.dayNumber + 1) ∧
    days (last.dayNumber + 1) - days first.dayNumber ≤ days maxWindowDays := by
  have horder := h.order
  have hwidth := h.width
  unfold maxFormDays at hwidth
  unfold maxWindowDays
  rw [days_eq, days_eq, days_eq]
  constructor <;> linarith

/-- **The floor of the form is above that of the server**, wherever in the day its clock is. -/
theorem le_days {day : ℤ} (hday : server / days 1 = day) {d : ℤ} (h : day - 89 ≤ d) :
    server - days maxWindowDays ≤ days d := by
  have hclock : server < (server / days 1 + 1) * days 1 :=
    Int.lt_ediv_add_one_mul_self _ (by decide)
  rw [hday, days_eq] at hclock
  unfold maxWindowDays
  rw [days_eq, days_eq]
  linarith

/-- A day that is more than ninety days before the server's is out of its reach. -/
theorem days_lt {day : ℤ} (hday : server / days 1 = day) {d : ℤ} (h : d < day - 90) :
    days d < server - days maxWindowDays := by
  have hclock : server / days 1 * days 1 ≤ server := Int.ediv_mul_le _ (by decide)
  rw [hday, days_eq] at hclock
  unfold maxWindowDays
  rw [days_eq, days_eq]
  linarith

/-- **The window that is sent**: the server reads the starts of the two days. -/
theorem window_sent (hfilled : Filled phones kind values first last) : ∃ stop,
    startOfNextDay values.to = some stop ∧
      readBound (some (startText values.from)) = some (some (days first.dayNumber)) ∧
      readBound (some stop) = some (some (days (last.dayNumber + 1))) := by
  obtain ⟨next, hnext⟩ := exists_next hfilled.to_years
  refine ⟨iso (startOfDay next), ?_, ?_, ?_⟩
  · rw [hfilled.to_text]
    exact startOfNextDay_eq hnext
  · rw [hfilled.from_text, readBound, readInstant_eq (toList_startText first), Option.map_some]
  · rw [readBound, iso, readInstant_eq String.toList_ofList, hnext, Option.map_some]

/-- **By reference** the server searches what the form accepts. -/
theorem searches_reference (hfilled : Filled phones .ref values first last)
    (hwindow : Window .ref now first last) (happ : isCuid (trimmed values.appId) = true) :
    Searches phones .ref values first last server := by
  obtain ⟨stop, hstop, hsince, huntil⟩ := window_sent hfilled
  obtain ⟨c, hc, hjs, hrust⟩ := hfilled.reference rfl
  obtain ⟨horder, hwidth⟩ := hwindow.bounded
  have href : Core.Pack.trim (trimmed values.clientRef).toList ≠ [] :=
    Core.Pack.trim_ne_nil (mem_trimmed hc hjs) hrust
  have hplan :=
    fromArgs_reference phones server happ href horder hwidth (representable_start hfilled.to_years)
  refine ⟨_, _, _, by rw [toLookupArgs, hstop]; rfl, ?_, hplan, rfl, rfl⟩
  simp only [LookupArgs.query, hsince, huntil, Option.bind_eq_bind, Option.bind_some]

/-- **By number** it has to reach back as far. -/
theorem searches_number (hfilled : Filled phones .number values first last)
    (hwindow : Window .number now first last) :
    Searches phones .number values first last server ↔ Representable (server - days maxWindowDays) ∧
      server - days maxWindowDays ≤ days first.dayNumber := by
  obtain ⟨stop, hstop, hsince, huntil⟩ := window_sent hfilled
  obtain ⟨number, hparse⟩ := hfilled.number rfl
  obtain ⟨horder, hwidth⟩ := hwindow.bounded
  have hplan :=
    fromArgs_mobile phones server (days first.dayNumber) hparse
    (representable_start hfilled.to_years)
  constructor
  · rintro ⟨args, query, plan, hargs, hquery, hok, -, -⟩
    rw [toLookupArgs, hstop] at hargs
    obtain rfl := Option.some.inj hargs
    simp only [LookupArgs.query, hsince, huntil, Option.bind_eq_bind, Option.bind_some,
      Option.some.injEq] at hquery
    subst hquery
    rw [hplan] at hok
    rcases hensure :
      ensureWindow (.msisdn number.e164) server (days first.dayNumber) (days (last.dayNumber + 1))
      with e | accepted
    · rw [hensure] at hok
      cases hok
    · exact ((ensureWindow_mobile server number.e164).mp hensure).2.2
  · intro hreach
    have hensure := (ensureWindow_mobile server number.e164).mpr ⟨horder, hwidth, hreach⟩
    rw [hensure] at hplan
    refine ⟨_, _, _, by rw [toLookupArgs, hstop]; rfl, ?_, hplan, rfl, rfl⟩
    simp only [LookupArgs.query, hsince, huntil, Option.bind_eq_bind, Option.bind_some]

/-- **What the form accepts the server searches** exactly if the lookup reaches as far. -/
theorem searches_iff (hkind : kind ≠ .id) (hday : server / days 1 = now / msPerDay)
    (hfilled : Filled phones kind values first last)
    (haccepted : lookupSchema kind now values = some []) :
    Searches phones kind values first last server ↔ Reaches kind now server := by
  have hwindow :=
    window_of_accepted hfilled.from_text hfilled.to_text hfilled.from_years hkind haccepted
  cases kind with
  | id => exact absurd rfl hkind
  | ref =>
    have happ := isCuid_of_accepted ((lookupSchema_eq_nil hkind).mp haccepted).1
    exact iff_of_true (searches_reference hfilled hwindow happ) fun h => by cases h
  | number =>
    rw [searches_number hfilled hwindow]
    have hbounds := hfilled.from_years.bounds
    constructor
    · rintro ⟨hretention, hsince⟩ -
      refine ⟨?_, hretention⟩
      by_contra hyear
      have hstart : 2932897 ≤ now / msPerDay - 89 := by
        have hyear :=
          (ofDayNumber (now / msPerDay - 89)).le_year_iff.mp
          (Int.add_one_le_of_lt (not_le.mp hyear))
        rwa [dayNumber_ofDayNumber, show yearStart (9999 + 1) = 2932897 by decide] at hyear
      exact absurd hsince (not_le.mpr (days_lt hday (by omega)))
    · intro hreaches
      obtain ⟨hyear, hretention⟩ := hreaches rfl
      exact ⟨hretention, le_days hday (hwindow.reach rfl hyear)⟩

/-- The form with a window. -/
def withWindow (values : LookupFormValues) (first last : IsoDate) : LookupFormValues :=
  { values with «from» := String.ofList first.text, «to» := String.ofList last.text }

/-- **A preset is accepted**, with a key that is. -/
theorem preset_accepted (hkind : kind ≠ .id) (hkey : keyIssues values kind = []) {n : ℤ}
    (hn : n ∈ windowPresets) (hfirst : first.dayNumber = now / msPerDay - (n - 1))
    (hlast : last.dayNumber = now / msPerDay) (hyears : InYears first) (hyears' : InYears last) :
    presetWindow n now = some (String.ofList first.text, String.ofList last.text) ∧
      lookupSchema kind now (withWindow values first last) = some [] := by
  have hdays : 1 ≤ n ∧ n ≤ 90 := by
    simp only [windowPresets, List.mem_cons, List.not_mem_nil, or_false] at hn
    omega
  have hlast' : last.dayNumber = now / msPerDay + 0 := by rw [hlast, add_zero]
  have hbounds := hyears'.bounds
  have hfloor : ∃ floor, earliestFrom kind now = some floor ∧
      ¬ floor.any (jsLt (withWindow values first last).from ·) = true := by
    have hfour : FourDigits (now / msPerDay - 89) := fourDigits_iff.mpr (by omega)
    have hutc : utcDate now (-(maxFormDays - 1)) = some (String.ofList (isoDate _ hfour).text) :=
      utcDate_eq (dayNumber_ofDayNumber _)
    cases kind with
    | id => exact absurd rfl hkind
    | ref => exact ⟨none, rfl, by simp⟩
    | number =>
      refine ⟨some (String.ofList (isoDate _ hfour).text),
        by rw [earliestFrom, hutc, Option.map_some], ?_⟩
      rw [Option.any_some, withWindow, lt_floor_iff hyears hutc, maxFormDays]
      omega
  obtain ⟨floor, hfloor, hlt⟩ := hfloor
  constructor
  · simp only [presetWindow, utcDate_eq hfirst, utcDate_eq hlast', Option.bind_eq_bind,
      Option.bind_some]
  · refine (lookupSchema_eq_nil hkind).mpr ⟨by cases kind <;> exact hkey, floor, hfloor, ?_⟩
    refine (windowIssues_eq_nil rfl rfl).mpr ⟨?_, ?_, hlt⟩
    · omega
    · unfold maxFormDays
      omega

/-- From a clock of the years, a lookup reaches as far as the form. -/
theorem reaches_of_inYears (hserver : Representable server)
    (hday : server / days 1 = now / msPerDay) (hlast : last.dayNumber = now / msPerDay)
    (hyears : InYears last) : Reaches kind now server := by
  have hbounds := hyears.bounds
  have hfour : FourDigits (now / msPerDay - 89) := fourDigits_iff.mpr (by omega)
  refine fun _ => ⟨hfour.2, ?_, ?_⟩
  · have hclock : server / days 1 * days 1 ≤ server := Int.ediv_mul_le _ (by decide)
    rw [hday, days_eq] at hclock
    unfold minUtc seconds maxWindowDays
    rw [days_eq]
    linarith
  · refine le_trans ?_ hserver.2
    unfold maxWindowDays
    rw [days_eq]
    linarith

end agreement

/-- **The form and the server agree exactly if the lookup reaches as far**, whatever form is
accepted, and whatever times of one day the two clocks show. The windows that the form offers are
accepted and searched in any case. -/
theorem form_agrees_iff (phones : PhoneLib) (kind : LookupKind) (hkind : kind ≠ .id) (now : ℤ)
    (server : Time) (hserver : Representable server) (hday : server / days 1 = now / msPerDay)
    (values : LookupFormValues) (first last : IsoDate)
    (hfilled : Filled phones kind values first last)
    (haccepted : lookupSchema kind now values = some []) :
    (Searches phones kind values first last server ↔ Reaches kind now server) ∧
      ∀ n ∈ windowPresets, ∀ first' last' : IsoDate, first'.dayNumber = now / msPerDay - (n - 1) →
        last'.dayNumber = now / msPerDay → InYears first' → InYears last' →
        presetWindow n now = some (String.ofList first'.text, String.ofList last'.text) ∧
          lookupSchema kind now (withWindow values first' last') = some [] ∧
          Searches phones kind (withWindow values first' last') first' last' server := by
  refine ⟨searches_iff hkind hday hfilled haccepted,
    fun n hn first' last' hfirst hlast hyears hyears' => ?_⟩
  have hkey := ((lookupSchema_eq_nil hkind).mp haccepted).1
  obtain ⟨hpreset, hschema⟩ := preset_accepted hkind hkey hn hfirst hlast hyears hyears'
  have hfilled' : Filled phones kind (withWindow values first' last') first' last' :=
    ⟨rfl, rfl, hyears, hyears', hfilled.number, hfilled.reference⟩
  exact ⟨hpreset, hschema,
    (searches_iff hkind hday hfilled' hschema).mpr (reaches_of_inYears hserver hday hlast hyears')⟩

/-! ### A clock of the tenth millennium -/

/-- The thirtieth of October 2026. -/
def october : ℤ := 20756

theorem october_fourDigits : FourDigits october ∧ FourDigits (october - 89) := by decide

def lastDay : IsoDate := isoDate october october_fourDigits.1

/-- The day eighty-nine before. -/
def firstDay : IsoDate := isoDate (october - 89) october_fourDigits.2

theorem october_inYears : InYears firstDay ∧ InYears lastDay := by
  unfold InYears
  decide

/-- A lookup by number of one day. -/
def numberForm : LookupFormValues := ⟨"", "", "", " +237677123456", "2026-10-30", "2026-10-30"⟩

theorem numberForm_filled : Filled mobileLib .number numberForm lastDay lastDay where
  from_text := by decide
  to_text := by decide
  from_years := october_inYears.2
  to_years := october_inYears.2
  number _ :=
    ⟨mobileMsisdn,
    (by decide : trimmed numberForm.msisdn = "+237677123456") ▸ parseMobile_mobileLib⟩
  reference := by rintro ⟨⟩

/-- A minute before midnight. -/
def lateInTheDay : ℤ := october * msPerDay + 86340000

/-- The form is asked about the one day, and about the longest preset. -/
theorem form_agrees_late_in_the_day :
    (Searches mobileLib .number numberForm lastDay lastDay (lateInTheDay * 1000 + 30000000) ↔
      Reaches .number lateInTheDay (lateInTheDay * 1000 + 30000000)) ∧
      Searches mobileLib .number (withWindow numberForm firstDay lastDay) firstDay lastDay
        (lateInTheDay * 1000 + 30000000) := by
  have h :=
    form_agrees_iff mobileLib .number (by decide) lateInTheDay (lateInTheDay * 1000 + 30000000)
    (by decide)
    (by decide) numberForm lastDay lastDay numberForm_filled (by decide +kernel)
  exact ⟨h.1, (h.2 90 (by decide) firstDay lastDay (by decide) (by decide) october_inYears.1
    october_inYears.2).2.2⟩

/-- A clock of the year 10000, and its day. -/
def farDay : ℤ := 2933000

/-- **From a clock of the year 10000** the form accepts a lookup by number of a day nearly eight
thousand years before, and the server refuses it. -/
theorem far_clock_is_refused : Filled mobileLib .number numberForm lastDay lastDay ∧
    Representable (days farDay) ∧ days farDay / days 1 = farDay * msPerDay / msPerDay ∧
    lookupSchema .number (farDay * msPerDay) numberForm = some [] ∧
    ¬ Searches mobileLib .number numberForm lastDay lastDay (days farDay) := by
  have haccepted : lookupSchema .number (farDay * msPerDay) numberForm = some [] := by
    decide +kernel
  refine ⟨numberForm_filled, by decide, by decide, haccepted, fun h => ?_⟩
  have hreaches := (searches_iff (by decide) (by decide) numberForm_filled haccepted).mp h
  have hyear := (hreaches rfl).1
  revert hyear
  decide

end Vsms.Console.LookupForm
