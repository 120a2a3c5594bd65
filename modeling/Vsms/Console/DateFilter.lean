import Vsms.Console.LiveList
import Vsms.Core.Instants

/-! # The filter by date

`listMessages` compares the time that a message was created with the bounds of the filter, `from`
inclusive and `to` exclusive, as strings. The order of the strings is that of the instants where
both go on to the same digit (`not_misjudged_of_length`), or part before one of them ends. Where one
goes on after the other has ended, the longer one comes first, whatever its digits are: half a
millisecond past midnight is before a midnight that is written with milliseconds. A row is kept
exactly if it is in the range, but for a bound that is misjudged in this way
(`kept_iff_inRange_iff`). -/

namespace Vsms.Console.DateFilter

open Vsms.Lib.Calendar Vsms.Lib.Decimals Vsms.Core.Instants Vsms.Console.Reconcile
    Vsms.Console.LiveList

/-! ## Strings -/

theorem map_lt_map_iff {α β : Type*} [LinearOrder α] [LinearOrder β] {f : α → β} (hf : StrictMono f)
    (s t : List α) : s.map f < t.map f ↔ s < t := by
  induction s generalizing t with
  | nil => cases t <;> simp
  | cons a s ih =>
    cases t with
    | nil => simp
    | cons b t =>
      rw [List.map_cons, List.map_cons, List.cons_lt_cons_iff, List.cons_lt_cons_iff, hf.lt_iff_lt,
        hf.injective.eq_iff, ih]

theorem utf16_cons {c : Char} (hc : c ≤ 'Z') (s : List Char) :
    utf16 (String.ofList (c :: s)) = c.toNat :: utf16 (String.ofList s) := by
  have hunit : c.toNat < 0x10000 := lt_of_le_of_lt hc (by decide)
  unfold utf16
  rw [String.toList_ofList, String.toList_ofList, List.flatMap_cons]
  dsimp only
  rw [if_pos hunit, List.singleton_append]

/-- A text of characters up to `Z` has a code unit for each. -/
theorem utf16_ofList {s : List Char} (hs : ∀ c ∈ s, c ≤ 'Z') :
    utf16 (String.ofList s) = s.map Char.toNat := by
  induction s with
  | nil => rfl
  | cons c s ih =>
    obtain ⟨hc, hs⟩ := List.forall_mem_cons.mp hs
    rw [utf16_cons hc, ih hs, List.map_cons]

theorem jsLt_ofList {s t : List Char} (hs : ∀ c ∈ s, c ≤ 'Z') (ht : ∀ c ∈ t, c ≤ 'Z') :
    jsLt (String.ofList s) (String.ofList t) = true ↔ s < t := by
  unfold jsLt
  rw [utf16_ofList hs, utf16_ofList ht, decide_eq_true_iff]
  exact map_lt_map_iff (fun _ _ h => Char.lt_def.mp h) s t

theorem numeral_le (w n : ℕ) : ∀ c ∈ numeral w n, c ≤ 'Z' := by
  intro c hc
  obtain ⟨d, -, rfl⟩ := List.mem_map.mp hc
  exact (digitChar_below d).le

theorem secondsText_le (seconds : Option (Fin 60 × List (Fin 10))) :
    ∀ c ∈ secondsText seconds, c ≤ 'Z' := by
  rcases seconds with _ | ⟨s, ds⟩
  · simp [secondsText]
  · have hfraction : ∀ c ∈ fractionText ds, c ≤ 'Z' := by
      cases ds with
      | nil => simp [fractionText]
      | cons d ds =>
        rw [fractionText, List.forall_mem_cons]
        refine ⟨by decide, fun c hc => ?_⟩
        obtain ⟨e, -, rfl⟩ := List.mem_map.mp hc
        exact (digitChar_below e).le
    rw [secondsText, List.forall_mem_cons, List.forall_mem_append]
    exact ⟨by decide, numeral_le _ _, hfraction⟩

theorem text_le (b : Stamp) : ∀ c ∈ b.text, c ≤ 'Z' := by
  rw [Stamp.text, Stamp.stem, IsoDate.text, Clock.text]
  simp only [List.forall_mem_append, List.forall_mem_cons]
  exact ⟨⟨⟨numeral_le _ _, by decide, numeral_le _ _, by decide, numeral_le _ _⟩, by decide,
    numeral_le _ _, by decide, numeral_le _ _, secondsText_le _⟩, by decide, by simp⟩

/-- The text, as a string. -/
def iso (b : Stamp) : String := String.ofList b.text

/-! ## Comparing -/

/-- **The strings are not in the order of the instants**: one goes on where the other ends. -/
def Misjudged (created bound : Stamp) : Prop :=
  bound.stem <+: created.stem ∧ bound.stem ≠ created.stem ∨
    created.stem <+: bound.stem ∧ created.instant < bound.instant

instance (created bound : Stamp) : Decidable (Misjudged created bound) :=
  inferInstanceAs (Decidable (_ ∨ _))

theorem jsLt_iso (created bound : Stamp) :
    jsLt (iso created) (iso bound) = true ↔
    (created.instant < bound.instant ↔ ¬ Misjudged created bound) := by
  have hagrees := created.agrees bound
  unfold iso Misjudged
  rw [jsLt_ofList (text_le _) (text_le _)]
  refine hagrees.lt_iff.trans ?_
  have hle : bound.stem <+: created.stem → ¬ created.instant < bound.instant := fun h =>
    not_lt.mpr (hagrees.le_left h)
  have hanti : bound.stem <+: created.stem → created.stem <+: bound.stem →
      bound.stem = created.stem := fun h h' =>
    h.eq_of_length_le h'.length_le
  tauto

/-- **Texts of one length are in the order of the instants.** -/
theorem not_misjudged_of_length {created bound : Stamp}
    (h : bound.text.length = created.text.length) :
    ¬ Misjudged created bound := by
  have hlength : bound.stem.length = created.stem.length := by simpa [Stamp.text] using h
  rintro (⟨hleads, hne⟩ | ⟨hleads, hlt⟩)
  · exact hne (hleads.eq_of_length hlength)
  · have hstem := hleads.eq_of_length hlength.symm
    exact absurd ((created.agrees bound).le_left (hstem ▸ List.prefix_rfl)) (not_le.mpr hlt)

/-! ## The range -/

section Range
variable (created : Stamp) (since before : Option Stamp)

/-- `from <= createdAt` -/
def FromHolds : Prop := ∀ b ∈ since, b.instant ≤ created.instant

/-- `createdAt < to` -/
def ToHolds : Prop := ∀ b ∈ before, created.instant < b.instant

/-- **The range of the filter**, as instants. -/
def InRange : Prop := FromHolds created since ∧ ToHolds created before

def FromMisjudged : Prop := ∃ b ∈ since, Misjudged created b

def ToMisjudged : Prop := ∃ b ∈ before, Misjudged created b

/-- **No bound that is misjudged decides.** One that is does no harm if the other bound rules the
row out; if both are, the row must be on the right side of one of them. -/
structure Sound : Prop where
  from_only : FromMisjudged created since → ¬ ToMisjudged created before → ¬ ToHolds created before
  to_only : ToMisjudged created before → ¬ FromMisjudged created since → ¬ FromHolds created since
  both : FromMisjudged created since → ToMisjudged created before →
    (FromHolds created since ↔ ¬ ToHolds created before)

variable {created since before} in
theorem sound_iff : Sound created since before ↔
    (FromMisjudged created since → ¬ ToMisjudged created before → ¬ ToHolds created before) ∧
      (ToMisjudged created before → ¬ FromMisjudged created since → ¬ FromHolds created since) ∧
      (FromMisjudged created since → ToMisjudged created before →
        (FromHolds created since ↔ ¬ ToHolds created before)) :=
  ⟨fun h => ⟨h.from_only, h.to_only, h.both⟩, fun h => ⟨h.1, h.2.1, h.2.2⟩⟩

/-- What the strings say of the two bounds. -/
theorem withinRange_iff : withinRange (iso created) (since.map iso) (before.map iso) = true ↔
    (FromHolds created since ↔ ¬ FromMisjudged created since) ∧
      (ToHolds created before ↔ ¬ ToMisjudged created before) := by
  have hsince : (since.map iso).any (jsLt (iso created) ·) = true ↔
      ¬ (FromHolds created since ↔ ¬ FromMisjudged created since) := by
    unfold FromHolds FromMisjudged
    cases since with
    | none => simp
    | some b =>
      simp only [Option.map_some, Option.any_some, jsLt_iso, Option.mem_some_iff, forall_eq',
        exists_eq_left', ← not_lt]
      tauto
  have hbefore : (before.map iso).any (!jsLt (iso created) ·) = true ↔
      ¬ (ToHolds created before ↔ ¬ ToMisjudged created before) := by
    unfold ToHolds ToMisjudged
    cases before with
    | none => simp
    | some b =>
      simp only [Option.map_some, Option.any_some, Bool.not_eq_true', ← Bool.not_eq_true, jsLt_iso,
        Option.mem_some_iff, forall_eq', exists_eq_left']
  unfold withinRange
  split_ifs with hf ht
  · exact iff_of_false id fun h => hsince.mp hf h.1
  · exact iff_of_false id fun h => hbefore.mp ht h.2
  · exact iff_of_true rfl ⟨not_not.mp (mt hsince.mpr hf), not_not.mp (mt hbefore.mpr ht)⟩

/-- **The strings say what the instants do** exactly if no misjudged bound decides. -/
theorem withinRange_inRange_iff :
    (withinRange (iso created) (since.map iso) (before.map iso) = true ↔
    InRange created since before) ↔ Sound created since before := by
  rw [withinRange_iff]
  unfold InRange
  rw [sound_iff]
  by_cases hfrom : FromMisjudged created since <;> by_cases hto : ToMisjudged created before <;>
    simp only [hfrom, hto, not_true_eq_false, not_false_eq_true, iff_false, iff_true, false_imp_iff,
      true_imp_iff, true_and, and_true]
  · by_cases hholds : FromHolds created since <;> simp [hholds]
  · by_cases hholds : FromHolds created since <;> simp [hholds]
  · by_cases hholds : FromHolds created since <;> simp [hholds]

end Range

/-! ## The rows that are kept -/

/-- The bounds that the router accepts: `z.string().datetime().optional()`. -/
def listInput : Option String → Option (Option Stamp)
  | none => some none
  | some s => (datetime s.toList).map some

/-- **A row of the page is kept**: some part of the list has it. -/
def Kept (f : Filters) (page : MessagesPage) (record : MessageRecord) : Prop :=
  ∃ limit offset, record.toMessageListItem ∈ (listMessages ⟨f, limit, offset⟩ (some page)).items

/-- The filters by state and by client reference. -/
def Others (f : Filters) (record : MessageRecord) : Prop :=
  (f.state = none ∨ f.state = some record.state) ∧
    (f.clientRef = none ∨ f.clientRef = record.clientRef)

theorem listInput_eq_some {bound : Option String} {stamp : Option Stamp}
    (h : listInput bound = some stamp) :
    bound = stamp.map iso := by
  cases bound with
  | none =>
    obtain rfl := Option.some.inj h
    rfl
  | some s =>
    obtain ⟨b, hb, rfl⟩ := Option.map_eq_some_iff.mp h
    rw [Option.map_some, iso, ← datetime_eq_some.mp hb, String.ofList_toList]

theorem kept_iff {f : Filters} {page : MessagesPage} {record : MessageRecord}
    (h : record ∈ page.items) :
    Kept f page record ↔ f.passes record.toMessageListItem = true := by
  constructor
  · rintro ⟨limit, offset, hitem⟩
    obtain ⟨records, -, hitems, hpasses⟩ := listMessages_sublist ⟨f, limit, offset⟩ (some page)
    rw [hitems] at hitem
    obtain ⟨kept, hkept, hsame⟩ := List.mem_map.mp hitem
    rw [← hsame]
    exact hpasses kept hkept
  · intro hpasses
    have hfiltered : record ∈ page.items.filter fun record => f.passes record.toMessageListItem :=
      List.mem_filter.mpr ⟨h, hpasses⟩
    obtain ⟨i, hi, hrecord⟩ := List.getElem_of_mem hfiltered
    refine ⟨some 1, some i, List.mem_map.mpr ⟨record, ?_, rfl⟩⟩
    dsimp only [Option.map_some, Option.getD_some]
    rw [List.drop_eq_getElem_cons hi, hrecord]
    exact List.mem_cons_self

/-- **The filter by date agrees with the order of time exactly if no misjudged bound decides**,
whatever row was created at an instant that `chrono` serialises, and whatever bounds the router
accepts. -/
theorem kept_iff_inRange_iff (f : Filters) (page : MessagesPage) (record : MessageRecord)
    (hrecord : record ∈ page.items) (n : ℤ) (hyear : FourDigits (n / nanosPerDay))
    (hcreated : record.createdAt = iso (rfc3339 n hyear)) (since before : Option Stamp)
    (hfrom : listInput f.fromIso = some since) (hto : listInput f.toIso = some before) :
    (Kept f page record ↔ Others f record ∧ InRange (rfc3339 n hyear) since before) ↔
      (Others f record → Sound (rfc3339 n hyear) since before) := by
  rw [kept_iff hrecord, passes_iff, hcreated, listInput_eq_some hfrom, listInput_eq_some hto,
    ← withinRange_inRange_iff, ← and_assoc]
  exact and_congr_right_iff

/-! ### A row of the first millisecond of a day -/

/-- A row that was created at a time of the eighth of August. -/
def augustRecord (createdAt : String) : MessageRecord where
  id := "msg_1"
  appId := "app_1"
  clientRef := none
  msisdn := "+237677123456"
  operator := .mtn
  senderIdValue := "VAAM"
  messageClass := .otp
  state := .delivered
  stateReason := none
  encoding := .gsm7
  segments := 1
  providerMessageRef := none
  version := 3
  createdAt := createdAt
  updatedAt := "2026-08-08T12:00:02Z"
  submittedAt := none
  finalizedAt := none
  body := none

def augustPage (createdAt : String) : MessagesPage :=
  ⟨[augustRecord createdAt], List.nodup_singleton _⟩

def august (day : ℕ) : ℤ := 20665 + day

theorem august_fourDigits : FourDigits (august 8) ∧ FourDigits (august 9) := by decide

/-- The bounds of the screen, for the eighth of August. -/
def dayFilter : Filters :=
  ⟨none, none, some "2026-08-08T00:00:00.000Z", some "2026-08-09T00:00:00.000Z"⟩

def daySince : Stamp := startOfDay (isoDate (august 8) august_fourDigits.1)

def dayBefore : Stamp := startOfDay (isoDate (august 9) august_fourDigits.2)

theorem day_bounds : listInput dayFilter.fromIso = some (some daySince) ∧
    listInput dayFilter.toIso = some (some dayBefore) := by decide

/-- Noon, for which the bounds are right. -/
def noon : ℤ := august 8 * nanosPerDay + 43200 * nanosPerSecond

/-- Half a millisecond past midnight. -/
def early : ℤ := august 8 * nanosPerDay + 500000

theorem noon_fourDigits : FourDigits (noon / nanosPerDay) := by decide

theorem early_fourDigits : FourDigits (early / nanosPerDay) := by decide

theorem noon_row_is_kept :
    Kept dayFilter (augustPage "2026-08-08T12:00:00Z") (augustRecord "2026-08-08T12:00:00Z") ↔
      Others dayFilter (augustRecord "2026-08-08T12:00:00Z") ∧
        InRange (rfc3339 noon noon_fourDigits) (some daySince) (some dayBefore) := by
  refine (kept_iff_inRange_iff dayFilter (augustPage "2026-08-08T12:00:00Z")
    (augustRecord "2026-08-08T12:00:00Z")
    List.mem_cons_self noon noon_fourDigits (by decide) (some daySince)
      (some dayBefore) day_bounds.1
    day_bounds.2).mpr fun _ => ?_
  have hsince : ¬ Misjudged (rfc3339 noon noon_fourDigits) daySince := by decide
  have hbefore : ¬ Misjudged (rfc3339 noon noon_fourDigits) dayBefore := by decide
  exact sound_iff.mpr (by simp [FromMisjudged, ToMisjudged, hsince, hbefore])

/-- **A row of the first millisecond of the day** is in the range, and is not kept. -/
theorem early_row_is_dropped :
    (augustRecord "2026-08-08T00:00:00.000500Z").createdAt = iso (rfc3339 early early_fourDigits) ∧
      listInput dayFilter.fromIso = some (some daySince) ∧
      listInput dayFilter.toIso = some (some dayBefore) ∧
      ¬ (Kept dayFilter (augustPage "2026-08-08T00:00:00.000500Z")
        (augustRecord "2026-08-08T00:00:00.000500Z") ↔
        Others dayFilter (augustRecord "2026-08-08T00:00:00.000500Z") ∧
          InRange (rfc3339 early early_fourDigits) (some daySince) (some dayBefore)) := by
  refine ⟨by decide, day_bounds.1, day_bounds.2, fun h => ?_⟩
  rw [kept_iff List.mem_cons_self] at h
  have hothers : Others dayFilter (augustRecord "2026-08-08T00:00:00.000500Z") :=
    ⟨.inl rfl, .inl rfl⟩
  have hrange : InRange (rfc3339 early early_fourDigits) (some daySince) (some dayBefore) := by
    have hsince : daySince.instant = august 8 * 86400 := by
      rw [daySince, instant_startOfDay, isoDate, dayNumber_ofDayNumber]
    have hbefore : dayBefore.instant = august 9 * 86400 := by
      rw [dayBefore, instant_startOfDay, isoDate, dayNumber_ofDayNumber]
    constructor
    · rintro b ⟨⟩
      rw [hsince, instant_rfc3339]
      norm_num [early, august, nanosPerDay, nanosPerSecond]
    · rintro b ⟨⟩
      rw [hbefore, instant_rfc3339]
      norm_num [early, august, nanosPerDay, nanosPerSecond]
  exact absurd (h.mpr ⟨hothers, hrange⟩) (by decide)

end Vsms.Console.DateFilter
