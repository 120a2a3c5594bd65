import Vsms.Api.Delivery

/-! # The window of a lookup

`LookupPlan::from_args` subtracts from two instants: seven days from the end of the window, for the
default of its start, and for a number ninety days from the clock. `chrono` panics where such a
difference is before the first instant it has. The first one is taken of every lookup by a number or
a reference that gets as far as the window, also where `since` is given; the second where the window
is in order and not too wide.

A plan that is returned is bounded in any case (`plan_bounded`). -/

namespace Vsms.Api.Windows

open Vsms.Schema.Types Vsms.Core.Chrono Vsms.Core.Numbers Vsms.Lib.Indexes
open Vsms.Api.Lookups (Asker Key)
open Vsms.Api.Send (Failure fail)
open Vsms.Api.Delivery

/-! ## Lookups that get as far as the window -/

section accepted
variable (phones : PhoneLib) (args : DeliveryStatusQuery) (asker : Asker)

/-- The app a lookup is confined to, if any. -/
def appOf : Asker → Option String
  | .app appId => some appId
  | .person => args.appId

/-- The rules that do not depend on the key. -/
structure Accepted : Prop where
  own : ∀ appId named, asker = .app appId → args.appId = some named → named = appId
  app : (appOf args asker).all isCuid = true
  limit : 1 ≤ args.limit.getD defaultLimit ∧ args.limit.getD defaultLimit ≤ maxLimit

/-- The lookup is by a reference, inside an app. -/
def ByReference : Prop :=
  args.messageId = none ∧ args.msisdn = none ∧ (appOf args asker).isSome ∧
    ∃ reference, args.clientRef = some reference ∧ Core.Pack.trim reference.toList ≠ []

/-- The lookup is by the number of a mobile. -/
def ByMobile : Prop :=
  args.messageId = none ∧ args.clientRef = none ∧
    ∃ raw number, args.msisdn = some raw ∧ parseMobile phones raw = .ok number

variable (now : Time)

/-- The end of the window. -/
def windowEnd : Time := args.until.getD now

/-- Its start. -/
def windowStart : Time := args.since.getD (windowEnd args now - days defaultWindowDays)

/-- The window is in order and not too wide. -/
def Bounded (since «until» : Time) : Prop := since ≤ «until» ∧ «until» - since ≤ days maxWindowDays

/-- **Where the differences are taken, they are instants.** -/
def InRange : Prop :=
  Accepted args asker → ByReference args asker ∨ ByMobile phones args →
    Representable (windowEnd args now - days defaultWindowDays) ∧
      (ByMobile phones args → Bounded (windowStart args now) (windowEnd args now) →
        Representable (now - days maxWindowDays))

end accepted

/-! ## Ways to end -/

section ends
variable {α β : Type}

/-- Every error is a `Validation`. -/
def Validates (x : Except Failure α) : Prop :=
  ∀ e, x = .error e → ∃ message, e = .error (.validation message)

theorem Validates.ok (a : α) : Validates (.ok a : Except Failure α) := by rintro e ⟨⟩

theorem Validates.invalid (message : String) : Validates (invalid message : Except Failure α) := by
  rintro e ⟨⟩
  exact ⟨message, rfl⟩

theorem Validates.ne_panicked {x : Except Failure α} (h : Validates x) : x ≠ .error .panicked := by
  intro hx
  obtain ⟨message, he⟩ := h _ hx
  cases he

/-- Every error is a `Validation` or a panic. -/
def Ends (x : Except Failure α) : Prop :=
  ∀ e, x = .error e → e = .panicked ∨ ∃ message, e = .error (.validation message)

theorem Validates.ends {x : Except Failure α} (h : Validates x) : Ends x :=
  fun e he => .inr (h e he)

theorem Ends.panicked : Ends (.error .panicked : Except Failure α) := by
  rintro e ⟨⟩
  exact .inl rfl

theorem Ends.bind {x : Except Failure α} {f : α → Except Failure β} (h : Ends x)
    (hf : ∀ a, Ends (f a)) :
    Ends (x >>= f) := by
  intro e he
  rcases bind_error.mp he with hx | ⟨a, -, ha⟩
  · exact h e hx
  · exact hf a e ha

end ends

section plan
variable {phones : PhoneLib} {args : DeliveryStatusQuery} {asker : Asker} {now : Time}
    {appId : Option String}
  {key : Key}

theorem oneKey_validates : Validates (oneKey args) := by
  unfold oneKey
  split_ifs
  · exact .invalid _
  · exact .ok _

theorem planApp_validates : Validates (planApp args asker) := by
  cases asker with
  | person => exact .ok _
  | app appId =>
    dsimp only [planApp]
    split
    · exact .ok _
    · split_ifs
      · exact .ok _
      · exact .invalid _

theorem ensureAppId_validates : Validates (ensureAppId appId) := by
  unfold ensureAppId
  split_ifs
  · exact .ok _
  · exact .invalid _

theorem planKey_validates : Validates (planKey phones args appId) := by
  unfold planKey
  split
  · split_ifs
    · exact .ok _
    · exact .invalid _
  · split
    · split_ifs
      · exact .invalid _
      · exact .invalid _
      · exact .ok _
    · split
      · exact .ok _
      · exact .invalid _

theorem planLimit_validates : Validates (planLimit args) := by
  dsimp only [planLimit]
  split_ifs
  · exact .ok _
  · exact .invalid _

/-! ## The key -/

/-- What `from_args` has found before it looks at the window. -/
structure Keyed (phones : PhoneLib) (args : DeliveryStatusQuery) (asker : Asker) (key : Key) :
    Prop where
  one : oneKey args = .ok ()
  app : ensureAppId (appOf args asker) = .ok ()
  own : planApp args asker = .ok (appOf args asker)
  key : planKey phones args (appOf args asker) = .ok key
  limit : ∃ limit, planLimit args = .ok limit

theorem planApp_ok_iff : planApp args asker = .ok (appOf args asker) ↔
    ∀ appId named, asker = .app appId → args.appId = some named → named = appId := by
  cases asker with
  | person => simp [planApp, appOf]
  | app appId =>
    dsimp only [planApp, appOf]
    cases hnamed : args.appId with
    | none => simp
    | some named =>
      dsimp only
      split_ifs with hsame
      · subst hsame
        simp
      · simp [invalid, fail, hsame]

theorem planApp_ok {named : Option String} (h : planApp args asker = .ok named) :
    named = appOf args asker := by
  cases asker with
  | person => exact (Except.ok.inj h).symm
  | app appId => exact planApp_app h

theorem ensureAppId_ok_iff : ensureAppId appId = .ok () ↔ appId.all isCuid = true := by
  unfold ensureAppId
  split_ifs with h
  · simp [h]
  · simp [h, invalid, fail]

theorem planLimit_ok_iff : (∃ limit, planLimit args = .ok limit) ↔
    1 ≤ args.limit.getD defaultLimit ∧ args.limit.getD defaultLimit ≤ maxLimit := by
  dsimp only [planLimit]
  split_ifs with h
  · simp [h]
  · simp [h, invalid, fail]

/-- The rules on the key name what the lookup is by. -/
theorem key_iff : (oneKey args = .ok () ∧ planKey phones args appId = .ok key) ↔
    (∃ id, key = .messageId id ∧ args.messageId = some id ∧ args.clientRef = none ∧
      args.msisdn = none ∧
      isCuid id = true) ∨
    (∃ reference, key = .clientRef reference ∧ args.messageId = none ∧
      args.clientRef = some reference ∧
      args.msisdn = none ∧ Core.Pack.trim reference.toList ≠ [] ∧ appId.isSome) ∨
    ∃ raw number, key = .msisdn number.e164 ∧ args.messageId = none ∧ args.clientRef = none ∧
      args.msisdn = some raw ∧ parseMobile phones raw = .ok number := by
  unfold oneKey planKey
  rcases hid : args.messageId with _ | id <;> rcases href : args.clientRef with _ | reference <;>
    rcases hnum : args.msisdn with _ | raw <;> simp [invalid, fail]
  · rcases hparse : parseMobile phones raw with e | number
    · simp
    · simp only [Except.ok.injEq, exists_eq_right']
      exact eq_comm
  · split_ifs with hblank happ
    · simp [hblank]
    · simp [happ]
    · have hsome : appId.isSome = true := by
        cases appId with
        | none => exact absurd rfl happ
        | some appId => rfl
      simp [hblank, hsome, eq_comm]
  · split_ifs with hcuid
    · simp only [Except.ok.injEq, hcuid, and_true]
      exact eq_comm
    · simp [hcuid]

/-! ## Where the differences are taken -/

theorem subDuration_eq_none_iff {t d : Time} : subDuration t d = none ↔
    ¬ Representable (t - d) := by
  unfold subDuration
  split_ifs with h <;> simp [h]

theorem planWindow_of_ne (h : ∀ id, key ≠ .messageId id) :
    planWindow args now key =
      if Representable (windowEnd args now - days defaultWindowDays) then
        .ok (some (windowStart args now), some (windowEnd args now))
      else .error .panicked := by
  have hstart : planWindow args now key =
      (subDuration (windowEnd args now) (days defaultWindowDays)).elim (.error .panicked)
        fun start => .ok (some (args.since.getD start), some (windowEnd args now)) := by
    unfold planWindow windowEnd
    cases key with
    | messageId id => exact absurd rfl (h id)
    | clientRef reference =>
      dsimp only
      cases subDuration (args.until.getD now) (days defaultWindowDays) <;> rfl
    | msisdn e164 =>
      dsimp only
      cases subDuration (args.until.getD now) (days defaultWindowDays) <;> rfl
  rw [hstart]
  unfold subDuration windowStart
  by_cases hin : Representable (windowEnd args now - days defaultWindowDays)
  · rw [if_pos hin, if_pos hin, Option.elim_some]
  · rw [if_neg hin, if_neg hin, Option.elim_none]

/-- **The second difference.** -/
theorem ensureWindow_panicked {since «until» : Time} :
    ensureWindow key now since «until» = .error .panicked ↔
      (∃ e164, key = .msisdn e164) ∧ Bounded since «until» ∧
      ¬ Representable (now - days maxWindowDays) := by
  unfold ensureWindow Bounded
  split_ifs with horder hwide
  · simp [invalid, fail, not_le.mpr horder]
  · simp [invalid, fail, not_le.mpr hwide]
  · cases key with
    | messageId id => simp
    | clientRef reference => simp
    | msisdn e164 =>
      dsimp only
      cases hsub : subDuration now (days maxWindowDays) with
      | none => simp [subDuration_eq_none_iff.mp hsub, not_lt.mp horder, not_lt.mp hwide]
      | some earliest =>
        have hin : Representable (now - days maxWindowDays) := by
          by_contra hout
          rw [subDuration_eq_none_iff.mpr hout] at hsub
          cases hsub
        dsimp only
        split_ifs <;> simp [invalid, fail, hin]

/-- The window of a plan by a message id is not looked at that way. -/
theorem ensureWindowOf_panicked {since «until» : Option Time}
    (h : ensureWindowOf key now since «until» = .error .panicked) : ∃ e164, key = .msisdn e164 := by
  unfold ensureWindowOf at h
  split at h
  · exact (ensureWindow_panicked.mp h).1
  · cases h

theorem planWindow_ends : Ends (planWindow args now key) := by
  cases key with
  | messageId id => exact (Validates.ok _).ends
  | clientRef reference =>
    rw [planWindow_of_ne (by simp)]
    split_ifs
    · exact (Validates.ok _).ends
    · exact .panicked
  | msisdn e164 =>
    rw [planWindow_of_ne (by simp)]
    split_ifs
    · exact (Validates.ok _).ends
    · exact .panicked

theorem ensureWindow_ends {since «until» : Time} : Ends (ensureWindow key now since «until») := by
  unfold ensureWindow
  split_ifs
  · exact (Validates.invalid _).ends
  · exact (Validates.invalid _).ends
  · split
    · split
      · exact .panicked
      · split_ifs
        · exact (Validates.invalid _).ends
        · exact (Validates.ok _).ends
    · exact (Validates.ok _).ends

theorem ensureWindowOf_ends {since «until» : Option Time} :
    Ends (ensureWindowOf key now since «until») := by
  unfold ensureWindowOf
  split
  · exact ensureWindow_ends
  · exact (Validates.ok _).ends

theorem fromArgs_ends : Ends (LookupPlan.fromArgs phones args asker now) := by
  unfold LookupPlan.fromArgs
  refine oneKey_validates.ends.bind fun _ => planApp_validates.ends.bind fun _ =>
    ensureAppId_validates.ends.bind fun _ => planKey_validates.ends.bind fun _ =>
      planLimit_validates.ends.bind fun _ => planWindow_ends.bind fun _ =>
        ensureWindowOf_ends.bind fun _ => ?_
  exact (Validates.ok _).ends

/-! ## When the plan is not made -/

/-- What `from_args` does once it has the key. -/
theorem fromArgs_panicked_of_key : LookupPlan.fromArgs phones args asker now = .error .panicked ↔
    ∃ key, Keyed phones args asker key ∧ (planWindow args now key = .error .panicked ∨
      ∃ window, planWindow args now key = .ok window ∧
        ensureWindowOf key now window.1 window.2 = .error .panicked) := by
  unfold LookupPlan.fromArgs
  constructor
  · intro h
    rcases bind_error.mp h with h | ⟨⟨⟩, hone, h⟩
    · exact absurd h oneKey_validates.ne_panicked
    rcases bind_error.mp h with h | ⟨appId, hown, h⟩
    · exact absurd h planApp_validates.ne_panicked
    rcases bind_error.mp h with h | ⟨⟨⟩, happ, h⟩
    · exact absurd h ensureAppId_validates.ne_panicked
    rcases bind_error.mp h with h | ⟨key, hkey, h⟩
    · exact absurd h planKey_validates.ne_panicked
    rcases bind_error.mp h with h | ⟨limit, hlimit, h⟩
    · exact absurd h planLimit_validates.ne_panicked
    obtain rfl := planApp_ok hown
    refine ⟨key, ⟨hone, happ, hown, hkey, limit, hlimit⟩, ?_⟩
    rcases bind_error.mp h with h | ⟨window, hwindow, h⟩
    · exact .inl h
    rcases bind_error.mp h with h | ⟨⟨⟩, -, h⟩
    · exact .inr ⟨window, hwindow, h⟩
    · cases h
  · rintro ⟨key, ⟨hone, happ, hown, hkey, limit, hlimit⟩, hwindow⟩
    refine bind_error.mpr (.inr ⟨(), hone, ?_⟩)
    refine bind_error.mpr (.inr ⟨_, hown, ?_⟩)
    refine bind_error.mpr (.inr ⟨(), happ, ?_⟩)
    refine bind_error.mpr (.inr ⟨key, hkey, ?_⟩)
    refine bind_error.mpr (.inr ⟨limit, hlimit, bind_error.mpr ?_⟩)
    rcases hwindow with hwindow | ⟨window, hwindow, hensure⟩
    · exact .inl hwindow
    · exact .inr ⟨window, hwindow, bind_error.mpr (.inl hensure)⟩

theorem keyed_iff : Keyed phones args asker key ↔ Accepted args asker ∧
    oneKey args = .ok () ∧ planKey phones args (appOf args asker) = .ok key := by
  constructor
  · rintro ⟨hone, happ, hown, hkey, hlimit⟩
    exact ⟨⟨planApp_ok_iff.mp hown, ensureAppId_ok_iff.mp happ, planLimit_ok_iff.mp hlimit⟩, hone,
      hkey⟩
  · rintro ⟨⟨hown, happ, hlimit⟩, hone, hkey⟩
    exact ⟨hone, ensureAppId_ok_iff.mpr happ, planApp_ok_iff.mpr hown, hkey,
      planLimit_ok_iff.mpr hlimit⟩

theorem keyed_reference : (∃ reference, Keyed phones args asker (.clientRef reference)) ↔
    Accepted args asker ∧ ByReference args asker := by
  simp only [keyed_iff, key_iff, ByReference]
  constructor
  · rintro ⟨reference, haccepted, hkey | ⟨_, -, hid, href, hnum, hblank, happ⟩ | hkey⟩
    · obtain ⟨id, hkey, -⟩ := hkey
      cases hkey
    · exact ⟨haccepted, hid, hnum, happ, _, href, hblank⟩
    · obtain ⟨raw, number, hkey, -⟩ := hkey
      cases hkey
  · rintro ⟨haccepted, hid, hnum, happ, reference, href, hblank⟩
    exact ⟨reference, haccepted, .inr (.inl ⟨reference, rfl, hid, href, hnum, hblank, happ⟩)⟩

theorem keyed_mobile : (∃ e164, Keyed phones args asker (.msisdn e164)) ↔
    Accepted args asker ∧ ByMobile phones args := by
  simp only [keyed_iff, key_iff, ByMobile]
  constructor
  · rintro ⟨e164, haccepted, hkey | hkey | ⟨raw, number, -, hid, href, hnum, hparse⟩⟩
    · obtain ⟨id, hkey, -⟩ := hkey
      cases hkey
    · obtain ⟨reference, hkey, -⟩ := hkey
      cases hkey
    · exact ⟨haccepted, hid, href, raw, number, hnum, hparse⟩
  · rintro ⟨haccepted, hid, href, raw, number, hnum, hparse⟩
    exact ⟨number.e164, haccepted, .inr (.inr ⟨raw, number, rfl, hid, href, hnum, hparse⟩)⟩

/-- A window with no instant to begin at, or one of a number that the retention period cannot be
counted back for. -/
theorem window_panicked : (planWindow args now key = .error .panicked ∨ ∃ window,
      planWindow args now key = .ok window ∧
      ensureWindowOf key now window.1 window.2 = .error .panicked) ↔
    (∀ id, key ≠ .messageId id) ∧ (Representable (windowEnd args now - days defaultWindowDays) →
      (∃ e164, key = .msisdn e164) ∧ Bounded (windowStart args now) (windowEnd args now) ∧
        ¬ Representable (now - days maxWindowDays)) := by
  by_cases hne : ∀ id, key ≠ .messageId id
  · rw [planWindow_of_ne hne]
    by_cases hstart : Representable (windowEnd args now - days defaultWindowDays)
    · rw [if_pos hstart, ← ensureWindow_panicked]
      constructor
      · rintro (h | ⟨window, hwindow, h⟩)
        · cases h
        · cases hwindow
          exact ⟨hne, fun _ => h⟩
      · exact fun h => .inr ⟨_, rfl, h.2 hstart⟩
    · rw [if_neg hstart]
      exact iff_of_true (.inl rfl) ⟨hne, fun h => absurd h hstart⟩
  · refine iff_of_false ?_ fun h => hne h.1
    push Not at hne
    obtain ⟨id, rfl⟩ := hne
    rintro (h | ⟨window, -, h⟩)
    · cases h
    · obtain ⟨e164, hkey⟩ := ensureWindowOf_panicked h
      cases hkey

/-- **`from_args` panics exactly if it takes a difference that is no instant.** -/
theorem fromArgs_panicked : LookupPlan.fromArgs phones args asker now = .error .panicked ↔
    ¬ InRange phones args asker now := by
  simp only [fromArgs_panicked_of_key, window_panicked]
  constructor
  · rintro ⟨key, hkeyed, hne, h⟩ hrange
    cases key with
    | messageId id => exact hne id rfl
    | clientRef reference =>
      obtain ⟨haccepted, href⟩ := keyed_reference.mp ⟨reference, hkeyed⟩
      obtain ⟨⟨e164, hkey⟩, -⟩ := h (hrange haccepted (.inl href)).1
      cases hkey
    | msisdn e164 =>
      obtain ⟨haccepted, hmobile⟩ := keyed_mobile.mp ⟨e164, hkeyed⟩
      obtain ⟨hstart, hretention⟩ := hrange haccepted (.inr hmobile)
      obtain ⟨-, hbounded, hout⟩ := h hstart
      exact hout (hretention hmobile hbounded)
  · intro hrange
    unfold InRange at hrange
    push Not at hrange
    obtain ⟨haccepted, hby, h⟩ := hrange
    by_cases hmobile : ByMobile phones args
    · obtain ⟨e164, hkeyed⟩ := keyed_mobile.mpr ⟨haccepted, hmobile⟩
      refine ⟨_, hkeyed, by simp, fun hstart => ?_⟩
      obtain ⟨-, hbounded, hout⟩ := h hstart
      exact ⟨⟨e164, rfl⟩, hbounded, hout⟩
    · obtain ⟨reference, hkeyed⟩ := keyed_reference.mpr ⟨haccepted, hby.resolve_right hmobile⟩
      exact ⟨_, hkeyed, by simp, fun hstart => absurd (h hstart).1 hmobile⟩

/-! ## The plans that are made -/

/-- **The window of a plan by a number or a reference** has both ends, is in order and not too wide,
and starts within the retention period if it is by a number. -/
theorem plan_bounded {plan : LookupPlan} (h : LookupPlan.fromArgs phones args asker now = .ok plan)
    (hkey : ∀ id, plan.key ≠ .messageId id) :
    ∃ since until', plan.since = some since ∧ plan.until = some until' ∧ Bounded since until' ∧
      ∀ e164, plan.key = .msisdn e164 → now - days maxWindowDays ≤ since := by
  obtain ⟨-, -, -, -, hwindow, hensure⟩ := fromArgs_ok h
  rw [planWindow_of_ne hkey] at hwindow
  split_ifs at hwindow
  obtain ⟨hsince, huntil⟩ := Prod.mk.inj (Except.ok.inj hwindow)
  have hensure := hensure _ _ hsince.symm huntil.symm
  refine ⟨_, _, hsince.symm, huntil.symm, ?_, fun e164 hmobile => ?_⟩
  · unfold ensureWindow at hensure
    split_ifs at hensure with horder hwide
    · exact absurd hensure (invalid_ne_ok _ _)
    · exact absurd hensure (invalid_ne_ok _ _)
    · exact ⟨not_lt.mp horder, not_lt.mp hwide⟩
  · obtain ⟨since, hsome, hrecent⟩ := plan_since h hmobile
    rw [← hsince] at hsome
    rw [Option.some.inj hsome]
    exact hrecent

/-- What is promised of `from_args`: a plan or a `Validation`, and of a plan by a number or a
reference that its window is bounded. -/
def Plans (phones : PhoneLib) (args : DeliveryStatusQuery) (asker : Asker) (now : Time) : Prop :=
  ((∃ plan, LookupPlan.fromArgs phones args asker now = .ok plan) ∨
    ∃ message, LookupPlan.fromArgs phones args asker now = fail (.validation message)) ∧
  ∀ plan, LookupPlan.fromArgs phones args asker now = .ok plan → (∀ id, plan.key ≠ .messageId id) →
    ∃ since until', plan.since = some since ∧ plan.until = some until' ∧ since ≤ until' ∧
      until' - since ≤ days 90 ∧ ∀ e164, plan.key = .msisdn e164 → now - days 90 ≤ since

end plan

/-- **`from_args` keeps its promise exactly if the differences it takes are instants.** -/
theorem plans_iff (phones : PhoneLib) (args : DeliveryStatusQuery) (asker : Asker) (now : Time) :
    Plans phones args asker now ↔ InRange phones args asker now := by
  constructor
  · rintro ⟨hends, -⟩
    by_contra hrange
    rw [← fromArgs_panicked] at hrange
    rw [hrange] at hends
    rcases hends with ⟨plan, h⟩ | ⟨message, h⟩ <;> cases h
  · intro hrange
    refine ⟨?_, fun plan h hkey => ?_⟩
    · rcases hplan : LookupPlan.fromArgs phones args asker now with e | plan
      · rcases fromArgs_ends e hplan with rfl | ⟨message, rfl⟩
        · exact absurd hrange (fromArgs_panicked.mp hplan)
        · exact .inr ⟨message, rfl⟩
      · exact .inl ⟨plan, rfl⟩
    · obtain ⟨since, until', hsince, huntil, hbounded, hrecent⟩ := plan_bounded h hkey
      exact ⟨since, until', hsince, huntil, hbounded.1, hbounded.2, hrecent⟩

/-- A lookup by reference of everything up to the first instant there is. -/
def firstInstant : DeliveryStatusQuery :=
  ⟨none, none, some "order-1", none, none, some minUtc, none⟩

theorem first_instant_panics : Representable minUtc ∧
    LookupPlan.fromArgs Send.samplePhones firstInstant (.app "capp1") 0 = .error .panicked ∧
    ¬ Plans Send.samplePhones firstInstant (.app "capp1") 0 := by
  have hpanics : LookupPlan.fromArgs Send.samplePhones firstInstant (.app "capp1") 0 =
      .error .panicked := by
    decide
  refine ⟨by decide, hpanics, fun h => ?_⟩
  rcases h.1 with ⟨plan, h⟩ | ⟨message, h⟩ <;> rw [hpanics] at h <;> cases h

end Vsms.Api.Windows
