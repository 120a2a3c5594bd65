import Vsms.Api.Send
import Vsms.Message.Claim
import Mathlib.Algebra.Order.Group.Unbundled.Abs
import Mathlib.Algebra.Order.Group.Unbundled.Int
import Mathlib.Tactic.Linarith

/-! # When a message that is sent can be claimed

`send` and the claim of a message run in two processes, and meet in two columns: the row `send`
stores can be claimed from `scheduledAt` on, or at once, until it expires (`claimable_iff`). What
`send` makes of the two times is compared here with that interval.

* The quiet hours of marketing messages are checked at `scheduledAt`, when there is one. A time that
  has passed is checked as well as any other, and the row can be claimed at once: the first instant
  at which it can be is in the window unless the time has passed and it is now out of hours
  (`quiet_hours_iff`).
* The expiry is `scheduledAt`, or the time of the call, and the validity that is asked for, of which
  nothing is checked: `expiryOf` panics where a duration or a time is out of range, and what it
  gives may be past already (`expiry_iff`). -/

namespace Vsms.Api.Schedule

open Vsms.Schema.Types Vsms.Schema.Messages Vsms.Core.Chrono Vsms.Core.Numbers Vsms.Core.Encoding
open Vsms.Lib.Indexes Vsms.Message.Claim Vsms.Api.Send

section row
variable {env : Env} {phones : PhoneLib} {unicode : UnicodeLib} {ctx : CratestackContext}
  {args : SendMessageInput} {message : Message} {result : SendMessageResult}

/-- The class a message is sent in. -/
def classOf (args : SendMessageInput) : MessageClass := args.messageClass.getD .transactional

/-- The later of the time of the call and `scheduledAt`. -/
def earliest (env : Env) (args : SendMessageInput) : Time :=
  max env.now (args.scheduledAt.getD env.now)

/-- **What `send` has checked and stored of the times** of a message it accepts. -/
theorem send_times (h : send env phones unicode ctx args = .ok (message, result)) :
    (∃ app msisdnHash, ensureSendable env app args (classOf args) msisdnHash = .ok ()) ∧
      expiryOf env args (classOf args) = .ok message.expiresAt ∧ message.state = .accepted ∧
      message.scheduledAt = args.scheduledAt ∧ message.leaseUntil = none := by
  obtain ⟨app, msisdn, tables, row, -, -, hsendable, hexpires, rfl, -, -, -, hscheduled, -⟩ :=
    send_accepts h
  exact ⟨⟨app, _, hsendable⟩, hexpires, rfl, hscheduled, rfl⟩

/-- **The row can be claimed from `earliest` until it expires.** -/
theorem claimable_iff (h : send env phones unicode ctx args = .ok (message, result)) {t : Time}
    (ht : env.now ≤ t) : Claimable t message ↔ earliest env args ≤ t ∧ t < message.expiresAt := by
  obtain ⟨-, -, hstate, hscheduled, hlease⟩ := send_times h
  have hbase : (∀ u, args.scheduledAt = some u → u ≤ t) ↔ earliest env args ≤ t := by
    unfold earliest
    rcases args.scheduledAt with _ | u <;> simp [ht]
  unfold Claimable
  rw [hstate, hscheduled, hlease, hbase]
  simp [claimStates, and_comm]

/-! ## The quiet hours -/

/-- From 08:00 and before 20:00, an hour ahead of UTC. -/
def InWindow (t : Time) : Prop :=
  hours 8 ≤ (t + hours 1) % days 1 ∧ (t + hours 1) % days 1 < hours 20

instance (t : Time) : Decidable (InWindow t) := by unfold InWindow; infer_instance

theorem hour_arith (t : ℤ) :
    (8 ≤ t / 3600000000 % 24 ∧ t / 3600000000 % 24 < 20) ↔
      (28800000000 ≤ t % 86400000000 ∧ t % 86400000000 < 72000000000) := by
  omega

theorem hour_window (t : Time) : (8 ≤ hour (t + hours 1) ∧ hour (t + hours 1) < 20) ↔ InWindow t :=
  hour_arith (t + hours 1)

/-- The check that is made is of the window, where it can be made at all. -/
theorem inWindow_of_ensure {t : Time} (h : ensureWithinMarketingQuietHours t = .ok ()) :
    InWindow t := by
  unfold ensureWithinMarketingQuietHours at h
  split at h
  · exact absurd h (by simp)
  · next hwithin =>
    obtain ⟨wat, hwat, hhour⟩ := Option.map_eq_some_iff.mp hwithin
    rw [addDuration_eq_some hwat] at hhour
    rw [← hour_window]
    simpa using hhour
  · exact absurd h (by simp [fail])

theorem checked_inWindow (h : send env phones unicode ctx args = .ok (message, result))
    (hclass : args.messageClass = some .marketing) : InWindow (args.scheduledAt.getD env.now) := by
  obtain ⟨⟨app, msisdnHash, hsendable⟩, -⟩ := send_times h
  have hmarketing : classOf args = .marketing := by simp [classOf, hclass]
  rw [hmarketing] at hsendable
  have hchecks : (do
      ensureNotOptedOut env msisdnHash
      ensureWithinMarketingQuietHours (args.scheduledAt.getD env.now)
      ensureConsentOnFile env app.id msisdnHash .marketing
      ensureWithinQuota env app) = .ok () := hsendable
  obtain ⟨-, -, hchecks⟩ := bind_ok.mp hchecks
  obtain ⟨_, hquiet, -⟩ := bind_ok.mp hchecks
  exact inWindow_of_ensure hquiet

/-- **The first instant at which a marketing message can be claimed is in the window exactly if it
is not scheduled for a time that has passed, or it is accepted in the window.** -/
theorem quiet_hours_iff (h : send env phones unicode ctx args = .ok (message, result))
    (hclass : args.messageClass = some .marketing) :
    (∀ t, env.now ≤ t → (Claimable t message ↔ earliest env args ≤ t ∧ t < message.expiresAt)) ∧
      (InWindow (earliest env args) ↔
        ((∀ t, args.scheduledAt = some t → env.now ≤ t) ∨ InWindow env.now)) := by
  refine ⟨fun t ht => claimable_iff h ht, ?_⟩
  have hchecked := checked_inWindow h hclass
  unfold earliest
  rcases hscheduled : args.scheduledAt with _ | t
  · rw [hscheduled] at hchecked
    have hnow : InWindow env.now := hchecked
    simp [hnow]
  · rw [hscheduled] at hchecked
    have ht : InWindow t := hchecked
    by_cases hpast : env.now ≤ t
    · simp [hpast, ht]
    · have hle : t ≤ env.now := (lt_of_not_ge hpast).le
      simp [hpast, hle]

/-! ## The expiry -/

/-- The validity that is asked for, or the one of the class, before any type has to hold it. -/
def requestedValidity (args : SendMessageInput) (messageClass : MessageClass) : Time :=
  match args.validityMinutes with
  | some n => minutes n
  | none =>
    match messageClass with
    | .otp => minutes 15
    | .transactional | .notification | .marketing => hours 24

/-- The most minutes a `Duration` can hold. -/
def maxMinutes : ℤ := 153722867280912

/-- The validity that is asked for is one a `Duration` can hold. -/
def InDuration (args : SendMessageInput) : Prop :=
  ∀ n, args.validityMinutes = some n → |n| ≤ maxMinutes

theorem minutes_bound (n : ℤ) :
    (-maxDuration ≤ minutes n ∧ minutes n ≤ maxDuration) ↔ |n| ≤ maxMinutes := by
  have harith : (-(9223372036854775807 * 1000) ≤ 60 * n * 1000000 ∧
    60 * n * 1000000 ≤ 9223372036854775807 * 1000) ↔
      (-153722867280912 ≤ n ∧ n ≤ 153722867280912) := by
    omega
  rw [abs_le]
  exact harith

theorem validityOf_eq_some_iff {messageClass : MessageClass} {v : Time} :
    validityOf args messageClass = some v ↔
    InDuration args ∧ v = requestedValidity args messageClass := by
  unfold validityOf requestedValidity InDuration
  rcases args.validityMinutes with _ | n
  · rcases messageClass with _ | _ | _ | _ <;> simp [eq_comm]
  · have hbound := minutes_bound n
    dsimp only [durationMinutes]
    by_cases hn : |n| ≤ maxMinutes
    · rw [if_pos (hbound.mpr hn)]
      simp [hn, eq_comm]
    · rw [if_neg fun hmin => hn (hbound.mp hmin)]
      simp [hn]

theorem addDuration_eq_some_iff {t d u : Time} : addDuration t d = some u ↔
    Representable (t + d) ∧ u = t + d := by
  unfold addDuration
  by_cases h : Representable (t + d)
  · simp [h, eq_comm]
  · simp [h]

/-- **What the expiry is, and when there is one.** -/
theorem expiryOf_eq_ok_iff {messageClass : MessageClass} {expiresAt : Time} :
    expiryOf env args messageClass = .ok expiresAt ↔
      InDuration args ∧
      Representable (args.scheduledAt.getD env.now + requestedValidity args messageClass) ∧
        expiresAt = args.scheduledAt.getD env.now + requestedValidity args messageClass := by
  have hsum : (validityOf args messageClass).bind (addDuration (args.scheduledAt.getD env.now)) =
    some expiresAt ↔
      InDuration args ∧
        Representable (args.scheduledAt.getD env.now + requestedValidity args messageClass) ∧
        expiresAt = args.scheduledAt.getD env.now + requestedValidity args messageClass := by
    rw [Option.bind_eq_some_iff]
    constructor
    · rintro ⟨v, hv, hadd⟩
      obtain ⟨hrange, rfl⟩ := validityOf_eq_some_iff.mp hv
      exact ⟨hrange, addDuration_eq_some_iff.mp hadd⟩
    · rintro ⟨hrange, hadd⟩
      exact ⟨_, validityOf_eq_some_iff.mpr ⟨hrange, rfl⟩, addDuration_eq_some_iff.mpr hadd⟩
  rw [← hsum]
  unfold expiryOf
  split
  · next u hu =>
    rw [hu]
    simp
  · next hu =>
    rw [hu]
    simp

/-- **The expiry of a message is computed exactly if the validity is one a `Duration` can hold and
the sum is a time; and what is stored is after both times, so that there is an instant at which the
row can be claimed, exactly if the validity is positive and has not run out by the time of the
call.** -/
theorem expiry_iff (env : Env) (args : SendMessageInput) :
    ((∃ expiresAt, expiryOf env args (classOf args) = .ok expiresAt) ↔
      InDuration args ∧
        Representable (args.scheduledAt.getD env.now + requestedValidity args (classOf args))) ∧
    ∀ (phones : PhoneLib) (unicode : UnicodeLib) (ctx : CratestackContext) (message : Message)
      (result : SendMessageResult), send env phones unicode ctx args = .ok (message, result) →
      (earliest env args < message.expiresAt ↔
        0 < requestedValidity args (classOf args) ∧
          env.now < args.scheduledAt.getD env.now + requestedValidity args (classOf args)) ∧
      ((∃ t, env.now ≤ t ∧ Claimable t message) ↔ earliest env args < message.expiresAt) := by
  constructor
  · constructor
    · rintro ⟨expiresAt, h⟩
      obtain ⟨hrange, hsum, -⟩ := expiryOf_eq_ok_iff.mp h
      exact ⟨hrange, hsum⟩
    · rintro ⟨hrange, hsum⟩
      exact ⟨_, expiryOf_eq_ok_iff.mpr ⟨hrange, hsum, rfl⟩⟩
  · intro phones unicode ctx message result h
    have hnow : env.now ≤ earliest env args := le_max_left _ _
    constructor
    · obtain ⟨-, hexpiry, -⟩ := send_times h
      obtain ⟨-, -, hexpires⟩ := expiryOf_eq_ok_iff.mp hexpiry
      rw [hexpires, earliest, max_lt_iff, lt_add_iff_pos_right, and_comm]
    · constructor
      · rintro ⟨t, ht, hclaimable⟩
        obtain ⟨hearliest, hexpires⟩ := (claimable_iff h ht).mp hclaimable
        exact hearliest.trans_lt hexpires
      · intro hlt
        exact ⟨earliest env args, hnow, (claimable_iff h hnow).mpr ⟨le_refl _, hlt⟩⟩

end row

section runs

/-- The recipient has consented to marketing messages. -/
def consentedEnv (now : Time) : Env where
  read _ := .ok
    { apps := [sampleApp]
      clients := [⟨"appc_1", "app1", true⟩]
      optOuts := []
      consents := [⟨"app1", "v1:+237677123456", .marketing⟩]
      messages := []
      senderIds := [⟨"s1", "VSMS", true⟩]
      registrations := [⟨"s1", "approved"⟩]
      rules := []
      providers := [⟨.active, 22⟩] }
  cachedApp _ := none
  cachedOperators := some ⟨[("67".toList, "mtn")]⟩
  keyedHash input := "v1:" ++ input
  debug value := value
  now := now
  newId := "m1"
  createdAt := now
  refuses _ := none

def promotion (scheduledAt : Time) : SendMessageInput :=
  ⟨"677123456", "promo", some "VSMS", some .marketing, none, some scheduledAt, none⟩

/-- Accepted at 22:00 in Douala, for 10:00 on the next day. -/
theorem quiet_hours_next_day : ∃ message result,
    send (consentedEnv (hours 21)) samplePhones sampleUnicode sampleCtx (promotion (hours 33)) =
      .ok (message, result) ∧
      InWindow (earliest (consentedEnv (hours 21)) (promotion (hours 33))) :=
  ⟨_, _, rfl, (@quiet_hours_iff (consentedEnv (hours 21)) samplePhones sampleUnicode sampleCtx
    (promotion (hours 33)) _ _ rfl rfl).2.mpr (Or.inl
      (by simp [promotion, consentedEnv, hours, minutes, seconds]))⟩

/-- Accepted at 22:00 in Douala, for 10:00 on the same day: the message can be claimed at once. -/
theorem quiet_hours_passed : ∃ message result,
    send (consentedEnv (hours 21)) samplePhones sampleUnicode sampleCtx (promotion (hours 9)) =
      .ok (message, result) ∧ earliest (consentedEnv (hours 21)) (promotion (hours 9)) = hours 21 ∧
      Claimable (hours 21) message ∧ ¬ InWindow (hours 21) :=
  ⟨_, _, rfl, rfl, by decide, by decide⟩

def validFor (minutes : ℤ) : SendMessageInput :=
  ⟨"677123456", "code 4821", some "VSMS", none, none, none, some minutes⟩

/-- A quarter of an hour. -/
theorem expiry_quarter : ∃ message result,
    send sampleEnv samplePhones sampleUnicode sampleCtx (validFor 15) = .ok (message, result) ∧
      earliest sampleEnv (validFor 15) < message.expiresAt ∧ ∃ t, sampleEnv.now ≤ t ∧
      Claimable t message := by
  have hsend := (expiry_iff sampleEnv (validFor 15)).2 samplePhones sampleUnicode sampleCtx _ _ rfl
  have hlt := hsend.1.mpr (by decide)
  exact ⟨_, _, rfl, hlt, hsend.2.mpr hlt⟩

/-- The most minutes the type has, and fewer than none: the one panics, the other is stored and has
expired. -/
theorem expiry_extremes :
    expiryOf sampleEnv (validFor maxI64) (classOf (validFor maxI64)) = .error .panicked ∧
      send sampleEnv samplePhones sampleUnicode sampleCtx (validFor maxI64) = .error .panicked ∧
      ∃ message result,
        send sampleEnv samplePhones sampleUnicode sampleCtx (validFor (-5)) =
          .ok (message, result) ∧
          ¬ earliest sampleEnv (validFor (-5)) < message.expiresAt :=
  ⟨rfl, rfl, _, _, rfl, by decide⟩

end runs

end Vsms.Api.Schedule
