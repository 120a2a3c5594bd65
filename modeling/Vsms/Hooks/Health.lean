import Vsms.Lib.Runs
import Vsms.Hooks.Deliver

/-! # Contacts with unhealthy endpoints

An endpoint is unhealthy when it is deactivated or its circuit is open. The claim leaves out the
attempts of unhealthy endpoints, but a batch may have several attempts for one endpoint, and the
delivery of one may deactivate it or open its circuit; the others are delivered all the same.

`Spared` says, of a batch and of what its deliveries meet, that this does not happen: no delivery
that contacts its endpoint comes after one to the same endpoint that was answered 410, or that was
the failure that trips the breaker less than its open duration before. -/

namespace Vsms.Hooks.Health

open Vsms.Lib.Runs Vsms.Lib.Consumers Vsms.Schema.Types Vsms.Schema.Webhooks
open Vsms.Core.Breaker Vsms.Hooks.Claim Vsms.Hooks.Deliver

/-- The endpoint is active and its circuit closed. -/
def Healthy (e : WebhookEndpoint) (now : Time) : Prop := e.active ∧ ¬ CircuitOpen e now

instance (e : WebhookEndpoint) (now : Time) : Decidable (Healthy e now) := by
  unfold Healthy
  infer_instance

theorem Healthy.later {e : WebhookEndpoint} {now now' : Time} (h : Healthy e now)
    (hle : now ≤ now') : Healthy e now' := by
  refine ⟨h.1, ?_⟩
  rintro ⟨t, ht, hlt⟩
  exact h.2 ⟨t, ht, lt_of_le_of_lt hle hlt⟩

/-- Health is read off two columns. -/
theorem healthy_congr {e e' : WebhookEndpoint} (ha : e'.active = e.active)
    (hc : e'.circuitOpenUntil = e.circuitOpenUntil) (now : Time) :
    Healthy e' now ↔ Healthy e now := by
  unfold Healthy CircuitOpen
  rw [ha, hc]

/-- **The contact is with a healthy endpoint.** -/
def ContactOk : Contact → Prop
  | .sent e now => Healthy e now
  | .failureRecorded e now => Healthy e now

instance : DecidablePred ContactOk := fun c => by
  unfold ContactOk
  split <;> infer_instance

/-! ### What a delivery does to the health of its endpoint -/

section turn
variable (parse : String → Except String Unit) (w : Worker) (x : Turn)

/-- The endpoint answers 410, and is deactivated. -/
def Deactivates : Prop := answer parse w x = some .gone ∧ x.call.endpointSaved

/-- The delivery fails, and is recorded. -/
def Fails : Prop :=
  (∃ status message, answer parse w x = some (.retryable status message)) ∧ x.call.endpointSaved

/-- The delivery is the failure that trips the breaker, after `failures` others. -/
def Trips (failures : ℤ) : Prop :=
  Fails parse w x ∧ endpointBreaker.failureThreshold ≤ failures + 1

/-- The counter after the delivery. -/
def failuresAfter (failures : ℤ) : ℤ :=
  if x.call.endpointSaved then
    match answer parse w x with
    | some (.success _) => 0
    | some (.retryable _ _) => (failureDecision endpointBreaker failures x.now).consecutiveFailures
    | _ => failures
  else failures

end turn

section outcome
variable {e : WebhookEndpoint} {now : Time} {c : Call}

theorem outcomeRow_failures (o : Outcome) : (outcomeRow e o now c).consecutiveFailures =
    if c.endpointSaved then
      match o with
      | .success _ => 0
      | .retryable _ _ =>
        (failureDecision endpointBreaker e.consecutiveFailures now).consecutiveFailures
      | _ => e.consecutiveFailures
    else e.consecutiveFailures := by
  unfold outcomeRow
  cases o with
  | success status =>
    unfold endpointPatch
    cases hr : needsReset e.consecutiveFailures e.circuitOpenUntil with
    | true =>
      simp only [if_true]
      split_ifs <;> rfl
    | false =>
      simp only [Bool.false_eq_true, if_false]
      rw [(needsReset_eq_false hr).1]
      exact (ite_self _).symm
  | gone => simp only [endpointPatch]; split_ifs <;> rfl
  | retryable status message => simp only [endpointPatch]; split_ifs <;> rfl
  | malformedPayload message => simp only [endpointPatch, ite_self]

/-- A success, whether it resets anything or not, keeps the endpoint healthy. -/
theorem outcomeRow_success (status : ℕ) (h : Healthy e now) :
    Healthy (outcomeRow e (.success status) now c) now := by
  unfold outcomeRow endpointPatch
  cases hr : needsReset e.consecutiveFailures e.circuitOpenUntil with
  | true =>
    simp only [if_true]
    split_ifs
    · refine ⟨h.1, ?_⟩
      rintro ⟨t, ⟨⟩, -⟩
    · exact h
  | false => exact h

theorem outcomeRow_gone (t : Time) :
    Healthy (outcomeRow e .gone now c) t ↔ Healthy e t ∧ ¬ c.endpointSaved := by
  unfold outcomeRow endpointPatch
  dsimp only
  split_ifs with hs
  · refine iff_of_false ?_ fun hc => hc.2 hs
    rintro ⟨⟨⟩, -⟩
  · exact (and_iff_left hs).symm

theorem outcomeRow_retryable (status : Option ℕ) (message : String) (t : Time)
    (h : Healthy e t) :
    Healthy (outcomeRow e (.retryable status message) now c) t ↔
      (c.endpointSaved ∧ endpointBreaker.failureThreshold ≤ e.consecutiveFailures + 1 →
        now + endpointBreaker.openDuration ≤ t) := by
  unfold outcomeRow endpointPatch failurePatch failureDecision
  dsimp only
  by_cases hs : c.endpointSaved
  · rw [if_pos hs]
    by_cases hf : endpointBreaker.failureThreshold ≤ e.consecutiveFailures + 1
    · simp only [hs, hf, if_true, and_self, forall_const]
      constructor
      · intro hh
        exact not_lt.mp fun hlt => hh.2 ⟨_, rfl, hlt⟩
      · intro hle
        refine ⟨h.1, ?_⟩
        rintro ⟨u, ⟨⟩, hlt⟩
        exact absurd hlt (not_lt.mpr hle)
    · simp only [hf, if_false, and_false, false_implies, iff_true]
      exact h
  · rw [if_neg hs]
    exact iff_of_true h fun hc => absurd hc.1 hs

end outcome

section turn
variable {parse : String → Except String Unit} {w : Worker} {x : Turn}

theorem deliveredRow_failures (e : WebhookEndpoint) :
    (deliveredRow parse w x e).consecutiveFailures =
      failuresAfter parse w x e.consecutiveFailures := by
  unfold deliveredRow failuresAfter
  cases ha : answer parse w x with
  | none => exact (ite_self _).symm
  | some o => cases o <;> exact outcomeRow_failures _

/-- **When the endpoint is healthy after a delivery**, at a later time. -/
theorem deliveredRow_healthy {e : WebhookEndpoint}
    (hc : (answer parse w x).isSome → Healthy e x.now) {t : Time} (ht : x.now ≤ t) :
    Healthy (deliveredRow parse w x e) t ↔ Healthy e t ∧ ¬ Deactivates parse w x ∧
      (Trips parse w x e.consecutiveFailures → x.now + endpointBreaker.openDuration ≤ t) := by
  unfold deliveredRow Deactivates Trips Fails
  cases ha : answer parse w x with
  | none =>
    have hsame : Healthy (x.call.settings.apply e) t ↔ Healthy e t := healthy_congr rfl rfl t
    rw [hsame]
    exact (and_iff_left ⟨by rintro ⟨⟨⟩, -⟩, by rintro ⟨⟨⟨_, _, ⟨⟩⟩, -⟩, -⟩⟩).symm
  | some o =>
    have hnow : Healthy (x.call.settings.apply e) x.now :=
      (healthy_congr rfl rfl x.now).mpr (hc (by rw [ha]; rfl))
    have hlater := hnow.later ht
    have he : Healthy e t := (healthy_congr rfl rfl t).mp hlater
    dsimp only
    cases o with
    | success status =>
      refine iff_of_true ((outcomeRow_success status hnow).later ht) ⟨he, ?_, ?_⟩
      · rintro ⟨⟨⟩, -⟩
      · rintro ⟨⟨⟨_, _, ⟨⟩⟩, -⟩, -⟩
    | gone =>
      rw [outcomeRow_gone]
      constructor
      · rintro ⟨-, hs⟩
        exact ⟨he, fun hd => hs hd.2, by rintro ⟨⟨⟨_, _, ⟨⟩⟩, -⟩, -⟩⟩
      · rintro ⟨-, hd, -⟩
        exact ⟨hlater, fun hs => hd ⟨rfl, hs⟩⟩
    | retryable status message =>
      rw [outcomeRow_retryable status message t hlater]
      constructor
      · intro h
        refine ⟨he, by rintro ⟨⟨⟩, -⟩, ?_⟩
        rintro ⟨⟨-, hs⟩, hf⟩
        exact h ⟨hs, hf⟩
      · rintro ⟨-, -, h⟩ ⟨hs, hf⟩
        exact h ⟨⟨⟨status, message, rfl⟩, hs⟩, hf⟩
    | malformedPayload message =>
      refine iff_of_true hlater ⟨he, ?_, ?_⟩
      · rintro ⟨⟨⟩, -⟩
      · rintro ⟨⟨⟨_, _, ⟨⟩⟩, -⟩, -⟩

/-- A delivery that has an answer contacts its endpoint: what is not sent is recorded. -/
theorem contacts_ok {e : WebhookEndpoint} {o : Outcome} (h : answer parse w x = some o) :
    (∀ c ∈ contacts e x.now (send w x.call.settings x.call).1 o, ContactOk c) ↔
      Healthy e x.now := by
  have ho : o = (send w x.call.settings x.call).2 := by
    unfold answer at h
    split_ifs at h
    split at h
    · cases h
    · exact (Option.some.inj h).symm
  have hcontact : (send w x.call.settings x.call).1 = true ∨ o.isRetryable = true := by
    rw [ho]
    unfold send
    split
    · exact Or.inr rfl
    · exact Or.inl rfl
  unfold contacts
  constructor
  · intro hall
    rcases hcontact with hs | hr
    · exact hall (.sent e x.now) (List.mem_append_left _ (by rw [if_pos hs]; simp))
    · exact hall (.failureRecorded e x.now) (List.mem_append_right _ (by rw [if_pos hr]; simp))
  · intro hh c hc
    rcases List.mem_append.mp hc with hc | hc
    · split_ifs at hc
      · cases List.mem_singleton.mp hc
        exact hh
      · cases hc
    · split_ifs at hc
      · cases List.mem_singleton.mp hc
        exact hh
      · cases hc

end turn

/-! ### Batches -/

section batch
variable (parse : String → Except String Unit) (w : Worker)

/-- **No contact in the batch comes too late**: none follows a 410 of the same endpoint, nor, within
the open duration, the failure that tripped its breaker. `failures` are the counters before. -/
def Spared (failures : String → ℤ) : List Turn → Prop
  | [] => True
  | x :: xs =>
    (∀ y ∈ xs, y.attempt.endpointId = x.attempt.endpointId → (answer parse w y).isSome →
      ¬ Deactivates parse w x ∧ (Trips parse w x (failures x.attempt.endpointId) →
        x.now + endpointBreaker.openDuration ≤ y.now)) ∧
    Spared (Function.update failures x.attempt.endpointId
      (failuresAfter parse w x (failures x.attempt.endpointId))) xs

theorem spared_cons {failures : String → ℤ} {x : Turn} {xs : List Turn} :
    Spared parse w failures (x :: xs) ↔
      (∀ y ∈ xs, y.attempt.endpointId = x.attempt.endpointId → (answer parse w y).isSome →
        ¬ Deactivates parse w x ∧ (Trips parse w x (failures x.attempt.endpointId) →
          x.now + endpointBreaker.openDuration ≤ y.now)) ∧
      Spared parse w (Function.update failures x.attempt.endpointId
        (failuresAfter parse w x (failures x.attempt.endpointId))) xs := Iff.rfl

/-- The endpoints are healthy for the contacts to come. -/
def HealthyFor (db : HooksDb) (xs : List Turn) : Prop :=
  ∀ y ∈ xs, (answer parse w y).isSome → ∀ e, db.rest.find y.attempt.endpointId = some e →
    Healthy e y.now

variable {parse w}

/-- One delivery: it leaves the endpoints healthy for the others exactly if they were and it is
spared of them. -/
theorem healthyFor_deliverOne {db : HooksDb} {x : Turn} {xs : List Turn} {e : WebhookEndpoint}
    (he : db.rest.find x.attempt.endpointId = some e)
    (hc : (answer parse w x).isSome → Healthy e x.now) (hle : ∀ y ∈ xs, x.now ≤ y.now) :
    HealthyFor parse w (deliverOne parse w db x).1 xs ↔ HealthyFor parse w db xs ∧
      ∀ y ∈ xs, y.attempt.endpointId = x.attempt.endpointId → (answer parse w y).isSome →
        ¬ Deactivates parse w x ∧ (Trips parse w x e.consecutiveFailures →
          x.now + endpointBreaker.openDuration ≤ y.now) := by
  have hfind := (deliverOne_spec parse w he).1
  unfold HealthyFor
  rw [← forall₂_and]
  refine forall₂_congr fun y hy => ?_
  rw [hfind]
  by_cases hk : y.attempt.endpointId = x.attempt.endpointId
  · rw [if_pos hk, hk, he]
    have hiff := deliveredRow_healthy (e := e) hc (hle y hy)
    constructor
    · intro h
      refine ⟨fun ha e' he' => ?_, fun _ ha => (hiff.mp (h ha _ rfl)).2⟩
      cases he'
      exact (hiff.mp (h ha _ rfl)).1
    · rintro ⟨h1, h2⟩ ha e' he'
      cases he'
      exact hiff.mpr ⟨h1 ha e rfl, h2 rfl ha⟩
  · rw [if_neg hk]
    exact (and_iff_left fun h => absurd h hk).symm

/-- The contacts of one delivery are fine exactly if its endpoint is healthy. -/
theorem deliverOne_ok {db : HooksDb} {x : Turn} {e : WebhookEndpoint}
    (he : db.rest.find x.attempt.endpointId = some e) :
    (∀ c ∈ (deliverOne parse w db x).2, ContactOk c) ↔
      ((answer parse w x).isSome → Healthy e x.now) := by
  rw [(deliverOne_spec parse w he).2]
  cases ha : answer parse w x with
  | none => simp
  | some o =>
    have hsame : Healthy (x.call.settings.apply e) x.now ↔ Healthy e x.now :=
      healthy_congr rfl rfl x.now
    rw [contacts_ok ha, hsame]
    simp

/-- **The contacts of a batch are fine exactly if** its endpoints are healthy at the start and it is
spared. By induction on the batch; the counters follow the stored ones. -/
theorem deliverClaimed_ok (parse : String → Except String Unit) (w : Worker) (xs : List Turn) :
    ∀ (db : HooksDb) (failures : String → ℤ),
    (∀ y ∈ xs, (db.rest.find y.attempt.endpointId).isSome) →
    (∀ k e, db.rest.find k = some e → e.consecutiveFailures = failures k) →
    xs.Pairwise (fun x y => x.now ≤ y.now) →
    ((∀ c ∈ (deliverClaimed parse w db xs).2, ContactOk c) ↔
      HealthyFor parse w db xs ∧ Spared parse w failures xs) := by
  induction xs with
  | nil =>
    intro db failures _ _ _
    simp [deliverClaimed, HealthyFor, Spared]
  | cons x xs ih =>
    intro db failures hex hf hp
    obtain ⟨e, he⟩ := Option.isSome_iff_exists.mp (hex x List.mem_cons_self)
    obtain ⟨hle, hp⟩ := List.pairwise_cons.mp hp
    have hfind := (deliverOne_spec parse w he).1
    have hfx : e.consecutiveFailures = failures x.attempt.endpointId := hf _ e he
    -- the rest of the batch, from the database this delivery leaves
    have hrest := ih (deliverOne parse w db x).1 (Function.update failures x.attempt.endpointId
      (failuresAfter parse w x (failures x.attempt.endpointId))) ?_ ?_ hp
    · have hsplit : (∀ c ∈ (deliverClaimed parse w db (x :: xs)).2, ContactOk c) ↔
          (∀ c ∈ (deliverOne parse w db x).2, ContactOk c) ∧
            ∀ c ∈ (deliverClaimed parse w (deliverOne parse w db x).1 xs).2, ContactOk c :=
        List.forall_mem_append
      have hhead : HealthyFor parse w db (x :: xs) ↔
          ((answer parse w x).isSome → Healthy e x.now) ∧ HealthyFor parse w db xs := by
        unfold HealthyFor
        rw [List.forall_mem_cons, he]
        simp
      rw [hsplit, deliverOne_ok he, hrest, hhead]
      rw [spared_cons, ← hfx]
      constructor
      · rintro ⟨hx, hh, hs⟩
        obtain ⟨h1, h2⟩ := (healthyFor_deliverOne he hx hle).mp hh
        exact ⟨⟨hx, h1⟩, h2, hs⟩
      · rintro ⟨⟨hx, h1⟩, h2, hs⟩
        exact ⟨hx, (healthyFor_deliverOne he hx hle).mpr ⟨h1, h2⟩, hs⟩
    · intro y hy
      rw [hfind]
      split_ifs
      · rfl
      · exact hex y (List.mem_cons_of_mem _ hy)
    · intro k e' he'
      rw [hfind] at he'
      split_ifs at he' with hk
      · cases he'
        rw [hk, Function.update_self, deliveredRow_failures, hfx]
      · rw [Function.update_of_ne hk]
        exact hf k e' he'

end batch

/-! ### The claim -/

/-- The candidates' endpoints can be claimed from. -/
theorem filterByEndpointHealth_run {cs : List WebhookAttempt} {now : Time} {budget : ℕ}
    {served : ServedModes} {db : HooksDb} {a : WebhookAttempt}
    (h : a ∈ (filterByEndpointHealth cs now budget served).run db) :
    a ∈ cs ∧ ∃ e ∈ db.rest.rows, e.id = a.endpointId ∧ served.canClaim e now := by
  unfold filterByEndpointHealth at h
  split_ifs at h with hc
  · subst hc
    cases h
  · simp only [run_bind, run_query, run_pure] at h
    have ha := List.mem_of_mem_take h
    obtain ⟨hmem, hhealthy⟩ := List.mem_filter.mp ha
    obtain ⟨e, he, hid⟩ := List.mem_map.mp (of_decide_eq_true hhealthy)
    obtain ⟨hrow, hclaim⟩ := List.mem_filter.mp he
    exact ⟨hmem, e, List.mem_of_mem_filter hrow, hid, of_decide_eq_true hclaim⟩

theorem webhookCandidates_run {now : Time} {budget : ℕ} {served : ServedModes} {db : HooksDb}
    {a : WebhookAttempt} (h : a ∈ (webhookCandidates now budget served).run db) :
    a ∈ db.rows ∧ ∃ e ∈ db.rest.rows, e.id = a.endpointId ∧ served.canClaim e now := by
  refine ⟨?_, ?_⟩
  · obtain ⟨seen, hseen, hsel⟩ := wp_run db (webhookCandidates_wp now budget served)
    rcases hseen a (hsel.1 a h) with hn | hrow
    · cases hn
    · exact hrow
  · unfold webhookCandidates at h
    rw [run_bind, run_bind] at h
    exact (filterByEndpointHealth_run h).2

/-- Every attempt of `db` has the endpoint of the attempt of `db₀` with its id. -/
def SameEndpoints (db₀ db : HooksDb) : Prop :=
  ∀ a ∈ db.rows, ∃ a₀ ∈ db₀.rows, a₀.id = a.id ∧ a₀.endpointId = a.endpointId

theorem SameEndpoints.replace {db₀ db : HooksDb} (h : SameEndpoints db₀ db)
    {row new : WebhookAttempt} (hrow : row ∈ db.rows) (hid : new.id = row.id)
    (he : new.endpointId = row.endpointId) :
    SameEndpoints db₀ (db.replace new) := by
  intro a ha
  obtain ⟨a', ha', rfl⟩ := List.mem_map.mp ha
  unfold replaceRow
  split_ifs with hk
  · obtain ⟨a₀, ha₀, h1, h2⟩ := h row hrow
    exact ⟨a₀, ha₀, h1.trans hid.symm, h2.trans he.symm⟩
  · exact h a' ha'

/-- What is claimed are candidates, as far as their endpoints go; the endpoints stay. -/
theorem leaseCandidates_endpoints (worker : String) (now : Time) (db₀ : HooksDb) :
    ∀ (cs : List WebhookAttempt) (db : HooksDb), (∀ c ∈ cs, c ∈ db₀.rows) → SameEndpoints db₀ db →
      (leaseCandidates worker now db cs).1.rest = db.rest ∧
      ∀ claimed, (leaseCandidates worker now db cs).2 = some claimed →
        ∀ a ∈ claimed, ∃ c ∈ cs, a.endpointId = c.endpointId := by
  intro cs
  induction cs with
  | nil =>
    intro db _ _
    refine ⟨rfl, ?_⟩
    rintro claimed ⟨⟩ a ⟨⟩
  | cons c cs ih =>
    intro db hcs hsame
    have hcs' : ∀ c ∈ cs, c ∈ db₀.rows := fun c' hc' => hcs c' (List.mem_cons_of_mem _ hc')
    -- a candidate that is skipped
    have hskip := ih db hcs' hsame
    have hskip' : (leaseCandidates worker now db cs).1.rest = db.rest ∧
        ∀ claimed, (leaseCandidates worker now db cs).2 = some claimed →
          ∀ a ∈ claimed, ∃ c' ∈ c :: cs, a.endpointId = c'.endpointId := by
      refine ⟨hskip.1, fun claimed hcl a ha => ?_⟩
      obtain ⟨c', hc', he⟩ := hskip.2 claimed hcl a ha
      exact ⟨c', List.mem_cons_of_mem _ hc', he⟩
    unfold leaseCandidates
    split
    · exact ⟨rfl, by rintro claimed ⟨⟩⟩
    · next u hu =>
      split
      · exact hskip'
      · next row hrow =>
        obtain ⟨hmem, hkey⟩ := Db.find_some hrow
        split
        · next new hok =>
          obtain ⟨-, -, rfl⟩ := update_ok hok
          have hnew := hsame.replace hmem (written_id u now row) (written_endpointId u now row)
          obtain ⟨hr, hcl⟩ := ih (db.replace (written u now row)) hcs' hnew
          refine ⟨hr, fun claimed hsome a ha => ?_⟩
          obtain ⟨claimed', hclaimed', rfl⟩ := Option.map_eq_some_iff.mp hsome
          rcases List.mem_cons.mp ha with rfl | ha
          · obtain ⟨a₀, ha₀, hid, he⟩ := hsame row hmem
            have : a₀ = c := db₀.eq_of_key ha₀ (hcs c List.mem_cons_self) (hid.trans hkey)
            subst this
            exact ⟨a₀, List.mem_cons_self, (written_endpointId u now row).trans he.symm⟩
          · obtain ⟨c', hc', he⟩ := hcl claimed' hclaimed' a ha
            exact ⟨c', List.mem_cons_of_mem _ hc', he⟩
        · exact hskip'
        · exact ⟨rfl, by rintro claimed ⟨⟩⟩

/-! ### Polls -/

theorem turns_spec (batch : List WebhookAttempt) : ∀ (t : Time) (calls : ℕ → Call),
    (∀ x ∈ turns t batch calls, t ≤ x.now ∧ x.attempt ∈ batch) ∧
      (turns t batch calls).Pairwise fun x y => x.now ≤ y.now := by
  induction batch with
  | nil =>
    intro t calls
    exact ⟨by rintro x ⟨⟩, List.Pairwise.nil⟩
  | cons a batch ih =>
    intro t calls
    have hle : t ≤ t + ((calls 0).elapsed : ℤ) := by
      unfold Time at *
      omega
    obtain ⟨h1, h2⟩ := ih (t + (calls 0).elapsed) fun k => calls (k + 1)
    refine ⟨fun x hx => ?_, List.pairwise_cons.mpr ⟨fun x hx => (h1 x hx).1, h2⟩⟩
    rcases List.mem_cons.mp hx with rfl | hx
    · exact ⟨hle, List.mem_cons_self⟩
    · obtain ⟨ht, hmem⟩ := h1 x hx
      exact ⟨hle.trans ht, List.mem_cons_of_mem _ hmem⟩

/-- The stored counters. -/
def failuresOf (es : WebhookEndpoints) (id : String) : ℤ :=
  match es.find id with
  | some e => e.consecutiveFailures
  | none => 0

/-- **The poll is spared**: the batch it claims is, with the counters stored before. -/
def TickSpared (parse : String → Except String Unit) (w : Worker) (db : HooksDb) (now : Time)
    (calls : ℕ → Call) : Prop :=
  ∀ claimed, (claimWebhookAttempts w db now).2 = some claimed →
    Spared parse w (failuresOf db.rest) (turns now claimed calls)

/-- The batch's endpoints are the ones stored, and healthy when it is claimed. -/
theorem claimWebhookAttempts_healthy (w : Worker) (db : HooksDb) (now : Time) :
    (claimWebhookAttempts w db now).1.rest = db.rest ∧
      ∀ claimed, (claimWebhookAttempts w db now).2 = some claimed →
        ∀ a ∈ claimed, ∃ e, db.rest.find a.endpointId = some e ∧ Healthy e now := by
  unfold claimWebhookAttempts
  have hrun (c : WebhookAttempt)
      (hc : c ∈ (webhookCandidates now hooksBudget w.served).run db) := webhookCandidates_run hc
  obtain ⟨hrest, hclaimed⟩ := leaseCandidates_endpoints w.name now db _ db
    (fun c hc => (hrun c hc).1) (fun a ha => ⟨a, ha, rfl, rfl⟩)
  refine ⟨hrest, fun claimed hsome a ha => ?_⟩
  obtain ⟨c, hc, he⟩ := hclaimed claimed hsome a ha
  obtain ⟨-, e, hmem, hid, -, hactive, hclosed⟩ := hrun c hc
  refine ⟨e, ?_, hactive, hclosed⟩
  rw [he, ← hid]
  exact WebhookEndpoints.find_of_mem hmem

theorem tick_ok (parse : String → Except String Unit) (w : Worker) (db : HooksDb) (now : Time)
    (calls : ℕ → Call) :
    (∀ c ∈ (tick parse w db now calls).2, ContactOk c) ↔ TickSpared parse w db now calls := by
  obtain ⟨hrest, hhealthy⟩ := claimWebhookAttempts_healthy w db now
  unfold tick TickSpared
  generalize claimWebhookAttempts w db now = r at hrest hhealthy ⊢
  obtain ⟨db', claimed⟩ := r
  cases claimed with
  | none => simp
  | some claimed =>
    have hclaimed := hhealthy claimed rfl
    obtain ⟨hturns, hsorted⟩ := turns_spec claimed now calls
    have hbatch := deliverClaimed_ok parse w (turns now claimed calls) db'
      (failuresOf db.rest) ?_ ?_ hsorted
    · have hstart : HealthyFor parse w db' (turns now claimed calls) := by
        intro y hy _ e he
        obtain ⟨hnow, hmem⟩ := hturns y hy
        obtain ⟨e', he', hh⟩ := hclaimed _ hmem
        rw [hrest, he'] at he
        cases he
        exact hh.later hnow
      rw [hbatch, and_iff_right hstart]
      simp
    · intro y hy
      obtain ⟨e, he, -⟩ := hclaimed _ (hturns y hy).2
      rw [hrest, he]
      rfl
    · intro k e he
      rw [hrest] at he
      unfold failuresOf
      rw [he]

/-- One poll of a worker, after any changes of the tables since the one before. -/
structure Round where
  worker : Worker
  change : HooksDb → HooksDb
  now : Time
  calls : ℕ → Call

def hooksStep (parse : String → Except String Unit) (db : HooksDb) (r : Round) : Option HooksDb :=
  some (tick parse r.worker (r.change db) r.now r.calls).1

/-- **Unhealthy endpoints are left alone exactly if every poll is spared.** In every run of polls,
by any workers and with any changes in between: no request is sent to an endpoint that is
deactivated or whose circuit is open, and no failure recorded against it, if and only if no contact
in a batch follows a 410 of the same endpoint or, within the open duration, the failure that tripped
its breaker. -/
theorem contacts_ok_iff (parse : String → Except String Unit) (db : HooksDb)
    (rounds : List Round) :
    Along (hooksStep parse) (fun db r _ =>
      ∀ c ∈ (tick parse r.worker (r.change db) r.now r.calls).2, ContactOk c) db rounds ↔
    Along (hooksStep parse) (fun db r _ =>
      TickSpared parse r.worker (r.change db) r.now r.calls) db rounds := by
  refine along_iff (I := fun _ => True) ?_ (fun _ _ _ _ _ _ => trivial) trivial
  intro db r _ _ _
  exact tick_ok parse r.worker (r.change db) r.now r.calls

/-- An endpoint after 19 failures. -/
def failingEndpoint : WebhookEndpoint where
  id := "e1"
  appId := "a1"
  url := "https://example.test/hook"
  deliveryMode := .hmac
  audience := none
  secret := some "whsec"
  prevSecret := none
  active := true
  maxAttempts := 8
  circuitOpenUntil := none
  consecutiveFailures := 19
  version := 19
  updatedAt := 0

def pendingAttempt (id : String) : WebhookAttempt where
  id := id
  endpointId := "e1"
  sourceEventId := "ev1"
  eventType := "message.delivered"
  payload := "1"
  state := .pending
  attempts := 0
  leaseOwner := none
  leaseUntil := none
  nextAttemptAt := none
  lastStatusCode := none
  lastError := none
  lastAttemptAt := none
  deliveredAt := none
  version := 0

/-- Two attempts wait for it. -/
def failingDb : HooksDb where
  rows := [pendingAttempt "w1", pendingAttempt "w2"]
  issued := ["w1", "w2"]
  rest := ⟨[failingEndpoint], by decide⟩
  nodup := by decide
  issued_of_mem := by decide

/-- The endpoint answers 500 to every request. -/
def failingRound : Round where
  worker := ⟨"w", false, true⟩
  change := id
  now := 0
  calls := fun _ =>
    { elapsed := 1
      settings := settingsOf failingEndpoint
      fetched := true
      sealed := .ok ()
      response := .ok ⟨500, "500 Internal Server Error"⟩
      attemptSaved := true
      endpointSaved := true }

/-- The first delivery opens the circuit, and the second request is sent all the same. -/
theorem sent_to_open_circuit : ¬ ∀ parse db rounds, Along (hooksStep parse) (fun db r _ =>
    ∀ c ∈ (tick parse r.worker (r.change db) r.now r.calls).2, ContactOk c) db rounds := by
  intro h
  have hok := (h (fun _ => .ok ()) failingDb [failingRound]).1
  revert hok
  decide

end Vsms.Hooks.Health
