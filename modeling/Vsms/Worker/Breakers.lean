import Vsms.Hooks.Deliver
import Vsms.Routing.Decide

/-! # The breakers of endpoints and providers

A webhook endpoint and a provider each have a breaker, kept in two columns of their row: a number of
failures, and the time until which the circuit is open. The decision is shared and the writes are
made by each role for itself: a failure writes the counter, and the time only if it trips; a success
writes both, unless there is nothing to reset. A failure that trips so late that `chrono` has no
time for the end of the open duration panics, and writes nothing.

`streak` counts the failures since the last success or trip. From a closed breaker, whatever
outcomes are recorded at times that `chrono` can carry forward (`InRange`), this is what the column
has (`Counted`), and a failure trips exactly if it is the one that makes the streak reach the
threshold (`breaker_counts`). So a series of failures trips at every multiple of the threshold. -/

namespace Vsms.Worker.Breakers

open Vsms.Lib.Runs Vsms.Schema.Types Vsms.Schema.Webhooks Vsms.Core.Breaker Vsms.Core.Chrono
open Vsms.Hooks.Deliver
open Vsms.Routing.Decide (Provider)

/-! ## The rows -/

/-- Rows with a breaker, and the update of its two columns in the stored row by someone who has read
some row: if that is the stored one, what is given is written. -/
class BreakerRow (ρ : Type) where
  failures : ρ → ℤ
  openUntil : ρ → Option Time
  update (stored read : ρ) (failures : Option ℤ) (openUntil : Option (Option Time)) (now : Time) : ρ
  failures_update (row : ρ) (f : Option ℤ) (u : Option (Option Time)) (now : Time) :
    failures (update row row f u now) = f.getD (failures row)
  openUntil_update (row : ρ) (f : Option ℤ) (u : Option (Option Time)) (now : Time) :
    openUntil (update row row f u now) = u.getD (openUntil row)

open BreakerRow

instance : BreakerRow WebhookEndpoint where
  failures := WebhookEndpoint.consecutiveFailures
  openUntil := WebhookEndpoint.circuitOpenUntil
  update stored read f u now :=
    stored.update read.version { consecutiveFailures := f, circuitOpenUntil := u } now
  failures_update row f u now := by
    unfold WebhookEndpoint.update
    rw [if_pos rfl]
    rfl
  openUntil_update row f u now := by
    unfold WebhookEndpoint.update
    rw [if_pos rfl]
    rfl

structure UpdateProviderInput where
  consecutiveFailures : Option ℤ := none
  circuitOpenUntil : Option (Option Time) := none

/-- The `SET` clause and the next version. -/
def UpdateProviderInput.apply (u : UpdateProviderInput) (p : Provider) : Provider :=
  { p with
    consecutiveFailures := u.consecutiveFailures.getD p.consecutiveFailures
    circuitOpenUntil := u.circuitOpenUntil.getD p.circuitOpenUntil
    version := p.version + 1 }

/-- **`update(id).set(u).if_match(v)`** on a provider. -/
def updateProvider (p : Provider) (ifMatch : ℕ) (u : UpdateProviderInput) : Provider :=
  if p.version = ifMatch then u.apply p else p

instance : BreakerRow Provider where
  failures := Provider.consecutiveFailures
  openUntil := Provider.circuitOpenUntil
  update stored read f u _ :=
    updateProvider stored read.version { consecutiveFailures := f, circuitOpenUntil := u }
  failures_update row f u _ := by
    unfold updateProvider
    rw [if_pos rfl]
    rfl
  openUntil_update row f u _ := by
    unfold updateProvider
    rw [if_pos rfl]
    rfl

/-! ## The writes -/

section row
variable {ρ : Type} [BreakerRow ρ] (policy : BreakerPolicy)

/-- What a failure writes, decided on the row that was read; `none` if it panics. -/
def recordFailure (stored read : ρ) (now : Time) : Option ρ :=
  (onFailure policy (failures read) now).map fun decision =>
    let circuitOpenUntil := if decision.openedCircuit then some decision.circuitOpenUntil else none
    update stored read (some decision.consecutiveFailures) circuitOpenUntil now

/-- What a success writes. -/
def resetFailures (stored read : ρ) (now : Time) : ρ :=
  if needsReset (failures read) (openUntil read) then update stored read (some 0) (some none) now
  else stored

end row

def providerBreaker : BreakerPolicy where
  failureThreshold := 5
  openDuration := seconds 60

/-- **`record_endpoint_failure`** -/
def recordEndpointFailure (stored endpoint : WebhookEndpoint) (now : Time) :
    Option WebhookEndpoint :=
  recordFailure endpointBreaker stored endpoint now

/-- **`reset_endpoint_failures`** -/
def resetEndpointFailures (stored endpoint : WebhookEndpoint) (now : Time) : WebhookEndpoint :=
  resetFailures stored endpoint now

/-- **`record_provider_failure`** -/
def recordProviderFailure (stored provider : Provider) (now : Time) : Option Provider :=
  recordFailure providerBreaker stored provider now

/-- **`reset_provider_failures`** -/
def resetProviderFailures (stored provider : Provider) (now : Time) : Provider :=
  resetFailures stored provider now

/-- The endpoint's part of a delivery that failed is this write. -/
theorem recordEndpointFailure_eq (stored endpoint : WebhookEndpoint) {now : Time}
    (hnow : Representable (now + endpointBreaker.openDuration)) :
    recordEndpointFailure stored endpoint now =
      some (stored.update endpoint.version (failurePatch endpoint now) now) := by
  have hset (t : Option Time) : (if t.isSome then some t else none) = t.map some := by
    cases t <;> rfl
  unfold recordEndpointFailure recordFailure failurePatch FailureDecision.openedCircuit
  rw [onFailure_of_representable hnow, Option.map_some]
  dsimp only
  rw [hset]
  rfl

/-- The endpoint's part of a delivery that succeeded is this one. -/
theorem resetEndpointFailures_eq (stored endpoint : WebhookEndpoint) (status : ℕ) (now : Time) :
    resetEndpointFailures stored endpoint now =
      match endpointPatch endpoint (.success status) now with
      | none => stored
      | some u => stored.update endpoint.version u now := by
  unfold resetEndpointFailures resetFailures endpointPatch
  dsimp only
  have hneeds : needsReset (failures endpoint) (openUntil endpoint) =
      needsReset endpoint.consecutiveFailures endpoint.circuitOpenUntil := rfl
  rw [hneeds]
  split <;> rfl

/-- The breaker of a role: its policy and its two writes. -/
structure Breaker (ρ : Type) where
  policy : BreakerPolicy
  recordFailure (stored read : ρ) (now : Time) : Option ρ
  resetFailures (stored read : ρ) (now : Time) : ρ

/-- The writes under any policy. -/
def breakerOf {ρ : Type} [BreakerRow ρ] (policy : BreakerPolicy) : Breaker ρ where
  policy := policy
  recordFailure := recordFailure policy
  resetFailures := resetFailures

/-- The breaker of the hooks role. -/
def endpoints : Breaker WebhookEndpoint where
  policy := endpointBreaker
  recordFailure := recordEndpointFailure
  resetFailures := resetEndpointFailures

/-- The breaker of the dispatch role. -/
def providers : Breaker Provider where
  policy := providerBreaker
  recordFailure := recordProviderFailure
  resetFailures := resetProviderFailures

/-! ## Outcomes -/

inductive Event
  | success (now : Time)
  | failure (now : Time)
  deriving DecidableEq

/-- An outcome, and whether it tripped the breaker. -/
structure Entry where
  event : Event
  tripped : Bool

/-- A failure that did not trip. -/
def Entry.counts (x : Entry) : Bool :=
  match x.event with
  | .success _ => false
  | .failure _ => !x.tripped

/-- **The failures since the last success or trip**, of a log with the latest outcome first. -/
def streak (log : List Entry) : ℕ := (log.takeWhile Entry.counts).length

def Entry.isFailure (x : Entry) : Bool :=
  match x.event with
  | .success _ => false
  | .failure _ => true

/-- The failures since the last success. -/
def series (log : List Entry) : ℕ := (log.takeWhile Entry.isFailure).length

theorem streak_success (now : Time) (tripped : Bool) (log : List Entry) :
    streak (⟨.success now, tripped⟩ :: log) = 0 := rfl

theorem streak_failure (now : Time) (tripped : Bool) (log : List Entry) :
    streak (⟨.failure now, tripped⟩ :: log) = if tripped then 0 else streak log + 1 := by
  cases tripped <;> rfl

theorem series_failure (now : Time) (tripped : Bool) (log : List Entry) :
    series (⟨.failure now, tripped⟩ :: log) = series log + 1 := rfl

theorem emod_succ {k T : ℤ} (hT : 0 < T) :
    (k + 1) % T = if k % T + 1 = T then 0 else k % T + 1 := by
  have hlt := Int.emod_lt_of_pos k hT
  have hnonneg := Int.emod_nonneg k hT.ne'
  rw [← Int.emod_add_emod]
  split_ifs with h
  · rw [h, Int.emod_self]
  · exact Int.emod_eq_of_lt (by omega) (by omega)

/-- A row and what has been recorded in it, the latest first. -/
structure Recorded (ρ : Type) where
  row : ρ
  log : List Entry

section run
variable {ρ : Type} [BreakerRow ρ] (breaker : Breaker ρ)

/-- An outcome recorded by someone who has read the row as it is. A panic leaves the row alone. -/
def applied (row : ρ) : Event → ρ
  | .success now => breaker.resetFailures row row now
  | .failure now => (breaker.recordFailure row row now).getD row

def trips (row : ρ) : Event → Bool
  | .success _ => false
  | .failure now =>
    (onFailure breaker.policy (failures row) now).any FailureDecision.openedCircuit

def step (s : Recorded ρ) (event : Event) : Option (Recorded ρ) :=
  some { row := applied breaker s.row event, log := ⟨event, trips breaker s.row event⟩ :: s.log }

/-- **The column is the streak**, and below the threshold. -/
structure Counted (policy : BreakerPolicy) (s : Recorded ρ) : Prop where
  eq : failures s.row = streak s.log
  nonneg : 0 ≤ failures s.row
  lt : failures s.row < policy.failureThreshold
  mod : (streak s.log : ℤ) = series s.log % policy.failureThreshold

/-- **What one outcome may do**: a success leaves a closed breaker, and a failure opens it, for the
open duration, exactly if it makes the streak reach the threshold. -/
def Opens (s : Recorded ρ) (event : Event) (s' : Recorded ρ) : Prop :=
  match event with
  | .success _ => failures s'.row = 0 ∧ openUntil s'.row = none
  | .failure now =>
    (trips breaker s.row event = true ↔
      (streak s.log : ℤ) + 1 = breaker.policy.failureThreshold) ∧
    openUntil s'.row =
      if trips breaker s.row event then some (now + breaker.policy.openDuration)
      else openUntil s.row

/-- **The breaker counts** in a run of outcomes. -/
def Counts (row : ρ) (events : List Event) : Prop :=
  Always (step breaker) (Counted breaker.policy) ⟨row, []⟩ events ∧
    Along (step breaker) (Opens breaker) ⟨row, []⟩ events

/-- Closed, and with no failures. -/
def Closed (row : ρ) : Prop := failures row = 0 ∧ openUntil row = none

/-- `chrono` has the time until which a failure would open the circuit. -/
def EventInRange (policy : BreakerPolicy) : Event → Prop
  | .success _ => True
  | .failure now => Representable (now + policy.openDuration)

def InRange (policy : BreakerPolicy) (events : List Event) : Prop :=
  ∀ event ∈ events, EventInRange policy event

section policy
variable {policy : BreakerPolicy} {now : Time}

theorem trips_eq (hnow : Representable (now + policy.openDuration)) (row : ρ) :
    trips (breakerOf policy) row (.failure now) =
      (failureDecision policy (failures row) now).openedCircuit := by
  unfold trips breakerOf
  dsimp only
  rw [onFailure_of_representable hnow, Option.any_some]

theorem trips_failure (hnow : Representable (now + policy.openDuration)) (row : ρ) :
    trips (breakerOf policy) row (.failure now) = true ↔
      policy.failureThreshold ≤ failures row + 1 := by
  rw [trips_eq hnow]
  exact openedCircuit_failureDecision policy (failures row) now

/-- **A success closes the breaker**, also if it writes nothing. -/
theorem closed_applied_success (policy : BreakerPolicy) (row : ρ) (now : Time) :
    Closed (applied (breakerOf policy) row (.success now)) := by
  change Closed (resetFailures row row now)
  unfold resetFailures Closed
  cases hr : needsReset (failures row) (openUntil row) with
  | true =>
    rw [if_pos rfl, failures_update, openUntil_update]
    exact ⟨rfl, rfl⟩
  | false =>
    rw [if_neg Bool.false_ne_true]
    exact needsReset_eq_false hr

theorem applied_failure (hnow : Representable (now + policy.openDuration)) (row : ρ) :
    applied (breakerOf policy) row (.failure now) =
      update row row (some (failureDecision policy (failures row) now).consecutiveFailures)
        (if trips (breakerOf policy) row (.failure now) then
          some (failureDecision policy (failures row) now).circuitOpenUntil
        else none) now := by
  change (recordFailure policy row row now).getD row = _
  rw [trips_eq hnow]
  unfold recordFailure
  rw [onFailure_of_representable hnow]
  rfl

theorem failures_applied_failure (hnow : Representable (now + policy.openDuration)) (row : ρ) :
    failures (applied (breakerOf policy) row (.failure now)) =
      if trips (breakerOf policy) row (.failure now) then 0 else failures row + 1 := by
  rw [applied_failure hnow, failures_update, Option.getD_some]
  simp only [trips_failure hnow, failureDecision]
  split <;> rfl

theorem openUntil_applied_failure (hnow : Representable (now + policy.openDuration)) (row : ρ) :
    openUntil (applied (breakerOf policy) row (.failure now)) =
      if trips (breakerOf policy) row (.failure now) then some (now + policy.openDuration)
      else openUntil row := by
  rw [applied_failure hnow, openUntil_update]
  simp only [trips_failure hnow]
  split
  · next h => simp [failureDecision, h]
  · rfl

/-! ### What one outcome does -/

theorem Counted.of_streak {s : Recorded ρ} (heq : failures s.row = streak s.log)
    (hlt : (streak s.log : ℤ) < policy.failureThreshold)
    (hmod : (streak s.log : ℤ) = series s.log % policy.failureThreshold) : Counted policy s := by
  refine ⟨heq, ?_, ?_, hmod⟩
  · rw [heq]
    exact Int.natCast_nonneg _
  · rwa [heq]

/-- A failure trips exactly if it makes the streak reach the threshold. -/
theorem Counted.trips_iff {s : Recorded ρ} (h : Counted policy s)
    (hnow : Representable (now + policy.openDuration)) :
    trips (breakerOf policy) s.row (.failure now) = true ↔
      (streak s.log : ℤ) + 1 = policy.failureThreshold := by
  have hlt := h.lt
  rw [trips_failure hnow, ← h.eq]
  omega

theorem Counted.success {s : Recorded ρ} (h : Counted policy s) (now : Time) (tripped : Bool) :
    Counted policy
      ⟨applied (breakerOf policy) s.row (.success now), ⟨.success now, tripped⟩ :: s.log⟩ := by
  have hpos : 0 < policy.failureThreshold := lt_of_le_of_lt h.nonneg h.lt
  refine .of_streak (closed_applied_success policy s.row now).1 hpos ?_
  simp [streak_success, series, Entry.isFailure]

/-- A failure adds one to the streak, which ends where the series is a multiple of the threshold. -/
theorem Counted.failure {s : Recorded ρ} (h : Counted policy s)
    (hnow : Representable (now + policy.openDuration)) :
    Counted policy ⟨applied (breakerOf policy) s.row (.failure now),
      ⟨.failure now, trips (breakerOf policy) s.row (.failure now)⟩ :: s.log⟩ := by
  have hpos : 0 < policy.failureThreshold := lt_of_le_of_lt h.nonneg h.lt
  have hlt : (streak s.log : ℤ) < policy.failureThreshold := by
    rw [← h.eq]
    exact h.lt
  have htrips := h.trips_iff hnow
  have hmod := emod_succ (k := series s.log) hpos
  rw [← h.mod] at hmod
  have hfailures := failures_applied_failure hnow s.row
  generalize trips (breakerOf policy) s.row (.failure now) = tripped at *
  cases tripped with
  | true =>
    rw [if_pos (htrips.mp rfl)] at hmod
    refine .of_streak ?_ ?_ ?_
    · rw [hfailures, streak_failure]
      rfl
    · rw [streak_failure]
      exact hpos
    · rw [streak_failure, series_failure, Int.natCast_succ, hmod]
      rfl
  | false =>
    have hbelow : ¬ (streak s.log : ℤ) + 1 = policy.failureThreshold :=
      mt htrips.mpr Bool.false_ne_true
    rw [if_neg hbelow] at hmod
    refine .of_streak ?_ ?_ ?_
    · rw [hfailures, streak_failure, h.eq]
      rfl
    · rw [streak_failure, if_neg Bool.false_ne_true, Int.natCast_succ]
      omega
    · rw [streak_failure, if_neg Bool.false_ne_true, series_failure, Int.natCast_succ,
        Int.natCast_succ, hmod]

/-- **One outcome** keeps the column equal to the streak, and opens the circuit when it should. -/
theorem Counted.step_counted {s s' : Recorded ρ} {event : Event} (h : Counted policy s)
    (hs : step (breakerOf policy) s event = some s') (hevent : EventInRange policy event) :
    Counted policy s' ∧ Opens (breakerOf policy) s event s' := by
  cases hs
  cases event with
  | success now => exact ⟨h.success now _, closed_applied_success policy s.row now⟩
  | failure now =>
    exact ⟨h.failure hevent, h.trips_iff hevent, openUntil_applied_failure hevent s.row⟩

variable (policy) in
/-- **A run of outcomes**, from a closed breaker. -/
theorem counts_of_inRange {row : ρ} {events : List Event} (hT : 1 ≤ policy.failureThreshold)
    (hevents : InRange policy events) (hrow : Closed row) :
    Counts (breakerOf policy) row events := by
  have hstart : Counted policy (⟨row, []⟩ : Recorded ρ) :=
    .of_streak hrow.1 (Int.lt_of_lt_of_le Int.one_pos hT) (by simp [streak, series])
  have halong : Along (step (breakerOf policy)) (fun _ event _ => EventInRange policy event)
      (⟨row, []⟩ : Recorded ρ) events :=
    (along_true _ _).imp fun event hmem _ _ _ => hevents event hmem
  refine ⟨Along.always (fun _ h => h) ?_ hstart halong, Along.of_invariant ?_ ?_ hstart halong⟩
  · intro s event s' h hs hevent
    exact (h.step_counted hs hevent).1
  · intro s event s' h hs hevent
    exact (h.step_counted hs hevent).2
  · intro s event s' h hs hevent
    exact (h.step_counted hs hevent).1

end policy

end run

/-- **Both breakers count.** For all outcomes that are recorded one after the other in an endpoint
or a provider whose breaker is closed, at times that `chrono` can carry forward by the open
duration: the column is always below the threshold and has the failures since the last success or
trip; a failure trips exactly if it makes them reach the threshold, and stores its time plus the
open duration; and a success leaves no failures and no time. This is so of the writes under every
policy with a positive threshold, and of those of the two roles under their own. -/
theorem breaker_counts (events : List Event) :
    (∀ policy : BreakerPolicy, 1 ≤ policy.failureThreshold → InRange policy events →
      (∀ endpoint : WebhookEndpoint, Closed endpoint →
        Counts (breakerOf policy) endpoint events) ∧
      ∀ provider : Provider, Closed provider → Counts (breakerOf policy) provider events) ∧
    (InRange endpointBreaker events →
      ∀ endpoint, Closed endpoint → Counts endpoints endpoint events) ∧
    (InRange providerBreaker events →
      ∀ provider, Closed provider → Counts providers provider events) := by
  refine ⟨fun policy hT hevents => ?_, fun hevents endpoint h => ?_, fun hevents provider h => ?_⟩
  · exact ⟨fun endpoint => counts_of_inRange policy hT hevents,
      fun provider => counts_of_inRange policy hT hevents⟩
  · exact counts_of_inRange endpointBreaker (by decide) hevents h
  · exact counts_of_inRange providerBreaker (by decide) hevents h

section runs

/-- A provider with no failures. -/
def healthyProvider : Provider where
  id := "p1"
  key := "orange"
  state := .active
  consecutiveFailures := 0
  circuitOpenUntil := none
  version := 0

/-- Five failures, of which the last opens the circuit for a minute, one more, and a success. -/
def sixFailures : List Event :=
  [.failure 0, .failure 1, .failure 2, .failure 3, .failure 4, .failure 5, .success 6]

theorem breaker_counts_six :
    ((List.range 8).map fun n => (exec (step providers) ⟨healthyProvider, []⟩
      (sixFailures.take n)).map fun s => (failures s.row, openUntil s.row)) =
      [some (0, none), some (1, none), some (2, none), some (3, none), some (4, none),
        some (0, some 60000004), some (1, some 60000004), some (0, none)] ∧
    Counts (breakerOf providerBreaker) healthyProvider sixFailures ∧
    Counts providers healthyProvider sixFailures := by
  have hevents : InRange providerBreaker sixFailures := by
    unfold InRange sixFailures
    simp only [List.forall_mem_cons, List.not_mem_nil, false_implies, implies_true, and_true,
      EventInRange]
    decide
  obtain ⟨hall, -, hproviders⟩ := breaker_counts sixFailures
  exact ⟨by decide, (hall providerBreaker (by decide) hevents).2 healthyProvider ⟨rfl, rfl⟩,
    hproviders hevents healthyProvider ⟨rfl, rfl⟩⟩

/-- At the last instant there is, the failure that should open the circuit panics. -/
theorem last_instant_does_not_trip :
    ¬ ∀ (policy : BreakerPolicy) (events : List Event) (provider : Provider),
      1 ≤ policy.failureThreshold → 0 ≤ policy.openDuration → Closed provider →
        Counts (breakerOf policy) provider events := by
  intro hall
  obtain ⟨-, hopens, -⟩ := hall ⟨1, seconds 60⟩ [.failure maxUtc] healthyProvider (by decide)
    (by decide) ⟨rfl, rfl⟩
  have htrips := hopens.1.mpr (by decide)
  exact absurd htrips (by decide)

end runs

end Vsms.Worker.Breakers
