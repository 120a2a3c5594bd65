import Vsms.Core.Chrono

/-! # The circuit breaker

The decisions of `breaker.rs`, without the writes: what one more failure does to a counter, and
whether a success has anything to reset. A failure that trips adds the open duration to its time,
which panics where `chrono` has no such time (`onFailure_of_representable`). -/

namespace Vsms.Core.Breaker

open Vsms.Schema.Types Vsms.Core.Chrono

structure BreakerPolicy where
  failureThreshold : ℤ
  openDuration : Time

/-- What one more failure decides; `circuitOpenUntil` is set only by the failure that trips. -/
structure FailureDecision where
  consecutiveFailures : ℤ
  circuitOpenUntil : Option Time

/-- Whether this failure is the one that trips. -/
def FailureDecision.openedCircuit (decision : FailureDecision) : Bool :=
  decision.circuitOpenUntil.isSome

/-- **`on_failure`**; `none` is the panic of `now + open_duration`. -/
def onFailure (policy : BreakerPolicy) (consecutiveBefore : ℤ) (now : Time) :
    Option FailureDecision :=
  if policy.failureThreshold ≤ consecutiveBefore + 1 then
    (addDuration now policy.openDuration).map fun openUntil =>
      { consecutiveFailures := 0, circuitOpenUntil := some openUntil }
  else some { consecutiveFailures := consecutiveBefore + 1, circuitOpenUntil := none }

/-- The decision at a time that is not at the end of `chrono`'s range. -/
def failureDecision (policy : BreakerPolicy) (consecutiveBefore : ℤ) (now : Time) :
    FailureDecision :=
  if policy.failureThreshold ≤ consecutiveBefore + 1 then
    { consecutiveFailures := 0, circuitOpenUntil := some (now + policy.openDuration) }
  else { consecutiveFailures := consecutiveBefore + 1, circuitOpenUntil := none }

theorem onFailure_of_representable {policy : BreakerPolicy} {now : Time}
    (h : Representable (now + policy.openDuration)) (consecutiveBefore : ℤ) :
    onFailure policy consecutiveBefore now =
      some (failureDecision policy consecutiveBefore now) := by
  unfold onFailure failureDecision addDuration
  rw [if_pos h]
  split_ifs
  · rfl
  · rfl

/-- The failure that reaches the threshold trips. -/
theorem openedCircuit_failureDecision (policy : BreakerPolicy) (consecutiveBefore : ℤ)
    (now : Time) : (failureDecision policy consecutiveBefore now).openedCircuit = true ↔
      policy.failureThreshold ≤ consecutiveBefore + 1 := by
  unfold failureDecision FailureDecision.openedCircuit
  split_ifs with h
  · exact iff_of_true rfl h
  · exact iff_of_false Bool.false_ne_true h

def needsReset (consecutiveFailures : ℤ) (circuitOpenUntil : Option Time) : Bool :=
  consecutiveFailures ≠ 0 || circuitOpenUntil.isSome

/-- There is nothing to reset only if nothing has failed and no circuit was opened. -/
theorem needsReset_eq_false {consecutiveFailures : ℤ} {circuitOpenUntil : Option Time}
    (h : needsReset consecutiveFailures circuitOpenUntil = false) :
    consecutiveFailures = 0 ∧ circuitOpenUntil = none := by
  simpa [needsReset] using h

end Vsms.Core.Breaker
