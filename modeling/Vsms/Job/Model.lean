import Vsms.Lib.Consumers
import Vsms.Schema.Jobs
import Vsms.Routing.Decide

/-! # Claiming and running jobs

The `Claimable` implementation of `Job`, the patches of `apply_outcome` and `apply_failure`, and
that of the `requeue` procedure. A reclaim takes a running job with an expired lease back to
`pending`, without a lease and without looking at its attempts; only the failure path compares them
with the maximum. -/

namespace Vsms.Job.Model

open Vsms.Lib.Consumers Vsms.Schema.Types Vsms.Schema.Jobs Vsms.Routing.Decide

/-! ## Claiming -/

instance : Keyed Job String := ⟨Job.id⟩

def jobLease : Time := minutes 5

/-- A pending job whose time has come. -/
def Due (now : Time) (j : Job) : Prop := j.state = .pending ∧ j.runAt ≤ now

/-- A running job whose lease has expired. -/
def Expired (now : Time) (j : Job) : Prop := j.state = .running ∧ ∃ t ∈ j.leaseUntil, t < now

/-- **The filters of the two queries of `candidates`.** -/
def Claimable (now : Time) (j : Job) : Prop := Due now j ∨ Expired now j

instance (now : Time) (j : Job) : Decidable (Due now j) := by unfold Due; infer_instance

instance (now : Time) (j : Job) : Decidable (Expired now j) := by
  have : Decidable (∃ t ∈ j.leaseUntil, t < now) :=
    match j.leaseUntil with
    | none => .isFalse (by simp)
    | some t => decidable_of_iff (t < now) (by simp)
  unfold Expired
  infer_instance

instance (now : Time) (j : Job) : Decidable (Claimable now j) := by
  unfold Claimable
  infer_instance

theorem Claimable.state {now : Time} {j : Job} (h : Claimable now j) :
    j.state = .pending ∨ j.state = .running := h.imp And.left And.left

/-- `ORDER BY priority DESC, run_at ASC`. -/
def claimOrder (a b : Job) : Prop :=
  b.priority < a.priority ∨ (a.priority = b.priority ∧ a.runAt ≤ b.runAt)

instance : DecidableRel claimOrder := fun a b => by unfold claimOrder; infer_instance

/-- **`candidates`**: the due jobs, and if these are fewer than the budget, expired ones. -/
def candidates (now : Time) (budget : ℕ) : Select (Db Job String Unit) (List Job) := do
  let pending ← query fun db => selectRows (Due now) claimOrder budget db.rows
  let remaining := budget - pending.length
  if 0 < remaining then
    let reclaimable ← query fun db => selectRows (Expired now) claimOrder remaining db.rows
    return pending ++ reclaimable
  else return pending

def claimPatch (j : Job) (worker : String) (now : Time) : UpdateJobInput where
  state := some .running
  attempts := some (j.attempts + 1)
  leaseOwner := some (some worker)
  leaseUntil := some (some (now + jobLease))

def reclaimPatch : UpdateJobInput where
  state := some .pending
  leaseOwner := some none
  leaseUntil := some none

/-- **`take_lease`**, up to the write; the other states are those the source says are
unreachable. -/
def takeLease (j : Job) (worker : String) (now : Time) : Option UpdateJobInput :=
  match j.state with
  | .pending => some (claimPatch j worker now)
  | .running => some reclaimPatch
  | _ => none

/-! ## Outcomes -/

def backoffSchedule : List Time := [seconds 5, seconds 30, minutes 2, minutes 10, minutes 30]

/-- `backoff_for`: by the attempts made so far, the last entry for all beyond. -/
def backoffFor (attempts : ℤ) : Time := backoffSchedule.getD (min (max (attempts - 1) 0).toNat 4) 0

/-- What a handler returns; an error is its text. -/
abbrev JobOutcome := Except String Unit

/-- The error of a job whose kind has no handler. -/
def noHandler (kind : String) : String := "no handler registered for kind " ++ debugString kind

/-- **The write of `apply_outcome`**, and the first of `apply_failure`. -/
def outcomePatch : JobOutcome → UpdateJobInput
  | .ok () => { state := some .succeeded }
  | .error message => { state := some .failed, lastError := some (some message) }

/-- **The second write of `apply_failure`**: `dead` when the attempts are used up, else `pending`
after a backoff. -/
def failurePatch (failed : Job) (now : Time) : UpdateJobInput :=
  if failed.maxAttempts ≤ failed.attempts then { state := some .dead }
  else
    { state := some .pending
      runAt := some (now + backoffFor failed.attempts)
      leaseOwner := some none
      leaseUntil := some none }

/-- The write of `requeue`. -/
def requeuePatch (now : Time) : UpdateJobInput where
  state := some .pending
  attempts := some 0
  lastError := some none
  leaseOwner := some none
  leaseUntil := some none
  runAt := some now

theorem outcomePatch_state (outcome : JobOutcome) :
    (outcomePatch outcome).state = some .succeeded ∨
    (outcomePatch outcome).state = some .failed := by
  cases outcome with
  | ok u => exact Or.inl rfl
  | error message => exact Or.inr rfl

theorem outcomePatch_attempts (outcome : JobOutcome) : (outcomePatch outcome).attempts = none := by
  cases outcome <;> rfl

/-- A failed job is dead, or pending with an attempt left. -/
theorem failurePatch_cases (failed : Job) (now : Time) :
    (failurePatch failed now).attempts = none ∧
      ((failurePatch failed now).state = some .dead ∨
        ((failurePatch failed now).state = some .pending ∧
          failed.attempts < failed.maxAttempts)) := by
  unfold failurePatch
  split_ifs with h
  · exact ⟨rfl, Or.inl rfl⟩
  · exact ⟨rfl, Or.inr ⟨rfl, not_le.mp h⟩⟩

end Vsms.Job.Model
