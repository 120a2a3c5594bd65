import Vsms.Lib.Guarded
import Vsms.Schema.Types

/-! # The `jobs` table

The row, the patch, the table of legal state changes, the trigger that guards it and stamps
`started_at` and `finished_at` where they are null, and the partial unique index that keeps one live
row for each recurring kind. -/

namespace Vsms.Schema.Jobs

open Vsms.Lib.Optimistic Vsms.Lib.Guarded Vsms.Schema.Types

structure Job where
  id : String
  kind : String
  dedupeKey : Option String
  payload : String
  state : JobState
  priority : ℤ
  runAt : Time
  leaseOwner : Option String
  leaseUntil : Option Time
  attempts : ℤ
  maxAttempts : ℤ
  lastError : Option String
  startedAt : Option Time
  finishedAt : Option Time
  version : ℕ
  createdAt : Time
  updatedAt : Time
  deriving DecidableEq

instance : Versioned Job := ⟨Job.version⟩

@[simp] theorem version_eq (j : Job) : Versioned.version j = j.version := rfl

/-! ## Creation -/

/-- What an enqueuer decides about a job; the other columns are null, or have their defaults. -/
structure NewJob where
  id : String
  kind : String
  dedupeKey : Option String
  payload : String
  priority : ℤ
  runAt : Time
  maxAttempts : ℤ
  createdAt : Time

/-- **A job just enqueued.** -/
def enqueue (c : NewJob) : Job where
  id := c.id
  kind := c.kind
  dedupeKey := c.dedupeKey
  payload := c.payload
  state := .pending
  priority := c.priority
  runAt := c.runAt
  leaseOwner := none
  leaseUntil := none
  attempts := 0
  maxAttempts := c.maxAttempts
  lastError := none
  startedAt := none
  finishedAt := none
  version := 0
  createdAt := c.createdAt
  updatedAt := c.createdAt

/-- The columns of a recurring job's specification that its rows carry. -/
structure RecurringJobSpec where
  kind : String
  priority : ℤ
  maxAttempts : ℤ

/-- The job `scheduler::try_enqueue` creates for a recurring kind: the kind is its dedupe key. -/
def recurring (spec : RecurringJobSpec) (id : String) (now : Time) : NewJob where
  id := id
  kind := spec.kind
  dedupeKey := some spec.kind
  payload := "\x7b\x7d"
  priority := spec.priority
  runAt := now
  maxAttempts := spec.maxAttempts
  createdAt := now

/-- The states of `jobs_dedupe_idx`. -/
def dedupeStates : List JobState := [.pending, .running, .failed]

/-- **The row keeps its kind and dedupe key taken** in `jobs_dedupe_idx`. -/
def Job.OccupiesDedupe (j : Job) : Prop := j.dedupeKey.isSome ∧ j.state ∈ dedupeStates

instance (j : Job) : Decidable j.OccupiesDedupe := by unfold Job.OccupiesDedupe; infer_instance

/-! ## Updates -/

structure UpdateJobInput where
  state : Option JobState := none
  runAt : Option Time := none
  leaseOwner : Option (Option String) := none
  leaseUntil : Option (Option Time) := none
  attempts : Option ℤ := none
  lastError : Option (Option String) := none

/-- The `SET` clause, and the next version. -/
def UpdateJobInput.apply (u : UpdateJobInput) (j : Job) : Job :=
  { j with
    state := u.state.getD j.state
    runAt := u.runAt.getD j.runAt
    leaseOwner := u.leaseOwner.getD j.leaseOwner
    leaseUntil := u.leaseUntil.getD j.leaseUntil
    attempts := u.attempts.getD j.attempts
    lastError := u.lastError.getD j.lastError
    version := j.version + 1 }

/-- The rows of `job_state_transitions`. -/
def jobStateTransitions : List (JobState × JobState) :=
  [(.pending, .running), (.pending, .cancelled),
    (.running, .succeeded), (.running, .failed), (.running, .pending),
    (.failed, .pending), (.failed, .dead), (.failed, .cancelled),
    (.dead, .pending)]

/-- The states the trigger stamps `finished_at` for. -/
def finishedStates : List JobState := [.succeeded, .dead, .cancelled]

def Job.Finished (j : Job) : Prop := j.state ∈ finishedStates

instance (j : Job) : Decidable j.Finished := by unfold Job.Finished; infer_instance

def stampStarted (now : Time) (j : Job) : Job :=
  if j.state = .running ∧ j.startedAt = none then { j with startedAt := some now } else j

def stampFinished (now : Time) (j : Job) : Job :=
  if j.state ∈ finishedStates ∧ j.finishedAt = none then { j with finishedAt := some now } else j

/-- What the trigger `jobs_guard_transition` stamps on a legal change. -/
def stampJob (now : Time) (j : Job) : Job := stampFinished now (stampStarted now j)

/-- The trigger `jobs_guard_transition`. -/
def jobsGuardTransition (now : Time) (old new : Job) : Except (Illegal JobState) Job :=
  guardTransition Job.state jobStateTransitions (stampJob now) old new

def touchUpdatedAt (now : Time) (j : Job) : Job := { j with updatedAt := now }

/-- The statement `UPDATE jobs SET ..` with its triggers. -/
def updateStatement (u : UpdateJobInput) (now : Time) (j : Job) : Except (Illegal JobState) Job :=
  (jobsGuardTransition now j (u.apply j)).map (touchUpdatedAt now)

/-- **`update(id).set(u).if_match(v)`** on the row `j`, at the database time `now`. -/
def Job.update (j : Job) (ifMatch : ℕ) (u : UpdateJobInput) (now : Time) :
    Except (CasError (Illegal JobState)) Job :=
  compareAndSwap j ifMatch (updateStatement u now)

/-! ### What a committed update has done -/

def Legal (old new : JobState) : Prop := Lib.Guarded.Legal jobStateTransitions old new

instance (old new : JobState) : Decidable (Legal old new) := by unfold Legal; infer_instance

/-- The row a committed update leaves. -/
def written (u : UpdateJobInput) (now : Time) (j : Job) : Job :=
  writtenRow Job.state u.apply (stampJob now) (touchUpdatedAt now) j

/-- **A committed update**: the version matched, the state change is legal, the row is `written`. -/
theorem update_ok {j j' : Job} {v : ℕ} {u : UpdateJobInput} {now : Time}
    (h : j.update v u now = .ok j') :
    j.version = v ∧ Legal j.state (u.state.getD j.state) ∧ j' = written u now j :=
  guardedUpdate_ok h

theorem update_refused {j : Job} {v : ℕ} {u : UpdateJobInput} {now : Time} {e : Illegal JobState}
    (h : j.update v u now = .error (.refused e)) :
    j.version = v ∧ ¬ Legal j.state (u.state.getD j.state) :=
  guardedUpdate_refused h

theorem update_of_legal {j : Job} {u : UpdateJobInput} (h : Legal j.state (u.state.getD j.state))
    (now : Time) : j.update j.version u now = .ok (written u now j) :=
  guardedUpdate_of_legal rfl h

/-- The triggers touch three columns only. -/
theorem written_eq (u : UpdateJobInput) (now : Time) (j : Job) :
    ∃ a b c, written u now j =
      { u.apply j with startedAt := a, finishedAt := b, updatedAt := c } := by
  unfold written writtenRow touchUpdatedAt stampJob stampFinished stampStarted
  split_ifs <;> exact ⟨_, _, _, rfl⟩

/-- What does not depend on them is read off the patch. -/
theorem written_apply {β : Type*} (f : Job → β)
    (hf : ∀ j a b c, f { j with startedAt := a, finishedAt := b, updatedAt := c } = f j)
    (u : UpdateJobInput) (now : Time) (j : Job) : f (written u now j) = f (u.apply j) := by
  obtain ⟨a, b, c, h⟩ := written_eq u now j
  rw [h]
  exact hf (u.apply j) a b c

section written
variable (u : UpdateJobInput) (now : Time) (j : Job)

@[simp] theorem written_id : (written u now j).id = j.id :=
  written_apply Job.id (fun _ _ _ _ => rfl) u now j
@[simp] theorem written_version : (written u now j).version = j.version + 1 :=
  written_apply Job.version (fun _ _ _ _ => rfl) u now j
@[simp] theorem written_state : (written u now j).state = u.state.getD j.state :=
  written_apply Job.state (fun _ _ _ _ => rfl) u now j
@[simp] theorem written_runAt : (written u now j).runAt = u.runAt.getD j.runAt :=
  written_apply Job.runAt (fun _ _ _ _ => rfl) u now j
@[simp] theorem written_leaseOwner :
    (written u now j).leaseOwner = u.leaseOwner.getD j.leaseOwner :=
  written_apply Job.leaseOwner (fun _ _ _ _ => rfl) u now j
@[simp] theorem written_leaseUntil :
    (written u now j).leaseUntil = u.leaseUntil.getD j.leaseUntil :=
  written_apply Job.leaseUntil (fun _ _ _ _ => rfl) u now j
@[simp] theorem written_attempts : (written u now j).attempts = u.attempts.getD j.attempts :=
  written_apply Job.attempts (fun _ _ _ _ => rfl) u now j
@[simp] theorem written_maxAttempts : (written u now j).maxAttempts = j.maxAttempts :=
  written_apply Job.maxAttempts (fun _ _ _ _ => rfl) u now j

theorem stampStarted_finishedAt : (stampStarted now j).finishedAt = j.finishedAt := by
  unfold stampStarted
  split_ifs <;> rfl

theorem stampStarted_state : (stampStarted now j).state = j.state := by
  unfold stampStarted
  split_ifs <;> rfl

theorem stampFinished_finishedAt : (stampFinished now j).finishedAt =
    if j.state ∈ finishedStates ∧ j.finishedAt = none then some now else j.finishedAt := by
  unfold stampFinished
  split_ifs <;> rfl

/-- `finished_at` is stamped on entering a finished state, if it is null. -/
theorem written_finishedAt : (written u now j).finishedAt =
    if u.state.getD j.state ≠ j.state ∧ u.state.getD j.state ∈ finishedStates ∧
      j.finishedAt = none then some now else j.finishedAt := by
  by_cases h : u.state.getD j.state = j.state
  · rw [if_neg (fun hc => hc.1 h)]
    unfold written writtenRow
    rw [if_pos (show (u.apply j).state = j.state from h)]
    rfl
  · unfold written writtenRow
    rw [if_neg (show ¬ (u.apply j).state = j.state from h)]
    change (stampFinished now (stampStarted now (u.apply j))).finishedAt = _
    rw [stampFinished_finishedAt, stampStarted_state, stampStarted_finishedAt]
    simp only [ne_eq, h, not_false_eq_true, true_and]
    rfl

end written

end Vsms.Schema.Jobs
