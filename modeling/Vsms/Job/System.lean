import Vsms.Lib.Runs
import Vsms.Job.Model

/-! # One job and everything that writes to it

The row, and any number of processes over it: workers that claim, run the handler and record its
outcome, and operators that requeue. Each write is a compare-and-swap on the version its process
read. A process may fail at a database call or stop at any point, also between the two writes of
`apply_failure`. The database's clock, which the triggers stamp with, only goes forward; the clocks
the processes read are their own. -/

namespace Vsms.Job.System

open Vsms.Lib.Runs Vsms.Lib.Optimistic Vsms.Lib.Guarded
open Vsms.Schema.Types Vsms.Schema.Jobs Vsms.Job.Model

/-! ## States -/

/-- What one process is doing with the job. -/
inductive Proc
  | idle
  | candidate (j : Job) (h : j.state = .pending ∨ j.state = .running) (worker : String) (now : Time)
  | claimed (j : Job) (h : j.state = .running)
  | running (j : Job) (h : j.state = .running)
  | finished (j : Job) (h : j.state = .running) (outcome : JobOutcome)
  | failing (failed : Job) (h : failed.state = .failed)
  | requeuing (existing : Job) (h : existing.state = .dead) (now : Time)

def Proc.held : Proc → Option Job
  | .idle => none
  | .candidate j _ _ _ => some j
  | .claimed j _ => some j
  | .running j _ => some j
  | .finished j _ _ => some j
  | .failing failed _ => some failed
  | .requeuing existing _ _ => some existing

/-- What happens to the job: a claim commits at a database time, a handler is started on the claim
that made an attempt, a requeue commits with a version. -/
inductive Event
  | claimed (dbNow : Time)
  | started (attempt : ℤ)
  | requeued (version : ℕ)
  | refused (e : Illegal JobState)
  deriving DecidableEq

/-- The row, the processes, the database's clock and the events, newest first. -/
structure Sys extends Shared Job Proc where
  clock : Time
  log : List Event

/-- A job just enqueued. -/
def start (c : NewJob) : Sys where
  row := enqueue c
  procs := fun _ => .idle
  clock := c.createdAt
  log := []

/-! ## Steps -/

/-- The next thing a process does; `pass` lets time go by in the database. -/
inductive Op
  | poll (worker : String) (now : Time)
  | takeLease
  | start (registry : List String)
  | finish (outcome : JobOutcome)
  | applyOutcome
  | applyFailure (now : Time)
  | readDead (now : Time)
  | requeue
  | pass (elapsed : ℕ)
  | dbError
  | crash

structure Action where
  proc : ℕ
  op : Op

/-- A write: the copy it was made from, the patch, and how the process goes on if it commits. -/
structure Plan where
  held : Job
  set : UpdateJobInput
  next : Job → Proc := fun _ => .idle
  events : Job → Time → List Event := fun _ _ => []

/-- A worker runs a claimed row only if it is `running`. -/
def claimedOrIdle (j : Job) : Proc :=
  if h : j.state = .running then .claimed j h else .idle

/-- `apply_failure` goes on with the row its first write returned. -/
def failingOrIdle (j : Job) : Proc :=
  if h : j.state = .failed then .failing j h else .idle

/-- **The writes of the processes.** -/
def plan : Proc → Op → Option Plan
  | .candidate j _ worker now, .takeLease =>
    (takeLease j worker now).map fun set =>
      { held := j, set := set, next := claimedOrIdle
        events := fun row dbNow => if row.state = .running then [.claimed dbNow] else [] }
  | .finished j _ outcome, .applyOutcome =>
    some { held := j, set := outcomePatch outcome, next := failingOrIdle }
  | .failing failed _, .applyFailure now => some { held := failed, set := failurePatch failed now }
  | .requeuing existing _ now, .requeue =>
    some { held := existing, set := requeuePatch now
           events := fun row _ => [.requeued row.version] }
  | _, _ => none

/-- How a process goes on without a write to the job. -/
structure Outcome where
  next : Proc
  events : List Event := []
  elapsed : ℕ := 0

/-- **The other steps of the processes.** -/
def advance (s : Sys) : Proc → Op → Option Outcome
  | .idle, .poll worker now =>
    if h : Claimable now s.row then some { next := .candidate s.row h.state worker now } else none
  | .claimed j h, .start registry =>
    if j.kind ∈ registry then some { next := .running j h, events := [.started j.attempts] }
    else some { next := .finished j h (.error (noHandler j.kind)) }
  | .running j h, .finish outcome => some { next := .finished j h outcome }
  | .idle, .readDead now =>
    if h : s.row.state = .dead then some { next := .requeuing s.row h now } else none
  | x, .pass elapsed => some { next := x, elapsed := elapsed }
  | _, .dbError => some { next := .idle }
  | _, .crash => some { next := .idle }
  | _, _ => none

/-- Let process `p` go on. -/
def Sys.go (s : Sys) (p : ℕ) (o : Outcome) : Sys where
  toShared := s.toShared.become p o.next
  clock := s.clock + o.elapsed
  log := o.events ++ s.log

/-- Commit the write `w` of process `p` as the row `row`. -/
def Sys.wrote (s : Sys) (p : ℕ) (w : Plan) (row : Job) : Sys where
  toShared := s.toShared.commit row p (w.next row)
  clock := s.clock
  log := w.events row s.clock ++ s.log

/-- Try the write `w` of process `p`: every writer drops a failed precondition. -/
def Sys.write (s : Sys) (p : ℕ) (w : Plan) : Sys :=
  match s.row.update w.held.version w.set s.clock with
  | .ok row => s.wrote p w row
  | .error .preconditionFailed => s.go p { next := .idle }
  | .error (.refused e) => s.go p { next := .idle, events := [.refused e] }

/-- **One step of the system.** -/
def step (s : Sys) (a : Action) : Option Sys :=
  match plan (s.procs a.proc) a.op with
  | some w => some (s.write a.proc w)
  | none => (advance s (s.procs a.proc) a.op).map (s.go a.proc)

@[simp] theorem Sys.go_row (s : Sys) (p : ℕ) (o : Outcome) : (s.go p o).row = s.row := rfl
@[simp] theorem Sys.go_procs (s : Sys) (p : ℕ) (o : Outcome) :
    (s.go p o).procs = Function.update s.procs p o.next := rfl
@[simp] theorem Sys.go_clock (s : Sys) (p : ℕ) (o : Outcome) :
    (s.go p o).clock = s.clock + o.elapsed := rfl
@[simp] theorem Sys.go_log (s : Sys) (p : ℕ) (o : Outcome) : (s.go p o).log = o.events ++ s.log :=
  rfl
@[simp] theorem Sys.wrote_row (s : Sys) (p : ℕ) (w : Plan) (row : Job) :
    (s.wrote p w row).row = row := rfl
@[simp] theorem Sys.wrote_procs (s : Sys) (p : ℕ) (w : Plan) (row : Job) :
    (s.wrote p w row).procs = Function.update s.procs p (w.next row) := rfl
@[simp] theorem Sys.wrote_clock (s : Sys) (p : ℕ) (w : Plan) (row : Job) :
    (s.wrote p w row).clock = s.clock := rfl
@[simp] theorem Sys.wrote_log (s : Sys) (p : ℕ) (w : Plan) (row : Job) :
    (s.wrote p w row).log = w.events row s.clock ++ s.log := rfl

/-! ## What a step can do -/

/-- **The writes, one constructor a writer.** -/
inductive Writes : Proc → Op → Plan → Prop
  | claim {j h worker now} (hs : j.state = .pending) :
      Writes (.candidate j h worker now) .takeLease
        { held := j, set := claimPatch j worker now, next := claimedOrIdle
          events := fun row dbNow => if row.state = .running then [.claimed dbNow] else [] }
  | reclaim {j h worker now} (hs : j.state = .running) :
      Writes (.candidate j h worker now) .takeLease
        { held := j, set := reclaimPatch, next := claimedOrIdle
          events := fun row dbNow => if row.state = .running then [.claimed dbNow] else [] }
  | outcome {j h result} :
      Writes (.finished j h result) .applyOutcome
        { held := j, set := outcomePatch result, next := failingOrIdle }
  | failure {failed h now} :
      Writes (.failing failed h) (.applyFailure now)
        { held := failed, set := failurePatch failed now }
  | requeue {existing h now} :
      Writes (.requeuing existing h now) .requeue
        { held := existing, set := requeuePatch now
          events := fun row _ => [.requeued row.version] }

theorem plan_writes {x : Proc} {op : Op} {w : Plan} (h : plan x op = some w) : Writes x op w := by
  unfold plan at h
  split at h
  · next j hj worker now =>
    obtain ⟨set, hset, rfl⟩ := Option.map_eq_some_iff.mp h
    unfold takeLease at hset
    rcases hj with hs | hs <;>
    · simp only [hs, Option.some.injEq] at hset
      subst hset
      first | exact .claim hs | exact .reclaim hs
  · cases h
    exact .outcome
  · cases h
    exact .failure
  · cases h
    exact .requeue
  · cases h

/-- **The other steps, one constructor each.** -/
inductive Advances (s : Sys) : Proc → Op → Outcome → Prop
  | poll {worker now} (h : Claimable now s.row) :
      Advances s .idle (.poll worker now) { next := .candidate s.row h.state worker now }
  | start {j h registry} (hk : j.kind ∈ registry) :
      Advances s (.claimed j h) (.start registry)
        { next := .running j h, events := [.started j.attempts] }
  | noHandler {j h registry} (hk : j.kind ∉ registry) :
      Advances s (.claimed j h) (.start registry)
        { next := .finished j h (.error (noHandler j.kind)) }
  | finish {j h outcome} :
      Advances s (.running j h) (.finish outcome) { next := .finished j h outcome }
  | readDead {now} (h : s.row.state = .dead) :
      Advances s .idle (.readDead now) { next := .requeuing s.row h now }
  | pass {x elapsed} : Advances s x (.pass elapsed) { next := x, elapsed := elapsed }
  | dbError {x} : Advances s x .dbError { next := .idle }
  | crash {x} : Advances s x .crash { next := .idle }

theorem advance_advances {s : Sys} {x : Proc} {op : Op} {o : Outcome}
    (h : advance s x op = some o) : Advances s x op o := by
  unfold advance at h
  split at h
  · split_ifs at h with hc
    cases h
    exact .poll hc
  · split_ifs at h with hk
    · cases h
      exact .start hk
    · cases h
      exact .noHandler hk
  · cases h
    exact .finish
  · split_ifs at h with hd
    cases h
    exact .readDead hd
  · cases h
    exact .pass
  · cases h
    exact .dbError
  · cases h
    exact .crash
  · cases h

/-- **What one step of process `p` can do**: a write that commits, one that lost the race, one the
guard refused, or no write. -/
inductive Steps (s : Sys) (p : ℕ) (op : Op) : Sys → Prop
  | wrote (w : Plan) (hw : Writes (s.procs p) op w) (hv : s.row.version = w.held.version)
      (hl : Legal s.row.state (w.set.state.getD s.row.state)) :
      Steps s p op (s.wrote p w (written w.set s.clock s.row))
  | lost (w : Plan) (hw : Writes (s.procs p) op w) (hv : s.row.version ≠ w.held.version) :
      Steps s p op (s.go p { next := .idle })
  | refused (w : Plan) (e : Illegal JobState) (hw : Writes (s.procs p) op w)
      (hv : s.row.version = w.held.version)
      (hl : ¬ Legal s.row.state (w.set.state.getD s.row.state)) :
      Steps s p op (s.go p { next := .idle, events := [.refused e] })
  | moved (o : Outcome) (ho : Advances s (s.procs p) op o) : Steps s p op (s.go p o)

theorem step_cases {s s' : Sys} {a : Action} (h : step s a = some s') :
    Steps s a.proc a.op s' := by
  unfold step at h
  cases hp : plan (s.procs a.proc) a.op with
  | none =>
    rw [hp] at h
    obtain ⟨o, ho, rfl⟩ := Option.map_eq_some_iff.mp h
    exact .moved o (advance_advances ho)
  | some w =>
    rw [hp] at h
    cases h
    have hw := plan_writes hp
    unfold Sys.write
    cases hu : s.row.update w.held.version w.set s.clock with
    | ok row =>
      obtain ⟨hv, hl, rfl⟩ := update_ok hu
      exact .wrote w hw hv hl
    | error e =>
      cases e with
      | preconditionFailed => exact .lost w hw (compareAndSwap_preconditionFailed.mp hu)
      | refused e =>
        obtain ⟨hv, hl⟩ := update_refused hu
        exact .refused w e hw hv hl

/-- A legal write made from the row itself commits. -/
theorem step_wrote {s : Sys} {a : Action} {w : Plan} (hp : plan (s.procs a.proc) a.op = some w)
    (hrow : w.held = s.row) (hl : Legal s.row.state (w.set.state.getD s.row.state)) :
    step s a = some (s.wrote a.proc w (written w.set s.clock s.row)) := by
  unfold step Sys.write
  rw [hp]
  dsimp only
  rw [hrow, update_of_legal hl]

/-! ### Writes -/

theorem Writes.held_eq {x : Proc} {op : Op} {w : Plan} (h : Writes x op w) :
    x.held = some w.held := by
  cases h <;> rfl

/-- **A writer picks an edge of the table**: it was selected in its source. -/
theorem Writes.legal {x : Proc} {op : Op} {w : Plan} (h : Writes x op w) :
    Legal w.held.state (w.set.state.getD w.held.state) := by
  cases h with
  | @claim j h worker now hs =>
    change Legal j.state .running
    rw [hs]
    decide
  | @reclaim j h worker now hs =>
    change Legal j.state .pending
    rw [hs]
    decide
  | @outcome j h result =>
    dsimp only
    rw [h]
    rcases outcomePatch_state result with hu | hu <;> rw [hu] <;> decide
  | @failure failed h now =>
    dsimp only
    rw [h]
    rcases (failurePatch_cases failed now).2 with hu | ⟨hu, -⟩ <;> rw [hu] <;> decide
  | @requeue existing h now =>
    change Legal existing.state .pending
    rw [h]
    decide

theorem claimedOrIdle_cases (j : Job) :
    (∃ h, claimedOrIdle j = .claimed j h) ∨ (j.state ≠ .running ∧ claimedOrIdle j = .idle) := by
  unfold claimedOrIdle
  split_ifs with h
  · exact Or.inl ⟨h, rfl⟩
  · exact Or.inr ⟨h, rfl⟩

theorem failingOrIdle_cases (j : Job) :
    (∃ h, failingOrIdle j = .failing j h) ∨ (j.state ≠ .failed ∧ failingOrIdle j = .idle) := by
  unfold failingOrIdle
  split_ifs with h
  · exact Or.inl ⟨h, rfl⟩
  · exact Or.inr ⟨h, rfl⟩

/-- A process that wrote keeps at most the row it wrote. -/
theorem Writes.held_next {x : Proc} {op : Op} {w : Plan} (h : Writes x op w) {row j : Job}
    (hj : (w.next row).held = some j) : j = row := by
  have hclaimed (h : (claimedOrIdle row).held = some j) : j = row := by
    rcases claimedOrIdle_cases row with ⟨hr, he⟩ | ⟨-, he⟩ <;> rw [he] at h <;> cases h
    rfl
  have hfailing (h : (failingOrIdle row).held = some j) : j = row := by
    rcases failingOrIdle_cases row with ⟨hr, he⟩ | ⟨-, he⟩ <;> rw [he] at h <;> cases h
    rfl
  cases h with
  | claim hs => exact hclaimed hj
  | reclaim hs => exact hclaimed hj
  | outcome => exact hfailing hj
  | failure => cases hj
  | requeue => cases hj

/-- A process that moves on keeps its copy, or has just read the row. -/
theorem Advances.held_next {s : Sys} {x : Proc} {op : Op} {o : Outcome} (h : Advances s x op o)
    {j : Job} (hj : o.next.held = some j) : x.held = some j ∨ j = s.row := by
  cases h <;> first | exact Or.inl hj | exact Or.inr (Option.some.inj hj).symm | cases hj

/-! ### Systems whose copies are snapshots -/

/-- **The same, where every copy is a snapshot**: a write that commits was computed from the row it
replaces, and the guard refuses none. -/
inductive Sound (s : Sys) (p : ℕ) (op : Op) : Sys → Prop
  | wrote (w : Plan) (hw : Writes (s.procs p) op w) (hrow : w.held = s.row) :
      Sound s p op (s.wrote p w (written w.set s.clock s.row))
  | lost (w : Plan) (hw : Writes (s.procs p) op w) (hv : s.row.version ≠ w.held.version) :
      Sound s p op (s.go p { next := .idle })
  | moved (o : Outcome) (ho : Advances s (s.procs p) op o) : Sound s p op (s.go p o)

theorem step_sound {s s' : Sys} {a : Action} (hs : Snapshots Proc.held s.toShared)
    (h : step s a = some s') : Sound s a.proc a.op s' := by
  have hrow {w : Plan} (hw : Writes (s.procs a.proc) a.op w)
      (hv : s.row.version = w.held.version) : w.held = s.row :=
    (hs a.proc w.held hw.held_eq).eq hv.symm
  cases step_cases h with
  | wrote w hw hv hl => exact .wrote w hw (hrow hw hv)
  | lost w hw hv => exact .lost w hw hv
  | refused w e hw hv hl => exact absurd (hrow hw hv ▸ hw.legal) hl
  | moved o ho => exact .moved o ho

theorem step_move {s s' : Sys} {a : Action} (h : step s a = some s') :
    Move Proc.held s.toShared a.proc s'.toShared := by
  cases step_cases h with
  | wrote w hw hv hl =>
    refine .commit w.held _ _ hw.held_eq hv.symm ?_ fun j hj => hw.held_next hj
    simp
  | lost w hw hv => exact .become _ fun j hj => by cases hj
  | refused w e hw hv hl => exact .become _ fun j hj => by cases hj
  | moved o ho => exact .become _ fun j hj => ho.held_next hj

/-- **Every copy a process holds is a snapshot of the row.** -/
theorem step_snapshots {s s' : Sys} {a : Action} (hs : Snapshots Proc.held s.toShared)
    (h : step s a = some s') : Snapshots Proc.held s'.toShared :=
  (step_move h).snapshots hs

theorem start_snapshots (c : NewJob) : Snapshots Proc.held (start c).toShared := by
  intro p j hj
  cases hj

end Vsms.Job.System
