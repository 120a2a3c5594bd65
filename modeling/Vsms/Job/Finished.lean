import Vsms.Job.System

/-! # When a job finished

The trigger stamps `finished_at` on entering a finished state, if it is null. As long as a finished
job stays so, the column is set exactly when the job is finished, and its time is not before the
claim of the run that finished it (`Inv`). The requeue procedure takes a `dead` job back to
`pending` and does not clear the column: from then on it is set on a job that is not finished, and
when the job finishes again the old time stays. -/

namespace Vsms.Job.Finished

open Vsms.Lib.Runs Vsms.Lib.Optimistic Vsms.Schema.Types Vsms.Schema.Jobs
open Vsms.Job.Model Vsms.Job.System

/-- The database time of the last claim: the start of the last run of the job. -/
def lastClaim : List Event → Option Time
  | [] => none
  | .claimed dbNow :: _ => some dbNow
  | _ :: log => lastClaim log

/-- **`finished_at` is right**: it is set exactly if the job is finished, and then not before the
start of the run that finished it. -/
def FinishedAtOk (s : Sys) : Prop :=
  (s.row.finishedAt.isSome ↔ s.row.Finished) ∧
    ∀ t ∈ s.row.finishedAt, s.row.Finished → ∀ t₀ ∈ lastClaim s.log, t₀ ≤ t

/-- A requeue of the job commits. -/
def Requeues (s : Sys) (a : Action) : Prop :=
  match s.procs a.proc, a.op with
  | .requeuing existing _ _, .requeue => s.row.version = existing.version
  | _, _ => False

structure Inv (s : Sys) : Prop where
  snapshots : Snapshots Proc.held s.toShared
  ok : FinishedAtOk s
  clock : ∀ t₀ ∈ lastClaim s.log, t₀ ≤ s.clock

theorem Inv.start (c : NewJob) : Inv (start c) where
  snapshots := start_snapshots c
  ok := by
    refine ⟨iff_of_false (by rintro ⟨⟩) ?_, by rintro t ⟨⟩⟩
    exact (by decide : JobState.pending ∉ finishedStates)
  clock := by rintro t ⟨⟩

/-! ### What the steps preserve -/

/-- A job that was not finished is stamped exactly if it is finished now. -/
theorem written_finishedAt_of_not_finished {j : Job} (hf : ¬ j.Finished) (hn : j.finishedAt = none)
    (u : UpdateJobInput) (now : Time) : (written u now j).finishedAt =
      if (written u now j).Finished then some now else none := by
  have hiff : (written u now j).Finished ↔ u.state.getD j.state ∈ finishedStates := by
    unfold Job.Finished
    rw [written_state]
  rw [written_finishedAt, hn]
  by_cases hs : u.state.getD j.state ∈ finishedStates
  · have hne : u.state.getD j.state ≠ j.state := fun he => hf (show j.state ∈ _ from he ▸ hs)
    rw [if_pos ⟨hne, hs, rfl⟩, if_pos (hiff.mpr hs)]
  · rw [if_neg (fun h => hs h.2.1), if_neg (mt hiff.mp hs)]

/-- Every writer but the requeue starts from a job that is not finished. -/
theorem writes_not_finished {s : Sys} {p : ℕ} {op : Op} {w : Plan}
    (h : Writes (s.procs p) op w) (hv : s.row.version = w.held.version)
    (hr : ¬ Requeues s ⟨p, op⟩) : ¬ w.held.Finished := by
  unfold Requeues at hr
  dsimp only at hr
  generalize s.procs p = x at h hr
  unfold Job.Finished
  cases h with
  | claim hs => rw [hs]; decide
  | reclaim hs => rw [hs]; decide
  | @outcome j hj => rw [hj]; decide
  | @failure failed hf => rw [hf]; decide
  | requeue => exact absurd hv hr

/-- A write records at most its own claim. -/
theorem writes_lastClaim {x : Proc} {op : Op} {w : Plan} (h : Writes x op w) (row : Job)
    (now : Time) (log : List Event) :
    lastClaim (w.events row now ++ log) = some now ∨
      lastClaim (w.events row now ++ log) = lastClaim log := by
  cases h with
  | claim hs =>
    dsimp only
    split_ifs
    · exact Or.inl rfl
    · exact Or.inr rfl
  | reclaim hs =>
    dsimp only
    split_ifs
    · exact Or.inl rfl
    · exact Or.inr rfl
  | _ => exact Or.inr rfl

theorem advances_lastClaim {s : Sys} {x : Proc} {op : Op} {o : Outcome} (h : Advances s x op o)
    (log : List Event) : lastClaim (o.events ++ log) = lastClaim log := by
  cases h <;> rfl

theorem Inv.go {s : Sys} (h : Inv s) {p : ℕ} {o : Outcome}
    (hsnap : Snapshots Proc.held (s.go p o).toShared)
    (hlog : lastClaim (o.events ++ s.log) = lastClaim s.log) : Inv (s.go p o) := by
  refine ⟨hsnap, ⟨h.ok.1, ?_⟩, ?_⟩
  · rw [Sys.go_log, hlog]
    exact h.ok.2
  · rw [Sys.go_log, hlog, Sys.go_clock]
    intro t₀ ht
    have hle := h.clock t₀ ht
    unfold Time at *
    omega

theorem Inv.wrote {s : Sys} (h : Inv s) {p : ℕ} {op : Op} {w : Plan}
    (hw : Writes (s.procs p) op w) (hrow : w.held = s.row) (hr : ¬ Requeues s ⟨p, op⟩)
    (hsnap : Snapshots Proc.held (s.wrote p w (written w.set s.clock s.row)).toShared) :
    Inv (s.wrote p w (written w.set s.clock s.row)) := by
  have hf : ¬ s.row.Finished := hrow ▸ writes_not_finished hw (by rw [hrow]) hr
  have hn : s.row.finishedAt = none := by
    rw [← Option.not_isSome_iff_eq_none, h.ok.1]
    exact hf
  have hat := written_finishedAt_of_not_finished hf hn w.set s.clock
  have hclock : ∀ t₀ ∈ lastClaim (w.events (written w.set s.clock s.row) s.clock ++ s.log),
      t₀ ≤ s.clock := by
    intro t₀ ht
    rcases writes_lastClaim hw (written w.set s.clock s.row) s.clock s.log with he | he <;>
      rw [he] at ht
    · cases ht
      exact le_rfl
    · exact h.clock t₀ ht
  refine ⟨hsnap, ⟨?_, ?_⟩, hclock⟩
  · rw [Sys.wrote_row, hat]
    split_ifs with hfin <;> simp [hfin]
  · intro t ht hfin t₀ ht₀
    rw [Sys.wrote_row] at ht hfin
    rw [hat, if_pos hfin] at ht
    cases ht
    exact hclock t₀ ht₀

theorem Inv.step {s s' : Sys} {a : Action} (h : Inv s) (hstep : step s a = some s')
    (hr : ¬ Requeues s a) : Inv s' := by
  have hsnap := step_snapshots h.snapshots hstep
  cases step_sound h.snapshots hstep with
  | wrote w hw hrow => exact h.wrote hw hrow hr hsnap
  | lost w hw hv => exact h.go hsnap rfl
  | moved o ho => exact h.go hsnap (advances_lastClaim ho s.log)

theorem Requeues.elim {s : Sys} {a : Action} (h : Requeues s a) :
    ∃ existing hd now, s.procs a.proc = .requeuing existing hd now ∧ a.op = .requeue ∧
      s.row.version = existing.version := by
  unfold Requeues at h
  split at h
  · next hx hop => exact ⟨_, _, _, hx, hop, h⟩
  · exact h.elim

/-- A requeued job keeps the time it finished before. -/
theorem not_ok_of_requeues {s s' : Sys} {a : Action} (h : Inv s) (hstep : step s a = some s')
    (hr : Requeues s a) : ¬ FinishedAtOk s' := by
  obtain ⟨p, op⟩ := a
  obtain ⟨existing, hd, now, hx, hop, hv⟩ := hr.elim
  dsimp only at hx hop
  subst hop
  have hrow : existing = s.row := (h.snapshots p existing (by rw [hx]; rfl)).eq hv.symm
  subst hrow
  have hwrote := step_wrote (a := ⟨p, .requeue⟩) (by rw [hx]; rfl) rfl
    (by rw [hd]; exact (by decide : Legal .dead .pending))
  rw [hwrote] at hstep
  cases hstep
  have hset : s.row.finishedAt.isSome := h.ok.1.mpr (by unfold Job.Finished; rw [hd]; decide)
  have hpending : JobState.pending ∉ finishedStates := by decide
  rintro ⟨hiff, -⟩
  rw [Sys.wrote_row] at hiff
  have hkeep : (written (requeuePatch now) s.clock s.row).finishedAt = s.row.finishedAt := by
    rw [written_finishedAt]
    exact if_neg fun hc => hpending hc.2.1
  have hfin := hiff.mp (by rw [hkeep]; exact hset)
  unfold Job.Finished at hfin
  rw [written_state] at hfin
  exact hpending hfin

/-- **`finished_at` is right exactly if the job is never requeued.** In a run from an enqueued job,
with any number of workers, crashes and database errors, it is right in every state if and only if
no requeue commits. -/
theorem finishedAt_ok_iff (c : NewJob) (as : List Action) :
    Always step FinishedAtOk (start c) as ↔
      Along step (fun s a _ => ¬ Requeues s a) (start c) as := by
  refine always_iff (I := Inv) (fun s h => h.ok) ?_ ?_ (Inv.start c)
  · intro s a s' h hstep
    exact ⟨fun hok hr => not_ok_of_requeues h hstep hr hok, fun hr => (h.step hstep hr).ok⟩
  · intro s a s' h hstep hr
    exact h.step hstep hr

/-- A job with one attempt, dead at the time 10. -/
def deadRun : List Action :=
  [⟨0, .poll "w" 0⟩, ⟨0, .takeLease⟩, ⟨0, .start ["purge"]⟩, ⟨0, .finish (.error "boom")⟩,
    ⟨0, .pass 10⟩, ⟨0, .applyOutcome⟩, ⟨0, .applyFailure 0⟩]

/-- It is requeued at 20 and claimed again at 30, and succeeds. -/
def revivedRun : List Action :=
  deadRun ++ [⟨1, .pass 10⟩, ⟨1, .readDead 0⟩, ⟨1, .requeue⟩, ⟨0, .pass 10⟩, ⟨0, .poll "w" 0⟩,
    ⟨0, .takeLease⟩, ⟨0, .start ["purge"]⟩, ⟨0, .finish (.ok ())⟩, ⟨0, .applyOutcome⟩]

/-- It finished before its last run started. -/
theorem revived_finished_before_started : ¬ ∀ c as, Always step FinishedAtOk (start c) as := by
  intro h
  obtain ⟨s, hs, he⟩ : ∃ s, exec step
      (start (recurring ⟨"purge", 0, 1⟩ "j1" 0)) revivedRun = some s ∧
      (s.row.state, s.row.finishedAt, lastClaim s.log) = (.succeeded, some 10, some 30) :=
    exec_eval rfl
  simp only [Prod.mk.injEq] at he
  have hok := (h _ revivedRun).last hs
  have hle := hok.2 10 he.2.1 (by unfold Job.Finished; rw [he.1]; decide) 30 he.2.2
  exact absurd hle (by decide)

end Vsms.Job.Finished
