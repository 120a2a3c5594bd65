import Vsms.Job.System

/-! # Jobs nothing selects

A job that is not finished is looked after if, from some clock value on, the queries of `candidates`
select it; a worker that polls then has it running after one round, or two if the lease has to be
taken back first. The queries have `pending` and `running` only, while `apply_failure` writes
`failed` first and the next state in a second write. A process that stops between the two leaves a
`failed` row that nothing selects, and that keeps its dedupe key taken.

`Inv` holds as long as no process does so: a `failed` row is the one some process is about to move
on, and there is only one such process. -/

namespace Vsms.Job.Stuck

open Vsms.Lib.Runs Vsms.Lib.Optimistic Vsms.Schema.Types Vsms.Schema.Jobs
open Vsms.Job.Model Vsms.Job.System

/-! ### Rows the queries select in the long run -/

/-- **The queries of `candidates` select the row at all sufficiently late clock values.** -/
def EventuallyClaimable (j : Job) : Prop := ∃ t, ∀ now, t ≤ now → Claimable now j

theorem eventuallyClaimable_of_pending {j : Job} (h : j.state = .pending) :
    EventuallyClaimable j := ⟨j.runAt, fun _ hn => Or.inl ⟨h, hn⟩⟩

theorem eventuallyClaimable_of_running {j : Job} (h : j.state = .running)
    (hl : j.leaseUntil.isSome) : EventuallyClaimable j := by
  obtain ⟨t, ht⟩ := Option.isSome_iff_exists.mp hl
  refine ⟨t + 1, fun now hn => Or.inr ⟨h, t, ht, ?_⟩⟩
  unfold Time at *
  omega

theorem not_claimable_of_failed {j : Job} (h : j.state = .failed) (now : Time) :
    ¬ Claimable now j := by
  intro hc
  rcases hc.state with hs | hs <;> rw [h] at hs <;> cases hs

theorem not_eventuallyClaimable_of_failed {j : Job} (h : j.state = .failed) :
    ¬ EventuallyClaimable j := fun ⟨t, ht⟩ => not_claimable_of_failed h t (ht t le_rfl)

/-- A job that is not finished is in one of three states. -/
theorem not_finished_cases {j : Job} (h : ¬ j.Finished) :
    j.state = .pending ∨ j.state = .running ∨ j.state = .failed := by
  unfold Job.Finished finishedStates at h
  cases hs : j.state <;> simp [hs] at h ⊢

/-! ### Running again -/

/-- One round of a worker: it polls and takes the lease. -/
def claimRound (p : ℕ) (worker : String) (now : Time) : List Action :=
  [⟨p, .poll worker now⟩, ⟨p, .takeLease⟩]

/-- **A worker whose clock is late enough runs the job**, after one round or two. -/
def RunsAgain (s : Sys) : Prop :=
  ∃ t, ∀ now, t ≤ now → ∀ p worker, s.procs p = .idle →
    ∃ rounds ∈ [claimRound p worker now, claimRound p worker now ++ claimRound p worker now],
      ∃ s' j h, exec step s rounds = some s' ∧ s'.procs p = .claimed j h ∧ s'.row = j ∧
        j.leaseOwner = some worker

/-- A round on a claimable row commits its write. -/
theorem exec_claimRound {s : Sys} {p : ℕ} (worker : String) {now : Time}
    (hp : s.procs p = .idle) (hc : Claimable now s.row) {u : UpdateJobInput}
    (hu : takeLease s.row worker now = some u)
    (hl : Legal s.row.state (u.state.getD s.row.state)) :
    ∃ s', exec step s (claimRound p worker now) = some s' ∧
      s'.row = written u s.clock s.row ∧ s'.procs p = claimedOrIdle s'.row := by
  have hpoll : step s ⟨p, .poll worker now⟩ =
      some (s.go p { next := .candidate s.row hc.state worker now }) := by
    simp [step, hp, plan, advance, hc]
  obtain ⟨w, hw, hheld, hset, hnext⟩ : ∃ w : Plan,
      plan (.candidate s.row hc.state worker now) .takeLease = some w ∧ w.held = s.row ∧
        w.set = u ∧ w.next = claimedOrIdle := by
    simp [plan, hu]
  set t := s.go p { next := .candidate s.row hc.state worker now } with ht
  have htake := step_wrote (s := t) (a := ⟨p, .takeLease⟩) (w := w) (by simpa [ht] using hw)
    (by simpa [ht] using hheld) (by simpa [ht, hset] using hl)
  refine ⟨_, exec_cons.mpr ⟨t, hpoll, exec_cons.mpr ⟨_, htake, rfl⟩⟩, ?_, ?_⟩
  · simp [ht, hset]
  · simp [ht, hnext]

theorem exec_claimRound_pending {s : Sys} {p : ℕ} (worker : String) {now : Time}
    (hp : s.procs p = .idle) (hs : s.row.state = .pending) (hn : s.row.runAt ≤ now) :
    ∃ s' j h, exec step s (claimRound p worker now) = some s' ∧ s'.procs p = .claimed j h ∧
      s'.row = j ∧ j.leaseOwner = some worker := by
  obtain ⟨s', he, hrow, hproc⟩ := exec_claimRound worker hp (Or.inl ⟨hs, hn⟩)
    (u := claimPatch s.row worker now) (by simp [takeLease, hs])
    (by rw [hs]; exact (by decide : Legal .pending .running))
  have hr : s'.row.state = .running := by rw [hrow, written_state]; rfl
  have ho : s'.row.leaseOwner = some worker := by rw [hrow, written_leaseOwner]; rfl
  refine ⟨s', s'.row, hr, he, ?_, rfl, ho⟩
  rw [hproc, claimedOrIdle, dif_pos hr]

theorem exec_claimRound_running {s : Sys} {p : ℕ} (worker : String) {now : Time}
    (hp : s.procs p = .idle) (hs : s.row.state = .running) {t : Time}
    (ht : s.row.leaseUntil = some t) (hn : t < now) :
    ∃ s', exec step s (claimRound p worker now) = some s' ∧ s'.procs p = .idle ∧
      s'.row.state = .pending ∧ s'.row.runAt = s.row.runAt := by
  obtain ⟨s', he, hrow, hproc⟩ := exec_claimRound worker hp (Or.inr ⟨hs, t, ht, hn⟩)
    (u := reclaimPatch) (by simp [takeLease, hs])
    (by rw [hs]; exact (by decide : Legal .running .pending))
  have hr : s'.row.state = .pending := by rw [hrow, written_state]; rfl
  refine ⟨s', he, ?_, hr, by rw [hrow, written_runAt]; rfl⟩
  rw [hproc, claimedOrIdle, dif_neg (by rw [hr]; decide)]

theorem runsAgain_of_pending {s : Sys} (hs : s.row.state = .pending) : RunsAgain s := by
  refine ⟨s.row.runAt, fun now hn p worker hp => ⟨_, List.mem_cons_self, ?_⟩⟩
  exact exec_claimRound_pending worker hp hs hn

theorem runsAgain_of_running {s : Sys} (hs : s.row.state = .running)
    (hl : s.row.leaseUntil.isSome) : RunsAgain s := by
  obtain ⟨t, ht⟩ := Option.isSome_iff_exists.mp hl
  refine ⟨max (t + 1) s.row.runAt, fun now hn p worker hp => ?_⟩
  have hlease : t < now := by
    have := (le_max_left _ _).trans hn
    unfold Time at *
    omega
  obtain ⟨u, hu, hpu, hsu, hru⟩ := exec_claimRound_running worker hp hs ht hlease
  obtain ⟨s', j, h, he, hrest⟩ := exec_claimRound_pending worker hpu hsu
    (hru ▸ (le_max_right _ _).trans hn)
  exact ⟨_, List.mem_cons_of_mem _ List.mem_cons_self,
    s', j, h, exec_append.mpr ⟨u, hu, he⟩, hrest⟩

/-! ### The second write of `apply_failure` -/

/-- The row a process is about to move on from `failed`. -/
def failing : Proc → Option Job
  | .failing failed _ => some failed
  | _ => none

theorem failing_held {x : Proc} {f : Job} (h : failing x = some f) :
    x.held = some f ∧ f.state = .failed := by
  cases x with
  | failing failed hf =>
    cases h
    exact ⟨rfl, hf⟩
  | _ => cases h

/-- No process is still going to move the row on from `failed`. -/
def Left (s : Sys) : Prop := ∀ p, failing (s.procs p) = none

/-- **The job is not stuck.** If it is left in a state that is not final, the queries of
`candidates` select it at all late clock values; and if it keeps its dedupe key taken, it runs
again. -/
def NotStuck (s : Sys) : Prop :=
  Left s → (¬ s.row.Finished → EventuallyClaimable s.row) ∧ (s.row.OccupiesDedupe → RunsAgain s)

/-- A crash, or a database error. -/
def stopping : Op → Bool
  | .crash => true
  | .dbError => true
  | _ => false

/-- **A process stops between the two writes of `apply_failure`**: it crashes, or its second write
fails in the database. -/
def Stops (s : Sys) (a : Action) : Prop := (failing (s.procs a.proc)).isSome ∧ stopping a.op

instance (s : Sys) (a : Action) : Decidable (Stops s a) := by unfold Stops; infer_instance

theorem step_stopping (s : Sys) (p : ℕ) {op : Op} (h : stopping op) :
    step s ⟨p, op⟩ = some (s.go p { next := .idle }) := by
  cases op with
  | crash => simp [step, plan, advance]
  | dbError => simp [step, plan, advance]
  | _ => cases h

structure Inv (s : Sys) : Prop where
  snapshots : Snapshots Proc.held s.toShared
  leased : s.row.state = .running → s.row.leaseUntil.isSome
  current : ∀ p f, failing (s.procs p) = some f → f = s.row
  unique : ∀ p q f g, failing (s.procs p) = some f → failing (s.procs q) = some g → p = q
  failing : s.row.state = .failed → ∃ p f, failing (s.procs p) = some f

theorem Inv.start (c : NewJob) : Inv (start c) where
  snapshots := start_snapshots c
  leased := by rintro ⟨⟩
  current := by rintro p f ⟨⟩
  unique := by rintro p q f g ⟨⟩
  failing := by rintro ⟨⟩

theorem occupiesDedupe_not_finished {j : Job} (h : j.OccupiesDedupe) : ¬ j.Finished := by
  intro hf
  have hs := h.2
  unfold Job.Finished finishedStates at hf
  unfold dedupeStates at hs
  cases he : j.state <;> simp [he] at hf hs

theorem Inv.notStuck {s : Sys} (h : Inv s) : NotStuck s := by
  intro hleft
  have hcases (hf : ¬ s.row.Finished) : s.row.state = .pending ∨ s.row.state = .running := by
    rcases not_finished_cases hf with hs | hs | hs
    · exact Or.inl hs
    · exact Or.inr hs
    · obtain ⟨p, f, hp⟩ := h.failing hs
      rw [hleft p] at hp
      cases hp
  constructor
  · intro hf
    rcases hcases hf with hs | hs
    · exact eventuallyClaimable_of_pending hs
    · exact eventuallyClaimable_of_running hs (h.leased hs)
  · intro hd
    rcases hcases (occupiesDedupe_not_finished hd) with hs | hs
    · exact runsAgain_of_pending hs
    · exact runsAgain_of_running hs (h.leased hs)

/-! ### What the steps preserve -/

/-- Only the second write of `apply_failure` starts from a `failed` row. -/
theorem writes_failing_of_failed {x : Proc} {op : Op} {w : Plan}
    (h : Writes x op w) (hf : w.held.state = .failed) : ∃ f, failing x = some f := by
  cases h with
  | failure => exact ⟨_, rfl⟩
  | claim hs => rw [hf] at hs; cases hs
  | reclaim hs => rw [hf] at hs; cases hs
  | @outcome j hr => rw [hf] at hr; cases hr
  | @requeue existing hd => rw [hf] at hd; cases hd

/-- A process that leaves the row `failed` is about to move it on. -/
theorem writes_failed {x : Proc} {op : Op} {w : Plan} (h : Writes x op w) {row : Job}
    (hrow : row.state = w.set.state.getD w.held.state) (hf : row.state = .failed) :
    failing (w.next row) = some row := by
  rw [hf] at hrow
  cases h with
  | claim hs => cases hrow
  | reclaim hs => cases hrow
  | outcome =>
    change failing (failingOrIdle row) = some row
    rw [failingOrIdle, dif_pos hf]
    rfl
  | @failure failed hs now =>
    exfalso
    rcases (failurePatch_cases failed now).2 with hu | ⟨hu, -⟩ <;> rw [hu] at hrow <;> cases hrow
  | requeue => cases hrow

/-- A process that leaves the row `running` has a lease on it. -/
theorem writes_running {x : Proc} {op : Op} {w : Plan} (h : Writes x op w)
    (hr : w.set.state.getD w.held.state = .running) :
    (w.set.leaseUntil.getD w.held.leaseUntil).isSome := by
  cases h with
  | claim hs => rfl
  | reclaim hs => cases hr
  | @outcome j hj result =>
    exfalso
    rcases outcomePatch_state result with hu | hu <;> rw [hu] at hr <;> cases hr
  | @failure failed hs now =>
    exfalso
    rcases (failurePatch_cases failed now).2 with hu | ⟨hu, -⟩ <;> rw [hu] at hr <;> cases hr
  | requeue => cases hr

theorem advances_failing {s : Sys} {p : ℕ} {op : Op} {o : Outcome}
    (h : Advances s (s.procs p) op o) (hns : ¬ Stops s ⟨p, op⟩) :
    failing o.next = failing (s.procs p) := by
  unfold Stops at hns
  dsimp only at hns
  generalize s.procs p = x at h hns ⊢
  have hstop (hop : stopping op) : none = failing x := by
    by_contra hne
    exact hns ⟨Option.isSome_iff_ne_none.mpr (Ne.symm hne), hop⟩
  cases h with
  | dbError => exact hstop rfl
  | crash => exact hstop rfl
  | _ => rfl

theorem Inv.go {s : Sys} (h : Inv s) {p : ℕ} {o : Outcome}
    (hsnap : Snapshots Proc.held (s.go p o).toShared)
    (ho : Stuck.failing o.next = Stuck.failing (s.procs p)) : Inv (s.go p o) := by
  have hsame (q : ℕ) : Stuck.failing ((s.go p o).procs q) = Stuck.failing (s.procs q) := by
    rcases update_cases Stuck.failing (f := s.procs) (p := p) (q := q) (x := o.next) rfl with
      ⟨rfl, hq⟩ | ⟨-, hq⟩
    · exact hq.symm.trans ho
    · exact hq.symm
  refine ⟨hsnap, h.leased, ?_, ?_, ?_⟩
  · intro q f hq
    rw [hsame] at hq
    exact h.current q f hq
  · intro q r f g hq hr
    rw [hsame] at hq hr
    exact h.unique q r f g hq hr
  · intro hf
    obtain ⟨q, f, hq⟩ := h.failing hf
    exact ⟨q, f, (hsame q).trans hq⟩

theorem Inv.wrote {s : Sys} (h : Inv s) {p : ℕ} {op : Op} {w : Plan}
    (hw : Writes (s.procs p) op w) (hrow : w.held = s.row)
    (hsnap : Snapshots Proc.held (s.wrote p w (written w.set s.clock s.row)).toShared) :
    Inv (s.wrote p w (written w.set s.clock s.row)) := by
  set row := written w.set s.clock s.row with hdef
  have hstate : row.state = w.set.state.getD w.held.state := by rw [hdef, written_state, hrow]
  -- only the writer can be failing afterwards: another one's copy would be the row it replaced
  have hwriter {q : ℕ} {f : Job} (hq : Stuck.failing ((s.wrote p w row).procs q) = some f) :
      q = p ∧ f = row := by
    rw [Sys.wrote_procs] at hq
    rcases update_cases Stuck.failing hq with ⟨rfl, hn⟩ | ⟨hne, hq⟩
    · exact ⟨rfl, hw.held_next (failing_held hn).1⟩
    · have hf : w.held.state = .failed := by
        rw [hrow, ← h.current q f hq]
        exact (failing_held hq).2
      obtain ⟨g, hg⟩ := writes_failing_of_failed hw hf
      exact absurd (h.unique q p f g hq hg) hne
  refine ⟨hsnap, ?_, ?_, ?_, ?_⟩
  · intro hr
    have hl := writes_running hw (hstate.symm.trans hr)
    rw [hrow] at hl
    simpa [hdef] using hl
  · intro q f hq
    exact (hwriter hq).2
  · intro q r f g hq hr
    rw [(hwriter hq).1, (hwriter hr).1]
  · intro hf
    refine ⟨p, row, ?_⟩
    rw [Sys.wrote_procs, Function.update_self]
    exact writes_failed hw hstate hf

theorem Inv.step {s s' : Sys} {a : Action} (h : Inv s) (hstep : step s a = some s')
    (hns : ¬ Stops s a) : Inv s' := by
  have hsnap := step_snapshots h.snapshots hstep
  cases step_sound h.snapshots hstep with
  | wrote w hw hrow => exact h.wrote hw hrow hsnap
  | lost w hw hv =>
    -- the row cannot have changed under a process that is failing
    refine h.go hsnap ?_
    cases hf : Stuck.failing (s.procs a.proc) with
    | none => rfl
    | some f =>
      have hheld : w.held = f := Option.some.inj (hw.held_eq.symm.trans (failing_held hf).1)
      rw [hheld, h.current _ _ hf] at hv
      exact absurd rfl hv
  | moved o ho => exact h.go hsnap (advances_failing ho hns)

/-- A process that stops leaves the job stuck. -/
theorem stuck_of_stops {s s' : Sys} {a : Action} (h : Inv s) (hstep : step s a = some s')
    (hst : Stops s a) :
    Left s' ∧ s'.row.state = .failed ∧ ∀ now, ¬ Claimable now s'.row := by
  obtain ⟨p, op⟩ := a
  obtain ⟨hf, hop⟩ := hst
  obtain ⟨f, hf⟩ := Option.isSome_iff_exists.mp hf
  rw [step_stopping s p hop] at hstep
  cases hstep
  have hrow : s.row.state = .failed := by
    rw [← h.current p f hf]
    exact (failing_held hf).2
  refine ⟨?_, hrow, not_claimable_of_failed hrow⟩
  intro q
  rcases update_cases failing (f := s.procs) (p := p) (q := q) (x := .idle) rfl with
    ⟨-, hq⟩ | ⟨hne, hq⟩
  · exact hq.symm
  · cases hg : failing (s.procs q) with
    | none => exact hq.symm.trans hg
    | some g => exact absurd (h.unique q p g f hg hf) hne

theorem not_finished_of_failed {j : Job} (h : j.state = .failed) : ¬ j.Finished := by
  unfold Job.Finished
  rw [h]
  decide

theorem notStuck_iff {s s' : Sys} {a : Action} (h : Inv s) (hstep : step s a = some s') :
    NotStuck s' ↔ ¬ Stops s a := by
  refine ⟨fun hns hst => ?_, fun hns => (h.step hstep hns).notStuck⟩
  obtain ⟨hleft, hf, -⟩ := stuck_of_stops h hstep hst
  exact not_eventuallyClaimable_of_failed hf ((hns hleft).1 (not_finished_of_failed hf))

/-- **No job is stuck, exactly if no process stops between the two writes of `apply_failure`.** In a
run from an enqueued job, with any number of workers and any other crashes and database errors,
every state is free of stuck jobs if and only if no step is such a stop. -/
theorem never_stuck_iff (c : NewJob) (as : List Action) :
    Always step NotStuck (start c) as ↔ Along step (fun s a _ => ¬ Stops s a) (start c) as := by
  refine always_iff (I := Inv) (fun s h => h.notStuck) ?_ ?_ (Inv.start c)
  · intro s a s' h hstep
    exact notStuck_iff h hstep
  · intro s a s' h hstep hns
    exact h.step hstep hns

/-- A recurring job. -/
def sampleJob : NewJob := recurring ⟨"purge", 0, 3⟩ "j1" 0

/-- A worker runs it, the handler fails, and the first write of `apply_failure` commits. -/
def failedRun : List Action :=
  [⟨0, .poll "w" 0⟩, ⟨0, .takeLease⟩, ⟨0, .start ["purge"]⟩, ⟨0, .finish (.error "boom")⟩,
    ⟨0, .applyOutcome⟩]

/-- The job is left `failed`: no query ever selects it, and its dedupe key stays taken. -/
theorem failed_job_stuck : ¬ ∀ c as, Always step NotStuck (start c) as := by
  intro h
  obtain ⟨s, hs, hfail⟩ : ∃ s, exec step (start sampleJob) failedRun = some s ∧
      decide (Stops s ⟨0, .crash⟩) = true :=
    exec_eval (f := fun s => decide (Stops s ⟨0, .crash⟩)) rfl
  have hinv : Inv s := by
    refine exec_invariant (P := fun s a _ => ¬ Stops s a) ?_ (Inv.start sampleJob) hs ?_
    · intro s a s' hI hstep hns
      exact hI.step hstep hns
    · decide
  have hs' := step_stopping s 0 (show stopping .crash from rfl)
  obtain ⟨hleft, hf, -⟩ := stuck_of_stops hinv hs' (of_decide_eq_true hfail)
  have hns := (h sampleJob (failedRun ++ [⟨0, .crash⟩])).last (exec_concat hs hs')
  exact not_eventuallyClaimable_of_failed hf ((hns hleft).1 (not_finished_of_failed hf))

end Vsms.Job.Stuck
