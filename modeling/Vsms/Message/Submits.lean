import Vsms.Message.Leases

/-! # How often a message is submitted

In a quiet run (no crash, no failed write, no lease running out under its holder) a message is not
submitted again once a submission was acknowledged or indeterminate, unless a delivery report moved
it to `undelivered` in between; and it is submitted at most `attempts` times, but for one more for
each failover whose routing query failed: such a row stays `routed` and is claimed again without a
new attempt. `Credit` is the invariant for the count, `Settled` the one for the order of events. -/

namespace Vsms.Message.Submits

open Vsms.Lib.Runs Vsms.Lib.Optimistic Vsms.Schema.Types Vsms.Schema.Messages
open Vsms.Message.Claim Vsms.Message.Dispatch Vsms.Message.Dlr Vsms.Message.Expiry
open Vsms.Message.System Vsms.Message.Leases

/-! ## Counting -/

def isFailoverFailed : Event → Bool
  | .failoverFailed => true
  | _ => false

/-- The failovers whose routing query failed. -/
def failoverFailures (log : List Event) : ℕ := log.countP isFailoverFailed

/-- The process made a submission it has not written back. -/
def Submitted : Proc → Bool
  | .submitting _ _ _ => true
  | .answered _ _ (some _) _ => true
  | _ => false

theorem working_of_submitted {x : Proc} (h : Submitted x = true) : ∃ m, working x = some m := by
  cases x with
  | submitting m hm n => exact ⟨m, rfl⟩
  | answered m hm n result => exact ⟨m, rfl⟩
  | _ => cases h

/-- The submissions the message still has, of its attempts and the failed failovers. -/
def credit (s : Sys) : ℤ := s.row.attempts + failoverFailures s.log - submits s.log

/-- **The invariant of the count**: the credit is never overdrawn, and a `routed` message that
nobody has submitted has one left. -/
structure Credit (s : Sys) : Prop where
  nonneg : 0 ≤ credit s
  routed : s.row.state = .routed → (∀ p, Submitted (s.procs p) = false) → 1 ≤ credit s
  bounded : s.row.attempts ≤ s.row.maxAttempts

theorem credit_start (c : NewMessage) : Credit (start c) where
  nonneg := le_refl (0 : ℤ)
  routed := fun h => nomatch h
  bounded := show (0 : ℤ) ≤ 3 by decide

/-- A committed write logs no submission and no failed failover. -/
theorem credit_wrote {s : Sys} {p : ℕ} {op : Op} {w : Plan} (hw : Writes (s.procs p) op w)
    (row : Message) : credit (s.wrote p w row) = row.attempts - s.row.attempts + credit s := by
  have hlog : submits (w.events row ++ s.log) = submits s.log ∧
      failoverFailures (w.events row ++ s.log) = failoverFailures s.log := by
    generalize s.procs p = x at hw
    cases hw <;> exact ⟨rfl, rfl⟩
  unfold credit
  rw [Sys.wrote_row, Sys.wrote_log, hlog.1, hlog.2]
  omega

theorem credit_go (s : Sys) (p : ℕ) (o : Outcome) : credit (s.go p o) =
    credit s + failoverFailures o.events - submits o.events := by
  unfold credit failoverFailures submits
  rw [Sys.go_row, Sys.go_log, List.countP_append, List.countP_append]
  push_cast
  omega

/-- **What a write does to the attempts**: a claim counts one, a reclaim by an idle worker keeps the
row `routed`, and no other write leaves it so. -/
theorem attempts_of_writes {x : Proc} {op : Op} {w : Plan} (h : Writes x op w) :
    (w.held.attempts < w.held.maxAttempts ∧ w.set.attempts = some (w.held.attempts + 1)) ∨
    (w.held.state = .routed ∧ w.set.attempts = some w.held.attempts ∧ working x = none) ∨
    (w.set.attempts = none ∧ w.set.state.getD w.held.state ≠ .routed) := by
  cases h with
  | takeLease hset =>
    rcases takeLease_cases hset with ⟨-, hu | hu, ha, -⟩ | ⟨-, -, hu, ha, -⟩ | ⟨-, hlt, -, ha, -⟩ |
      ⟨hst, -, ha, -⟩ | ⟨-, -, hu, ha, -⟩
    · exact Or.inr (Or.inr ⟨ha, by simp [hu]⟩)
    · exact Or.inr (Or.inr ⟨ha, by simp [hu]⟩)
    · exact Or.inr (Or.inr ⟨ha, by simp [hu]⟩)
    · exact Or.inl ⟨hlt, ha⟩
    · exact Or.inr (Or.inl ⟨hst, ha, rfl⟩)
    · exact Or.inr (Or.inr ⟨ha, by simp [hu]⟩)
  | noBody hb => exact Or.inr (Or.inr ⟨rfl, by simp [writeTransition]⟩)
  | finish hset =>
    rcases finishSubmit_write hset with ⟨ack, -, rfl⟩ | ⟨-, -, ha, -, -, -, ⟨-, hu⟩ | ⟨-, hu | hu⟩⟩
    · exact Or.inr (Or.inr ⟨rfl, by simp [writeSubmitted]⟩)
    all_goals exact Or.inr (Or.inr ⟨ha, by simp [hu]⟩)
  | report hset =>
    obtain ⟨target, hn, hu, ha, -⟩ := dlrPatch_some hset
    refine Or.inr (Or.inr ⟨ha, ?_⟩)
    rw [hu, Option.getD_some]
    rintro rfl
    rcases nextState_into hn with h | h | h
    · cases h
    · cases h
    · exact absurd h (by decide)
  | expire => exact Or.inr (Or.inr ⟨rfl, by simp [expirePatch]⟩)
  | @purge m hm =>
    refine Or.inr (Or.inr ⟨rfl, fun hst => ?_⟩)
    change m.state = .routed at hst
    unfold Message.Terminal at hm
    rw [hst] at hm
    revert hm
    decide

section steps
variable {s : Sys} {p : ℕ} {op : Op} (hex : Exclusive s) (hc : Credit s)
include hex hc

theorem wrote_credit {w : Plan} (hw : Writes (s.procs p) op w) (hrow : w.held = s.row) :
    Credit (s.wrote p w (written w.set w.dbNow s.row)) := by
  have hcr := credit_wrote hw (written w.set w.dbNow s.row)
  rw [written_attempts] at hcr
  have h1 := hc.nonneg
  have h3 := hc.bounded
  rcases attempts_of_writes hw with ⟨hlt, ha⟩ | ⟨hst, ha, hx⟩ | ⟨ha, hst⟩
  · rw [hrow] at hlt ha
    rw [ha, Option.getD_some] at hcr
    exact ⟨by omega, fun _ _ => by omega, by simp [ha]; omega⟩
  · rw [hrow] at hst ha
    rw [ha, Option.getD_some] at hcr
    have hone : 1 ≤ credit s := by
      refine hc.routed hst fun q => ?_
      cases hq : Submitted (s.procs q) with
      | false => rfl
      | true =>
        obtain ⟨m, hm⟩ := working_of_submitted hq
        rw [hex.nobody hw hrow hx q] at hm
        cases hm
    exact ⟨by omega, fun _ _ => by omega, by simp [ha]; omega⟩
  · rw [hrow] at hst
    rw [ha, Option.getD_none] at hcr
    exact ⟨by omega, fun hr => absurd (by simpa using hr) hst, by simp [ha]; omega⟩

omit hc in
/-- Nobody else has made a submission while a worker that has not is at work. -/
theorem not_submitted {m : Message} (hp : working (s.procs p) = some m)
    (hx : Submitted (s.procs p) = false) (q : ℕ) : Submitted (s.procs q) = false := by
  cases hq : Submitted (s.procs q) with
  | false => rfl
  | true =>
    obtain ⟨m', hm'⟩ := working_of_submitted hq
    rw [hex.unique hp hm', hx] at hq
    cases hq

omit hex in
/-- A step without a write that leaves the counts alone, by a process that has submitted nothing or
stays one that has. -/
theorem go_credit {o : Outcome} (hev : submits o.events = 0 ∧ failoverFailures o.events = 0)
    (hx : Submitted (s.procs p) = true → Submitted o.next = true) : Credit (s.go p o) := by
  have hcr := credit_go s p o
  rw [hev.1, hev.2] at hcr
  have h1 := hc.nonneg
  refine ⟨by omega, fun hst hno => ?_, hc.bounded⟩
  have hone : 1 ≤ credit s := by
    refine hc.routed hst fun q => ?_
    have hq := hno q
    by_cases hqp : q = p
    · subst hqp
      rw [Sys.go_procs, Function.update_self] at hq
      cases hs : Submitted (s.procs q) with
      | false => rfl
      | true => rw [hx hs] at hq; cases hq
    · rwa [Sys.go_procs, Function.update_of_ne hqp] at hq
  omega

theorem moved_credit {s' : Sys} {o : Outcome} (hq : Quiet s ⟨p, op⟩ s')
    (ho : Advances s (s.procs p) op o) : Credit (s.go p o) := by
  have hcr := credit_go s p o
  have h1 := hc.nonneg
  generalize hx : s.procs p = x at ho
  unfold Quiet at hq
  cases ho with
  | @submit m hm rows adapters body =>
    -- The worker has the row, `routed`, and nobody has submitted it since it was claimed.
    have hw : working (s.procs p) = some m := by rw [hx]; rfl
    have hone : 1 ≤ credit s := by
      refine hc.routed ?_ (not_submitted hex hw (by rw [hx]; rfl))
      rw [← (hex p m hw).1]
      exact hm
    refine ⟨?_, fun _ hno => ?_, hc.bounded⟩
    · change _ = credit s + ((0 : ℕ) : ℤ) - ((1 : ℕ) : ℤ) at hcr
      omega
    · have hp := hno p
      rw [Sys.go_procs, Function.update_self] at hp
      cases hp
  | @leave m hm n result query now dbNow hf =>
    change _ = credit s + ((1 : ℕ) : ℤ) - ((0 : ℕ) : ℤ) at hcr
    exact ⟨by omega, fun _ _ => by omega, hc.bounded⟩
  | panic hf => exact absurd hf (by simpa [Panics, hx] using hq)
  | dbError => exact hq.elim
  | crash => exact hq.elim
  | answer => exact go_credit hc ⟨rfl, rfl⟩ fun _ => rfl
  | _ =>
    refine go_credit hc ⟨rfl, rfl⟩ fun hs => ?_
    rw [hx] at hs
    cases hs

theorem lost_credit {w : Plan} (hw : Writes (s.procs p) op w)
    (hv : s.row.version ≠ w.held.version) : Credit (s.go p { next := .idle }) := by
  refine go_credit hc ⟨rfl, rfl⟩ fun hs => ?_
  obtain ⟨m, hm⟩ := working_of_submitted hs
  rw [hex.idle_of_lost hw hv] at hm
  cases hm

end steps

theorem step_credit {s s' : Sys} {a : Action} (hs : Snapshots Proc.held s.toShared)
    (hex : Exclusive s) (hc : Credit s) (h : step s a = some s') (hq : Quiet s a s') :
    Credit s' := by
  cases step_sound hs h with
  | wrote w hw hrow => exact wrote_credit hex hc hw hrow
  | lost w hw hv => exact lost_credit hex hc hw hv
  | moved o ho => exact moved_credit hex hc hq ho

/-! ## The order of events -/

/-- **The log says the SMS was sent, or may have been**: a conclusive answer, and no report of an
undelivered message since. -/
def settled : List Event → Bool
  | [] => false
  | .answer _ result :: log => Conclusive result || settled log
  | .reported _ _ new :: log => new ≠ .undelivered && settled log
  | .submit _ :: log => settled log
  | .failoverFailed :: log => settled log
  | .refused _ :: log => settled log

/-- No submission was made while the log was settled. -/
def Spaced : List Event → Prop
  | [] => True
  | .submit _ :: log => settled log = false ∧ Spaced log
  | _ :: log => Spaced log

theorem Spaced.settled_eq_false {newer older : List Event} {request : SubmitRequest}
    (h : Spaced (newer ++ .submit request :: older)) : settled older = false := by
  induction newer with
  | nil => exact h.1
  | cons e newer ih =>
    refine ih ?_
    cases e with
    | submit request => exact h.2
    | answer n result => exact h
    | reported update old new => exact h
    | failoverFailed => exact h
    | refused e => exact h

theorem undelivered_of_not_settled {between older : List Event} {n : ℕ} {result : SubmitResult}
    (h : settled (between ++ .answer n result :: older) = false) (hr : Conclusive result = true) :
    ∃ update old, Event.reported update old .undelivered ∈ between := by
  induction between with
  | nil => simp [settled, hr] at h
  | cons e between ih =>
    have hsome (h : settled (between ++ .answer n result :: older) = false) :
        ∃ update old, Event.reported update old .undelivered ∈ e :: between := by
      obtain ⟨update, old, hmem⟩ := ih h
      exact ⟨update, old, List.mem_cons_of_mem e hmem⟩
    cases e with
    | submit request => exact hsome h
    | answer k result' => exact hsome (Bool.or_eq_false_iff.mp h).2
    | reported update old new =>
      by_cases hnew : new = .undelivered
      · subst hnew
        exact ⟨update, old, List.mem_cons_self⟩
      · refine hsome ?_
        simpa [settled, hnew] using h
    | failoverFailed => exact hsome h
    | refused e => exact hsome h

/-- The process has a conclusive answer it has not written back. -/
def concluded : Proc → Bool
  | .answered _ _ _ result => Conclusive result
  | _ => false

theorem working_of_concluded {x : Proc} (h : concluded x = true) : ∃ m, working x = some m := by
  cases x with
  | answered m hm n result => exact ⟨m, rfl⟩
  | _ => cases h

/-- The states of a message whose SMS was, or may have been, sent. -/
def restingStates : List MessageState := .submitted :: .uncertain :: terminalStates

/-- **The invariant of the order**: while the log is settled the message waits to be written back or
rests. -/
structure Settled (s : Sys) : Prop where
  rests : settled s.log = true → (∃ p, concluded (s.procs p) = true) ∨ s.row.state ∈ restingStates
  spaced : Spaced s.log

theorem settled_start (c : NewMessage) : Settled (start c) where
  rests := fun h => nomatch h
  spaced := trivial

section steps
variable {s : Sys} {p : ℕ} {op : Op} (hex : Exclusive s) (hst : Settled s)
include hex hst

/-- The log is not settled while a worker without a conclusive answer is at work. -/
theorem not_settled_of_working {m : Message} (hp : working (s.procs p) = some m)
    (hx : concluded (s.procs p) = false) : settled s.log = false := by
  cases hs : settled s.log with
  | false => rfl
  | true =>
    rcases hst.rests hs with ⟨q, hq⟩ | hrest
    · obtain ⟨m', hm'⟩ := working_of_concluded hq
      rw [hex.unique hp hm', hx] at hq
      cases hq
    · rw [← (hex p m hp).1, routed_of_working hp] at hrest
      revert hrest
      decide

/-- Nor while a claim can commit. -/
theorem not_settled_of_candidate {w : Plan} (hw : Writes (s.procs p) op w) (hrow : w.held = s.row)
    (hp : working (s.procs p) = none) (hclaim : s.row.state ∈ claimStates) :
    settled s.log = false := by
  cases hs : settled s.log with
  | false => rfl
  | true =>
    rcases hst.rests hs with ⟨q, hq⟩ | hrest
    · obtain ⟨m', hm'⟩ := working_of_concluded hq
      rw [hex.nobody hw hrow hp q] at hm'
      cases hm'
    · revert hclaim hrest
      generalize s.row.state = st
      cases st <;> decide

theorem wrote_settled {w : Plan} (hw : Writes (s.procs p) op w) (hrow : w.held = s.row) :
    Settled (s.wrote p w (written w.set w.dbNow s.row)) := by
  have hspaced : Spaced (w.events (written w.set w.dbNow s.row) ++ s.log) := by
    generalize s.procs p = x at hw
    cases hw <;> exact hst.spaced
  refine ⟨fun hs => Or.inr ?_, hspaced⟩
  rw [Sys.wrote_row, written_state]
  rw [Sys.wrote_log] at hs
  have hcand := not_settled_of_candidate hex hst hw hrow
  have hwork (m : Message) : working (s.procs p) = some m → concluded (s.procs p) = false →
      settled s.log = false := not_settled_of_working hex hst
  generalize hx : s.procs p = x at hw hcand hwork
  cases hw with
  | @takeLease m hm worker now view dbNow set hset =>
    cases hs.symm.trans (hcand rfl (by rw [← hrow]; exact hm))
  | noBody hb => simp [writeTransition, restingStates, terminalStates]
  | @finish m hm n result query now dbNow set hset =>
    rcases finishSubmit_write hset with ⟨ack, -, rfl⟩ | ⟨-, -, -, -, -, -, ⟨-, hu⟩ | ⟨hn, -⟩⟩
    · simp [writeSubmitted, restingStates]
    · simp [hu, restingStates]
    · cases hs.symm.trans (hwork m rfl hn)
  | report hset =>
    obtain ⟨target, hn, hu, -⟩ := dlrPatch_some hset
    dsimp only [List.cons_append, List.nil_append, settled] at hs
    rw [written_state, hu, Option.getD_some] at hs
    rw [hu, Option.getD_some]
    rcases nextState_into hn with rfl | rfl | hterm
    · simp at hs
    · decide
    · exact List.mem_cons_of_mem _ (List.mem_cons_of_mem _ hterm)
  | expire => simp [expirePatch, restingStates, terminalStates]
  | @purge m hm =>
    change s.row.state ∈ restingStates
    rw [← hrow]
    exact List.mem_cons_of_mem _ (List.mem_cons_of_mem _ hm)

omit hex in
/-- A step without a write, by a process that is not left with a conclusive answer to write. -/
theorem go_settled {o : Outcome} (hset : settled (o.events ++ s.log) = settled s.log)
    (hsp : Spaced (o.events ++ s.log)) (hx : concluded (s.procs p) = false) :
    Settled (s.go p o) := by
  refine ⟨fun hs => ?_, hsp⟩
  rw [Sys.go_log, hset] at hs
  refine (hst.rests hs).imp_left ?_
  rintro ⟨q, hq⟩
  refine ⟨q, ?_⟩
  rw [Sys.go_procs, Function.update_of_ne (by rintro rfl; rw [hx] at hq; cases hq)]
  exact hq

theorem moved_settled {s' : Sys} {o : Outcome} (hq : Quiet s ⟨p, op⟩ s')
    (ho : Advances s (s.procs p) op o) : Settled (s.go p o) := by
  have hwork (m : Message) : working (s.procs p) = some m → concluded (s.procs p) = false →
      settled s.log = false := not_settled_of_working hex hst
  generalize hx : s.procs p = x at ho hwork
  have hgo := go_settled (p := p) (o := o) hst
  rw [hx] at hgo
  unfold Quiet at hq
  cases ho with
  | @submit m hm rows adapters body => exact hgo rfl ⟨hwork m rfl rfl, hst.spaced⟩ rfl
  | @answer m hm n result =>
    cases hr : Conclusive result with
    | false => exact hgo (by simp [settled, hr]) hst.spaced rfl
    | true =>
      refine ⟨fun _ => Or.inl ⟨p, ?_⟩, hst.spaced⟩
      rw [Sys.go_procs, Function.update_self]
      exact hr
  | leave hf => exact hgo rfl hst.spaced (finishSubmit_leave hf).2
  | panic hf => exact absurd hf (by simpa [Panics, hx] using hq)
  | dbError => exact hq.elim
  | crash => exact hq.elim
  | _ => exact hgo rfl hst.spaced rfl

theorem lost_settled {w : Plan} (hw : Writes (s.procs p) op w)
    (hv : s.row.version ≠ w.held.version) : Settled (s.go p { next := .idle }) := by
  refine go_settled hst rfl hst.spaced ?_
  cases hc : concluded (s.procs p) with
  | false => rfl
  | true =>
    obtain ⟨m, hm⟩ := working_of_concluded hc
    rw [hex.idle_of_lost hw hv] at hm
    cases hm

end steps

theorem step_settled {s s' : Sys} {a : Action} (hs : Snapshots Proc.held s.toShared)
    (hex : Exclusive s) (hst : Settled s) (h : step s a = some s') (hq : Quiet s a s') :
    Settled s' := by
  cases step_sound hs h with
  | wrote w hw hrow => exact wrote_settled hex hst hw hrow
  | lost w hw hv => exact lost_settled hex hst hw hv
  | moved o ho => exact moved_settled hex hst hq ho

/-! ## Runs -/

/-- **How often a message is submitted.** In every quiet run, between a conclusive answer and a
later submission there is a report that moved the message to `undelivered`; the submissions made are
at most the attempts and the failovers whose routing query failed; and the attempts stay within
their maximum. -/
theorem submissions_bounded (c : NewMessage) (as : List Action) (s : Sys)
    (h : exec step (start c) as = some s) (hq : Along step Quiet (start c) as) :
    (∀ newer request between n result older,
      s.log = newer ++ .submit request :: (between ++ .answer n result :: older) →
      Conclusive result = true → ∃ update old, Event.reported update old .undelivered ∈ between) ∧
    (submits s.log : ℤ) ≤ s.row.attempts + failoverFailures s.log ∧
    s.row.attempts ≤ s.row.maxAttempts := by
  obtain ⟨-, -, hc, hst⟩ := exec_invariant
    (I := fun s => Snapshots Proc.held s.toShared ∧ Exclusive s ∧ Credit s ∧ Settled s)
    (fun s a s' ⟨hs, hex, hc, hst⟩ hstep hq => ⟨step_snapshots hs hstep,
      step_exclusive hs hex hstep hq, step_credit hs hex hc hstep hq,
      step_settled hs hex hst hstep hq⟩)
    ⟨start_snapshots c, exclusive_start c, credit_start c, settled_start c⟩ h hq
  refine ⟨fun newer request between n result older hlog hr => ?_, ?_, hc.bounded⟩
  · have hsp := hst.spaced
    rw [hlog] at hsp
    exact undelivered_of_not_settled hsp.settled_eq_false hr
  · have := hc.nonneg
    unfold credit at this
    omega

theorem submissions_bounded_sent : ∃ s, exec step (start sampleMessage) sentRun = some s ∧
    submits s.log = 1 ∧ (submits s.log : ℤ) ≤ s.row.attempts + failoverFailures s.log := by
  obtain ⟨s, hs, hn⟩ : ∃ s, exec step (start sampleMessage) sentRun = some s ∧ submits s.log = 1 :=
    exec_eval (f := fun s : Sys => submits s.log) rfl
  have hq : Along step Quiet (start sampleMessage) sentRun :=
    along_quiet (fun _ _ => rfl) (by decide)
  exact ⟨s, hs, hn, (submissions_bounded sampleMessage sentRun s hs hq).2.1⟩

/-- The provider is unavailable and the failover's routing query fails; after the lease has expired
the message is claimed again. -/
def retriedRun : List Action :=
  routeRun 1 ++ dispatchRun 2 (.error (.unavailable "connection refused")) ++
    dispatchRun (minutes 3) (.ok ⟨"x1", none⟩)

/-- Two submissions on one attempt, in a run without crashes, failed writes or lost leases. -/
theorem submitted_twice : ∃ s, exec step (start sampleMessage) retriedRun = some s ∧
    Along step Quiet (start sampleMessage) retriedRun ∧
    submits s.log = 2 ∧ s.row.attempts = 1 := by
  obtain ⟨s, hs, hn⟩ : ∃ s, exec step (start sampleMessage) retriedRun = some s ∧
      (submits s.log, s.row.attempts) = (2, 1) :=
    exec_eval (f := fun s : Sys => (submits s.log, s.row.attempts)) rfl
  exact ⟨s, hs, along_quiet (fun _ _ => rfl) (by decide), congrArg Prod.fst hn,
    congrArg Prod.snd hn⟩

end Vsms.Message.Submits
