import Vsms.Message.System

/-! # One worker at a time

In a run without crashes and failed writes in which no lease expires while its holder is at work, at
most one worker is at work on the message, its copy is the row, and no other claim can commit before
it is done (`Exclusive`). Nothing else writes to a `routed` row: reports and the recurring jobs
select other states. -/

namespace Vsms.Message.Leases

open Vsms.Lib.Runs Vsms.Lib.Optimistic Vsms.Schema.Types Vsms.Schema.Messages
open Vsms.Routing.Decide
open Vsms.Message.Claim Vsms.Message.Dispatch Vsms.Message.Dlr Vsms.Message.Expiry
open Vsms.Message.System

/-- The row a worker is at work on: it claimed it and has not written back. -/
def working : Proc → Option Message
  | .claimed m _ => some m
  | .submitting m _ _ => some m
  | .answered m _ _ _ => some m
  | _ => none

/-- The row a process may write a claim for, or is at work on. -/
def contending : Proc → Option Message
  | .candidate m _ _ _ => some m
  | x => working x

theorem held_of_contending {x : Proc} {m : Message} (h : contending x = some m) :
    x.held = some m := by
  cases x <;> first | exact h | cases h

theorem contending_of_working {x : Proc} {m : Message} (h : working x = some m) :
    contending x = some m := by
  cases x <;> first | exact h | cases h

theorem routed_of_working {x : Proc} {m : Message} (h : working x = some m) :
    m.state = .routed := by
  cases x <;> cases h <;> assumption

/-- **Who writes to a `routed` row**: reports and the recurring jobs select other states. -/
theorem contending_of_routed {x : Proc} {op : Op} {w : Plan} (hw : Writes x op w)
    (hstate : w.held.state = .routed) : contending x = some w.held := by
  cases hw with
  | takeLease hset => rfl
  | noBody hb => rfl
  | finish hset => rfl
  | report hset =>
    obtain ⟨target, hn, -⟩ := dlrPatch_some hset
    dsimp only at hstate
    rw [hstate] at hn
    cases hn
  | @expire m h =>
    dsimp only at hstate
    rw [hstate] at h
    exact absurd h (by decide)
  | @purge m h =>
    unfold Message.Terminal at h
    dsimp only at hstate
    rw [hstate] at h
    exact absurd h (by decide)

/-- The worker stops at a panic: the exclude set could not be packed. -/
def Panics (x : Proc) (query : Option RoutingView) (now : Time) : Prop :=
  match x with
  | .answered m _ _ result => finishSubmit m result query now = .panic
  | _ => False

/-- **A step that is no crash and no failed write**, and, if it reads the clock to claim, finds the
lease of every worker at work still running. -/
def Quiet (s : Sys) (a : Action) (_ : Sys) : Prop :=
  match a.op with
  | .crash => False
  | .dbError => False
  | .poll _ now => ∀ p m, working (s.procs p) = some m → ∀ t, m.leaseUntil = some t → now ≤ t
  | .writeBack query now _ => ¬ Panics (s.procs a.proc) query now
  | _ => True

/-- The same, for a step of process 0 where no other process is at work. -/
def quietAlone (s : Sys) (a : Action) : Bool :=
  a.proc = 0 && match a.op with
  | .crash => false
  | .dbError => false
  | .poll _ now => (working (s.procs 0)).all fun m => m.leaseUntil.all fun t => now ≤ t
  | .writeBack query now _ =>
    match s.procs 0 with
    | .answered m _ _ result =>
      match finishSubmit m result query now with
      | .panic => false
      | _ => true
    | _ => true
  | _ => true

theorem quiet_of_quietAlone {s s' : Sys} {a : Action} (h : quietAlone s a = true)
    (hs : ∀ q, q ≠ 0 → working (s.procs q) = none) : Quiet s a s' := by
  obtain ⟨p, op⟩ := a
  unfold quietAlone at h
  rw [Bool.and_eq_true, decide_eq_true_iff] at h
  obtain ⟨hp, h⟩ := h
  dsimp only at hp h
  subst hp
  cases op with
  | crash => cases h
  | dbError => cases h
  | poll worker now =>
    intro p m hm t ht
    have hp : p = 0 := by
      by_contra hne
      rw [hs p hne] at hm
      cases hm
    subst hp
    simpa [hm, ht] using h
  | writeBack query now dbNow =>
    intro hpanic
    unfold Panics at hpanic
    dsimp only at hpanic h
    split at hpanic
    · next hx =>
      simp [hx, hpanic] at h
    · exact hpanic
  | _ => trivial

/-- A run of process 0 alone. -/
theorem along_quiet {s : Sys} {as : List Action} (hs : ∀ q, q ≠ 0 → working (s.procs q) = none)
    (h : Along step (fun s a _ => quietAlone s a = true) s as) : Along step Quiet s as := by
  induction as generalizing s with
  | nil => trivial
  | cons a as ih =>
    cases ht : step s a with
    | none => unfold Along; rw [ht]; trivial
    | some t =>
      obtain ⟨ha, h⟩ := (along_cons ht).mp h
      refine (along_cons ht).mpr ⟨quiet_of_quietAlone ha hs, ih (fun q hq => ?_) h⟩
      have hp : a.proc = 0 := by
        unfold quietAlone at ha
        simp only [Bool.and_eq_true, decide_eq_true_eq] at ha
        exact ha.1
      rw [step_procs ht (by rw [hp]; exact hq)]
      exact hs q hq

/-- **The invariant**: a worker at work has the row itself, under a lease, and every other claim
comes too late. -/
def Exclusive (s : Sys) : Prop :=
  ∀ p m, working (s.procs p) = some m → m = s.row ∧ (∃ t, m.leaseUntil = some t) ∧
    ∀ q, q ≠ p → ∀ m', contending (s.procs q) = some m' → m'.version < s.row.version

section use
variable {s : Sys} (hex : Exclusive s)
include hex

theorem Exclusive.unique {p q : ℕ} {m m' : Message} (hp : working (s.procs p) = some m)
    (hq : working (s.procs q) = some m') : q = p := by
  by_contra hne
  have hlt := (hex p m hp).2.2 q hne m' (contending_of_working hq)
  rw [(hex q m' hq).1] at hlt
  exact lt_irrefl _ hlt

/-- Only the worker at work itself can commit a write. -/
theorem Exclusive.only_writer {p q : ℕ} {op : Op} {w : Plan} {m : Message}
    (hw : Writes (s.procs p) op w) (hrow : w.held = s.row) (hq : working (s.procs q) = some m) :
    q = p := by
  by_contra hne
  obtain ⟨hm, -, hother⟩ := hex q m hq
  have hstate : w.held.state = .routed := by
    rw [hrow, ← hm]
    exact routed_of_working hq
  have hlt := hother p (Ne.symm hne) _ (contending_of_routed hw hstate)
  rw [hrow] at hlt
  exact lt_irrefl _ hlt

/-- So nobody is at work when a process that is not commits. -/
theorem Exclusive.nobody {p : ℕ} {op : Op} {w : Plan} (hw : Writes (s.procs p) op w)
    (hrow : w.held = s.row) (hp : working (s.procs p) = none) (q : ℕ) :
    working (s.procs q) = none := by
  cases hq : working (s.procs q) with
  | none => rfl
  | some m =>
    rw [hex.only_writer hw hrow hq, hp] at hq
    cases hq

/-- The worker at work does not lose a race. -/
theorem Exclusive.idle_of_lost {p : ℕ} {op : Op} {w : Plan} (hw : Writes (s.procs p) op w)
    (hv : s.row.version ≠ w.held.version) : working (s.procs p) = none := by
  cases hp : working (s.procs p) with
  | none => rfl
  | some m =>
    have hheld := held_of_contending (contending_of_working hp)
    rw [hw.held_eq] at hheld
    rw [Option.some.inj hheld, (hex p m hp).1] at hv
    exact absurd rfl hv

end use

/-! ### Steps -/

/-- A process gets to work only by a claim that commits as `routed`, under a new lease. -/
theorem working_next {x : Proc} {op : Op} {w : Plan} (h : Writes x op w) {m m' : Message}
    {now : Time} (hm : working (w.next (written w.set now m)) = some m') :
    m' = written w.set now m ∧ ∃ t, m'.leaseUntil = some t := by
  cases h with
  | takeLease hset =>
    dsimp only [claimedOrIdle] at hm
    split_ifs at hm with hr
    · cases hm
      refine ⟨rfl, ?_⟩
      rw [written_state] at hr
      rw [written_leaseUntil, takeLease_routed hset hr]
      exact ⟨_, rfl⟩
    · cases hm
  | noBody hb => cases hm
  | finish hset => cases hm
  | report hset => cases hm
  | expire => cases hm
  | purge => cases hm

theorem working_advance {s : Sys} {x : Proc} {op : Op} {o : Outcome} (h : Advances s x op o)
    {m : Message} (hm : working o.next = some m) : working x = some m := by
  cases h <;> first | exact hm | cases hm

theorem contending_advance {s : Sys} {x : Proc} {op : Op} {o : Outcome} (h : Advances s x op o)
    {m : Message} (hm : contending o.next = some m) :
    contending x = some m ∨ ∃ worker now, op = .poll worker now ∧ Claimable now s.row := by
  cases h with
  | poll hc => exact Or.inr ⟨_, _, rfl, hc⟩
  | unresolved => exact Or.inl hm
  | submit body => exact Or.inl hm
  | answer => exact Or.inl hm
  | _ => cases hm

/-- A step that writes nothing keeps the invariant. -/
theorem exclusive_go {s : Sys} {p : ℕ} {o : Outcome} (hex : Exclusive s)
    (hwork : ∀ m, working o.next = some m → working (s.procs p) = some m)
    (hcont : ∀ m, contending o.next = some m → contending (s.procs p) = some m ∨
      ∀ q m', working (s.procs q) ≠ some m') : Exclusive (s.go p o) := by
  intro p₀ m hm
  have hm' : working (s.procs p₀) = some m := by
    rcases update_cases working hm with ⟨rfl, hn⟩ | ⟨-, hn⟩
    · exact hwork m hn
    · exact hn
  obtain ⟨h1, h2, h3⟩ := hex p₀ m hm'
  refine ⟨h1, h2, fun q hq m' hc => ?_⟩
  rcases update_cases contending hc with ⟨rfl, hn⟩ | ⟨-, hn⟩
  · rcases hcont m' hn with ho | hno
    · exact h3 q hq m' ho
    · exact absurd hm' (hno p₀ m)
  · exact h3 q hq m' hn

theorem step_exclusive {s s' : Sys} {a : Action} (hs : Snapshots Proc.held s.toShared)
    (hex : Exclusive s) (h : step s a = some s') (hq : Quiet s a s') : Exclusive s' := by
  cases step_sound hs h with
  | wrote w hw hrow =>
    intro p m hm
    -- Whoever is at work afterwards is the process that wrote, with the row it wrote.
    have hp : p = a.proc := by
      by_contra hne
      rw [Sys.wrote_procs, Function.update_of_ne hne] at hm
      exact hne (hex.only_writer hw hrow hm)
    subst hp
    rw [Sys.wrote_procs, Function.update_self] at hm
    obtain ⟨hm, ht⟩ := working_next hw hm
    refine ⟨hm, ht, fun q hqp m' hc => ?_⟩
    rw [Sys.wrote_procs, Function.update_of_ne hqp] at hc
    refine (hs q m' (held_of_contending hc)).lt_of_write ?_
    simp
  | lost w hw hv => exact exclusive_go hex (fun m hm => nomatch hm) (fun m hm => nomatch hm)
  | moved o ho =>
    refine exclusive_go hex (fun m hm => working_advance ho hm) fun m hm => ?_
    refine (contending_advance ho hm).imp id ?_
    rintro ⟨worker, now, hop, hc⟩ q m' hm'
    obtain ⟨hrow, ⟨t, ht⟩, -⟩ := hex q m' hm'
    unfold Quiet at hq
    rw [hop] at hq
    have hle := hq q m' hm' t ht
    rw [hrow] at ht
    exact absurd (hc.2.2.2 t ht) (not_lt.mpr hle)

theorem exclusive_start (c : NewMessage) : Exclusive (start c) := fun _ _ hm => nomatch hm

/-! ### Claimed and not submitted

What a worker has claimed and not submitted stays the row, whatever the others do, if no poll finds
it claimable: no run needs to be without crashes for that. -/

/-- The message worker `p` has claimed and not submitted. -/
def claimedBy (s : System.Sys) (p : ℕ) : Option Message :=
  match s.procs p with
  | .claimed m _ => some m
  | _ => none

theorem procs_of_claimedBy {s : Sys} {p : ℕ} {m : Message} (h : claimedBy s p = some m) :
    ∃ hm, s.procs p = .claimed m hm := by
  unfold claimedBy at h
  split at h
  · next hp =>
    cases h
    exact ⟨_, hp⟩
  · cases h

theorem working_of_claimedBy {s : Sys} {p : ℕ} {m : Message} (h : claimedBy s p = some m) :
    working (s.procs p) = some m := by
  obtain ⟨hm, hp⟩ := procs_of_claimedBy h
  rw [hp]
  rfl

/-- **A write claims the message** if it is a lease, made for the candidate the process has read. -/
theorem next_claimed {x : Proc} {op : Op} {w : Plan} (hw : Writes x op w) {r m : Message}
    {hm : m.state = .routed} (hp : w.next (written w.set w.dbNow r) = .claimed m hm) :
    m = written w.set w.dbNow r ∧ ∃ c hc worker now view dbNow, x = .candidate c hc worker now ∧
      op = .takeLease view dbNow ∧ m.leaseUntil = some (now + dispatchLease) := by
  cases hw with
  | takeLease hset =>
    dsimp only [claimedOrIdle] at hp
    split_ifs at hp with hr
    cases hp
    refine ⟨rfl, _, _, _, _, _, _, rfl, rfl, ?_⟩
    rw [written_state] at hr
    rw [written_leaseUntil, takeLease_routed hset hr]
    rfl
  | _ => cases hp

theorem next_ne_candidate {x : Proc} {op : Op} {w : Plan} (hw : Writes x op w) (r : Message)
    {m : Message} {hm : m.state ∈ claimStates} {worker : String} {now : Time} :
    w.next r ≠ .candidate m hm worker now := by
  intro hp
  cases hw with
  | takeLease hset =>
    dsimp only [claimedOrIdle] at hp
    split_ifs at hp
  | _ => cases hp

theorem advances_ne_claimed {s : Sys} {x : Proc} {op : Op} {o : Outcome}
    (ho : Advances s x op o) {m : Message} {hm : m.state = .routed} : o.next ≠ .claimed m hm := by
  intro hp
  cases ho <;> cases hp

theorem advances_candidate {s : Sys} {x : Proc} {op : Op} {o : Outcome}
    (ho : Advances s x op o) {m : Message} {hm : m.state ∈ claimStates} {worker : String}
    {now : Time} (hp : o.next = .candidate m hm worker now) : op = .poll worker now := by
  cases ho <;> cases hp
  rfl

/-- The worker's copy is the row, and every other claim comes too late. -/
def Sole (s : Sys) (p : ℕ) (m : Message) : Prop :=
  m = s.row ∧ ∀ q, q ≠ p → ∀ m', contending (s.procs q) = some m' → m'.version < s.row.version

section one
variable {s s' : Sys} {a : Action} (hs : Snapshots Proc.held s.toShared)
  (h : step s a = some s')
include hs h

theorem step_id : s'.row.id = s.row.id := by
  cases step_sound hs h with
  | wrote w hw hrow => exact written_id _ _ _
  | lost w hw hv => rfl
  | moved o ho => rfl

theorem step_candidate {m : Message} {hm : m.state ∈ claimStates} {worker : String} {now : Time}
    (hc : s'.procs a.proc = .candidate m hm worker now) : a.op = .poll worker now := by
  cases step_sound hs h with
  | wrote w hw hrow =>
    rw [Sys.wrote_procs, Function.update_self] at hc
    exact absurd hc (next_ne_candidate hw _)
  | lost w hw hv =>
    rw [Sys.go_procs, Function.update_self] at hc
    cases hc
  | moved o ho =>
    rw [Sys.go_procs, Function.update_self] at hc
    exact advances_candidate ho hc

theorem step_claimed {m : Message} (hc : claimedBy s' a.proc = some m) :
    Sole s' a.proc m ∧ ∃ c hc worker now view dbNow, s.procs a.proc = .candidate c hc worker now ∧
      a.op = .takeLease view dbNow ∧ m.leaseUntil = some (now + dispatchLease) := by
  obtain ⟨hm, hp⟩ := procs_of_claimedBy hc
  cases step_sound hs h with
  | wrote w hw hrow =>
    rw [Sys.wrote_procs, Function.update_self] at hp
    obtain ⟨hm, hcand⟩ := next_claimed hw hp
    refine ⟨⟨hm, fun q hq m' hm' => ?_⟩, hcand⟩
    rw [Sys.wrote_procs, Function.update_of_ne hq] at hm'
    refine (hs q m' (held_of_contending hm')).lt_of_write ?_
    simp
  | lost w hw hv =>
    rw [Sys.go_procs, Function.update_self] at hp
    cases hp
  | moved o ho =>
    rw [Sys.go_procs, Function.update_self] at hp
    exact absurd hp (advances_ne_claimed ho)

/-- **Nobody else's step touches a message that is claimed**, if no poll finds it claimable. -/
theorem step_sole {q : ℕ} {m : Message} (hq : q ≠ a.proc) (hc : claimedBy s q = some m)
    (hsole : Sole s q m) (hpoll : ∀ worker now, a.op = .poll worker now → ¬ Claimable now s.row) :
    Sole s' q m := by
  have hrouted : s.row.state = .routed := by
    rw [← hsole.1]
    exact routed_of_working (working_of_claimedBy hc)
  cases step_sound hs h with
  | wrote w hw hrow =>
    have hlt := hsole.2 a.proc hq.symm _ (contending_of_routed hw (by rw [hrow]; exact hrouted))
    rw [hrow] at hlt
    exact absurd hlt (lt_irrefl _)
  | lost w hw hv =>
    refine ⟨hsole.1, fun q' hq' m' hm' => ?_⟩
    rcases update_cases contending hm' with ⟨-, hn⟩ | ⟨-, hn⟩
    · cases hn
    · exact hsole.2 q' hq' m' hn
  | moved o ho =>
    refine ⟨hsole.1, fun q' hq' m' hm' => ?_⟩
    rcases update_cases contending hm' with ⟨rfl, hn⟩ | ⟨-, hn⟩
    · rcases contending_advance ho hn with hold | ⟨worker, now, hop, hclaim⟩
      · exact hsole.2 _ hq' m' hold
      · exact absurd hclaim (hpoll worker now hop)
    · exact hsole.2 q' hq' m' hn

end one

end Vsms.Message.Leases
