import Vsms.Lib.Runs
import Vsms.Lib.SessionLocks

/-! # Singleton roles

`run_singleton` takes the role's advisory lock on a connection of its own and executes the role
until it is shut down. It never looks at that connection again while the role runs: if the database
ends the session, the lock is free and the worker goes on. So at most one worker executes a role
exactly in the runs in which no worker starts it while another executes it and one of the two
sessions has ended (`at_most_one_iff`); in particular if no session is ended while its worker has
the lock (`at_most_one_of_sessions_last`). -/

namespace Vsms.Worker.Singleton

open Vsms.Lib.Runs Vsms.Lib.SessionLocks

inductive Role
  | dispatch
  | drain
  | scheduler
  | hooks
  | jobs
  | smpp
  deriving DecidableEq, Repr

def Role.asStr : Role → String
  | .dispatch => "dispatch"
  | .drain => "drain"
  | .scheduler => "scheduler"
  | .hooks => "hooks"
  | .jobs => "jobs"
  | .smpp => "smpp"

def advisoryLockNamespace : ℤ := 0x534d5300

/-- Role name, lock key, and whether the role is a singleton. -/
def roleLockKeys : List (String × ℤ × Bool) :=
  [("dispatch", 1, true), ("drain", 2, true), ("scheduler", 3, true), ("hooks", 4, false),
    ("jobs", 5, false), ("smpp", 6, true)]

def lockKeyForRole (name : String) : Option ℤ :=
  (roleLockKeys.find? fun entry => entry.1 = name).map fun entry => entry.2.1

/-- A role the table does not name would be a panic. -/
def advisoryLockKey (role : Role) : Option ℤ := lockKeyForRole role.asStr

/-- There is no panic. -/
theorem advisoryLockKey_isSome (role : Role) : (advisoryLockKey role).isSome = true := by
  cases role <;> decide

/-- The lock of one role is not the lock of another. -/
theorem advisoryLockKey_injective {r r' : Role} (h : advisoryLockKey r = advisoryLockKey r') :
    r = r' := by
  revert h
  cases r <;> cases r' <;> decide

/-- The pair `pg_try_advisory_lock` is called with. -/
def lockPair (role : Role) : ℤ × Option ℤ := (advisoryLockNamespace, advisoryLockKey role)

/-! ## The workers -/

/-- Where a call of `run_singleton` is. -/
inductive Phase
  /-- Before an attempt, or waiting for the next. -/
  | standby
  /-- Connected; the lock query has not been carried out. -/
  | attempting (session : ℕ)
  /-- The database granted the lock; the answer is on its way. -/
  | granted (session : ℕ)
  /-- Executing `run(role)`. -/
  | executing (session : ℕ)
  /-- Shut down while executing; the unlock query has not been carried out. -/
  | releasing (session : ℕ)
  /-- Returned, or killed. -/
  | stopped
  deriving DecidableEq, Repr

def Phase.session : Phase → Option ℕ
  | .attempting x | .granted x | .executing x | .releasing x => some x
  | _ => none

/-- The session that was granted the lock. -/
def Phase.winner : Phase → Option ℕ
  | .granted x | .executing x | .releasing x => some x
  | _ => none

/-- A worker process and one of its roles. -/
abbrev Proc := ℕ × Role

structure Sys where
  server : Server (ℤ × Option ℤ)
  procs : Proc → Phase

def init : Sys := ⟨Server.new, fun _ => .standby⟩

inductive Op
  | connect
  /-- The lock query is carried out; a session that is refused is closed. -/
  | lock
  /-- The lock query, or its answer, is lost with the connection. -/
  | fail
  /-- The answer arrives. -/
  | receive
  | shutdown
  | unlock
  | crash
  deriving DecidableEq, Repr

inductive Action
  | worker (p : Proc) (op : Op)
  /-- The database ends a session: a restart, a dropped connection, a closed socket. -/
  | endSession (x : ℕ)
  deriving DecidableEq, Repr

def Sys.to (s : Sys) (p : Proc) (x : Phase) : Sys := { s with procs := Function.update s.procs p x }

/-- What a call does. A session the worker is done with stays until the database ends it. -/
def workerStep (s : Sys) (p : Proc) : Op → Phase → Option Sys
  | .connect, .standby =>
    some { server := s.server.connect
           procs := Function.update s.procs p (.attempting s.server.next) }
  | .lock, .attempting x =>
    if s.server.live x then
      if s.server.grants (lockPair p.2) x then
        some { server := s.server.take (lockPair p.2) x
               procs := Function.update s.procs p (.granted x) }
      else some (s.to p .standby)
    else none
  | .fail, .attempting _ => some (s.to p .standby)
  | .fail, .granted _ => some (s.to p .standby)
  | .receive, .granted x => some (s.to p (.executing x))
  | .shutdown, .executing x => some (s.to p (.releasing x))
  | .shutdown, .standby => some (s.to p .stopped)
  | .shutdown, .attempting _ => some (s.to p .stopped)
  | .shutdown, .granted _ => some (s.to p .stopped)
  | .unlock, .releasing x =>
    some { server := if s.server.live x then s.server.unlock (lockPair p.2) x else s.server
           procs := Function.update s.procs p .stopped }
  | .crash, _ => some (s.to p .stopped)
  | _, _ => none

def step (s : Sys) : Action → Option Sys
  | .worker p op => workerStep s p op (s.procs p)
  | .endSession x =>
    if s.server.live x then some { s with server := s.server.endSession x } else none

/-- **What a step can do.** -/
inductive Effect (s : Sys) : Action → Sys → Prop
  | connect {p : Proc} (h : s.procs p = .standby) : Effect s (.worker p .connect)
      { server := s.server.connect
        procs := Function.update s.procs p (.attempting s.server.next) }
  | grant {p : Proc} {x : ℕ} (h : s.procs p = .attempting x) (hx : s.server.live x = true)
      (hg : s.server.grants (lockPair p.2) x = true) : Effect s (.worker p .lock)
      { server := s.server.take (lockPair p.2) x, procs := Function.update s.procs p (.granted x) }
  | receive {p : Proc} {x : ℕ} (h : s.procs p = .granted x) :
      Effect s (.worker p .receive) (s.to p (.executing x))
  | shutdown {p : Proc} {x : ℕ} (h : s.procs p = .executing x) :
      Effect s (.worker p .shutdown) (s.to p (.releasing x))
  | unlock {p : Proc} {x : ℕ} (h : s.procs p = .releasing x) : Effect s (.worker p .unlock)
      { server := if s.server.live x then s.server.unlock (lockPair p.2) x else s.server
        procs := Function.update s.procs p .stopped }
  /-- The call lets go of its session, if it has one. -/
  | leave {p : Proc} {op : Op} {x : Phase} (hop : op ≠ .receive) (hx : x = .standby ∨
      x = .stopped) :
      Effect s (.worker p op) (s.to p x)
  | endSession {x : ℕ} : Effect s (.endSession x) { s with server := s.server.endSession x }

theorem step_effect {s s' : Sys} {a : Action} (h : step s a = some s') : Effect s a s' := by
  cases a with
  | endSession x =>
    dsimp only [step] at h
    split_ifs at h
    cases h
    exact .endSession
  | worker p op =>
    dsimp only [step] at h
    unfold workerStep at h
    split at h
    · next hp => cases h; exact .connect hp
    · next hp =>
      split_ifs at h with hx hg
      · cases h; exact .grant hp hx hg
      · cases h; exact .leave (by decide) (.inl rfl)
    · cases h; exact .leave (by decide) (.inl rfl)
    · cases h; exact .leave (by decide) (.inl rfl)
    · next hp => cases h; exact .receive hp
    · next hp => cases h; exact .shutdown hp
    · cases h; exact .leave (by decide) (.inr rfl)
    · cases h; exact .leave (by decide) (.inr rfl)
    · cases h; exact .leave (by decide) (.inr rfl)
    · next hp => cases h; exact .unlock hp
    · cases h; exact .leave (by decide) (.inr rfl)
    · cases h

/-! ## The lock -/

/-- **The invariant**: every session belongs to one call, and a call that was granted the lock holds
it as long as its session lives. -/
structure Held (s : Sys) : Prop where
  wf : s.server.WF
  opened : ∀ p x, (s.procs p).session = some x → x < s.server.next
  own : ∀ p q x, (s.procs p).session = some x → (s.procs q).session = some x → p = q
  holds : ∀ p x, (s.procs p).winner = some x → s.server.live x = true →
    s.server.locks (lockPair p.2) = some x

theorem session_of_winner {x : Phase} {n : ℕ} (h : x.winner = some n) : x.session = some n := by
  cases x <;> first | exact h | cases h

theorem held_init : Held init where
  wf := Server.new_wf
  opened := fun _ _ h => by cases h
  own := fun _ _ _ h => by cases h
  holds := fun _ _ h => by cases h

/-- A call that keeps its session, or lets go of it. -/
theorem Held.to {s : Sys} (hs : Held s) {p : Proc} {x : Phase}
    (hsession : ∀ n, x.session = some n → (s.procs p).session = some n)
    (hwinner : ∀ n, x.winner = some n → (s.procs p).winner = some n) : Held (s.to p x) := by
  have hsession' : ∀ q n, ((s.to p x).procs q).session = some n → (s.procs q).session = some n := by
    intro q n hq
    rcases update_cases Phase.session hq with ⟨rfl, hx⟩ | ⟨-, hq⟩
    · exact hsession n hx
    · exact hq
  refine ⟨hs.wf, fun q n hq => hs.opened q n (hsession' q n hq),
    fun q r n hq hr => hs.own q r n (hsession' q n hq) (hsession' r n hr), fun q n hq hn => ?_⟩
  rcases update_cases Phase.winner hq with ⟨rfl, hx⟩ | ⟨-, hq⟩
  · exact hs.holds q n (hwinner n hx) hn
  · exact hs.holds q n hq hn

/-- A fresh session. -/
theorem Held.connect {s : Sys} (hs : Held s) (p : Proc) :
    Held { server := s.server.connect
           procs := Function.update s.procs p (.attempting s.server.next) } := by
  refine ⟨hs.wf.connect, fun q n hq => ?_, fun q r n hq hr => ?_, fun q n hq hn => ?_⟩
  · rcases update_cases Phase.session hq with ⟨-, hx⟩ | ⟨-, hq⟩
    · cases hx
      exact Nat.lt_succ_self _
    · exact Nat.lt_succ_of_lt (hs.opened q n hq)
  · rcases update_cases Phase.session hq with ⟨hqp, hx⟩ | ⟨-, hq⟩ <;>
      rcases update_cases Phase.session hr with ⟨hrp, hx'⟩ | ⟨-, hr⟩
    · rw [hqp, hrp]
    · cases hx
      exact absurd (hs.opened r _ hr) (lt_irrefl _)
    · cases hx'
      exact absurd (hs.opened q _ hq) (lt_irrefl _)
    · exact hs.own q r n hq hr
  · rcases update_cases Phase.winner hq with ⟨-, hx⟩ | ⟨-, hq⟩
    · cases hx
    · -- The session is not the one just opened.
      have hne : n ≠ s.server.next := Nat.ne_of_lt (hs.opened q n (session_of_winner hq))
      have hlive : s.server.live n = true := by simpa [Server.connect, hne] using hn
      exact hs.holds q n hq hlive

/-- The lock is granted. -/
theorem Held.grant {s : Sys} (hs : Held s) {p : Proc} {x : ℕ} (h : s.procs p = .attempting x)
    (hx : s.server.live x = true) (hg : s.server.grants (lockPair p.2) x = true) :
    Held { server := s.server.take (lockPair p.2) x
           procs := Function.update s.procs p (.granted x) } := by
  have hsession : ∀ q, (Function.update s.procs p (.granted x) q).session =
      (s.procs q).session := by
    intro q
    by_cases hq : q = p
    · subst hq
      rw [Function.update_self, h]
      rfl
    · rw [Function.update_of_ne hq]
  refine ⟨hs.wf.take hx _, fun q n hq => ?_, fun q r n hq hr => ?_, fun q n hq hn => ?_⟩
  · rw [hsession] at hq
    exact hs.opened q n hq
  · rw [hsession] at hq hr
    exact hs.own q r n hq hr
  · rcases update_cases Phase.winner hq with ⟨rfl, hx'⟩ | ⟨-, hq⟩
    · cases hx'
      exact Function.update_self _ _ _
    · exact Server.take_locks (hs.holds q n hq hn) hg

/-- Another session's locks are given back. -/
theorem Held.unlock {s : Sys} (hs : Held s) {p : Proc} {x : ℕ} (h : (s.procs p).session = some x) :
    Held { server := if s.server.live x then s.server.unlock (lockPair p.2) x else s.server
           procs := Function.update s.procs p .stopped } := by
  have hleft : Held (s.to p .stopped) := hs.to (fun _ h => by cases h) (fun _ h => by cases h)
  split_ifs
  · refine ⟨hs.wf.unlock _ _, fun q n hq => ?_, hleft.own, fun q n hq hn => ?_⟩
    · rw [Server.unlock_next]
      exact hleft.opened q n hq
    · rw [Server.unlock_live] at hn
      have hne : n ≠ x := by
        rintro rfl
        rcases update_cases Phase.winner hq with ⟨-, hx⟩ | ⟨hqp, hq⟩
        · cases hx
        · exact hqp (hs.own q p n (session_of_winner hq) h)
      exact Server.unlock_locks (hleft.holds q n hq hn) hne
  · exact hleft

theorem Held.endSession {s : Sys} (hs : Held s) (x : ℕ) :
    Held { s with server := s.server.endSession x } := by
  refine ⟨hs.wf.endSession x, hs.opened, hs.own, fun q n hq hn => ?_⟩
  have hne : n ≠ x := by
    rintro rfl
    simp [Server.endSession] at hn
  have hlive : s.server.live n = true := by simpa [Server.endSession, hne] using hn
  exact Server.endSession_locks (hs.holds q n hq hlive) hne

theorem held_step {s s' : Sys} {a : Action} (hs : Held s) (h : step s a = some s') : Held s' := by
  cases step_effect h with
  | connect => exact hs.connect _
  | grant hp hx hg => exact hs.grant hp hx hg
  | receive hp => exact hs.to (fun _ h => by rw [hp]; exact h) (fun _ h => by rw [hp]; exact h)
  | shutdown hp => exact hs.to (fun _ h => by rw [hp]; exact h) (fun _ h => by rw [hp]; exact h)
  | unlock hp => exact hs.unlock (by rw [hp]; rfl)
  | leave _ hx =>
    rcases hx with rfl | rfl
    · exact hs.to (fun _ h => by cases h) (fun _ h => by cases h)
    · exact hs.to (fun _ h => by cases h) (fun _ h => by cases h)
  | endSession => exact hs.endSession _

/-! ## The role -/

/-- **At most one worker executes a role.** -/
def AtMostOne (s : Sys) : Prop :=
  ∀ role w w' x x', s.procs (w, role) = .executing x → s.procs (w', role) = .executing x' → w = w'

/-- **A worker that starts the role** does so while its own session and that of every other worker
executing the role live. -/
def StartsUnderLock (s : Sys) (a : Action) (_ : Sys) : Prop :=
  match a with
  | .worker (w, role) .receive => ∀ w' y, w' ≠ w → s.procs (w', role) = .executing y →
      s.server.live y = true ∧ ∀ x, s.procs (w, role) = .granted x → s.server.live x = true
  | _ => True

/-- A call executes the role because it did before, or because the lock was granted to it. -/
theorem executing_of_step {s s' : Sys} {a : Action} (h : step s a = some s') {p : Proc} {x : ℕ}
    (hp : s'.procs p = .executing x) :
    s.procs p = .executing x ∨ (a = .worker p .receive ∧ s.procs p = .granted x) := by
  cases step_effect h with
  | @receive q y hq =>
    by_cases hpq : p = q
    · subst hpq
      have hxy : y = x := by simpa [Sys.to] using hp
      subst hxy
      exact .inr ⟨rfl, hq⟩
    · exact .inl (by simpa [Sys.to, hpq] using hp)
  | endSession => exact .inl hp
  | @leave q op y _ hy =>
    by_cases hpq : p = q
    · rcases hy with rfl | rfl <;> simp [Sys.to, hpq] at hp
    · exact .inl (by simpa [Sys.to, hpq] using hp)
  | @connect q _ | @grant q _ _ _ _ | @shutdown q _ _ | @unlock q _ _ =>
    by_cases hpq : p = q
    · simp [Sys.to, hpq] at hp
    · exact .inl (by simpa [Sys.to, hpq] using hp)

/-- Two live sessions do not both have the lock. -/
theorem Held.unique {s : Sys} (hs : Held s) {w w' : ℕ} {role : Role} {x x' : ℕ}
    (hp : (s.procs (w, role)).winner = some x) (hp' : (s.procs (w', role)).winner = some x')
    (hx : s.server.live x = true) (hx' : s.server.live x' = true) : w = w' := by
  have hl := hs.holds _ x hp hx
  have hl' := hs.holds _ x' hp' hx'
  rw [hl] at hl'
  cases hl'
  exact congrArg Prod.fst (hs.own _ _ x (session_of_winner hp) (session_of_winner hp'))

/-- **One step.** -/
theorem atMostOne_step_iff {s s' : Sys} {a : Action} (hs : Held s) (hone : AtMostOne s)
    (h : step s a = some s') : AtMostOne s' ↔ StartsUnderLock s a s' := by
  constructor
  · intro hone'
    cases step_effect h with
    | @receive p x hp =>
      obtain ⟨w, role⟩ := p
      intro w' y hne hw'
      have hw : (s.to (w, role) (.executing x)).procs (w, role) = .executing x := by simp [Sys.to]
      have hw'' : (s.to (w, role) (.executing x)).procs (w', role) = .executing y := by
        simpa [Sys.to, hne] using hw'
      exact absurd (hone' role w' w y x hw'' hw) hne
    | @leave p op x hop hx =>
      unfold StartsUnderLock
      split
      · next heq => cases heq; exact absurd rfl hop
      · trivial
    | _ => trivial
  · intro hstart role w w' x x' hw hw'
    rcases executing_of_step h hw with hw | ⟨rfl, hw⟩ <;>
      rcases executing_of_step h hw' with hw' | ⟨ha, hw'⟩
    · exact hone role w w' x x' hw hw'
    · subst ha
      by_contra hne
      obtain ⟨hx, hx'⟩ := hstart w x hne hw
      exact hne (hs.unique (by rw [hw]; rfl) (by rw [hw']; rfl) hx (hx' x' hw'))
    · by_contra hne
      obtain ⟨hx', hx⟩ := hstart w' x' (Ne.symm hne) hw'
      exact hne (hs.unique (by rw [hw]; rfl) (by rw [hw']; rfl) (hx x hw) hx')
    · cases ha
      rfl

theorem atMostOne_init : AtMostOne init := by
  intro role w w' x x' hw
  cases hw

/-- **The role is a singleton** in every state of a run exactly if no worker of the run starts it
while another executes it and the session of one of them has ended. -/
theorem at_most_one_iff (as : List Action) :
    Always step AtMostOne init as ↔ Along step StartsUnderLock init as := by
  refine always_iff (I := fun s => Held s ∧ AtMostOne s) (fun _ h => h.2) ?_ ?_
    ⟨held_init, atMostOne_init⟩
  · intro s a s' hI h
    exact atMostOne_step_iff hI.1 hI.2 h
  · intro s a s' hI h hq
    exact ⟨held_step hI.1 h, (atMostOne_step_iff hI.1 hI.2 h).mpr hq⟩

/-- The session of the first worker ends while it executes the role; the second gets the lock and
starts too. -/
def sessionEndedRun : List Action :=
  [.worker (0, .dispatch) .connect, .worker (0, .dispatch) .lock, .worker (0, .dispatch) .receive,
    .endSession 0,
    .worker (1, .dispatch) .connect, .worker (1, .dispatch) .lock, .worker (1, .dispatch) .receive]

theorem two_after_session_ended : ¬ ∀ as, Always step AtMostOne init as := by
  intro h
  have hrun : (exec step init sessionEndedRun).map
      (fun s => (s.procs (0, .dispatch), s.procs (1, .dispatch))) =
        some (.executing 0, .executing 1) := by decide
  obtain ⟨s, hs, hp⟩ := exec_eval hrun
  obtain ⟨h0, h1⟩ := Prod.mk.inj hp
  have hone := (h sessionEndedRun).last hs
  exact absurd (hone .dispatch 0 1 0 1 h0 h1) (by decide)

/-! ## Sessions that last -/

/-- The database ends no session that the lock was granted to and whose worker has not let go of
it. -/
def SessionsLast (s : Sys) (a : Action) (_ : Sys) : Prop :=
  ∀ x, a = .endSession x → ∀ p, (s.procs p).winner ≠ some x

theorem winners_live_step {s s' : Sys} {a : Action} (hs : Held s)
    (hlive : ∀ p x, (s.procs p).winner = some x → s.server.live x = true)
    (h : step s a = some s') (hlast : SessionsLast s a s') :
    ∀ p x, (s'.procs p).winner = some x → s'.server.live x = true := by
  intro q n hq
  cases step_effect h with
  | connect hp =>
    rcases update_cases Phase.winner hq with ⟨-, hx⟩ | ⟨-, hq⟩
    · cases hx
    · have hne : n ≠ s.server.next := Nat.ne_of_lt (hs.opened q n (session_of_winner hq))
      simpa [Server.connect, hne] using hlive q n hq
  | grant hp hx hg =>
    rcases update_cases Phase.winner hq with ⟨-, hx'⟩ | ⟨-, hq⟩
    · cases hx'
      exact hx
    · exact hlive q n hq
  | unlock hp =>
    rcases update_cases Phase.winner hq with ⟨-, hx⟩ | ⟨-, hq⟩
    · cases hx
    · have hn := hlive q n hq
      dsimp only
      split_ifs
      · rw [Server.unlock_live]
        exact hn
      · exact hn
  | @endSession x =>
    have hne : n ≠ x := by
      rintro rfl
      exact hlast n rfl q hq
    simpa [Server.endSession, hne] using hlive q n hq
  | receive hp | shutdown hp =>
    rcases update_cases Phase.winner hq with ⟨rfl, hx⟩ | ⟨-, hq⟩
    · exact hlive q n (by rw [hp]; exact hx)
    · exact hlive q n hq
  | leave _ hx =>
    rcases update_cases Phase.winner hq with ⟨-, hx'⟩ | ⟨-, hq⟩
    · rcases hx with rfl | rfl <;> cases hx'
    · exact hlive q n hq

/-- **While sessions last the role is a singleton.** -/
theorem at_most_one_of_sessions_last {as : List Action} (h : Along step SessionsLast init as) :
    Always step AtMostOne init as := by
  refine Along.always (I := fun s => Held s ∧
    ∀ p x, (s.procs p).winner = some x → s.server.live x = true) ?_ ?_
    ⟨held_init, fun _ _ h => by cases h⟩ h
  · rintro s ⟨hs, hlive⟩ role w w' x x' hw hw'
    have hp : (s.procs (w, role)).winner = some x := by rw [hw]; rfl
    have hp' : (s.procs (w', role)).winner = some x' := by rw [hw']; rfl
    exact hs.unique hp hp' (hlive _ x hp) (hlive _ x' hp')
  · rintro s a s' ⟨hs, hlive⟩ h hlast
    exact ⟨held_step hs h, winners_live_step hs hlive h hlast⟩

end Vsms.Worker.Singleton
