import Mathlib.Data.Int.Interval
import Vsms.Job.System

/-! # How often the handler is started

`startedSince` lists the attempts whose handler was started since the job was created or last
requeued. A claim counts an attempt up, so the claims made since then have different numbers, all
between 1 and the attempts counter (`Inv`); and the counter stays within the maximum as long as no
claim is made at the maximum. The failure path sees to that, but a reclaim does not: it takes a
running job with an expired lease back to `pending` whatever its attempts, and `take_lease` does not
look at them either, where that of messages does.

A start must also belong to a claim made since the last requeue: a worker that was slow to start its
claim does not look at the row again. -/

namespace Vsms.Job.Attempts

open Vsms.Lib.Runs Vsms.Lib.Optimistic Vsms.Schema.Types Vsms.Schema.Jobs
open Vsms.Job.Model Vsms.Job.System

/-! ### Starts since the last requeue -/

/-- The version of the last requeue. -/
def lastRequeue : List Event → ℕ
  | [] => 0
  | .requeued version :: _ => version
  | _ :: log => lastRequeue log

/-- **The attempts whose handler was started** since the job was created or last requeued. -/
def startedSince : List Event → List ℤ
  | [] => []
  | .requeued _ :: _ => []
  | .started attempt :: log => attempt :: startedSince log
  | _ :: log => startedSince log

/-- Different attempts up to `n` are at most `n`. -/
theorem length_le_of_attempts {l : List ℤ} {n : ℤ} (hd : l.Nodup)
    (h : ∀ a ∈ l, 1 ≤ a ∧ a ≤ n) : l.length ≤ n.toNat := by
  have hsub : l.toFinset ⊆ Finset.Icc 1 n := by
    intro a ha
    rw [Finset.mem_Icc]
    exact h a (List.mem_toFinset.mp ha)
  have hcard := Finset.card_le_card hsub
  rw [List.toFinset_card_of_nodup hd, Int.card_Icc] at hcard
  simpa using hcard

/-! ### Claims since the last requeue -/

/-- The attempt of a claim newer than the version `v` whose handler is still to be started. -/
def freshClaim (v : ℕ) : Proc → Option ℤ
  | .claimed j _ => if v < j.version then some j.attempts else none
  | _ => none

theorem freshClaim_eq_some {v : ℕ} {x : Proc} {n : ℤ} (h : freshClaim v x = some n) :
    ∃ j, x.held = some j ∧ v < j.version ∧ j.attempts = n := by
  cases x with
  | claimed j hj =>
    simp only [freshClaim] at h
    split_ifs at h with hv
    exact ⟨j, rfl, hv, Option.some.inj h⟩
  | _ => cases h

/-- **The step keeps to the attempts**: a claim that commits finds an attempt left, and a handler is
started on a claim made since the last requeue. -/
def Keeps (s : Sys) (a : Action) : Prop :=
  match s.procs a.proc, a.op with
  | .candidate j _ _ _, .takeLease =>
    s.row.version = j.version → j.state = .pending → j.attempts < j.maxAttempts
  | .claimed j _, .start registry => j.kind ∈ registry → lastRequeue s.log < j.version
  | _, _ => True

instance (s : Sys) (a : Action) : Decidable (Keeps s a) := by
  unfold Keeps
  split <;> infer_instance

structure Inv (s : Sys) : Prop where
  snapshots : Snapshots Proc.held s.toShared
  requeue : lastRequeue s.log ≤ s.row.version
  attempts : 0 ≤ s.row.attempts ∧ s.row.attempts ≤ max s.row.maxAttempts 0
  started : ∀ n ∈ startedSince s.log, 1 ≤ n ∧ n ≤ s.row.attempts
  nodup : (startedSince s.log).Nodup
  fresh : ∀ p n, freshClaim (lastRequeue s.log) (s.procs p) = some n →
    1 ≤ n ∧ n ≤ s.row.attempts ∧ n ∉ startedSince s.log
  distinct : ∀ p q n, freshClaim (lastRequeue s.log) (s.procs p) = some n →
    freshClaim (lastRequeue s.log) (s.procs q) = some n → p = q

theorem Inv.start (c : NewJob) : Inv (start c) where
  snapshots := start_snapshots c
  requeue := le_rfl
  attempts := ⟨le_rfl, le_max_right _ _⟩
  started := by rintro n ⟨⟩
  nodup := List.nodup_nil
  fresh := by rintro p n ⟨⟩
  distinct := by rintro p q n ⟨⟩

theorem Inv.bounded {s : Sys} (h : Inv s) :
    (startedSince s.log).length ≤ s.row.maxAttempts.toNat := by
  have hlen := length_le_of_attempts h.nodup h.started
  have hmax := h.attempts.2
  omega

/-! ### What the steps preserve -/

/-- A step that counts no attempt, starts no handler and is no requeue. -/
theorem Inv.keep {s s' : Sys} (h : Inv s) (hsnap : Snapshots Proc.held s'.toShared)
    (hv : s.row.version ≤ s'.row.version) (ha : s'.row.attempts = s.row.attempts)
    (hm : s'.row.maxAttempts = s.row.maxAttempts) (hr : lastRequeue s'.log = lastRequeue s.log)
    (hs : startedSince s'.log = startedSince s.log)
    (hf : ∀ q n, freshClaim (lastRequeue s.log) (s'.procs q) = some n →
      freshClaim (lastRequeue s.log) (s.procs q) = some n) : Inv s' := by
  refine ⟨hsnap, ?_, ?_, ?_, ?_, ?_, ?_⟩
  · rw [hr]
    exact h.requeue.trans hv
  · rw [ha, hm]
    exact h.attempts
  · rw [hs, ha]
    exact h.started
  · rw [hs]
    exact h.nodup
  · intro p n hp
    rw [hr] at hp
    rw [hs, ha]
    exact h.fresh p n (hf p n hp)
  · intro p q n hp hq
    rw [hr] at hp hq
    exact h.distinct p q n (hf p n hp) (hf q n hq)

/-- The process that moved has no fresh claim, or the one it had. -/
theorem freshClaim_update {f : ℕ → Proc} {p q : ℕ} {x : Proc} {v : ℕ} {n : ℤ}
    (hx : freshClaim v x = some n → freshClaim v (f p) = some n)
    (h : freshClaim v (Function.update f p x q) = some n) : freshClaim v (f q) = some n := by
  rcases update_cases (freshClaim v) h with ⟨rfl, hn⟩ | ⟨-, hn⟩
  · exact hx hn
  · exact hn

theorem Inv.forget {s : Sys} (h : Inv s) {p : ℕ} {o : Outcome}
    (hsnap : Snapshots Proc.held (s.go p o).toShared) (he : o.events = [])
    (hx : ∀ n, freshClaim (lastRequeue s.log) o.next = some n →
      freshClaim (lastRequeue s.log) (s.procs p) = some n) : Inv (s.go p o) := by
  refine h.keep hsnap le_rfl rfl rfl ?_ ?_ fun q n hq => freshClaim_update (hx n) hq
  · rw [Sys.go_log, he, List.nil_append]
  · rw [Sys.go_log, he, List.nil_append]

/-- A handler is started: its claim is used up. -/
theorem Inv.started_step {s : Sys} (h : Inv s) {p : ℕ} {j : Job} {hj : j.state = .running}
    (hp : s.procs p = .claimed j hj) (hv : lastRequeue s.log < j.version) {o : Outcome}
    (ho : o = { next := .running j hj, events := [.started j.attempts] })
    (hsnap : Snapshots Proc.held (s.go p o).toShared) : Inv (s.go p o) := by
  subst ho
  have hclaim : freshClaim (lastRequeue s.log) (s.procs p) = some j.attempts := by
    rw [hp, freshClaim, if_pos hv]
  obtain ⟨h1, h2, h3⟩ := h.fresh p _ hclaim
  have hother {q : ℕ} {n : ℤ} (hq : freshClaim (lastRequeue s.log)
      (Function.update s.procs p (.running j hj) q) = some n) :
      q ≠ p ∧ freshClaim (lastRequeue s.log) (s.procs q) = some n := by
    rcases update_cases _ hq with ⟨-, hn⟩ | hn
    · cases hn
    · exact hn
  refine ⟨hsnap, h.requeue, h.attempts, ?_, List.nodup_cons.mpr ⟨h3, h.nodup⟩, ?_, ?_⟩
  · intro n hn
    rcases List.mem_cons.mp hn with rfl | hn
    · exact ⟨h1, h2⟩
    · exact h.started n hn
  · intro q n hq
    obtain ⟨hne, hq⟩ := hother hq
    obtain ⟨hn1, hn2, hn3⟩ := h.fresh q n hq
    refine ⟨hn1, hn2, ?_⟩
    intro hn
    rcases List.mem_cons.mp hn with rfl | hn
    · exact hne (h.distinct q p _ hq hclaim)
    · exact hn3 hn
  · intro q r n hq hr
    exact h.distinct q r n (hother hq).2 (hother hr).2

/-- A claim commits: it has the next attempt. -/
theorem Inv.claim {s : Sys} (h : Inv s) {p : ℕ} {w : Plan} {row : Job}
    (hsnap : Snapshots Proc.held (s.wrote p w row).toShared)
    (hv : row.version = s.row.version + 1) (ha : row.attempts = s.row.attempts + 1)
    (hm : row.maxAttempts = s.row.maxAttempts) (hlt : s.row.attempts < s.row.maxAttempts)
    (hnext : w.next row = claimedOrIdle row) (he : ∃ t, w.events row s.clock = [.claimed t]) :
    Inv (s.wrote p w row) := by
  obtain ⟨t, he⟩ := he
  have hlog : (s.wrote p w row).log = .claimed t :: s.log := by
    rw [Sys.wrote_log, he, List.singleton_append]
  have hr : lastRequeue (s.wrote p w row).log = lastRequeue s.log := by rw [hlog]; rfl
  have hs : startedSince (s.wrote p w row).log = startedSince s.log := by rw [hlog]; rfl
  have hwriter {q : ℕ} {n : ℤ} (hq : freshClaim (lastRequeue s.log)
      ((s.wrote p w row).procs q) = some n) : (q = p ∧ n = s.row.attempts + 1) ∨
        (q ≠ p ∧ freshClaim (lastRequeue s.log) (s.procs q) = some n) := by
    rw [Sys.wrote_procs] at hq
    rcases update_cases _ hq with ⟨hqp, hn⟩ | hn
    · obtain ⟨j, hj, -, rfl⟩ := freshClaim_eq_some hn
      refine Or.inl ⟨hqp, ?_⟩
      rw [hnext] at hj
      rcases claimedOrIdle_cases row with ⟨hr, hc⟩ | ⟨-, hc⟩ <;> rw [hc] at hj <;> cases hj
      exact ha
    · exact Or.inr hn
  obtain ⟨ha0, hamax⟩ := h.attempts
  refine ⟨hsnap, ?_, ?_, ?_, ?_, ?_, ?_⟩
  · rw [hr, Sys.wrote_row, hv]
    exact h.requeue.trans (Nat.le_succ _)
  · rw [Sys.wrote_row, ha, hm]
    omega
  · intro n hn
    rw [hs] at hn
    obtain ⟨hn1, hn2⟩ := h.started n hn
    rw [Sys.wrote_row, ha]
    omega
  · rw [hs]
    exact h.nodup
  · intro q n hq
    rw [hr] at hq
    rw [hs, Sys.wrote_row, ha]
    rcases hwriter hq with ⟨-, rfl⟩ | ⟨-, hq⟩
    · -- the next attempt is larger than all that were started
      refine ⟨by omega, le_rfl, fun hn => ?_⟩
      have := (h.started _ hn).2
      omega
    · obtain ⟨hn1, hn2, hn3⟩ := h.fresh q n hq
      exact ⟨hn1, by omega, hn3⟩
  · intro q r n hq hr'
    rw [hr] at hq hr'
    rcases hwriter hq with ⟨hqp, hqn⟩ | ⟨hqp, hq⟩ <;> rcases hwriter hr' with
      ⟨hrp, hrn⟩ | ⟨hrp, hr'⟩
    · rw [hqp, hrp]
    · have := (h.fresh r n hr').2.1
      omega
    · have := (h.fresh q n hq).2.1
      omega
    · exact h.distinct q r n hq hr'

/-- A requeue commits: no claim is newer, and no handler was started since. -/
theorem Inv.of_requeued {s : Sys} {p : ℕ} {w : Plan} {row : Job}
    (hsnap : Snapshots Proc.held (s.wrote p w row).toShared) (ha : row.attempts = 0)
    (he : w.events row s.clock = [.requeued row.version]) : Inv (s.wrote p w row) := by
  have hlog : (s.wrote p w row).log = .requeued row.version :: s.log := by
    rw [Sys.wrote_log, he, List.singleton_append]
  have hs : startedSince (s.wrote p w row).log = [] := by rw [hlog]; rfl
  have hr : lastRequeue (s.wrote p w row).log = row.version := by rw [hlog]; rfl
  have hnone {q : ℕ} {n : ℤ}
      (hq : freshClaim row.version ((s.wrote p w row).procs q) = some n) : False := by
    obtain ⟨j, hj, hlt, -⟩ := freshClaim_eq_some hq
    have hle := (hsnap q j hj).le
    exact absurd hle (not_le.mpr hlt)
  refine ⟨hsnap, hr.le, ?_, ?_, ?_, ?_, ?_⟩
  · rw [Sys.wrote_row, ha]
    exact ⟨le_rfl, le_max_right _ _⟩
  · rw [hs]
    rintro n ⟨⟩
  · rw [hs]
    exact List.nodup_nil
  · intro q n hq
    rw [hr] at hq
    exact (hnone hq).elim
  · intro q r n hq
    rw [hr] at hq
    exact (hnone hq).elim

/-- Any other write: the attempts stay, and the process has nothing to start. -/
theorem Inv.other {s : Sys} (h : Inv s) {p : ℕ} {w : Plan} {row : Job}
    (hsnap : Snapshots Proc.held (s.wrote p w row).toShared)
    (hv : row.version = s.row.version + 1) (ha : row.attempts = s.row.attempts)
    (hm : row.maxAttempts = s.row.maxAttempts) (he : w.events row s.clock = [])
    (hnext : freshClaim (lastRequeue s.log) (w.next row) = none) : Inv (s.wrote p w row) := by
  refine h.keep hsnap (by rw [Sys.wrote_row, hv]; exact Nat.le_succ _) ha hm ?_ ?_ ?_
  · rw [Sys.wrote_log, he, List.nil_append]
  · rw [Sys.wrote_log, he, List.nil_append]
  · intro q n hq
    refine freshClaim_update (fun hn => ?_) hq
    rw [hnext] at hn
    cases hn

theorem freshClaim_failingOrIdle (v : ℕ) (row : Job) : freshClaim v (failingOrIdle row) = none := by
  rcases failingOrIdle_cases row with ⟨h, he⟩ | ⟨-, he⟩ <;> rw [he] <;> rfl

theorem Inv.wrote {s : Sys} (h : Inv s) {p : ℕ} {op : Op} {w : Plan}
    (hw : Writes (s.procs p) op w) (hrow : w.held = s.row) (hk : Keeps s ⟨p, op⟩)
    (hsnap : Snapshots Proc.held (s.wrote p w (written w.set s.clock s.row)).toShared) :
    Inv (s.wrote p w (written w.set s.clock s.row)) := by
  unfold Keeps at hk
  dsimp only at hk
  generalize s.procs p = x at hw hk
  cases hw with
  | @claim j hj worker now hs =>
    dsimp only at hrow hk
    subst hrow
    refine h.claim hsnap (written_version _ _ _) (written_attempts _ _ _)
      (written_maxAttempts _ _ _) (hk rfl hs) rfl ⟨s.clock, if_pos ?_⟩
    rw [written_state]
    rfl
  | @reclaim j hj worker now hs =>
    have hp : (written reclaimPatch s.clock s.row).state = .pending := written_state _ _ _
    refine h.other hsnap (written_version _ _ _) (written_attempts _ _ _)
      (written_maxAttempts _ _ _) (if_neg (by rw [hp]; decide)) ?_
    change freshClaim _ (claimedOrIdle _) = none
    rw [claimedOrIdle, dif_neg (by rw [hp]; decide)]
    rfl
  | @outcome j hj result =>
    refine h.other hsnap (written_version _ _ _) ?_ (written_maxAttempts _ _ _) rfl
      (freshClaim_failingOrIdle _ _)
    rw [written_attempts, outcomePatch_attempts]
    rfl
  | @failure failed hf now =>
    refine h.other hsnap (written_version _ _ _) ?_ (written_maxAttempts _ _ _) rfl rfl
    rw [written_attempts, (failurePatch_cases failed now).1]
    rfl
  | @requeue existing hd now => exact .of_requeued hsnap (written_attempts _ _ _) rfl

theorem Inv.moved {s : Sys} (h : Inv s) {p : ℕ} {op : Op} {o : Outcome}
    (ho : Advances s (s.procs p) op o) (hk : Keeps s ⟨p, op⟩)
    (hsnap : Snapshots Proc.held (s.go p o).toShared) : Inv (s.go p o) := by
  unfold Keeps at hk
  dsimp only at hk
  generalize hx : s.procs p = x at ho hk
  cases ho with
  | start hkind => exact h.started_step hx (hk hkind) rfl hsnap
  | pass => exact h.forget hsnap rfl fun n hn => hx ▸ hn
  | _ => exact h.forget hsnap rfl (by rintro n ⟨⟩)

theorem Inv.step {s s' : Sys} {a : Action} (h : Inv s) (hstep : step s a = some s')
    (hk : Keeps s a) : Inv s' := by
  have hsnap := step_snapshots h.snapshots hstep
  cases step_sound h.snapshots hstep with
  | wrote w hw hrow => exact h.wrote hw hrow hk hsnap
  | lost w hw hv => exact h.forget hsnap rfl (by rintro n ⟨⟩)
  | moved o ho => exact h.moved ho hk hsnap

/-- **The handler is started at most `max_attempts` times** since the job was created or last
requeued, in every state of every run in which no claim is made at the maximum and no handler is
started on a claim older than the last requeue; with any number of workers, crashes and database
errors. -/
theorem starts_bounded : ∀ c as, Along step (fun s a _ => Keeps s a) (start c) as →
    Always step (fun s => (startedSince s.log).length ≤ s.row.maxAttempts.toNat) (start c) as := by
  intro c as hk
  refine hk.always (I := Inv) (fun s h => h.bounded) ?_ (Inv.start c)
  intro s a s' h hstep hk
  exact h.step hstep hk

/-- A job with one attempt. -/
def onceJob : NewJob where
  id := "j1"
  kind := "purge"
  dedupeKey := none
  payload := "\x7b\x7d"
  priority := 0
  runAt := 0
  maxAttempts := 1
  createdAt := 0

/-- A worker claims it and starts the handler. -/
def startRun (p : ℕ) (now : Time) : List Action :=
  [⟨p, .poll "w" now⟩, ⟨p, .takeLease⟩, ⟨p, .start ["purge"]⟩]

/-- The handler fails and the job is dead after its one attempt; it is requeued and runs again. -/
def requeuedRun : List Action :=
  startRun 0 0 ++ [⟨0, .finish (.error "boom")⟩, ⟨0, .applyOutcome⟩, ⟨0, .applyFailure 1⟩,
    ⟨1, .readDead 2⟩, ⟨1, .requeue⟩] ++ startRun 0 2

theorem starts_bounded_requeued :
    Along step (fun s a _ => Keeps s a) (start onceJob) requeuedRun ∧
      Always step (fun s => (startedSince s.log).length ≤ s.row.maxAttempts.toNat)
        (start onceJob) requeuedRun := by
  have hk : Along step (fun s a _ => Keeps s a) (start onceJob) requeuedRun := by decide
  exact ⟨hk, starts_bounded onceJob requeuedRun hk⟩

/-- The worker stops while the handler runs; when the lease has expired, the job is taken back,
claimed, started a second time, and dead when that fails. -/
def reclaimedRun : List Action :=
  startRun 0 0 ++ [⟨0, .crash⟩, ⟨1, .poll "w" (minutes 6)⟩, ⟨1, .takeLease⟩] ++
    startRun 1 (minutes 6) ++
    [⟨1, .finish (.error "boom")⟩, ⟨1, .applyOutcome⟩, ⟨1, .applyFailure (minutes 7)⟩]

theorem started_beyond_max : ¬ ∀ c as,
    Always step (fun s => (startedSince s.log).length ≤ s.row.maxAttempts.toNat) (start c) as := by
  intro h
  obtain ⟨s, hs, he⟩ : ∃ s, exec step (start onceJob) reclaimedRun = some s ∧
      (startedSince s.log, s.row.maxAttempts, s.row.state) = ([2, 1], 1, .dead) := exec_eval rfl
  have hle := (h onceJob reclaimedRun).last hs
  simp only [Prod.mk.injEq] at he
  rw [he.1, he.2.1] at hle
  exact absurd hle (by decide)

end Vsms.Job.Attempts
