import Vsms.Message.DlrRace
import Vsms.Message.Lifecycle

/-! # A report against the write-back of the submission it is about

A worker has submitted the message. The provider answers with a reference, the worker writes it to
the row, and a `delivered` report with the reference arrives, at any moment, among any other
processes. A report that is looked up before the reference is stored finds nothing and is dropped:
it leaves no receipt, and the message stays `submitted`. A report that is looked up after it has its
receipt, and the message is delivered unless another process moved it in between. -/

namespace Vsms.Message.EarlyReports

open Vsms.Lib.Runs Vsms.Lib.Optimistic Vsms.Schema.Types Vsms.Schema.Messages
open Vsms.Routing.Decide Vsms.Message.Dispatch Vsms.Message.Dlr Vsms.Message.System
open Vsms.Message.DlrRace Vsms.Message.Lifecycle

/-! ## The two operations -/

/-- The rest of `submit_one`: the provider's answer, and `write_submitted`. -/
structure Submission where
  proc : ℕ
  ack : SubmitAck
  query : Option RoutingView
  now : Time
  dbNow : Time

def Submission.answer (b : Submission) : Action := ⟨b.proc, .answer (.ok b.ack)⟩

def Submission.writeBack (b : Submission) : Action := ⟨b.proc, .writeBack b.query b.now b.dbNow⟩

/-- The correlation query of a call of `ingest_one`. -/
def lookup (i : Ingest) : Action := ⟨i.proc, .correlate i.providerRowId i.rawPayload i.update⟩

/-- The steps of process `p` in a run. -/
def own (p : ℕ) (as : List Action) : List Action := as.filter fun a => a.proc = p

/-- **Both operations, from `s` to `s'`**, among any other processes. The provider has issued a
reference for the submission of the worker, and a report `delivered` with it arrives. The call of
`ingest_one` has returned: it is over after the lookup if that finds nothing. -/
structure Overlap (b : Submission) (i : Ingest) (s : Sys) (as : List Action) (s' : Sys) : Prop where
  reachable : Reachable s
  ne : i.proc ≠ b.proc
  submitting : ∃ m h n, s.procs b.proc = .submitting m h n ∧ m.providerId = some i.providerRowId
  idle : s.procs i.proc = .idle
  ref : i.update.providerRef ∈ b.ack.refs
  delivered : i.update.outcome = .delivered
  run : exec step s as = some s'
  worker : own b.proc as = [b.answer, b.writeBack]
  report : own i.proc as = i.run ∨ own i.proc as = [lookup i]
  returned : s'.procs i.proc = .idle

/-- The call has found the message and has not written its state. -/
def pending : Proc → Bool
  | .correlated .. | .receipted .. => true
  | _ => false

/-- While the report is pending no other process writes to the message, or it leaves it
terminal. -/
def Undisturbed (i : Ingest) (s : Sys) (a : Action) (s' : Sys) : Prop :=
  a.proc ≠ i.proc → pending (s.procs i.proc) = true → s'.row = s.row ∨ s'.row.Terminal

/-- No third process writes to the message or its receipts. -/
def Still (b : Submission) (i : Ingest) (s : Sys) (a : Action) (s' : Sys) : Prop :=
  a.proc ≠ b.proc → a.proc ≠ i.proc → s'.row = s.row ∧ s'.receipts = s.receipts

/-! ## What the steps of others leave alone -/

theorem step_receipts {s s' : Sys} {a : Action} (h : step s a = some s') :
    s.receipts ⊆ s'.receipts ∧ s'.row.id = s.row.id ∧ s'.row.operator = s.row.operator := by
  cases step_cases h with
  | wrote w hw hv hl =>
    refine ⟨List.Subset.refl _, by simp, ?_⟩
    exact written_apply Message.operator (fun _ _ _ _ => rfl) _ _ _
  | lost w hw hv => exact ⟨List.subset_append_right _ _, rfl, rfl⟩
  | refused w e hw hv hl => exact ⟨List.subset_append_right _ _, rfl, rfl⟩
  | moved o ho => exact ⟨List.subset_append_right _ _, rfl, rfl⟩

theorem exec_receipts {s s' : Sys} {as : List Action} (h : exec step s as = some s') :
    s.receipts ⊆ s'.receipts ∧ s'.row.id = s.row.id ∧ s'.row.operator = s.row.operator := by
  refine exec_rel (I := fun _ => True) (R := fun s s' : Sys => s.receipts ⊆ s'.receipts ∧
    s'.row.id = s.row.id ∧ s'.row.operator = s.row.operator)
    (fun s => ⟨List.Subset.refl _, rfl, rfl⟩) (fun s t u hst htu => ?_)
    (fun s a s' _ hstep => ⟨trivial, step_receipts hstep⟩) trivial h
  exact ⟨List.Subset.trans hst.1 htu.1, htu.2.1.trans hst.2.1, htu.2.2.trans hst.2.2⟩

theorem receipt_eq {m m' : Message} (hid : m'.id = m.id) (hop : m'.operator = m.operator)
    (i : Ingest) : i.receipt m' = i.receipt m := by
  unfold Ingest.receipt receiptOf
  rw [hid, hop]

/-- While the report is pending, the row keeps what each step of another process keeps. -/
theorem pending_run {q : ℕ} {K : Message → Prop} {s s' : Sys} {as : List Action}
    (has : ∀ a ∈ as, a.proc ≠ q) (h : exec step s as = some s') (hp : pending (s.procs q) = true)
    (hK : Along step (fun s a s' => a.proc ≠ q → pending (s.procs q) = true → K s.row → K s'.row)
      s as) (hs : K s.row) : K s'.row := by
  induction as generalizing s with
  | nil => cases h; exact hs
  | cons a as ih =>
    obtain ⟨t, ht, h⟩ := exec_cons.mp h
    obtain ⟨hk, hK⟩ := (along_cons ht).mp hK
    have hne := has a List.mem_cons_self
    refine ih (fun b hb => has b (List.mem_cons_of_mem _ hb)) h ?_ hK (hk hne hp hs)
    rw [step_procs ht hne.symm]
    exact hp

/-! ## The call of `ingest_one` -/

theorem own_cons {p : ℕ} {as rest : List Action} {a : Action} (h : own p as = a :: rest) :
    ∃ bs cs, as = bs ++ a :: cs ∧ (∀ c ∈ bs, c.proc ≠ p) ∧ own p cs = rest := by
  obtain ⟨bs, cs, has, hbs, -, hcs⟩ := List.filter_eq_cons_iff.mp h
  exact ⟨bs, cs, has, fun c hc => by simpa using hbs c hc, hcs⟩

theorem own_nil {p : ℕ} {as : List Action} (h : own p as = []) : ∀ a ∈ as, a.proc ≠ p := by
  intro a ha
  simpa using List.filter_eq_nil_iff.mp h a ha

/-- The state in which the report is looked up. -/
theorem Overlap.split {b : Submission} {i : Ingest} {s s' : Sys} {as : List Action}
    (h : Overlap b i s as s') :
    ∃ before t after, as = before ++ lookup i :: after ∧ (∀ a ∈ before, a.proc ≠ i.proc) ∧
      exec step s before = some t ∧ exec step t (lookup i :: after) = some s' ∧
      (own i.proc after = [⟨i.proc, .createReceipt⟩, ⟨i.proc, .applyDlr i.now i.dbNow⟩] ∨
        own i.proc after = []) := by
  have hsplit : ∃ rest, own i.proc as = lookup i :: rest ∧
      (rest = [⟨i.proc, .createReceipt⟩, ⟨i.proc, .applyDlr i.now i.dbNow⟩] ∨ rest = []) := by
    rcases h.report with hr | hr
    · exact ⟨_, hr, Or.inl rfl⟩
    · exact ⟨_, hr, Or.inr rfl⟩
  obtain ⟨rest, hown, hrest⟩ := hsplit
  obtain ⟨before, after, has, hbefore, hafter⟩ := own_cons hown
  have hexec := h.run
  rw [has] at hexec
  obtain ⟨t, ht, hexec⟩ := exec_append.mp hexec
  exact ⟨before, t, after, has, hbefore, ht, hexec, by rwa [hafter]⟩

section call
variable {i : Ingest} {t s' : Sys} {after : List Action} (hp : t.procs i.proc = .idle)
  (hexec : exec step t (lookup i :: after) = some s')
  (hown : own i.proc after = [⟨i.proc, .createReceipt⟩, ⟨i.proc, .applyDlr i.now i.dbNow⟩] ∨
    own i.proc after = [])
include hp

/-- **A report that is not found leaves everything as it is.** -/
theorem step_unmatched (hc : ¬ Correlates i.providerRowId i.update t.row) :
    step t (lookup i) = some t := by
  have hgo : t.go i.proc { next := .idle } = t := by
    unfold Sys.go Shared.become
    rw [← hp, Function.update_eq_self]
    rfl
  simp [step, lookup, plan, advance, hp, hc, hgo]

theorem step_matched (hc : Correlates i.providerRowId i.update t.row) :
    step t (lookup i) = some (t.go i.proc
      { next := .correlated t.row i.providerRowId i.rawPayload i.update hc }) := by
  simp [step, lookup, plan, advance, hp, hc]

include hexec hown

/-- And the call is over. -/
theorem own_of_unmatched (hc : ¬ Correlates i.providerRowId i.update t.row) :
    own i.proc after = [] ∧ exec step t after = some s' := by
  have hafter : exec step t after = some s' := by
    obtain ⟨u, hu, hexec⟩ := exec_cons.mp hexec
    rw [step_unmatched hp hc] at hu
    cases hu
    exact hexec
  refine ⟨?_, hafter⟩
  rcases hown with hown | hown
  · obtain ⟨bs, cs, rfl, hbs, -⟩ := own_cons hown
    obtain ⟨u, hu, hcs⟩ := exec_append.mp hafter
    obtain ⟨v, hv, -⟩ := exec_cons.mp hcs
    have hidle : u.procs i.proc = .idle := (exec_procs hbs hu).trans hp
    simp [step, plan, advance, hidle] at hv
  · exact hown

/-- **A report that is found stores its receipt**, and then writes the state: in `v`, where the row
has what the other processes keep while the report is pending. -/
theorem report_of_matched (hc : Correlates i.providerRowId i.update t.row)
    (hend : s'.procs i.proc = .idle) :
    ∃ v rest, v.procs i.proc = .receipted t.row i.providerRowId i.update hc ∧
      i.receipt t.row ∈ v.receipts ∧
      exec step v (⟨i.proc, .applyDlr i.now i.dbNow⟩ :: rest) = some s' ∧
      (∀ a ∈ rest, a.proc ≠ i.proc) ∧
      (Snapshots Proc.held t.toShared → Snapshots Proc.held v.toShared) ∧
      ∀ K : Message → Prop, Along step (fun s a s' => a.proc ≠ i.proc →
        pending (s.procs i.proc) = true → K s.row → K s'.row) t (lookup i :: after) →
        K t.row → K v.row := by
  obtain ⟨t₁, ht₁, hexec⟩ := exec_cons.mp hexec
  have hread := ht₁
  rw [step_matched hp hc] at hread
  have hproc₁ : t₁.procs i.proc =
      .correlated t.row i.providerRowId i.rawPayload i.update hc := by
    cases hread
    exact Function.update_self _ _ _
  rcases hown with hown | hown
  · obtain ⟨bs, cs, rfl, hbs, hown⟩ := own_cons hown
    obtain ⟨ds, rest, rfl, hds, hrest⟩ := own_cons hown
    obtain ⟨u, hu, hexec⟩ := exec_append.mp hexec
    obtain ⟨u₁, hu₁, hexec⟩ := exec_cons.mp hexec
    obtain ⟨v, hv, hexec⟩ := exec_append.mp hexec
    have hprocu : u.procs i.proc = .correlated t.row i.providerRowId i.rawPayload i.update hc :=
      (exec_procs hbs hu).trans hproc₁
    have hstored := hu₁
    simp only [step, plan, advance, hprocu] at hstored
    have hprocv : u₁.procs i.proc = .receipted t.row i.providerRowId i.update hc ∧
        i.receipt t.row ∈ u₁.receipts ∧ u₁.row = u.row := by
      cases hstored
      exact ⟨Function.update_self _ _ _, List.mem_cons_self, rfl⟩
    obtain ⟨hprocu₁, hrec, hrow⟩ := hprocv
    refine ⟨v, rest, (exec_procs hds hv).trans hprocu₁, (exec_receipts hv).1 hrec, hexec,
      own_nil hrest, fun hsnap => ?_, fun K hK ht => ?_⟩
    · exact exec_snapshots (step_snapshots (exec_snapshots (step_snapshots hsnap ht₁) hu) hu₁) hv
    · -- The row is read in `t`, and others write it only in the runs `bs` and `ds`.
      have hK₁ := ((along_cons ht₁).mp hK).2
      obtain ⟨hbs', hK₂⟩ := (along_append hu).mp hK₁
      obtain ⟨hds', -⟩ := (along_append hv).mp ((along_cons hu₁).mp hK₂).2
      have hrow₁ : t₁.row = t.row := by
        cases hread
        rfl
      have hKu : K u.row := pending_run hbs hu (by rw [hproc₁]; rfl) hbs' (hrow₁ ▸ ht)
      exact pending_run hds hv (by rw [hprocu₁]; rfl) hds' (hrow ▸ hKu)
  · have hpend := exec_procs (own_nil hown) hexec
    rw [hproc₁, hend] at hpend
    cases hpend

end call

/-- **The write of a `delivered` report** to the row it found. -/
theorem step_applyDlr {i : Ingest} {v v' : Sys} {hc : Correlates i.providerRowId i.update v.row}
    (hp : v.procs i.proc = .receipted v.row i.providerRowId i.update hc)
    (hout : i.update.outcome = .delivered)
    (hst : v.row.state = .submitted ∨ v.row.state = .uncertain)
    (h : step v ⟨i.proc, .applyDlr i.now i.dbNow⟩ = some v') : v'.row.state = .delivered := by
  have hnext : nextState v.row.state i.update.outcome = some .delivered := by
    rw [hout]
    rcases hst with hst | hst <;> rw [hst] <;> rfl
  cases step_cases h with
  | wrote w hw hv hl =>
    dsimp only at hw
    rw [hp] at hw
    cases hw with
    | report hset =>
      rw [Sys.wrote_row, state_written hset, reportedState, hnext]
      rfl
  | lost w hw hv =>
    dsimp only at hw
    rw [hp] at hw
    cases hw
    exact absurd rfl hv
  | refused w e hw hv hl =>
    dsimp only at hw
    rw [hp] at hw
    cases hw with
    | report hset =>
      obtain ⟨target, hn, hu, -⟩ := dlrPatch_some hset
      dsimp only at hl
      rw [hu] at hl
      exact absurd (Or.inr (nextState_edge hn).2) hl
  | moved o ho =>
    dsimp only at ho
    rw [hp] at ho
    cases ho with
    | noVerdict hn =>
      rw [Option.isNone_iff_eq_none, dlrPatch_none, hnext] at hn
      cases hn

/-- After it the message is delivered for good. -/
theorem delivered_of_unmoved {i : Ingest} {v s' : Sys} {found : Message} {rest : List Action}
    {hc : Correlates i.providerRowId i.update found}
    (hsnap : Snapshots Proc.held v.toShared)
    (hp : v.procs i.proc = .receipted found i.providerRowId i.update hc) (hrow : v.row = found)
    (hout : i.update.outcome = .delivered)
    (hst : found.state = .submitted ∨ found.state = .uncertain)
    (h : exec step v (⟨i.proc, .applyDlr i.now i.dbNow⟩ :: rest) = some s') :
    s'.row.state = .delivered := by
  obtain ⟨v', hv', h⟩ := exec_cons.mp h
  subst hrow
  have hstate := step_applyDlr hp hout hst hv'
  have hterminal : v'.row.Terminal := by
    unfold Message.Terminal
    rw [hstate]
    decide
  rw [exec_terminal (step_snapshots hsnap hv') h hterminal, hstate]

section found
variable {i : Ingest} {t s' : Sys} {after : List Action} (hsnap : Snapshots Proc.held t.toShared)
  (hp : t.procs i.proc = .idle) (hexec : exec step t (lookup i :: after) = some s')
  (hown : own i.proc after = [⟨i.proc, .createReceipt⟩, ⟨i.proc, .applyDlr i.now i.dbNow⟩] ∨
    own i.proc after = [])
  (hc : Correlates i.providerRowId i.update t.row) (hend : s'.procs i.proc = .idle)
  (hout : i.update.outcome = .delivered)
include hsnap hp hexec hown hc hend hout

theorem terminal_of_undisturbed
    (hst : t.row.state = .submitted ∨ t.row.state = .uncertain ∨ t.row.Terminal)
    (hund : Along step (Undisturbed i) t (lookup i :: after)) : s'.row.Terminal := by
  obtain ⟨v, rest, hproc, -, hv, -, hsnap', hK⟩ := report_of_matched hp hexec hown hc hend
  have hrow : v.row = t.row ∨ v.row.Terminal := by
    refine hK (fun m => m = t.row ∨ m.Terminal) (hund.imp ?_) (Or.inl rfl)
    intro a _ u u' hu hne hpend hm
    rcases hu hne hpend with hrow | hterm
    · rwa [hrow]
    · exact Or.inr hterm
  have hterminal : v.row.Terminal → s'.row.Terminal := by
    intro hterm
    unfold Message.Terminal
    rw [exec_terminal (hsnap' hsnap) hv hterm]
    exact hterm
  rcases hrow with hrow | hterm
  · rcases hst with hst | hst | hst
    · unfold Message.Terminal
      rw [delivered_of_unmoved (hsnap' hsnap) hproc hrow hout (Or.inl hst) hv]
      decide
    · unfold Message.Terminal
      rw [delivered_of_unmoved (hsnap' hsnap) hproc hrow hout (Or.inr hst) hv]
      decide
    · exact hterminal (hrow ▸ hst)
  · exact hterminal hterm

theorem delivered_of_still {b : Submission} (hst : t.row.state = .submitted)
    (hb : ∀ a ∈ after, a.proc ≠ b.proc) (hstill : Along step (Still b i) t (lookup i :: after)) :
    s'.row.state = .delivered := by
  obtain ⟨v, rest, hproc, -, hv, -, hsnap', hK⟩ := report_of_matched hp hexec hown hc hend
  have hrow : v.row = t.row := by
    refine hK (fun m => m = t.row) (hstill.imp ?_) rfl
    intro a ha u u' hu hne _ hm
    rcases List.mem_cons.mp ha with rfl | ha
    · exact absurd rfl hne
    · exact (hu (hb a ha) hne).1.trans hm
  exact delivered_of_unmoved (hsnap' hsnap) hproc hrow hout (Or.inl hst) hv

end found

/-! ## The worker -/

/-- What the worker still has to do, with the row as `m` until it has written back. -/
inductive Stage (b : Submission) (m : Message) (s : Sys) : List Action → Prop
  | submitting (h : m.state = .routed) (n : ℕ) (hp : s.procs b.proc = .submitting m h n)
      (hrow : s.row = m) : Stage b m s [b.answer, b.writeBack]
  | answered (h : m.state = .routed) (n : ℕ)
      (hp : s.procs b.proc = .answered m h (some n) (.ok b.ack)) (hrow : s.row = m) :
      Stage b m s [b.writeBack]
  | stored (hrow : s.row = written (writeSubmitted b.ack) b.dbNow m) : Stage b m s []

/-- The reference is stored, or still to be written. -/
theorem Stage.stored_or {b : Submission} {m : Message} {s : Sys} {rest : List Action}
    (h : Stage b m s rest) :
    (rest = [] ∧ s.row = written (writeSubmitted b.ack) b.dbNow m) ∨
      (b.writeBack ∈ rest ∧ s.row = m) := by
  cases h with
  | submitting hr n hp hrow => exact Or.inr ⟨by simp, hrow⟩
  | answered hr n hp hrow => exact Or.inr ⟨by simp, hrow⟩
  | stored hrow => exact Or.inl ⟨rfl, hrow⟩

/-- A step of another process that leaves the row alone. -/
theorem Stage.frame {b : Submission} {m : Message} {s t : Sys} {rest : List Action}
    (h : Stage b m s rest) (hp : t.procs b.proc = s.procs b.proc) (hrow : t.row = s.row) :
    Stage b m t rest := by
  cases h with
  | submitting hr n hs hm => exact .submitting hr n (hp.trans hs) (hrow.trans hm)
  | answered hr n hs hm => exact .answered hr n (hp.trans hs) (hrow.trans hm)
  | stored hm => exact .stored (hrow.trans hm)

/-- A step of the worker. -/
theorem Stage.next {b : Submission} {m : Message} {s t : Sys} {a : Action} {rest : List Action}
    (hs : Stage b m s (a :: rest)) (h : step s a = some t) :
    Stage b m t rest ∧ t.receipts = s.receipts := by
  cases hs with
  | submitting hr n hp hrow =>
    simp only [step, Submission.answer, plan, advance, hp] at h
    cases h
    exact ⟨.answered hr n (Function.update_self _ _ _) hrow, rfl⟩
  | answered hr n hp hrow =>
    have hlegal : Legal s.row.state .submitted := by
      rw [hrow, hr]
      decide
    cases step_cases h with
    | wrote w hw hv hl =>
      simp only [Submission.writeBack, hp] at hw
      cases hw with
      | finish hset =>
        cases hset
        exact ⟨.stored (by rw [Sys.wrote_row, hrow]), rfl⟩
    | lost w hw hv =>
      simp only [Submission.writeBack, hp] at hw
      cases hw
      exact absurd (congrArg Message.version hrow) hv
    | refused w e hw hv hl =>
      simp only [Submission.writeBack, hp] at hw
      cases hw with
      | finish hset =>
        cases hset
        exact absurd hlegal hl
    | moved o ho =>
      simp only [Submission.writeBack, hp] at ho
      cases ho with
      | leave hf => cases hf
      | panic hf => cases hf

/-- **The worker goes on undisturbed** where the report does not move and no third process writes.
-/
theorem Stage.run {b : Submission} {i : Ingest} {m : Message} {s t : Sys} {as rest : List Action}
    (hs : Stage b m s (own b.proc as ++ rest)) (hi : ∀ a ∈ as, a.proc ≠ i.proc)
    (hstill : Along step (Still b i) s as) (h : exec step s as = some t) :
    Stage b m t rest ∧ t.receipts = s.receipts := by
  induction as generalizing s with
  | nil => cases h; exact ⟨hs, rfl⟩
  | cons a as ih =>
    obtain ⟨u, hu, h⟩ := exec_cons.mp h
    obtain ⟨hstep, hstill⟩ := (along_cons hu).mp hstill
    have hnext : Stage b m u (own b.proc as ++ rest) ∧ u.receipts = s.receipts := by
      by_cases ha : a.proc = b.proc
      · have hown : own b.proc (a :: as) = a :: own b.proc as :=
          List.filter_cons_of_pos (by simp [ha])
        rw [hown] at hs
        exact hs.next hu
      · have hown : own b.proc (a :: as) = own b.proc as := List.filter_cons_of_neg (by simp [ha])
        rw [hown] at hs
        obtain ⟨hrow, hrec⟩ := hstep ha (hi a List.mem_cons_self)
        exact ⟨hs.frame (step_procs hu (Ne.symm ha)) hrow, hrec⟩
    obtain ⟨hst, hrec⟩ := ih hnext.1 (fun c hc => hi c (List.mem_cons_of_mem _ hc)) hstill h
    exact ⟨hst, hrec.trans hnext.2⟩

/-! ## Both -/

/-- The worker's copy is the row as it is. -/
def Current (s : Sys) (p : ℕ) : Prop := ∀ m, (s.procs p).held = some m → m.version = s.row.version

theorem correlates_stored {b : Submission} {i : Ingest} {m : Message} {now : Time}
    (hp : m.providerId = some i.providerRowId) (hr : i.update.providerRef ∈ b.ack.refs) :
    Correlates i.providerRowId i.update (written (writeSubmitted b.ack) now m) := by
  unfold Correlates
  rw [written_providerMessageRef, written_providerMessageRefAlt,
    written_apply Message.providerId (fun _ _ _ _ => rfl)]
  refine ⟨hp, ?_⟩
  simp only [SubmitAck.refs, List.mem_cons, Option.mem_toList] at hr
  rcases hr with hr | hr
  · exact Or.inl (congrArg some hr.symm)
  · exact Or.inr hr

theorem own_append (p : ℕ) (as bs : List Action) : own p (as ++ bs) = own p as ++ own p bs :=
  List.filter_append ..

theorem own_lookup {b : Submission} {i : Ingest} (hne : i.proc ≠ b.proc) (as : List Action) :
    own b.proc (lookup i :: as) = own b.proc as :=
  List.filter_cons_of_neg (by simp [lookup, hne])

theorem mem_own {b : Submission} {as : List Action} (h : b.writeBack ∈ as) :
    b.writeBack ∈ own b.proc as :=
  List.mem_filter.mpr ⟨h, by simp [Submission.writeBack]⟩

section overlap
variable {b : Submission} {i : Ingest} {s t s' : Sys} {as before after : List Action}
  (h : Overlap b i s as s') (has : as = before ++ lookup i :: after)
include h

theorem Overlap.submitting_row (hcur : Current s b.proc) :
    s.row.providerId = some i.providerRowId ∧
      ∃ hr n, s.procs b.proc = .submitting s.row hr n := by
  obtain ⟨m, hm, n, hp, hprov⟩ := h.submitting
  have hheld : (s.procs b.proc).held = some m := by rw [hp]; rfl
  obtain rfl : m = s.row := (h.reachable.snapshots b.proc m hheld).eq (hcur m hheld)
  exact ⟨hprov, hm, n, hp⟩

include has

theorem Overlap.own_split : own b.proc before ++ own b.proc after = [b.answer, b.writeBack] := by
  rw [← h.worker, has, own_append, own_lookup h.ne]

/-- The worker writes back once. -/
theorem Overlap.writeBack_once (hbefore : b.writeBack ∈ own b.proc before)
    (hafter : b.writeBack ∈ own b.proc after) : False := by
  have hnodup : (own b.proc before ++ own b.proc after).Nodup := by
    rw [h.own_split has]
    simp [Submission.answer, Submission.writeBack]
  exact List.disjoint_of_nodup_append hnodup hbefore hafter

/-- How far the worker is when the report is looked up. -/
theorem Overlap.stage (hbefore : ∀ a ∈ before, a.proc ≠ i.proc) (ht : exec step s before = some t)
    (hstill : Along step (Still b i) s before) (hcur : Current s b.proc) :
    Stage b s.row t (own b.proc after) ∧ t.receipts = s.receipts := by
  obtain ⟨-, hr, n, hp⟩ := h.submitting_row hcur
  have hstart : Stage b s.row s (own b.proc before ++ own b.proc after) := by
    rw [h.own_split has]
    exact .submitting hr n hp rfl
  exact hstart.run hbefore hstill ht

end overlap

/-- After a lookup that finds nothing, the worker writes back and the report is gone. -/
theorem submitted_of_unmatched {b : Submission} {i : Ingest} {m : Message} {t s' : Sys}
    {after : List Action} (hst : Stage b m t (own b.proc after)) (hi : ∀ a ∈ after, a.proc ≠ i.proc)
    (hstill : Along step (Still b i) t after) (hexec : exec step t after = some s') :
    s'.receipts = t.receipts ∧ s'.row.state = .submitted := by
  rw [← List.append_nil (own b.proc after)] at hst
  obtain ⟨hend, hrec⟩ := hst.run hi hstill hexec
  refine ⟨hrec, ?_⟩
  rcases hend.stored_or with ⟨-, hstored⟩ | ⟨hmem, -⟩
  · rw [hstored, written_state]
    rfl
  · cases hmem

/-- **A `delivered` report against the write-back.** Let `t` be the state the report is looked up
in. If the message carries the reference there, the report's receipt is stored; and if it is then
`submitted`, `uncertain` or terminal and no other process moves it, short of a terminal state, while
the report is pending, it ends `delivered` or in the terminal state another process gave it. If it
does not carry the reference, the lookup leaves everything as it is and the call does nothing more.

Where no third process writes, the worker's copy is current and the reference is new, the report is
kept and the message `delivered` if the reference was written back before the lookup; if it is
written back after it, no receipt is stored and the message stays `submitted`. -/
theorem report_kept_or_dropped {b : Submission} {i : Ingest} {s s' : Sys} {as : List Action}
    (h : Overlap b i s as s') :
    ∃ before t after, as = before ++ lookup i :: after ∧ exec step s before = some t ∧
      (Correlates i.providerRowId i.update t.row → i.receipt s.row ∈ s'.receipts ∧
        (t.row.state = .submitted ∨ t.row.state = .uncertain ∨ t.row.Terminal →
          Along step (Undisturbed i) s as → s'.row.Terminal)) ∧
      (¬ Correlates i.providerRowId i.update t.row →
        step t (lookup i) = some t ∧ own i.proc after = []) ∧
      (Along step (Still b i) s as → Current s b.proc →
        ¬ Correlates i.providerRowId i.update s.row →
        (b.writeBack ∈ before → i.receipt s.row ∈ s'.receipts ∧ s'.row.state = .delivered) ∧
        (b.writeBack ∈ after → s'.receipts = s.receipts ∧ s'.row.state = .submitted)) := by
  obtain ⟨before, t, after, has, hbefore, ht, hexec, hown⟩ := h.split
  have hsnap : Snapshots Proc.held t.toShared := exec_snapshots h.reachable.snapshots ht
  have hidle : t.procs i.proc = .idle := (exec_procs hbefore ht).trans h.idle
  have hreceipt : i.receipt t.row = i.receipt s.row :=
    receipt_eq (exec_receipts ht).2.1 (exec_receipts ht).2.2 i
  have hkept (hc : Correlates i.providerRowId i.update t.row) : i.receipt s.row ∈ s'.receipts := by
    obtain ⟨v, rest, -, hrec, hv, -⟩ := report_of_matched hidle hexec hown hc h.returned
    rw [← hreceipt]
    exact (exec_receipts hv).1 hrec
  refine ⟨before, t, after, has, ht, fun hc => ⟨hkept hc, fun hst hund => ?_⟩, fun hc => ?_,
    fun hstill hcur hnew => ?_⟩
  · rw [has] at hund
    exact terminal_of_undisturbed hsnap hidle hexec hown hc h.returned h.delivered hst
      ((along_append ht).mp hund).2
  · exact ⟨step_unmatched hidle hc, (own_of_unmatched hidle hexec hown hc).1⟩
  · rw [has] at hstill
    obtain ⟨hstill, hstill'⟩ := (along_append ht).mp hstill
    obtain ⟨hstage, hrec⟩ := h.stage has hbefore ht hstill hcur
    -- Has the worker written back when the report is looked up?
    rcases hstage.stored_or with ⟨hrest, hstored⟩ | ⟨hrest, hunchanged⟩
    · have hc : Correlates i.providerRowId i.update t.row := by
        rw [hstored]
        exact correlates_stored (h.submitting_row hcur).1 h.ref
      have hst : t.row.state = .submitted := by
        rw [hstored, written_state]
        rfl
      refine ⟨fun _ => ⟨hkept hc, ?_⟩, fun hafter => ?_⟩
      · exact delivered_of_still hsnap hidle hexec hown hc h.returned h.delivered hst
          (own_nil hrest) hstill'
      · have hmem := mem_own hafter
        rw [hrest] at hmem
        cases hmem
    · have hc : ¬ Correlates i.providerRowId i.update t.row := by
        rwa [hunchanged]
      obtain ⟨hnone, hafter⟩ := own_of_unmatched hidle hexec hown hc
      obtain ⟨-, hstill'⟩ := (along_cons (step_unmatched hidle hc)).mp hstill'
      obtain ⟨hrec', hstate⟩ := submitted_of_unmatched hstage (own_nil hnone) hstill' hafter
      exact ⟨fun hmem => (h.writeBack_once has (mem_own hmem) hrest).elim,
        fun _ => ⟨hrec'.trans hrec, hstate⟩⟩

/-! ### Two runs -/

/-- The message is routed and submitted by process 0; the answer is `x1`. -/
def submitted : Submission := ⟨0, ⟨"x1", none⟩, none, 2, 2⟩

def submittingRun : List Action := routeRun 1 ++ (dispatchRun 2 (.ok submitted.ack)).take 3

/-- The report for `x1`, by process 1. -/
def deliveredReport : Ingest :=
  ⟨1, "p1", "", ⟨"x1", .delivered, none, "DeliveredToTerminal", none, none⟩, 3, 3⟩

/-- What a submitting worker has of the message, and whether its copy is current. -/
def submittingOf (s : Sys) (p : ℕ) : Option (Option String × Bool) :=
  match s.procs p with
  | .submitting m _ _ => some (m.providerId, m.version = s.row.version)
  | _ => none

theorem submitting_sample : ∃ s, exec step (start sampleMessage) submittingRun = some s ∧
    (∃ m h n, s.procs 0 = .submitting m h n ∧ m.providerId = some "p1") ∧ Current s 0 ∧
    s.procs 1 = .idle ∧ s.receipts = [] ∧ ¬ Correlates "p1" deliveredReport.update s.row := by
  obtain ⟨s, hs, hf⟩ : ∃ s, exec step (start sampleMessage) submittingRun = some s ∧
      (submittingOf s 0, s.procs 1, s.receipts, s.row.providerMessageRef,
        s.row.providerMessageRefAlt) = (some (some "p1", true), .idle, [], none, none) :=
    exec_eval (f := fun s : Sys => (submittingOf s 0, s.procs 1, s.receipts,
      s.row.providerMessageRef, s.row.providerMessageRefAlt)) rfl
  simp only [Prod.mk.injEq] at hf
  obtain ⟨hsub, hidle, hrec, href, halt⟩ := hf
  unfold submittingOf at hsub
  split at hsub
  · next m hm n hp =>
    obtain ⟨hprov, hver⟩ : m.providerId = some "p1" ∧ m.version = s.row.version := by
      simpa using hsub
    refine ⟨s, hs, ⟨m, hm, n, hp, hprov⟩, fun m' hm' => ?_, hidle, hrec, ?_⟩
    · rw [hp] at hm'
      cases hm'
      exact hver
    · rintro ⟨-, hc | hc⟩
      · rw [href] at hc
        cases hc
      · rw [halt] at hc
        cases hc
  · cases hsub

/-- An overlap of the two, from what the whole run computes. -/
theorem overlap_sample (as : List Action) {β : Type} (f : Sys → β) {x : β}
    (hrun : (exec step (start sampleMessage) (submittingRun ++ as)).map
      (fun s' => (s'.procs 1, f s')) = some (.idle, x))
    (hworker : own 0 as = [submitted.answer, submitted.writeBack])
    (hreport : own 1 as = deliveredReport.run ∨ own 1 as = [lookup deliveredReport]) :
    ∃ s s', Overlap submitted deliveredReport s as s' ∧ f s' = x ∧ Current s 0 ∧
      s.receipts = [] ∧ ¬ Correlates "p1" deliveredReport.update s.row := by
  obtain ⟨s, hs, hsub, hcur, hidle, hrec, hnew⟩ := submitting_sample
  obtain ⟨s', hs', hf⟩ := exec_eval hrun
  obtain ⟨t, ht, hs'⟩ := exec_append.mp hs'
  obtain rfl : t = s := Option.some.inj (ht.symm.trans hs)
  obtain ⟨hend, hf⟩ := Prod.mk.inj hf
  refine ⟨t, s', ⟨⟨_, _, hs⟩, by decide, hsub, hidle, by decide, rfl, hs', hworker, hreport, hend⟩,
    hf, hcur, hrec, hnew⟩

/-- The reference is written back, then the report is looked up. -/
def keptRun : List Action := [submitted.answer, submitted.writeBack] ++ deliveredReport.run

theorem report_kept_or_dropped_kept : ∃ s s', Overlap submitted deliveredReport s keptRun s' ∧
    deliveredReport.receipt s.row ∈ s'.receipts ∧ s'.row.state = .delivered := by
  obtain ⟨s, s', h, hstate, hcur, -, hnew⟩ := overlap_sample keptRun (fun s' => s'.row.state)
    (x := .delivered) rfl rfl (Or.inl rfl)
  obtain ⟨before, t, after, has, ht, -, -, hstill⟩ := report_kept_or_dropped h
  have hthird : Along step (Still submitted deliveredReport) s keptRun := by
    refine (along_true s keptRun).imp fun a ha u u' _ hb hi => ?_
    have hproc : ∀ a ∈ keptRun, a.proc = 0 ∨ a.proc = 1 := by
      simp [keptRun, submitted, Submission.answer, Submission.writeBack, deliveredReport,
        Ingest.run, ingestRun]
    rcases hproc a ha with h0 | h1
    · exact absurd h0 hb
    · exact absurd h1 hi
  obtain ⟨hkept, hdropped⟩ := hstill hthird hcur hnew
  have hmem : submitted.writeBack ∈ before ++ lookup deliveredReport :: after := by
    rw [← has]
    simp [keptRun]
  rcases List.mem_append.mp hmem with hmem | hmem
  · exact ⟨s, s', h, hkept hmem⟩
  · rcases List.mem_cons.mp hmem with hmem | hmem
    · cases hmem
    · rw [(hdropped hmem).2] at hstate
      cases hstate

/-- The report is looked up between the answer and the write-back. -/
def droppedRun : List Action := [submitted.answer, lookup deliveredReport, submitted.writeBack]

/-- **A report can be lost**: both operations have finished, there is no receipt, and the message is
not delivered. -/
theorem early_report_lost : ∃ s s', Overlap submitted deliveredReport s droppedRun s' ∧
    s'.receipts = [] ∧ s'.row.state = .submitted ∧ ¬ s'.row.Terminal := by
  obtain ⟨s, s', h, hf, -⟩ := overlap_sample droppedRun
    (fun s' => (s'.receipts, s'.row.state)) (x := ([], .submitted)) rfl rfl (Or.inr rfl)
  obtain ⟨hrec, hstate⟩ := Prod.mk.inj hf
  refine ⟨s, s', h, hrec, hstate, ?_⟩
  unfold Message.Terminal
  rw [hstate]
  decide

end Vsms.Message.EarlyReports
