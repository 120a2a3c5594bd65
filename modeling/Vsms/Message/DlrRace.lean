import Vsms.Message.System

/-! # Two delivery reports at once

Two calls of `ingest_one` for the same message, in any interleaving of their reads, receipts and
writes. `Race` is the invariant: as long as no write has committed the row is the one at the start;
after one it has the state that update gives from there; after two, the state the second gives from
the first's. A write that loses the race is dropped, so one update may have no effect on the state,
where both sequential orders would have applied it; its receipt is stored all the same. -/

namespace Vsms.Message.DlrRace

open Vsms.Lib.Runs Vsms.Lib.Optimistic Vsms.Schema.Types Vsms.Schema.Messages
open Vsms.Message.Dispatch Vsms.Message.Dlr Vsms.Message.System

/-- One call of `ingest_one`. -/
structure Ingest where
  proc : ℕ
  providerRowId : String
  rawPayload : String
  update : DeliveryUpdate
  now : Time
  dbNow : Time

def Ingest.run (i : Ingest) : List Action :=
  ingestRun i.proc i.providerRowId i.rawPayload i.update i.now i.dbNow

/-- The receipt it stores for the message `m`. -/
def Ingest.receipt (i : Ingest) (m : Message) : DeliveryReceipt :=
  receiptOf m i.providerRowId i.rawPayload i.update

/-- The state after a report on a message in state `st`. -/
def reportedState (st : MessageState) (outcome : DeliveryOutcome) : MessageState :=
  (nextState st outcome).getD st

/-- The state a list of actions leaves the message in. -/
def stateAfter (s : Sys) (as : List Action) : Option MessageState :=
  (exec step s as).map fun t => t.row.state

/-! ### What a report does not touch -/

/-- The columns correlation and receipts read. -/
def key (m : Message) : String × OperatorCode × Option String × Option String × Option String :=
  (m.id, m.operator, m.providerId, m.providerMessageRef, m.providerMessageRefAlt)

theorem correlates_congr {m m' : Message} (h : key m' = key m) {providerRowId : String}
    {update : DeliveryUpdate} :
    Correlates providerRowId update m' ↔ Correlates providerRowId update m := by
  unfold key at h
  simp only [Prod.mk.injEq] at h
  obtain ⟨-, -, hp, hr, ha⟩ := h
  unfold Correlates
  rw [hp, hr, ha]

theorem receipt_congr {m m' : Message} (h : key m' = key m) (i : Ingest) :
    i.receipt m' = i.receipt m := by
  unfold key at h
  simp only [Prod.mk.injEq] at h
  obtain ⟨hid, hop, -, -, -⟩ := h
  unfold Ingest.receipt receiptOf
  rw [hid, hop]

theorem key_written {found : Message} {update : DeliveryUpdate} {now dbNow : Time}
    {u : UpdateMessageInput} (h : dlrPatch found update now = some u) (m : Message) :
    key (written u dbNow m) = key m := by
  obtain ⟨-, -, -, -, -, hr, ha, hp⟩ := dlrPatch_some h
  rw [written_apply key (fun _ _ _ _ => rfl)]
  unfold key UpdateMessageInput.apply
  simp [hr, ha, hp]

theorem state_written {found : Message} {update : DeliveryUpdate} {now dbNow : Time}
    {u : UpdateMessageInput} (h : dlrPatch found update now = some u) (m : Message) :
    (written u dbNow m).state = reportedState found.state update.outcome := by
  obtain ⟨target, hn, hu, -⟩ := dlrPatch_some h
  rw [written_state, hu]
  unfold reportedState
  rw [hn]
  rfl

/-! ### The phases of a call -/

/-- What call `i` still has to do, and what its process holds: a row not older than `r₀`. -/
inductive Phase (r₀ : Message) (i : Ingest) (s : Sys) : List Action → Prop
  | waiting (h : s.procs i.proc = .idle) :
      Phase r₀ i s [⟨i.proc, .correlate i.providerRowId i.rawPayload i.update⟩,
        ⟨i.proc, .createReceipt⟩, ⟨i.proc, .applyDlr i.now i.dbNow⟩]
  | read (found : Message) (hc : Correlates i.providerRowId i.update found)
      (h : s.procs i.proc = .correlated found i.providerRowId i.rawPayload i.update hc)
      (hv : r₀.version ≤ found.version) (hk : key found = key r₀) :
      Phase r₀ i s [⟨i.proc, .createReceipt⟩, ⟨i.proc, .applyDlr i.now i.dbNow⟩]
  | recorded (found : Message) (hc : Correlates i.providerRowId i.update found)
      (h : s.procs i.proc = .receipted found i.providerRowId i.update hc)
      (hv : r₀.version ≤ found.version) (hr : i.receipt r₀ ∈ s.receipts) :
      Phase r₀ i s [⟨i.proc, .applyDlr i.now i.dbNow⟩]
  | done (h : s.procs i.proc = .idle) (hr : i.receipt r₀ ∈ s.receipts) : Phase r₀ i s []

/-- A step of another process does not change a call's phase. -/
theorem Phase.frame {r₀ : Message} {i : Ingest} {s t : Sys} {as : List Action}
    (h : Phase r₀ i s as) (hp : t.procs i.proc = s.procs i.proc)
    (hr : ∀ r ∈ s.receipts, r ∈ t.receipts) : Phase r₀ i t as := by
  cases h with
  | waiting h => exact .waiting (hp.trans h)
  | read found hc h hv hk => exact .read found hc (hp.trans h) hv hk
  | recorded found hc h hv hr' => exact .recorded found hc (hp.trans h) hv (hr _ hr')
  | done h hr' => exact .done (hp.trans h) (hr _ hr')

/-- What two calls have done to the row so far, with `as` and `bs` left to do. -/
inductive Effect (r₀ : Message) (i j : Ingest) (row : Message) (as bs : List Action) : Prop
  | none (h : row = r₀) (hi : as = [] → nextState r₀.state i.update.outcome = .none)
      (hj : bs = [] → nextState r₀.state j.update.outcome = .none)
  | left (h : row.state = reportedState r₀.state i.update.outcome) (hi : as = [])
  | right (h : row.state = reportedState r₀.state j.update.outcome) (hj : bs = [])
  | leftRight (h : row.state =
      reportedState (reportedState r₀.state i.update.outcome) j.update.outcome)
      (hi : as = []) (hj : bs = [])
  | rightLeft (h : row.state =
      reportedState (reportedState r₀.state j.update.outcome) i.update.outcome)
      (hi : as = []) (hj : bs = [])

/-- **The invariant of the race.** -/
structure Race (r₀ : Message) (i j : Ingest) (s : Sys) (as bs : List Action) : Prop where
  snapshots : Snapshots Proc.held s.toShared
  version : r₀.version ≤ s.row.version
  key : key s.row = key r₀
  left : Phase r₀ i s as
  right : Phase r₀ j s bs
  effect : Effect r₀ i j s.row as bs

theorem Effect.swap {r₀ row : Message} {i j : Ingest} {as bs : List Action}
    (h : Effect r₀ i j row as bs) : Effect r₀ j i row bs as := by
  cases h with
  | none h hi hj => exact .none h hj hi
  | left h hi => exact .right h hi
  | right h hj => exact .left h hj
  | leftRight h hi hj => exact .rightLeft h hj hi
  | rightLeft h hi hj => exact .leftRight h hj hi

theorem Race.swap {r₀ : Message} {i j : Ingest} {s : Sys} {as bs : List Action}
    (h : Race r₀ i j s as bs) : Race r₀ j i s bs as :=
  ⟨h.snapshots, h.version, h.key, h.right, h.left, h.effect.swap⟩

section effect
variable {r₀ row : Message} {i j : Ingest} {as as' bs : List Action}
  (h : Effect r₀ i j row as bs) (has : as ≠ [])
include h has

/-- A call that has more to do has had no effect. -/
theorem Effect.keep (has' : as' ≠ []) : Effect r₀ i j row as' bs := by
  cases h with
  | none h hi hj => exact .none h (fun he => absurd he has') hj
  | left h hi => exact absurd hi has
  | right h hj => exact .right h hj
  | leftRight h hi hj => exact absurd hi has
  | rightLeft h hi hj => exact absurd hi has

/-- A call that ends without a write. -/
theorem Effect.finish (hn : row = r₀ → nextState r₀.state i.update.outcome = .none) :
    Effect r₀ i j row [] bs := by
  cases h with
  | none h hi hj => exact .none h (fun _ => hn h) hj
  | left h hi => exact absurd hi has
  | right h hj => exact .right h hj
  | leftRight h hi hj => exact absurd hi has
  | rightLeft h hi hj => exact absurd hi has

/-- A call that ends with one. -/
theorem Effect.report {row' : Message}
    (hr : row'.state = reportedState row.state i.update.outcome) :
    Effect r₀ i j row' [] bs := by
  cases h with
  | none h hi hj => exact .left (h ▸ hr) rfl
  | left h hi => exact absurd hi has
  | right h hj => exact .rightLeft (h ▸ hr) rfl hj
  | leftRight h hi hj => exact absurd hi has
  | rightLeft h hi hj => exact absurd hi has

end effect

/-! ### Steps of one call -/

section steps
variable {r₀ : Message} {i j : Ingest} {s : Sys} {bs : List Action} (hne : i.proc ≠ j.proc)
include hne

/-- A step of call `i` that leaves the row alone and does not end the call. -/
theorem Race.go {a : Action} {as as' : List Action} {o : Outcome}
    (h : Race r₀ i j s as bs) (ha : step s a = some (s.go i.proc o)) (has : as ≠ [])
    (has' : as' ≠ []) (hleft : Phase r₀ i (s.go i.proc o) as') :
    Race r₀ i j (s.go i.proc o) as' bs where
  snapshots := step_snapshots h.snapshots ha
  version := h.version
  key := h.key
  left := hleft
  right := h.right.frame (Function.update_of_ne hne.symm _ _)
    (fun _ hr => List.mem_append_right _ hr)
  effect := h.effect.keep has has'

theorem Race.correlate {as : List Action} (h : Race r₀ i j s as bs) (has : as ≠ [])
    (hp : s.procs i.proc = .idle) (hc : Correlates i.providerRowId i.update r₀) :
    ∃ t, step s ⟨i.proc, .correlate i.providerRowId i.rawPayload i.update⟩ = some t ∧
      Race r₀ i j t [⟨i.proc, .createReceipt⟩, ⟨i.proc, .applyDlr i.now i.dbNow⟩] bs := by
  have hc' := (correlates_congr h.key).mpr hc
  have hstep : step s ⟨i.proc, .correlate i.providerRowId i.rawPayload i.update⟩ =
      some (s.go i.proc
        { next := .correlated s.row i.providerRowId i.rawPayload i.update hc' }) := by
    simp [step, plan, advance, hp, hc']
  refine ⟨_, hstep, h.go hne hstep has (by simp) ?_⟩
  exact .read s.row hc' (by simp) h.version h.key

theorem Race.createReceipt {as : List Action} (h : Race r₀ i j s as bs) (has : as ≠ [])
    {found : Message} {hc : Correlates i.providerRowId i.update found}
    (hp : s.procs i.proc = .correlated found i.providerRowId i.rawPayload i.update hc)
    (hv : r₀.version ≤ found.version) (hk : DlrRace.key found = DlrRace.key r₀) :
    ∃ t, step s ⟨i.proc, .createReceipt⟩ = some t ∧
      Race r₀ i j t [⟨i.proc, .applyDlr i.now i.dbNow⟩] bs := by
  have hstep : step s ⟨i.proc, .createReceipt⟩ = some (s.go i.proc
      { next := .receipted found i.providerRowId i.update hc
        receipt := some (i.receipt found) }) := by
    simp [step, plan, advance, hp, Ingest.receipt]
  refine ⟨_, hstep, h.go hne hstep has (by simp) ?_⟩
  refine .recorded found hc (by simp) hv ?_
  rw [← receipt_congr hk]
  exact List.mem_cons_self

theorem Race.applyDlr (h : Race r₀ i j s [⟨i.proc, .applyDlr i.now i.dbNow⟩] bs)
    {found : Message} {hc : Correlates i.providerRowId i.update found}
    (hp : s.procs i.proc = .receipted found i.providerRowId i.update hc)
    (hv : r₀.version ≤ found.version) (hr : i.receipt r₀ ∈ s.receipts) :
    ∃ t, step s ⟨i.proc, .applyDlr i.now i.dbNow⟩ = some t ∧ Race r₀ i j t [] bs := by
  have hsnap := h.snapshots i.proc found (by rw [hp]; rfl)
  -- On the row at the start, the copy is that row.
  have hfirst (hrow : s.row = r₀) : found = r₀ := by
    rw [← hrow]
    refine hsnap.eq (le_antisymm hsnap.le ?_)
    rw [hrow]
    exact hv
  have hsome : ∃ t, step s ⟨i.proc, .applyDlr i.now i.dbNow⟩ = some t := by
    unfold step
    simp only [hp, plan, advance]
    cases hd : dlrPatch found i.update i.now with
    | none => exact ⟨_, rfl⟩
    | some u => exact ⟨_, rfl⟩
  obtain ⟨t, ht⟩ := hsome
  refine ⟨t, ht, ?_⟩
  have hsnap' := step_snapshots h.snapshots ht
  have hright {t : Sys} (hq : t.procs j.proc = s.procs j.proc) (hrec : t.receipts = s.receipts) :
      Phase r₀ j t bs := h.right.frame hq (fun r hr => hrec ▸ hr)
  cases step_sound h.snapshots ht with
  | wrote w hw hrow =>
    simp only [hp] at hw
    cases hw with
    | report hset =>
      simp only at hrow hsnap'
      refine ⟨hsnap', ?_, ?_, .done (by simp) hr, hright (Function.update_of_ne hne.symm _ _) rfl,
        ?_⟩
      · exact h.version.trans (by simp)
      · exact (key_written hset s.row).trans h.key
      · refine h.effect.report (by simp) ?_
        rw [← hrow]
        exact state_written hset found
  | lost w hw hv' =>
    simp only [hp] at hw
    cases hw with
    | report hset =>
      refine ⟨hsnap', h.version, h.key, .done (by simp) hr,
        hright (Function.update_of_ne hne.symm _ _) rfl, h.effect.finish (by simp) fun he => ?_⟩
      exact absurd (by rw [he, hfirst he]) hv'
  | moved o ho =>
    simp only [hp] at ho
    cases ho with
    | noVerdict hn =>
      refine ⟨hsnap', h.version, h.key, .done (by simp) hr,
        hright (Function.update_of_ne hne.symm _ _) rfl, h.effect.finish (by simp) fun he => ?_⟩
      rw [← hfirst he]
      exact dlrPatch_none.mp (Option.isNone_iff_eq_none.mp hn)

/-- **Every step of a call is possible and keeps the invariant.** -/
theorem Race.step_left {a : Action} {as : List Action}
    (hc : Correlates i.providerRowId i.update r₀) (h : Race r₀ i j s (a :: as) bs) :
    ∃ t, step s a = some t ∧ Race r₀ i j t as bs := by
  cases h.left with
  | waiting hp => exact h.correlate hne (by simp) hp hc
  | read found hc' hp hv hk => exact h.createReceipt hne (by simp) hp hv hk
  | recorded found hc' hp hv hr => exact h.applyDlr hne hp hv hr

end steps

/-! ### Runs -/

/-- Two calls about to start on the row of `s`. -/
structure Waiting (i j : Ingest) (s : Sys) : Prop where
  snapshots : Snapshots Proc.held s.toShared
  ne : i.proc ≠ j.proc
  left : s.procs i.proc = .idle
  right : s.procs j.proc = .idle
  correlatesLeft : Correlates i.providerRowId i.update s.row
  correlatesRight : Correlates j.providerRowId j.update s.row

theorem Waiting.swap {i j : Ingest} {s : Sys} (h : Waiting i j s) : Waiting j i s :=
  ⟨h.snapshots, h.ne.symm, h.right, h.left, h.correlatesRight, h.correlatesLeft⟩

theorem Waiting.race {i j : Ingest} {s : Sys} (h : Waiting i j s) :
    Race s.row i j s i.run j.run where
  snapshots := h.snapshots
  version := le_rfl
  key := rfl
  left := .waiting h.left
  right := .waiting h.right
  effect := .none rfl (fun hi => nomatch hi) (fun hj => nomatch hj)

/-- **Every interleaving of what the two calls have left to do keeps the invariant.** -/
theorem race_run {r₀ : Message} {i j : Ingest} (hne : i.proc ≠ j.proc)
    (hi : Correlates i.providerRowId i.update r₀) (hj : Correlates j.providerRowId j.update r₀)
    {as bs cs : List Action} (hcs : Interleave as bs cs) {s : Sys} (h : Race r₀ i j s as bs) :
    ∃ t, exec step s cs = some t ∧ Race r₀ i j t [] [] := by
  induction hcs generalizing s with
  | nil => exact ⟨s, rfl, h⟩
  | left _ ih =>
    obtain ⟨t, ht, hr⟩ := h.step_left hne hi
    obtain ⟨u, hu, hr⟩ := ih hr
    exact ⟨u, exec_cons.mpr ⟨t, ht, hu⟩, hr⟩
  | right _ ih =>
    obtain ⟨t, ht, hr⟩ := h.swap.step_left hne.symm hj
    obtain ⟨u, hu, hr⟩ := ih hr.swap
    exact ⟨u, exec_cons.mpr ⟨t, ht, hu⟩, hr⟩

/-- One call after which the other has still to start. -/
theorem ingest_alone {i j : Ingest} {s : Sys} (h : Waiting i j s) :
    ∃ t, exec step s i.run = some t ∧ Waiting i j t ∧
      t.row.state = reportedState s.row.state i.update.outcome := by
  obtain ⟨t₁, h₁, r₁⟩ := h.race.step_left h.ne h.correlatesLeft
  obtain ⟨t₂, h₂, r₂⟩ := r₁.step_left h.ne h.correlatesLeft
  obtain ⟨t, h₃, r⟩ := r₂.step_left h.ne h.correlatesLeft
  refine ⟨t, ?_, ?_, ?_⟩
  · exact exec_cons.mpr ⟨t₁, h₁, exec_cons.mpr ⟨t₂, h₂, exec_cons.mpr ⟨t, h₃, rfl⟩⟩⟩
  · refine ⟨r.snapshots, h.ne, ?_, ?_, (correlates_congr r.key).mpr h.correlatesLeft,
      (correlates_congr r.key).mpr h.correlatesRight⟩
    · cases r.left with | done hp hr => exact hp
    · cases r.right with | waiting hp => exact hp
  · cases r.effect with
    | none he hi hj =>
      unfold reportedState
      rw [he, hi rfl]
      rfl
    | left he hi => exact he
    | right he hj => cases hj
    | leftRight he hi hj => cases hj
    | rightLeft he hi hj => cases hj

/-- Two calls one after the other. -/
theorem ingest_sequential {i j : Ingest} {s : Sys} (h : Waiting i j s) :
    stateAfter s (i.run ++ j.run) =
      some (reportedState (reportedState s.row.state i.update.outcome) j.update.outcome) := by
  obtain ⟨t, ht, hw, hst⟩ := ingest_alone h
  obtain ⟨u, hu, -, hsu⟩ := ingest_alone hw.swap
  unfold stateAfter
  rw [exec_append.mpr ⟨t, ht, hu⟩, ← hst]
  exact congrArg some hsu

theorem stateAfter_run {i j : Ingest} {s : Sys} (h : Waiting i j s) :
    stateAfter s i.run = some (reportedState s.row.state i.update.outcome) := by
  obtain ⟨t, ht, -, hst⟩ := ingest_alone h
  unfold stateAfter
  rw [ht]
  exact congrArg some hst

/-- **Two delivery reports at once.** For any reachable row and any two updates matching it, every
interleaving of the two calls runs to its end. It leaves the state of one of the two sequential
orders, or the state of one of the updates alone, the other having lost the race; and both receipts
are stored. -/
theorem concurrent_reports (s : Sys) (hs : Reachable s) (i j : Ingest) (hne : i.proc ≠ j.proc)
    (hi : s.procs i.proc = .idle) (hj : s.procs j.proc = .idle)
    (hci : Correlates i.providerRowId i.update s.row)
    (hcj : Correlates j.providerRowId j.update s.row) (cs : List Action)
    (hcs : Interleave i.run j.run cs) :
    ∃ t, exec step s cs = some t ∧
      (some t.row.state = stateAfter s (i.run ++ j.run) ∨
        some t.row.state = stateAfter s (j.run ++ i.run) ∨
        some t.row.state = stateAfter s i.run ∨ some t.row.state = stateAfter s j.run) ∧
      i.receipt s.row ∈ t.receipts ∧ j.receipt s.row ∈ t.receipts := by
  have hw : Waiting i j s := ⟨hs.snapshots, hne, hi, hj, hci, hcj⟩
  obtain ⟨t, ht, hr⟩ := race_run hne hci hcj hcs hw.race
  refine ⟨t, ht, ?_, ?_, ?_⟩
  · rw [ingest_sequential hw, ingest_sequential hw.swap, stateAfter_run hw, stateAfter_run hw.swap]
    cases hr.effect with
    | none he hi hj =>
      refine Or.inr (Or.inr (Or.inl ?_))
      unfold reportedState
      rw [he, hi rfl]
      rfl
    | left he hi => exact Or.inr (Or.inr (Or.inl (congrArg some he)))
    | right he hj => exact Or.inr (Or.inr (Or.inr (congrArg some he)))
    | leftRight he hi hj => exact Or.inl (congrArg some he)
    | rightLeft he hi hj => exact Or.inr (Or.inl (congrArg some he))
  · cases hr.left with | done hp hr => exact hr
  · cases hr.right with | done hp hr => exact hr

/-! ### A lost update -/

/-- A retryable failure, by process 1. -/
def failedReport : Ingest :=
  ⟨1, "p1", "", ⟨"x1", .failed, none, "DeliveryImpossible", none, none⟩, 3, 3⟩

/-- A rejection, by process 2. -/
def rejectedReport : Ingest := ⟨2, "p1", "", ⟨"x1", .rejected, none, "Rejected", none, none⟩, 3, 3⟩

/-- Both read, then both write, the failure first. -/
def raceRun : List Action :=
  [⟨1, .correlate "p1" "" failedReport.update⟩, ⟨2, .correlate "p1" "" rejectedReport.update⟩,
    ⟨1, .createReceipt⟩, ⟨2, .createReceipt⟩, ⟨1, .applyDlr 3 3⟩, ⟨2, .applyDlr 3 3⟩]

theorem interleave_raceRun : Interleave failedReport.run rejectedReport.run raceRun :=
  .left (.right (.left (.right (.left (.right .nil)))))

theorem sent_reachable : ∃ s, exec step (start sampleMessage) sentRun = some s ∧ Reachable s ∧
    s.procs 1 = .idle ∧ s.procs 2 = .idle ∧ Correlates "p1" failedReport.update s.row ∧
    Correlates "p1" rejectedReport.update s.row := by
  obtain ⟨s, hs, hf⟩ : ∃ s, exec step (start sampleMessage) sentRun = some s ∧
      (s.procs 1, s.procs 2, s.row.providerId, s.row.providerMessageRef) =
        (Proc.idle, Proc.idle, some "p1", some "x1") := exec_eval rfl
  simp only [Prod.mk.injEq] at hf
  obtain ⟨h1, h2, hp, hr⟩ := hf
  exact ⟨s, hs, ⟨sampleMessage, sentRun, hs⟩, h1, h2, ⟨hp, Or.inl hr⟩, ⟨hp, Or.inl hr⟩⟩

theorem stateAfter_sent {s : Sys} (h : exec step (start sampleMessage) sentRun = some s)
    (as : List Action) : stateAfter s as = stateAfter (start sampleMessage) (sentRun ++ as) := by
  unfold stateAfter
  rw [exec_append_bind, h]
  rfl

/-- A sent message that is reported failed and rejected at once stays `undelivered`, where both
sequential orders end in `failed`: the rejection is lost. -/
theorem concurrent_reports_lost : ∃ s, Reachable s ∧
    Correlates "p1" failedReport.update s.row ∧ Correlates "p1" rejectedReport.update s.row ∧
    Interleave failedReport.run rejectedReport.run raceRun ∧
    stateAfter s raceRun = some .undelivered ∧
    stateAfter s (failedReport.run ++ rejectedReport.run) = some .failed ∧
    stateAfter s (rejectedReport.run ++ failedReport.run) = some .failed := by
  obtain ⟨s, hs, hr, -, -, hc1, hc2⟩ := sent_reachable
  refine ⟨s, hr, hc1, hc2, interleave_raceRun, ?_⟩
  rw [stateAfter_sent hs, stateAfter_sent hs, stateAfter_sent hs]
  exact ⟨rfl, rfl, rfl⟩

theorem concurrent_reports_sent : ∃ s t, Reachable s ∧ exec step s raceRun = some t ∧
    failedReport.receipt s.row ∈ t.receipts ∧ rejectedReport.receipt s.row ∈ t.receipts := by
  obtain ⟨s, -, hr, h1, h2, hc1, hc2⟩ := sent_reachable
  obtain ⟨t, ht, -, hrec⟩ := concurrent_reports s hr failedReport rejectedReport (by decide) h1 h2
    hc1 hc2 raceRun interleave_raceRun
  exact ⟨s, t, hr, ht, hrec⟩

end Vsms.Message.DlrRace
