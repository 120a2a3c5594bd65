import Vsms.Message.Submits

/-! # Transport failures

`classify_transport_error` sorts the errors of `send` itself: no HTTP response came back. An error
of the connect phase is `unavailable`, a timeout or an interrupted body after it `indeterminate`,
and everything else `unavailable` again. Everything else has in it the request whose connection was
closed or reset before the answer, and that may have been received: an `unavailable` message is
claimed and submitted again.

`NotResubmitted` says of an error that, once the worker that got it has written it back, no run
without a delivery report submits the message again; it holds exactly for the timeouts and the
interrupted bodies after the connect phase (`not_resubmitted_iff`). -/

namespace Vsms.Message.Transport

open Vsms.Lib.Runs Vsms.Lib.Optimistic
open Vsms.Schema.Types Vsms.Schema.Messages Vsms.Routing.Decide
open Vsms.Message.Claim Vsms.Message.Dispatch Vsms.Message.Dlr Vsms.Message.Expiry
open Vsms.Message.System Vsms.Message.Leases Vsms.Message.Submits

/-! ## The errors of the HTTP client -/

inductive ErrorKind
  | builder
  | request
  | redirect
  | status
  | body
  | decode
  | upgrade
  deriving DecidableEq, Repr

/-- A `reqwest::Error`: its kind, whether a cause of it is a failed connect or a timeout, and its
text. -/
structure ReqwestError where
  kind : ErrorKind
  connect : Bool
  timeout : Bool
  text : String
  deriving DecidableEq, Repr

def ReqwestError.isConnect (e : ReqwestError) : Bool := e.connect

def ReqwestError.isTimeout (e : ReqwestError) : Bool := e.timeout

def ReqwestError.isBody (e : ReqwestError) : Bool := e.kind = .body

/-- The request was written to a connection that was established: the client was past the connect
phase and was sending it, or waiting for the answer. -/
def ReqwestError.AfterWrite (e : ReqwestError) : Prop :=
  e.isConnect = false ∧ (e.kind = .request ∨ e.kind = .body)

/-- **`classify_transport_error`** -/
def classifyTransportError (e : ReqwestError) (provider : String) : ProviderError :=
  if e.isConnect then .unavailable ("submit request failed to connect: " ++ e.text)
  else if e.isTimeout || e.isBody then
    .indeterminate ("submit request timed out or was interrupted after the connection was " ++
      "already established; " ++ provider ++ " may have received it: " ++ e.text)
  else .unavailable ("submit request failed: " ++ e.text)

theorem classify_indeterminate {e : ReqwestError} (provider : String)
    (h : e.isConnect = false ∧ (e.isTimeout = true ∨ e.isBody = true)) :
    ∃ message, classifyTransportError e provider = .indeterminate message := by
  obtain ⟨hc, hb⟩ := h
  have hb : (e.isTimeout || e.isBody) = true := by simpa using hb
  unfold classifyTransportError
  rw [hc, hb]
  exact ⟨_, rfl⟩

theorem classify_unavailable {e : ReqwestError} (provider : String)
    (h : ¬ (e.isConnect = false ∧ (e.isTimeout = true ∨ e.isBody = true))) :
    ∃ message, classifyTransportError e provider = .unavailable message := by
  unfold classifyTransportError
  split_ifs with hc hb
  · exact ⟨_, rfl⟩
  · exact absurd ⟨by simpa using hc, by simpa using hb⟩ h
  · exact ⟨_, rfl⟩

/-! ## What the message comes to -/

/-- The process is ingesting a delivery report. -/
def reporting : Proc → Bool
  | .correlated .. | .receipted .. => true
  | _ => false

/-- The step is no part of the ingestion of a delivery report. -/
def NoReport (a : Action) : Bool :=
  match a.op with
  | .correlate .. | .createReceipt | .applyDlr .. => false
  | _ => true

/-- **Worker `p` has the answer of its submission**: its claim is the row's last write, no other
worker is at work on the message and no report is under way. Candidates and the recurring jobs may
hold any copy. -/
structure Answered (s : Sys) (p : ℕ) (result : SubmitResult) : Prop where
  reachable : Reachable s
  proc : ∃ m h n, s.procs p = .answered m h (some n) result ∧ m.version = s.row.version
  alone : ∀ q, q ≠ p → working (s.procs q) = none
  noReport : ∀ q, reporting (s.procs q) = false

/-- **The error leads to no second submission**: after the worker has written it back, whatever its
routing query sees, no run without a delivery report submits the message. -/
def NotResubmitted (err : ProviderError) : Prop :=
  ∀ s p query now dbNow as s', Answered s p (.error err) →
    exec step s (⟨p, .writeBack query now dbNow⟩ :: as) = some s' →
    (∀ a ∈ as, NoReport a = true) → submits s'.log = submits s.log

/-- The message rests, and no worker and no report is at it. -/
structure Rests (log : List Event) (s : Sys) : Prop where
  snapshots : Snapshots Proc.held s.toShared
  state : s.row.state ∈ restingStates
  notWorking : ∀ p, working (s.procs p) = none
  noReport : ∀ p, reporting (s.procs p) = false
  submits : submits s.log = submits log

theorem not_claimable_of_resting {st : MessageState} (h : st ∈ restingStates) :
    st ∉ claimStates := by
  revert h
  cases st <;> decide

/-- A step after which the message rests and its process is not at it, as no other is. -/
theorem rests_of_step {log : List Event} {s s' : Sys} {a : Action}
    (hsnap : Snapshots Proc.held s.toShared) (h : step s a = some s')
    (hothers : ∀ q, q ≠ a.proc → working (s.procs q) = none ∧ reporting (s.procs q) = false)
    (hst : s'.row.state ∈ restingStates) (hwork : working (s'.procs a.proc) = none)
    (hrep : reporting (s'.procs a.proc) = false)
    (hlog : System.submits s'.log = System.submits log) : Rests log s' := by
  refine ⟨step_snapshots hsnap h, hst, fun q => ?_, fun q => ?_, hlog⟩
  · by_cases hq : q = a.proc
    · exact hq ▸ hwork
    · rw [step_procs h hq]
      exact (hothers q hq).1
  · by_cases hq : q = a.proc
    · exact hq ▸ hrep
    · rw [step_procs h hq]
      exact (hothers q hq).2

/-- **Rest is for ever**, as long as no delivery report comes. -/
theorem rests_step {log : List Event} {s s' : Sys} {a : Action} (hs : Rests log s)
    (h : step s a = some s') (hr : NoReport a = true) : Rests log s' := by
  obtain ⟨p, op⟩ := a
  have hw0 := hs.notWorking p
  have hr0 := hs.noReport p
  -- What is left to see: the row still rests, and process `p` has not come to work.
  suffices hsuff : s'.row.state ∈ restingStates ∧ working (s'.procs p) = none ∧
      reporting (s'.procs p) = false ∧ System.submits s'.log = System.submits s.log by
    obtain ⟨hst, hwork, hrep, hlog⟩ := hsuff
    exact rests_of_step hs.snapshots h (fun q _ => ⟨hs.notWorking q, hs.noReport q⟩) hst hwork hrep
      (hlog.trans hs.submits)
  cases step_sound hs.snapshots h with
  | wrote w hw hrow =>
    dsimp only at hw
    rw [Sys.wrote_row, Sys.wrote_procs, Function.update_self, Sys.wrote_log, written_state]
    generalize s.procs p = x at hw hw0 hr0
    cases hw with
    | @takeLease m hm =>
      dsimp only at hrow
      rw [hrow] at hm
      exact absurd hm (not_claimable_of_resting hs.state)
    | expire => exact ⟨show MessageState.expired ∈ restingStates by decide, rfl, rfl, rfl⟩
    | purge => exact ⟨hs.state, rfl, rfl, rfl⟩
    | noBody hb => cases hw0
    | finish hset => cases hw0
    | report hset => cases hr0
  | lost w hw hv =>
    exact ⟨hs.state, by simp [working], by simp [reporting], rfl⟩
  | moved o ho =>
    dsimp only at ho
    rw [Sys.go_row, Sys.go_procs, Function.update_self, Sys.go_log]
    refine ⟨hs.state, ?_⟩
    generalize s.procs p = x at ho hw0 hr0
    cases ho with
    | correlate hc => cases hr
    | unresolved => cases hw0
    | submit body => cases hw0
    | answer => cases hw0
    | createReceipt => cases hr0
    | _ => exact ⟨rfl, rfl, rfl⟩

theorem rests_exec {log : List Event} {s s' : Sys} {as : List Action} (hs : Rests log s)
    (h : exec step s as = some s') (hr : ∀ a ∈ as, NoReport a = true) : Rests log s' := by
  induction as generalizing s with
  | nil => cases h; exact hs
  | cons a as ih =>
    obtain ⟨t, ht, h⟩ := exec_cons.mp h
    exact ih (rests_step hs ht (hr a List.mem_cons_self)) h fun b hb =>
      hr b (List.mem_cons_of_mem _ hb)

/-- **An indeterminate error puts the message to rest.** -/
theorem rests_of_indeterminate {s s' : Sys} {p : ℕ} {message : String} {query : Option RoutingView}
    {now dbNow : Time} (hs : Answered s p (.error (.indeterminate message)))
    (h : step s ⟨p, .writeBack query now dbNow⟩ = some s') : Rests s.log s' := by
  obtain ⟨m, hm, n, hp, hv⟩ := hs.proc
  have hsnap := hs.reachable.snapshots
  have hsuff : s'.row.state ∈ restingStates ∧ s'.procs p = .idle ∧ s'.log = s.log := by
    cases step_sound hsnap h with
    | wrote w hw hrow =>
      dsimp only at hw
      rw [hp] at hw
      rw [Sys.wrote_row, Sys.wrote_procs, Function.update_self, Sys.wrote_log, written_state]
      cases hw with
      | finish hset =>
        cases hset
        exact ⟨show MessageState.uncertain ∈ restingStates by decide, rfl, rfl⟩
    | lost w hw hne =>
      dsimp only at hw
      rw [hp] at hw
      cases hw
      exact absurd hv.symm hne
    | moved o ho =>
      dsimp only at ho
      rw [hp] at ho
      cases ho with
      | leave hf => cases hf
      | panic hf => cases hf
  obtain ⟨hst, hidle, hlog⟩ := hsuff
  refine rests_of_step hsnap h (fun q hq => ⟨hs.alone q hq, hs.noReport q⟩) hst ?_ ?_
    (congrArg _ hlog)
  · dsimp only
    rw [hidle]
    rfl
  · dsimp only
    rw [hidle]
    rfl

/-! ## The errors that may be submitted again -/

/-- The message is submitted to a provider that gives `result`. -/
def firstSubmit (result : SubmitResult) : List Action :=
  routeRun 1 ++ (dispatchRun 2 result).take 4

/-- What an answered worker has, and the versions of its copy and of the row. -/
def answerOf (s : Sys) (p : ℕ) : Option (Option ℕ × SubmitResult × ℕ × ℕ) :=
  match s.procs p with
  | .answered m _ n result => some (n, result, m.version, s.row.version)
  | _ => none

theorem answered_first (err : ProviderError) :
    ∃ s, exec step (start sampleMessage) (firstSubmit (.error err)) = some s ∧
      Answered s 0 (.error err) ∧ submits s.log = 1 := by
  obtain ⟨s, hs, hf⟩ : ∃ s, exec step (start sampleMessage) (firstSubmit (.error err)) = some s ∧
      (answerOf s 0, submits s.log) = (some (some 1, .error err, 2, 2), 1) :=
    exec_eval (f := fun s : Sys => (answerOf s 0, submits s.log)) rfl
  obtain ⟨hf, hone⟩ := Prod.mk.inj hf
  have hidle (q : ℕ) (hq : q ≠ 0) : s.procs q = .idle :=
    exec_procs (s := start sampleMessage)
      (by simpa [firstSubmit, routeRun, dispatchRun] using hq.symm) hs
  unfold answerOf at hf
  split at hf
  · next m hm n result hp =>
    obtain ⟨rfl, rfl, hm1, hm2⟩ : n = some 1 ∧ result = .error err ∧ m.version = 2 ∧
        s.row.version = 2 := by simpa using hf
    refine ⟨s, hs, ⟨⟨_, _, hs⟩, ⟨m, hm, 1, hp, hm1.trans hm2.symm⟩, fun q hq => ?_, fun q => ?_⟩,
      hone⟩
    · rw [hidle q hq]
      rfl
    · by_cases hq : q = 0
      · rw [hq, hp]
        rfl
      · rw [hidle q hq]
        rfl
  · cases hf

/-- **An unavailable message is submitted again**: the failover's routing query fails, and after the
lease has expired a worker claims the message as it is. -/
theorem resubmitted_of_unavailable (message : String) :
    ¬ NotResubmitted (.unavailable message) := by
  intro hno
  obtain ⟨s, hs, hans, hone⟩ := answered_first (.unavailable message)
  let again : List Action := (dispatchRun (minutes 3) (.ok ⟨"x1", none⟩)).take 3
  obtain ⟨s', hs', hn⟩ : ∃ s', exec step (start sampleMessage)
      (firstSubmit (.error (.unavailable message)) ++ ⟨0, .writeBack none 2 2⟩ :: again) = some s' ∧
      submits s'.log = 2 := exec_eval (f := fun s : Sys => submits s.log) rfl
  obtain ⟨t, ht, hs'⟩ := exec_append.mp hs'
  obtain rfl : t = s := Option.some.inj (ht.symm.trans hs)
  have := hno t 0 none 2 2 again s' hans hs' (by decide)
  omega

/-- **Which transport failures are safe**: the message is not submitted again without a delivery
report exactly if the failure came after the connect phase and is a timeout or an interrupted
body. -/
theorem not_resubmitted_iff (e : ReqwestError) (provider : String) :
    NotResubmitted (classifyTransportError e provider) ↔
      e.isConnect = false ∧ (e.isTimeout = true ∨ e.isBody = true) := by
  constructor
  · intro h
    by_contra hno
    obtain ⟨message, hm⟩ := classify_unavailable provider hno
    rw [hm] at h
    exact resubmitted_of_unavailable message h
  · intro h s p query now dbNow as s' hs hexec hr
    obtain ⟨message, hm⟩ := classify_indeterminate provider h
    rw [hm] at hs
    obtain ⟨t, ht, hexec⟩ := exec_cons.mp hexec
    exact (rests_exec (rests_of_indeterminate hs ht) hexec hr).submits

/-- The peer closed the connection before it answered. -/
def connectionClosed : ReqwestError :=
  ⟨.request, false, false, "error sending request for url (http://provider/outbound)"⟩

/-- The request was written, and may have been received; the message is submitted again. -/
theorem closed_connection_resubmitted : connectionClosed.AfterWrite ∧
    ¬ NotResubmitted (classifyTransportError connectionClosed "Orange") := by
  refine ⟨⟨rfl, Or.inl rfl⟩, ?_⟩
  have hclass : ∃ message, classifyTransportError connectionClosed "Orange" =
      .unavailable message := ⟨_, rfl⟩
  obtain ⟨message, hm⟩ := hclass
  rw [hm]
  exact resubmitted_of_unavailable message

end Vsms.Message.Transport
