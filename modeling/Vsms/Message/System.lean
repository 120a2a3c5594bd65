import Vsms.Lib.Runs
import Vsms.Message.Dispatch
import Vsms.Message.Dlr
import Vsms.Message.Expiry

/-! # One message and everything that writes to it

The row, and any number of processes over it: workers that claim, submit and write back, delivery
reports, and the two recurring jobs. Each process reads the row once and later writes by a
compare-and-swap on the version it read; any two steps of different processes may interleave. A
report that does not find the message is dropped. A process may fail at a database call (`dbError`),
stop (`crash`) or, once it has claimed, drop the row because a later candidate of its batch failed
(`abandon`). What a process holds carries the state it was selected in.

A step either writes (`plan`) or only moves the process on (`advance`). `step_cases` says so once;
`Sound`, for systems whose copies are snapshots, adds that a write was computed from the row it
replaces, so that the guard never refuses one. -/

namespace Vsms.Message.System

open Vsms.Lib.Runs Vsms.Lib.Optimistic
open Vsms.Schema.Types Vsms.Schema.Messages Vsms.Routing.Decide
open Vsms.Message.Claim Vsms.Message.Dispatch Vsms.Message.Dlr Vsms.Message.Expiry

/-! ## States -/

/-- What one process is doing with the message. -/
inductive Proc
  | idle
  | candidate (m : Message) (h : m.state ∈ claimStates) (worker : String) (now : Time)
  | claimed (m : Message) (h : m.state = .routed)
  | submitting (m : Message) (h : m.state = .routed) (n : ℕ)
  | answered (m : Message) (h : m.state = .routed) (n : Option ℕ) (result : SubmitResult)
  | correlated (found : Message) (providerRowId rawPayload : String) (update : DeliveryUpdate)
      (h : Correlates providerRowId update found)
  | receipted (found : Message) (providerRowId : String) (update : DeliveryUpdate)
      (h : Correlates providerRowId update found)
  | expiring (m : Message) (h : m.state ∈ staleStates)
  | purging (m : Message) (h : m.Terminal) (now : Time)

/-- The copy of the row a process holds. -/
def Proc.held : Proc → Option Message
  | .idle => none
  | .candidate m _ _ _ => some m
  | .claimed m _ => some m
  | .submitting m _ _ => some m
  | .answered m _ _ _ => some m
  | .correlated found _ _ _ _ => some found
  | .receipted found _ _ _ => some found
  | .expiring m _ => some m
  | .purging m _ _ => some m

/-- What the outside sees, and what went wrong. Submissions are numbered from one. -/
inductive Event
  | submit (request : SubmitRequest)
  | answer (n : ℕ) (result : SubmitResult)
  | reported (update : DeliveryUpdate) (old new : MessageState)
  | failoverFailed
  | refused (e : IllegalTransition)
  deriving DecidableEq

def Event.isSubmit : Event → Bool
  | .submit _ => true
  | _ => false

/-- The number of submissions made. -/
def submits (log : List Event) : ℕ := log.countP Event.isSubmit

@[simp] theorem submits_submit (request : SubmitRequest) (log : List Event) :
    submits (.submit request :: log) = submits log + 1 := List.countP_cons_of_pos rfl

@[simp] theorem submits_answer (n : ℕ) (result : SubmitResult) (log : List Event) :
    submits (.answer n result :: log) = submits log := List.countP_cons_of_neg Bool.false_ne_true

/-- The row, the processes, the receipts and the events, newest first. -/
structure Sys extends Shared Message Proc where
  receipts : List DeliveryReceipt
  log : List Event

/-- A message just accepted. -/
def start (c : NewMessage) : Sys where
  row := accept c
  procs := fun _ => .idle
  receipts := []
  log := []

/-! ## Steps -/

/-- The next thing a process does. `dbNow` is the database's clock, `now` the process's own. -/
inductive Op
  | poll (worker : String) (now : Time)
  | takeLease (view : Option RoutingView) (dbNow : Time)
  | submit (rows : Except String (List Provider)) (adapters : List String)
  | answer (result : SubmitResult)
  | writeBack (query : Option RoutingView) (now dbNow : Time)
  | correlate (providerRowId rawPayload : String) (update : DeliveryUpdate)
  | createReceipt
  | applyDlr (now dbNow : Time)
  | selectStale (now : Time)
  | expire (dbNow : Time)
  | selectPurge (now : Time)
  | purge (dbNow : Time)
  | abandon
  | dbError
  | crash

structure Action where
  proc : ℕ
  op : Op

/-- A write: the copy it was made from, the patch, and how the process goes on if it commits. -/
structure Plan where
  held : Message
  set : UpdateMessageInput
  dbNow : Time
  next : Message → Proc := fun _ => .idle
  events : Message → List Event := fun _ => []

/-- A worker goes on with a claimed row only if it reached `routed`. -/
def claimedOrIdle (m : Message) : Proc :=
  if h : m.state = .routed then .claimed m h else .idle

/-- **The writes of the processes.** -/
def plan : Proc → Op → Option Plan
  | .candidate m _ worker now, .takeLease view dbNow =>
    (takeLease m worker now view).map fun set =>
      { held := m, set := set, dbNow := dbNow, next := claimedOrIdle }
  | .claimed m _, .writeBack _ now dbNow =>
    if m.body = none then some
      { held := m
        set := writeTransition .failed "message body missing at submit time" none now
        dbNow := dbNow }
    else none
  | .answered m _ _ result, .writeBack query now dbNow =>
    match finishSubmit m result query now with
    | .write set => some { held := m, set := set, dbNow := dbNow }
    | _ => none
  | .receipted found _ update _, .applyDlr now dbNow =>
    (dlrPatch found update now).map fun set =>
      { held := found, set := set, dbNow := dbNow
        events := fun row => [.reported update found.state row.state] }
  | .expiring m _, .expire dbNow => some { held := m, set := expirePatch, dbNow := dbNow }
  | .purging m _ now, .purge dbNow => some { held := m, set := purgePatch now, dbNow := dbNow }
  | _, _ => none

/-- How a process goes on without a write to the message. -/
structure Outcome where
  next : Proc
  events : List Event := []
  receipt : Option DeliveryReceipt := none

/-- **The other steps of the processes.** -/
def advance (s : Sys) : Proc → Op → Option Outcome
  | .idle, .poll worker now =>
    if h : Claimable now s.row then some { next := .candidate s.row h.1 worker now } else none
  | .candidate m _ worker now, .takeLease view _ =>
    if (takeLease m worker now view).isNone then some { next := .idle } else none
  | .claimed m h, .submit rows adapters =>
    match m.body, resolveProvider m rows adapters with
    | none, _ => none
    | some _, .error reason => some { next := .answered m h none (.error (.unavailable reason)) }
    | some body, .ok _ => some
        { next := .submitting m h (submits s.log + 1), events := [.submit (submitRequest m body)] }
  | .submitting m h n, .answer result =>
    some { next := .answered m h (some n) result, events := [.answer n result] }
  | .answered m _ _ result, .writeBack query now _ =>
    match finishSubmit m result query now with
    | .write _ => none
    | .leave => some { next := .idle, events := [.failoverFailed] }
    | .panic => some { next := .idle }
  | .idle, .correlate providerRowId rawPayload update =>
    if h : Correlates providerRowId update s.row then
      some { next := .correlated s.row providerRowId rawPayload update h }
    else some { next := .idle }
  | .correlated found providerRowId rawPayload update h, .createReceipt => some
      { next := .receipted found providerRowId update h
        receipt := some (receiptOf found providerRowId rawPayload update) }
  | .receipted found _ update _, .applyDlr now _ =>
    if (dlrPatch found update now).isNone then some { next := .idle } else none
  | .idle, .selectStale now =>
    if h : Stale now s.row then some { next := .expiring s.row h.state } else none
  | .idle, .selectPurge now =>
    if h : Purgeable now s.row then some { next := .purging s.row h.1 now } else none
  | .claimed _ _, .abandon => some { next := .idle }
  | _, .dbError => some { next := .idle }
  | _, .crash => some { next := .idle }
  | _, _ => none

/-- Let process `p` go on. -/
def Sys.go (s : Sys) (p : ℕ) (o : Outcome) : Sys where
  toShared := s.toShared.become p o.next
  receipts := o.receipt.toList ++ s.receipts
  log := o.events ++ s.log

/-- Commit the write `w` of process `p` as the row `row`. -/
def Sys.wrote (s : Sys) (p : ℕ) (w : Plan) (row : Message) : Sys where
  toShared := s.toShared.commit row p (w.next row)
  receipts := s.receipts
  log := w.events row ++ s.log

/-- Try the write `w` of process `p`: every writer drops a failed precondition. -/
def Sys.write (s : Sys) (p : ℕ) (w : Plan) : Sys :=
  match s.row.update w.held.version w.set w.dbNow with
  | .ok row => s.wrote p w row
  | .error .preconditionFailed => s.go p { next := .idle }
  | .error (.refused e) => s.go p { next := .idle, events := [.refused e] }

/-- **One step of the system.** -/
def step (s : Sys) (a : Action) : Option Sys :=
  match plan (s.procs a.proc) a.op with
  | some w => some (s.write a.proc w)
  | none => (advance s (s.procs a.proc) a.op).map (s.go a.proc)

@[simp] theorem Sys.go_row (s : Sys) (p : ℕ) (o : Outcome) : (s.go p o).row = s.row := rfl
@[simp] theorem Sys.go_procs (s : Sys) (p : ℕ) (o : Outcome) :
    (s.go p o).procs = Function.update s.procs p o.next := rfl
@[simp] theorem Sys.go_log (s : Sys) (p : ℕ) (o : Outcome) : (s.go p o).log = o.events ++ s.log :=
  rfl
@[simp] theorem Sys.wrote_row (s : Sys) (p : ℕ) (w : Plan) (row : Message) :
    (s.wrote p w row).row = row := rfl
@[simp] theorem Sys.wrote_procs (s : Sys) (p : ℕ) (w : Plan) (row : Message) :
    (s.wrote p w row).procs = Function.update s.procs p (w.next row) := rfl
@[simp] theorem Sys.wrote_log (s : Sys) (p : ℕ) (w : Plan) (row : Message) :
    (s.wrote p w row).log = w.events row ++ s.log := rfl

/-! ### Runs of one worker -/

/-- A message as `send` decides about it. -/
def sampleMessage : NewMessage where
  id := "m1"
  appId := "app"
  clientRef := none
  msisdn := "+237677123456"
  msisdnHash := "h"
  operator := .mtn
  senderIdValue := "VSMS"
  messageClass := .otp
  body := "1234"
  bodyHash := "b"
  bodyLength := 4
  encoding := .gsm7
  segments := 1
  scheduledAt := none
  expiresAt := hours 1
  createdAt := 0

def sampleProvider : Provider := ⟨"p1", "orange", .active, 0, none, 0⟩

/-- One route, to one provider. -/
def sampleView : RoutingView where
  routes := [⟨"r1", "main", 10, 1, true, none, none, none, none, "p1", none⟩]
  providers := [sampleProvider]
  now := 0
  draw := 0
  national := some "677123456"

/-- Process 0 routes an accepted message. -/
def routeRun (now : Time) : List Action :=
  [⟨0, .poll "w" now⟩, ⟨0, .takeLease (some sampleView) now⟩]

/-- Process 0 claims a queued message, and submits it; the provider gives `result`. -/
def dispatchRun (now : Time) (result : SubmitResult) : List Action :=
  [⟨0, .poll "w" now⟩, ⟨0, .takeLease none now⟩, ⟨0, .submit (.ok [sampleProvider]) ["orange"]⟩,
    ⟨0, .answer result⟩, ⟨0, .writeBack none now now⟩]

/-- The message is routed, and sent with the reference `x1`. -/
def sentRun : List Action := routeRun 1 ++ dispatchRun 2 (.ok ⟨"x1", none⟩)

/-- Process `p` ingests one delivery report. -/
def ingestRun (p : ℕ) (providerRowId rawPayload : String) (update : DeliveryUpdate)
    (now dbNow : Time) : List Action :=
  [⟨p, .correlate providerRowId rawPayload update⟩, ⟨p, .createReceipt⟩, ⟨p, .applyDlr now dbNow⟩]

/-! ## What a step can do -/

/-- **The writes, one constructor a writer.** -/
inductive Writes : Proc → Op → Plan → Prop
  | takeLease {m h worker now view dbNow set} (hset : takeLease m worker now view = some set) :
      Writes (.candidate m h worker now) (.takeLease view dbNow)
        { held := m, set := set, dbNow := dbNow, next := claimedOrIdle }
  | noBody {m h query now dbNow} (hb : m.body = none) :
      Writes (.claimed m h) (.writeBack query now dbNow)
        { held := m
          set := writeTransition .failed "message body missing at submit time" none now
          dbNow := dbNow }
  | finish {m h n result query now dbNow set}
      (hset : finishSubmit m result query now = .write set) :
      Writes (.answered m h n result) (.writeBack query now dbNow)
        { held := m, set := set, dbNow := dbNow }
  | report {found providerRowId update h now dbNow set}
      (hset : dlrPatch found update now = some set) :
      Writes (.receipted found providerRowId update h) (.applyDlr now dbNow)
        { held := found, set := set, dbNow := dbNow
          events := fun row => [.reported update found.state row.state] }
  | expire {m h dbNow} :
      Writes (.expiring m h) (.expire dbNow) { held := m, set := expirePatch, dbNow := dbNow }
  | purge {m h now dbNow} :
      Writes (.purging m h now) (.purge dbNow) { held := m, set := purgePatch now, dbNow := dbNow }

theorem plan_writes {x : Proc} {op : Op} {w : Plan} (h : plan x op = some w) : Writes x op w := by
  unfold plan at h
  split at h
  · obtain ⟨set, hset, rfl⟩ := Option.map_eq_some_iff.mp h
    exact .takeLease hset
  · split_ifs at h with hb
    cases h
    exact .noBody hb
  · split at h
    · next hset =>
      cases h
      exact .finish hset
    · cases h
  · obtain ⟨set, hset, rfl⟩ := Option.map_eq_some_iff.mp h
    exact .report hset
  · cases h
    exact .expire
  · cases h
    exact .purge
  · cases h

/-- **The other steps, one constructor each.** -/
inductive Advances (s : Sys) : Proc → Op → Outcome → Prop
  | poll {worker now} (h : Claimable now s.row) :
      Advances s .idle (.poll worker now) { next := .candidate s.row h.1 worker now }
  | routingFailed {m h worker now view dbNow} (hn : (takeLease m worker now view).isNone) :
      Advances s (.candidate m h worker now) (.takeLease view dbNow) { next := .idle }
  | unresolved {m h rows adapters reason} :
      Advances s (.claimed m h) (.submit rows adapters)
        { next := .answered m h none (.error (.unavailable reason)) }
  | submit {m h rows adapters} (body : String) :
      Advances s (.claimed m h) (.submit rows adapters)
        { next := .submitting m h (submits s.log + 1), events := [.submit (submitRequest m body)] }
  | answer {m h n result} :
      Advances s (.submitting m h n) (.answer result)
        { next := .answered m h (some n) result, events := [.answer n result] }
  | leave {m h n result query now dbNow} (hf : finishSubmit m result query now = .leave) :
      Advances s (.answered m h n result) (.writeBack query now dbNow)
        { next := .idle, events := [.failoverFailed] }
  | panic {m h n result query now dbNow} (hf : finishSubmit m result query now = .panic) :
      Advances s (.answered m h n result) (.writeBack query now dbNow) { next := .idle }
  | correlate {providerRowId rawPayload update} (h : Correlates providerRowId update s.row) :
      Advances s .idle (.correlate providerRowId rawPayload update)
        { next := .correlated s.row providerRowId rawPayload update h }
  | unmatched {providerRowId rawPayload update} (h : ¬ Correlates providerRowId update s.row) :
      Advances s .idle (.correlate providerRowId rawPayload update) { next := .idle }
  | createReceipt {found providerRowId rawPayload update h} :
      Advances s (.correlated found providerRowId rawPayload update h) .createReceipt
        { next := .receipted found providerRowId update h
          receipt := some (receiptOf found providerRowId rawPayload update) }
  | noVerdict {found providerRowId update h now dbNow} (hn : (dlrPatch found update now).isNone) :
      Advances s (.receipted found providerRowId update h) (.applyDlr now dbNow) { next := .idle }
  | selectStale {now} (h : Stale now s.row) :
      Advances s .idle (.selectStale now) { next := .expiring s.row h.state }
  | selectPurge {now} (h : Purgeable now s.row) :
      Advances s .idle (.selectPurge now) { next := .purging s.row h.1 now }
  | abandon {m h} : Advances s (.claimed m h) .abandon { next := .idle }
  | dbError {x} : Advances s x .dbError { next := .idle }
  | crash {x} : Advances s x .crash { next := .idle }

theorem advance_advances {s : Sys} {x : Proc} {op : Op} {o : Outcome}
    (h : advance s x op = some o) : Advances s x op o := by
  unfold advance at h
  split at h
  · split_ifs at h with hc
    cases h
    exact .poll hc
  · split_ifs at h with hn
    cases h
    exact .routingFailed hn
  · split at h
    · cases h
    · cases h
      exact .unresolved
    · cases h
      exact .submit _
  · cases h
    exact .answer
  · split at h
    · cases h
    · next hf =>
      cases h
      exact .leave hf
    · next hf =>
      cases h
      exact .panic hf
  · split_ifs at h with hc
    · cases h
      exact .correlate hc
    · cases h
      exact .unmatched hc
  · cases h
    exact .createReceipt
  · split_ifs at h with hn
    cases h
    exact .noVerdict hn
  · split_ifs at h with hc
    cases h
    exact .selectStale hc
  · split_ifs at h with hc
    cases h
    exact .selectPurge hc
  · cases h
    exact .abandon
  · cases h
    exact .dbError
  · cases h
    exact .crash
  · cases h

/-- **What one step of process `p` can do**: a write that commits, one that lost the race, one the
guard refused, or no write. -/
inductive Steps (s : Sys) (p : ℕ) (op : Op) : Sys → Prop
  | wrote (w : Plan) (hw : Writes (s.procs p) op w) (hv : s.row.version = w.held.version)
      (hl : Legal s.row.state (w.set.state.getD s.row.state)) :
      Steps s p op (s.wrote p w (written w.set w.dbNow s.row))
  | lost (w : Plan) (hw : Writes (s.procs p) op w) (hv : s.row.version ≠ w.held.version) :
      Steps s p op (s.go p { next := .idle })
  | refused (w : Plan) (e : IllegalTransition) (hw : Writes (s.procs p) op w)
      (hv : s.row.version = w.held.version)
      (hl : ¬ Legal s.row.state (w.set.state.getD s.row.state)) :
      Steps s p op (s.go p { next := .idle, events := [.refused e] })
  | moved (o : Outcome) (ho : Advances s (s.procs p) op o) : Steps s p op (s.go p o)

theorem step_cases {s s' : Sys} {a : Action} (h : step s a = some s') :
    Steps s a.proc a.op s' := by
  unfold step at h
  cases hp : plan (s.procs a.proc) a.op with
  | none =>
    rw [hp] at h
    obtain ⟨o, ho, rfl⟩ := Option.map_eq_some_iff.mp h
    exact .moved o (advance_advances ho)
  | some w =>
    rw [hp] at h
    cases h
    have hw := plan_writes hp
    unfold Sys.write
    cases hu : s.row.update w.held.version w.set w.dbNow with
    | ok row =>
      obtain ⟨hv, hl, rfl⟩ := update_ok hu
      exact .wrote w hw hv hl
    | error e =>
      cases e with
      | preconditionFailed => exact .lost w hw (compareAndSwap_preconditionFailed.mp hu)
      | refused e =>
        obtain ⟨hv, hl⟩ := update_refused hu
        exact .refused w e hw hv hl

/-- A step leaves the other processes alone. -/
theorem step_procs {s s' : Sys} {a : Action} (h : step s a = some s') {q : ℕ} (hq : q ≠ a.proc) :
    s'.procs q = s.procs q := by
  cases step_cases h <;> exact Function.update_of_ne hq _ _

theorem exec_procs {s s' : Sys} {as : List Action} {q : ℕ} (has : ∀ a ∈ as, a.proc ≠ q)
    (h : exec step s as = some s') : s'.procs q = s.procs q := by
  induction as generalizing s with
  | nil => cases h; rfl
  | cons a as ih =>
    obtain ⟨t, ht, h⟩ := exec_cons.mp h
    rw [ih (fun b hb => has b (List.mem_cons_of_mem _ hb)) h,
      step_procs ht (has a List.mem_cons_self).symm]

/-! ### Writes -/

theorem Writes.held_eq {x : Proc} {op : Op} {w : Plan} (h : Writes x op w) :
    x.held = some w.held := by
  cases h <;> rfl

/-- **A writer picks an edge of the table**, or the state its copy has: it was selected in. -/
theorem Writes.legal {x : Proc} {op : Op} {w : Plan} (h : Writes x op w) :
    Legal w.held.state (w.set.state.getD w.held.state) := by
  cases h with
  | takeLease hset =>
    rcases takeLease_cases hset with ⟨hs, hu | hu, -⟩ | ⟨hs | hs, -, hu, -⟩ | ⟨hs, -, hu, -⟩ |
      ⟨hs, hu, -⟩ | ⟨hs, -, hu, -⟩ <;>
    · dsimp only
      rw [hs, hu]
      decide
  | @noBody m h =>
    dsimp only
    rw [h]
    change Legal .routed .failed
    decide
  | @finish m h n result query now dbNow set hset =>
    dsimp only
    rw [h]
    rcases finishSubmit_write hset with ⟨ack, -, rfl⟩ | ⟨-, -, -, -, -, -, ⟨-, hu⟩ | ⟨-, hu | hu⟩⟩
    · change Legal .routed .submitted
      decide
    all_goals
      rw [hu]
      decide
  | report hset =>
    obtain ⟨target, hn, hu, -⟩ := dlrPatch_some hset
    dsimp only
    rw [hu]
    exact Or.inr (nextState_edge hn).2
  | @expire m h =>
    have hs : m.state = .submitted ∨ m.state = .uncertain ∨ m.state = .undelivered := by
      simpa [staleStates] using h
    rcases hs with hs | hs | hs <;>
    · dsimp only
      rw [hs]
      decide
  | purge => exact Or.inl rfl

/-- No writer sets `finalized_at`. -/
theorem Writes.finalizedAt {x : Proc} {op : Op} {w : Plan} (h : Writes x op w) :
    w.set.finalizedAt = none := by
  cases h with
  | takeLease hset => exact (takeLease_columns hset).1
  | noBody hb => rfl
  | finish hset =>
    rcases finishSubmit_write hset with ⟨ack, -, rfl⟩ | ⟨-, -, -, hf, -⟩
    · rfl
    · exact hf
  | report hset =>
    obtain ⟨-, -, -, -, hf, -⟩ := dlrPatch_some hset
    exact hf
  | expire => rfl
  | purge => rfl

theorem held_claimedOrIdle {m m' : Message} (h : (claimedOrIdle m).held = some m') : m' = m := by
  unfold claimedOrIdle at h
  split_ifs at h
  · cases h
    rfl
  · cases h

/-- A process that wrote keeps at most the row it wrote. -/
theorem Writes.held_next {x : Proc} {op : Op} {w : Plan} (h : Writes x op w) {row m : Message}
    (hm : (w.next row).held = some m) : m = row := by
  cases h with
  | takeLease hset => exact held_claimedOrIdle hm
  | noBody hb => cases hm
  | finish hset => cases hm
  | report hset => cases hm
  | expire => cases hm
  | purge => cases hm

/-- A process that moves on keeps its copy, or has just read the row. -/
theorem Advances.held_next {s : Sys} {x : Proc} {op : Op} {o : Outcome} (h : Advances s x op o)
    {m : Message} (hm : o.next.held = some m) : x.held = some m ∨ m = s.row := by
  cases h <;> first | exact Or.inl hm | exact Or.inr (Option.some.inj hm).symm | cases hm

/-! ### Systems whose copies are snapshots -/

/-- **The same, where every copy is a snapshot**: a write that commits was computed from the row it
replaces, and the guard refuses none. -/
inductive Sound (s : Sys) (p : ℕ) (op : Op) : Sys → Prop
  | wrote (w : Plan) (hw : Writes (s.procs p) op w) (hrow : w.held = s.row) :
      Sound s p op (s.wrote p w (written w.set w.dbNow s.row))
  | lost (w : Plan) (hw : Writes (s.procs p) op w) (hv : s.row.version ≠ w.held.version) :
      Sound s p op (s.go p { next := .idle })
  | moved (o : Outcome) (ho : Advances s (s.procs p) op o) : Sound s p op (s.go p o)

theorem step_sound {s s' : Sys} {a : Action} (hs : Snapshots Proc.held s.toShared)
    (h : step s a = some s') : Sound s a.proc a.op s' := by
  have hrow {w : Plan} (hw : Writes (s.procs a.proc) a.op w)
      (hv : s.row.version = w.held.version) : w.held = s.row :=
    (hs a.proc w.held hw.held_eq).eq hv.symm
  cases step_cases h with
  | wrote w hw hv hl => exact .wrote w hw (hrow hw hv)
  | lost w hw hv => exact .lost w hw hv
  | refused w e hw hv hl => exact absurd (hrow hw hv ▸ hw.legal) hl
  | moved o ho => exact .moved o ho

theorem step_move {s s' : Sys} {a : Action} (h : step s a = some s') :
    Move Proc.held s.toShared a.proc s'.toShared := by
  cases step_cases h with
  | wrote w hw hv hl =>
    refine .commit w.held _ _ hw.held_eq hv.symm ?_ fun m hm => hw.held_next hm
    simp
  | lost w hw hv => exact .become _ fun m hm => by cases hm
  | refused w e hw hv hl => exact .become _ fun m hm => by cases hm
  | moved o ho => exact .become _ fun m hm => ho.held_next hm

/-- **Every copy a process holds is a snapshot of the row.** -/
theorem step_snapshots {s s' : Sys} {a : Action} (hs : Snapshots Proc.held s.toShared)
    (h : step s a = some s') : Snapshots Proc.held s'.toShared :=
  (step_move h).snapshots hs

theorem exec_snapshots {s s' : Sys} {as : List Action} (hs : Snapshots Proc.held s.toShared)
    (h : exec step s as = some s') : Snapshots Proc.held s'.toShared :=
  exec_invariant' (fun _ _ _ hs ht => step_snapshots hs ht) hs h

theorem start_snapshots (c : NewMessage) : Snapshots Proc.held (start c).toShared := by
  intro p m hm
  cases hm

/-- The states reached from a message just accepted. -/
def Reachable (s : Sys) : Prop := ∃ c as, exec step (start c) as = some s

theorem Reachable.snapshots {s : Sys} (h : Reachable s) : Snapshots Proc.held s.toShared := by
  obtain ⟨c, as, h⟩ := h
  exact exec_snapshots (start_snapshots c) h

end Vsms.Message.System
