import Vsms.Claim.Batch
import Vsms.Message.Leases
import Mathlib.Algebra.BigOperators.Group.List.Basic
import Mathlib.Data.Rat.Floor
import Mathlib.Tactic.Linarith

/-! # One tick of dispatch

A tick claims a batch and submits its messages one after the other. All of them are leased from the
moment the claim started, for `dispatchLease`; a call of a provider takes up to `requestTimeout`, a
quarter of that, and each message may need two, one for the token and one for the submit. So the
lease covers the batch exactly if the last submit of the batch starts in time (`lastSubmit`).

In the system of all workers and all messages, `NotSelected` says of a state that no message a
worker has claimed and not submitted yet is one a claim would select, or one another worker has
claimed too. It holds throughout every run in which no worker, from the start of a claim, needs as
long as the lease to come to the last message of its batch. Each message is the system of
`Message.System`, with the worker as one of its processes. -/

namespace Vsms.Message.Batch

open Vsms.Lib.Runs Vsms.Lib.Consumers Vsms.Lib.Optimistic Vsms.Schema.Types Vsms.Schema.Messages
open Vsms.Routing.Decide Vsms.Claim.Batch
open Vsms.Message.Claim Vsms.Message.Dispatch Vsms.Message.System Vsms.Message.Leases

/-! ## The budget -/

/-- What a tick reads of an adapter's capabilities, as an exact number. -/
structure Capabilities where
  tpsCeiling : ℚ

/-- `capabilities` of the Orange adapter. -/
def orangeCm : Capabilities := ⟨5⟩

def totalTpsCeiling (providers : List Capabilities) : ℚ :=
  (providers.map Capabilities.tpsCeiling).sum

/-- `POLL_INTERVAL`, in seconds. -/
def pollInterval : ℚ := 1

def budgetFor (tpsCeiling : ℚ) : ℕ := max 1 ⌈tpsCeiling * pollInterval⌉₊

/-! ## The calls of a batch -/

/-- `request_timeout` of `OrangeCmConfig::production`. -/
def requestTimeout : Time := seconds 30

/-- How long a call of the provider takes: the client gives up at the timeout. -/
structure CallDuration where
  val : Time
  nonneg : 0 ≤ val
  le_timeout : val ≤ requestTimeout

/-- `access_token`: the cached token, or a call. -/
inductive AccessToken
  | cached
  | fetched (d : CallDuration)
  | failed (d : CallDuration)

def AccessToken.takes : AccessToken → Time
  | .cached => 0
  | .fetched d => d.val
  | .failed d => d.val

def AccessToken.isOk : AccessToken → Bool
  | .failed _ => false
  | _ => true

theorem AccessToken.takes_nonneg (x : AccessToken) : 0 ≤ x.takes := by
  cases x with
  | cached => exact le_refl _
  | fetched d => exact d.nonneg
  | failed d => exact d.nonneg

/-- What one call of `submit_one` meets: the provider rows and the adapters, the token, how long the
submit takes, and how long the database work before and after the calls of the provider. -/
structure Turn where
  rows : Except String (List Provider)
  adapters : List String
  token : AccessToken
  call : CallDuration
  before : Time
  after : Time
  before_nonneg : 0 ≤ before
  after_nonneg : 0 ≤ after

/-- There is a body, a provider and a token. -/
def Turn.submits (x : Turn) (m : Message) : Bool :=
  m.body.isSome && (resolveProvider m x.rows x.adapters).isOk && x.token.isOk

/-- The time until the submit starts, or it is clear that there is none. -/
def Turn.waits (x : Turn) (m : Message) : Time :=
  if m.body.isNone then 0
  else if (resolveProvider m x.rows x.adapters).isOk then x.before + x.token.takes
  else x.before

/-- The time `submit_one` takes. -/
def Turn.takes (x : Turn) (m : Message) : Time :=
  x.waits m + (if x.submits m then x.call.val else 0) + x.after

theorem Turn.waits_nonneg (x : Turn) (m : Message) : 0 ≤ x.waits m := by
  have hb := x.before_nonneg
  have ht := x.token.takes_nonneg
  unfold Turn.waits
  split_ifs
  · exact le_refl _
  · exact add_nonneg hb ht
  · exact hb

theorem Turn.waits_le_takes (x : Turn) (m : Message) : x.waits m ≤ x.takes m := by
  have ha := x.after_nonneg
  have hc := x.call.nonneg
  unfold Turn.takes
  split_ifs <;> linarith

/-- A message of a batch, whether it is submitted, and when that starts or is given up. -/
structure Slot where
  message : Message
  submits : Bool
  due : Time

/-- **The loop of `tick`**, from the time `t` on: `submit_one` for each message that is `routed`. -/
def schedule (turns : Message → Turn) : Time → List Message → List Slot
  | _, [] => []
  | t, m :: batch =>
    if m.state = .routed then
      ⟨m, (turns m).submits m, t + (turns m).waits m⟩ ::
        schedule turns (t + (turns m).takes m) batch
    else schedule turns t batch

/-- The time from the start of the loop to the start of its last submit. -/
def lastSubmit (turns : Message → Turn) : List Message → Option Time
  | [] => none
  | m :: batch =>
    if m.state = .routed then
      match lastSubmit turns batch with
      | some d => some ((turns m).takes m + d)
      | none => if (turns m).submits m then some ((turns m).waits m) else none
    else lastSubmit turns batch

variable (turns : Message → Turn)

theorem mem_of_schedule {turns : Message → Turn} {t : Time} {batch : List Message} {x : Slot}
    (hx : x ∈ schedule turns t batch) : x.message ∈ batch ∧ x.message.state = .routed := by
  induction batch generalizing t with
  | nil => cases hx
  | cons m batch ih =>
    unfold schedule at hx
    split_ifs at hx with hr
    · rcases List.mem_cons.mp hx with rfl | hx
      · exact ⟨List.mem_cons_self, hr⟩
      · exact ⟨List.mem_cons_of_mem _ (ih hx).1, (ih hx).2⟩
    · exact ⟨List.mem_cons_of_mem _ (ih hx).1, (ih hx).2⟩

/-- Every message that is `routed` has its turn. -/
theorem schedule_complete (t : Time) {batch : List Message} {m : Message} (hm : m ∈ batch)
    (hr : m.state = .routed) : ∃ x ∈ schedule turns t batch, x.message = m := by
  induction batch generalizing t with
  | nil => cases hm
  | cons m' batch ih =>
    unfold schedule
    rcases List.mem_cons.mp hm with rfl | hm
    · rw [if_pos hr]
      exact ⟨_, List.mem_cons_self, rfl⟩
    · split_ifs
      · obtain ⟨x, hx, hxm⟩ := ih (t + (turns m').takes m') hm
        exact ⟨x, List.mem_cons_of_mem _ hx, hxm⟩
      · exact ih t hm

theorem le_due {turns : Message → Turn} {t : Time} {batch : List Message} {x : Slot}
    (hx : x ∈ schedule turns t batch) : t ≤ x.due := by
  induction batch generalizing t with
  | nil => cases hx
  | cons m batch ih =>
    have hw := (turns m).waits_nonneg m
    have ht := (turns m).waits_le_takes m
    unfold schedule at hx
    split_ifs at hx with hr
    · rcases List.mem_cons.mp hx with rfl | hx
      · dsimp only
        linarith
      · have := ih hx
        linarith
    · exact ih hx

/-- `lastSubmit` is the last of the submits that the schedule makes. -/
theorem schedule_lastSubmit (t : Time) (batch : List Message) :
    (∀ x ∈ schedule turns t batch, x.submits → ∃ d,
      lastSubmit turns batch = some d ∧ x.due ≤ t + d) ∧
    ∀ d, lastSubmit turns batch = some d → ∃ x ∈ schedule turns t batch,
    x.submits ∧ x.due = t + d := by
  induction batch generalizing t with
  | nil =>
    constructor
    · intro x hx
      cases hx
    · intro d hd
      cases hd
  | cons m batch ih =>
    have hw := (turns m).waits_nonneg m
    have ht := (turns m).waits_le_takes m
    unfold schedule lastSubmit
    by_cases hr : m.state = .routed
    · obtain ⟨hle, hlast⟩ := ih (t + (turns m).takes m)
      rw [if_pos hr, if_pos hr]
      cases hd : lastSubmit turns batch with
      | none =>
        -- No later submit: the message's own is the last, if it is made.
        rw [hd] at hle
        refine ⟨fun x hx hs => ?_, fun d h => ?_⟩
        · rcases List.mem_cons.mp hx with rfl | hx
          · exact ⟨_, if_pos hs, le_refl _⟩
          · obtain ⟨d, h, -⟩ := hle x hx hs
            cases h
        · dsimp only at h
          split_ifs at h with hs
          cases h
          exact ⟨_, List.mem_cons_self, hs, rfl⟩
      | some d =>
        obtain ⟨y, hy, hys, hyd⟩ := hlast d hd
        have hbound := le_due hy
        refine ⟨fun x hx hs => ⟨_, rfl, ?_⟩, fun d' h => ?_⟩
        · rcases List.mem_cons.mp hx with rfl | hx
          · dsimp only
            linarith
          · obtain ⟨d', h, hxd⟩ := hle x hx hs
            rw [hd] at h
            cases h
            linarith
        · cases h
          exact ⟨y, List.mem_cons_of_mem _ hy, hys, by linarith⟩
    · rw [if_neg hr, if_neg hr]
      exact ih t

/-- **Every submit starts before the lease of its message runs out.** -/
def Covered (slots : List Slot) : Prop :=
  ∀ x ∈ slots, x.submits → ∀ u, x.message.leaseUntil = some u → x.due < u

/-- `claiming` is how long the claim itself took. -/
theorem covered_iff {now claiming : Time} {batch : List Message}
    (hbatch : ∀ m ∈ batch, m.state = .routed → m.leaseUntil = some (now + dispatchLease)) :
    Covered (schedule turns (now + claiming) batch) ↔
      ∀ d, lastSubmit turns batch = some d → claiming + d < dispatchLease := by
  obtain ⟨hle, hlast⟩ := schedule_lastSubmit turns (now + claiming) batch
  have hlease : ∀ x ∈ schedule turns (now + claiming) batch,
      x.message.leaseUntil = some (now + dispatchLease) := fun x hx =>
    hbatch _ (mem_of_schedule hx).1 (mem_of_schedule hx).2
  constructor
  · intro h d hd
    obtain ⟨x, hx, hs, hdue⟩ := hlast d hd
    have := h x hx hs _ (hlease x hx)
    linarith
  · intro h x hx hs u hu
    rw [hlease x hx] at hu
    cases hu
    obtain ⟨d, hd, hdue⟩ := hle x hx hs
    have := h d hd
    linarith

/-- What a claim returns `routed` is leased from the moment the claim started. -/
def LeasedFrom (q : Request) (m : Message) : Prop :=
  m.state = .routed → m.leaseUntil = some (q.now + dispatchLease)

theorem messages_leasedFrom : messages.Lawful LeasedFrom where
  select := messages_lawful.select
  lease := by
    intro q c x write r r' hw hok
    obtain ⟨hv, hlt, hkey, -⟩ := messages_lawful.lease q c x write r r' hw hok
    refine ⟨hv, hlt, hkey, fun hr => ?_⟩
    obtain ⟨u, hu, rfl⟩ := Option.map_eq_some_iff.mp hw
    obtain ⟨-, -, rfl⟩ := update_ok hok
    rw [written_state] at hr
    rw [written_leaseUntil, takeLease_routed hu hr]
    rfl

/-! ## All workers and all messages -/

/-- Where a worker's tick is. -/
inductive Phase
  | idle
  /-- In `candidates`, started at `now`: the messages it has read so far. -/
  | selecting (now : Time) (cs : List String)
  /-- In the loop of `claim_batch`: what is left, and what was claimed. -/
  | leasing (now : Time) (cs : List String) (claimed : List Message)
  /-- In the loop of `tick`. -/
  | submitting (slots : List Slot)

/-- When the claim under way started. -/
def Phase.claimedAt : Phase → Option Time
  | .selecting now _ => some now
  | .leasing now _ _ => some now
  | _ => none

/-- The candidates of the claim under way. -/
def Phase.candidates : Phase → List String
  | .selecting _ cs => cs
  | .leasing _ cs _ => cs
  | _ => []

def Phase.slots : Phase → List Slot
  | .submitting slots => slots
  | _ => []

def idleAt (s : System.Sys) (p : ℕ) : Bool :=
  match s.procs p with
  | .idle => true
  | _ => false

/-- The clock, the messages by their id, each with all that goes on about it, and the workers. -/
structure Sys where
  clock : Time
  msgs : String → System.Sys
  phases : ℕ → Phase

inductive Action
  /-- Time passes. -/
  | tick (now : Time)
  /-- `claim_batch` starts. -/
  | claim (p : ℕ)
  /-- The candidates have been read. -/
  | collect (p : ℕ)
  /-- The loop of `tick` starts; `turns` is what its calls of `submit_one` will meet. -/
  | loop (p : ℕ) (turns : Message → Turn)
  /-- A step about the message `i`, by a worker or by anything else. -/
  | act (i : String) (a : System.Action)
  /-- All messages of the batch are done. -/
  | done (p : ℕ)
  /-- The claim returns an error, or the worker stops. -/
  | stop (p : ℕ)

/-- **How a worker's tick goes on with a step about the message `i`.** It reads candidates as of the
start of the claim, goes through them in order, and starts a submit when it is due. `claimed` is the
message if it is claimed then. -/
def Phase.next (budget : ℕ) (clock : Time) (i : String) (claimed : Option Message) :
    Op → Phase → Option Phase
  | .poll _ t, .selecting now cs =>
    if t = now ∧ cs.length < budget then some (.selecting now (cs ++ [i])) else none
  | .poll _ _, _ => none
  | .takeLease _ _, .leasing now (c :: cs) batch =>
    if c = i then some (.leasing now cs (batch ++ claimed.toList)) else none
  | .takeLease _ _, _ => none
  | .submit _ _, .submitting slots =>
    if ∃ x ∈ slots, x.message.id = i ∧ x.due = clock then some (.submitting slots) else none
  | .submit _ _, _ => none
  | _, phase => some phase

variable (n budget : ℕ)

/-- **One step of the system** of `n` workers. What a worker has claimed it does not keep beyond the
time its submit is due. -/
def step (s : Sys) : Action → Option Sys
  | .tick now =>
    if s.clock ≤ now ∧ ∀ p < n, ∀ x ∈ (s.phases p).slots,
        (claimedBy (s.msgs x.message.id) p).isSome → now ≤ x.due then
      some { s with clock := now }
    else none
  | .claim p =>
    match s.phases p with
    | .idle =>
      if p < n then some { s with phases := Function.update s.phases p (.selecting s.clock []) }
      else none
    | _ => none
  | .collect p =>
    match s.phases p with
    | .selecting now cs => some { s with phases := Function.update s.phases p (.leasing now cs []) }
    | _ => none
  | .loop p turns =>
    match s.phases p with
    | .leasing _ [] batch => some
        { s with phases := Function.update s.phases p (.submitting (schedule turns s.clock batch)) }
    | _ => none
  | .act i a =>
    match System.step (s.msgs i) a with
    | none => none
    | some t =>
      ((s.phases a.proc).next budget s.clock i (claimedBy t a.proc) a.op).map fun phase =>
        { s with
          msgs := Function.update s.msgs i t
          phases := Function.update s.phases a.proc phase }
  | .done p =>
    match s.phases p with
    | .submitting slots =>
      if ∀ x ∈ slots, idleAt (s.msgs x.message.id) p then
        some { s with phases := Function.update s.phases p .idle }
      else none
    | _ => none
  | .stop p => some
      { s with
        msgs := fun i => (s.msgs i).go p { next := .idle }
        phases := Function.update s.phases p .idle }

/-- **No worker needs as long as the lease**, from the start of a claim, to come to the last message
of its batch. -/
def WithinLease (s : Sys) (a : Action) (_ : Sys) : Prop :=
  match a with
  | .tick now => ∀ p < n, ∀ t ∈ (s.phases p).claimedAt, now < t + dispatchLease
  | .loop p turns =>
    match s.phases p with
    | .leasing t _ batch => ∀ x ∈ schedule turns s.clock batch, x.due < t + dispatchLease
    | _ => True
  | _ => True

instance (s : Sys) (a : Action) (s' : Sys) : Decidable (WithinLease n s a s') := by
  unfold WithinLease
  split
  · infer_instance
  · split <;> infer_instance
  · infer_instance

/-- **What a worker has claimed and not submitted** is leased, is not selected by a claim made now
or before, and no other worker has it. -/
def NotSelected (s : Sys) : Prop :=
  ∀ (i : String) (p : ℕ) (m : Message), claimedBy (s.msgs i) p = some m →
    (∃ u, m.leaseUntil = some u ∧ s.clock < u) ∧
    (∀ now ≤ s.clock, ¬ Claimable now (s.msgs i).row) ∧
    ∀ q, q ≠ p → claimedBy (s.msgs i) q = none

/-! ### The worker's phase -/

section next
variable {n budget : ℕ} {clock : Time} {i : String} {c : Option Message} {op : Op}
  {phase phase' : Phase} (h : phase.next budget clock i c op = some phase')
include h

theorem next_claimedAt : phase'.claimedAt = phase.claimedAt := by
  unfold Phase.next at h
  split at h
  · split_ifs at h
    cases h
    rfl
  · cases h
  · split_ifs at h
    cases h
    rfl
  · cases h
  · split_ifs at h
    cases h
    rfl
  · cases h
  · cases h
    rfl

/-- The claim goes through its candidates in order. -/
theorem next_candidates {j : String} (hj : j ∈ phase.candidates) (hne : j ≠ i) :
    j ∈ phase'.candidates := by
  unfold Phase.next at h
  split at h
  · split_ifs at h
    cases h
    exact List.mem_append_left _ hj
  · cases h
  · split_ifs at h with hc
    cases h
    rcases List.mem_cons.mp hj with rfl | hj
    · exact absurd hc hne
    · exact hj
  · cases h
  · split_ifs at h
    cases h
    exact hj
  · cases h
  · cases h
    exact hj

theorem next_ne_idle (hne : phase' ≠ .idle) : phase ≠ .idle := by
  rintro rfl
  cases op <;> cases h <;> exact hne rfl

end next

/-- **The worker comes to the message in time**: its claim is under way, or its turn is not over. -/
def InTime (clock : Time) : Phase → Message → Prop
  | .leasing t _ batch, m => m ∈ batch ∧ m.leaseUntil = some (t + dispatchLease)
  | .submitting slots, m =>
    ∃ x ∈ slots, x.message = m ∧ clock ≤ x.due ∧ ∃ u, m.leaseUntil = some u ∧ x.due < u
  | _, _ => False

theorem InTime.next {budget : ℕ} {clock : Time} {i : String} {c : Option Message} {op : Op}
    {phase phase' : Phase} (h : phase.next budget clock i c op = some phase') {m : Message}
    (hm : InTime clock phase m) : InTime clock phase' m := by
  unfold Phase.next at h
  split at h
  · exact hm.elim
  · cases h
  · split_ifs at h
    cases h
    exact ⟨List.mem_append_left _ hm.1, hm.2⟩
  · cases h
  · split_ifs at h
    cases h
    exact hm
  · cases h
  · cases h
    exact hm

/-! ### The invariant -/

structure Inv (s : Sys) : Prop where
  snapshots : ∀ i, Snapshots Proc.held (s.msgs i).toShared
  ids : ∀ i, (s.msgs i).row.id = i
  active : ∀ p, s.phases p ≠ .idle → p < n
  clock : ∀ p t, (s.phases p).claimedAt = some t → t ≤ s.clock ∧ s.clock < t + dispatchLease
  candidates : ∀ i p m hm worker now, (s.msgs i).procs p = .candidate m hm worker now →
    i ∈ (s.phases p).candidates ∧ (s.phases p).claimedAt = some now
  claimed : ∀ i p m, claimedBy (s.msgs i) p = some m →
    Sole (s.msgs i) p m ∧ InTime s.clock (s.phases p) m

variable {n budget}

/-- What is claimed is under a lease that runs. -/
theorem Inv.leased {s : Sys} (hs : Inv n s) {i : String} {p : ℕ} {m : Message}
    (hm : claimedBy (s.msgs i) p = some m) : ∃ u, m.leaseUntil = some u ∧ s.clock < u := by
  obtain ⟨-, ht⟩ := hs.claimed i p m hm
  have hclock := hs.clock p
  revert ht hclock
  cases s.phases p with
  | idle => exact fun ht => ht.elim
  | selecting t cs => exact fun ht => ht.elim
  | leasing t cs batch => exact fun ht hclock => ⟨_, ht.2, (hclock t rfl).2⟩
  | submitting slots =>
    rintro ⟨x, -, -, hle, u, hu, hlt⟩ -
    exact ⟨u, hu, lt_of_le_of_lt hle hlt⟩

theorem Inv.not_claimable {s : Sys} (hs : Inv n s) {i : String} {p : ℕ} {m : Message}
    (hm : claimedBy (s.msgs i) p = some m) {now : Time} (hnow : now ≤ s.clock) :
    ¬ Claimable now (s.msgs i).row := by
  intro hc
  obtain ⟨u, hu, hlt⟩ := hs.leased hm
  rw [(hs.claimed i p m hm).1.1] at hu
  have := hc.2.2.2 u hu
  linarith

theorem Inv.notSelected {s : Sys} (hs : Inv n s) : NotSelected s := by
  intro i p m hm
  refine ⟨hs.leased hm, fun now hnow => hs.not_claimable hm hnow, fun q hq => ?_⟩
  cases hq' : claimedBy (s.msgs i) q with
  | none => rfl
  | some m' =>
    have hlt := (hs.claimed i p m hm).1.2 q hq m' (contending_of_working (working_of_claimedBy hq'))
    rw [(hs.claimed i q m' hq').1.1] at hlt
    exact absurd hlt (lt_irrefl _)

/-- **A worker's phase changes**, and no message. -/
theorem Inv.setPhase {s : Sys} (hs : Inv n s) {p : ℕ} {phase : Phase}
    (hactive : phase ≠ .idle → p < n)
    (hclock : ∀ t, phase.claimedAt = some t → t ≤ s.clock ∧ s.clock < t + dispatchLease)
    (hcand : ∀ i m hm worker now, (s.msgs i).procs p = .candidate m hm worker now →
      i ∈ phase.candidates ∧ phase.claimedAt = some now)
    (hclaim : ∀ i m, claimedBy (s.msgs i) p = some m → InTime s.clock phase m) :
    Inv n { s with phases := Function.update s.phases p phase } := by
  refine ⟨hs.snapshots, hs.ids, ?_, ?_, ?_, ?_⟩
  · rw [Function.forall_update_iff s.phases (p := fun q x => x ≠ .idle → q < n)]
    exact ⟨hactive, fun q _ => hs.active q⟩
  · rw [Function.forall_update_iff s.phases (p := fun _ x => ∀ t, x.claimedAt = some t →
      t ≤ s.clock ∧ s.clock < t + dispatchLease)]
    exact ⟨hclock, fun q _ => hs.clock q⟩
  · intro i
    rw [Function.forall_update_iff s.phases (p := fun q x => ∀ m hm worker now,
      (s.msgs i).procs q = .candidate m hm worker now → i ∈ x.candidates ∧ x.claimedAt = some now)]
    exact ⟨hcand i, fun q _ => hs.candidates i q⟩
  · intro i
    rw [Function.forall_update_iff s.phases (p := fun q x => ∀ m, claimedBy (s.msgs i) q = some m →
      Sole (s.msgs i) q m ∧ InTime s.clock x m)]
    exact ⟨fun m hm => ⟨(hs.claimed i p m hm).1, hclaim i m hm⟩, fun q _ => hs.claimed i q⟩

section act
variable {s : Sys} (hs : Inv n s) {i : String} {a : System.Action} {t : System.Sys}
  (ht : System.step (s.msgs i) a = some t) {phase : Phase}
  (hnext : (s.phases a.proc).next budget s.clock i (claimedBy t a.proc) a.op = some phase)
include hs hnext

/-- A poll of the message reads it as of the start of a claim, which was before now. -/
theorem Inv.act_poll {worker : String} {now : Time} (hop : a.op = .poll worker now) :
    ∃ cs, phase = .selecting now cs ∧ i ∈ cs ∧ now ≤ s.clock := by
  rw [hop] at hnext
  have hclock := hs.clock a.proc
  revert hnext hclock
  cases s.phases a.proc with
  | selecting t₀ cs =>
    intro hnext hclock
    dsimp only [Phase.next] at hnext
    split_ifs at hnext with hg
    cases hnext
    rw [hg.1]
    exact ⟨_, rfl, List.mem_append_right _ List.mem_cons_self, (hclock t₀ rfl).1⟩
  | _ => intro hnext; cases hnext

include ht

theorem Inv.act_candidates (j : String) (q : ℕ) (m : Message) (hm) (worker : String) (now : Time)
    (hc : (Function.update s.msgs i t j).procs q = .candidate m hm worker now) :
    j ∈ (Function.update s.phases a.proc phase q).candidates ∧
      (Function.update s.phases a.proc phase q).claimedAt = some now := by
  have hsnap := hs.snapshots i
  by_cases hj : j = i
  · subst hj
    rw [Function.update_self] at hc
    by_cases hq : q = a.proc
    · subst hq
      obtain ⟨cs, rfl, hmem, -⟩ := hs.act_poll hnext (step_candidate hsnap ht hc)
      rw [Function.update_self]
      exact ⟨hmem, rfl⟩
    · rw [step_procs ht hq] at hc
      rw [Function.update_of_ne hq]
      exact hs.candidates j q m hm worker now hc
  · rw [Function.update_of_ne hj] at hc
    obtain ⟨hmem, hat⟩ := hs.candidates j q m hm worker now hc
    by_cases hq : q = a.proc
    · subst hq
      rw [Function.update_self]
      exact ⟨next_candidates hnext hmem hj, (next_claimedAt hnext).trans hat⟩
    · rw [Function.update_of_ne hq]
      exact ⟨hmem, hat⟩

/-- The worker that moved has just claimed the message. -/
theorem Inv.act_claims {m : Message} (hc : claimedBy t a.proc = some m) :
    Sole t a.proc m ∧ InTime s.clock phase m := by
  obtain ⟨hsole, c, hcs, worker, now, view, dbNow, hold, hop, hlease⟩ :=
    step_claimed (hs.snapshots i) ht hc
  refine ⟨hsole, ?_⟩
  obtain ⟨-, hat⟩ := hs.candidates i _ _ _ _ _ hold
  rw [hop, hc] at hnext
  revert hnext hat
  cases s.phases a.proc with
  | leasing t₀ cs batch =>
    intro hnext hat
    cases hat
    cases cs with
    | nil => cases hnext
    | cons c' cs =>
      dsimp only [Phase.next] at hnext
      split_ifs at hnext
      cases hnext
      exact ⟨List.mem_append_right _ List.mem_cons_self, hlease⟩
  | _ => intro hnext; cases hnext

/-- What another worker has claimed stays so. -/
theorem Inv.act_other {q : ℕ} (hq : q ≠ a.proc) {m : Message} (hc : claimedBy t q = some m) :
    Sole t q m ∧ InTime s.clock (s.phases q) m := by
  have hold : claimedBy (s.msgs i) q = some m := by
    unfold claimedBy at hc ⊢
    rw [← step_procs ht hq]
    exact hc
  obtain ⟨hsole, htime⟩ := hs.claimed i q m hold
  refine ⟨step_sole (hs.snapshots i) ht hq hold hsole fun worker now hop => ?_, htime⟩
  obtain ⟨-, -, -, hnow⟩ := hs.act_poll hnext hop
  exact hs.not_claimable hold hnow

theorem Inv.act_claimed (j : String) (q : ℕ) (m : Message)
    (hc : claimedBy (Function.update s.msgs i t j) q = some m) :
    Sole (Function.update s.msgs i t j) q m ∧
      InTime s.clock (Function.update s.phases a.proc phase q) m := by
  by_cases hj : j = i
  · subst hj
    rw [Function.update_self] at hc ⊢
    by_cases hq : q = a.proc
    · subst hq
      rw [Function.update_self]
      exact hs.act_claims ht hnext hc
    · rw [Function.update_of_ne hq]
      exact hs.act_other ht hnext hq hc
  · rw [Function.update_of_ne hj] at hc ⊢
    obtain ⟨hsole, htime⟩ := hs.claimed j q m hc
    refine ⟨hsole, ?_⟩
    by_cases hq : q = a.proc
    · subst hq
      rw [Function.update_self]
      exact htime.next hnext
    · rw [Function.update_of_ne hq]
      exact htime

/-- **A step about one message.** -/
theorem Inv.act : Inv n { s with
    msgs := Function.update s.msgs i t
    phases := Function.update s.phases a.proc phase } := by
  have hsnap := hs.snapshots i
  refine ⟨?_, ?_, ?_, ?_, hs.act_candidates ht hnext, hs.act_claimed ht hnext⟩
  · rw [Function.forall_update_iff s.msgs (p := fun _ x => Snapshots Proc.held x.toShared)]
    exact ⟨step_snapshots hsnap ht, fun j _ => hs.snapshots j⟩
  · rw [Function.forall_update_iff s.msgs (p := fun j x => x.row.id = j)]
    exact ⟨(step_id hsnap ht).trans (hs.ids i), fun j _ => hs.ids j⟩
  · rw [Function.forall_update_iff s.phases (p := fun q x => x ≠ .idle → q < n)]
    exact ⟨fun h => hs.active _ (next_ne_idle hnext h), fun q _ => hs.active q⟩
  · rw [Function.forall_update_iff s.phases (p := fun _ x => ∀ t, x.claimedAt = some t →
      t ≤ s.clock ∧ s.clock < t + dispatchLease)]
    refine ⟨fun t₀ h => hs.clock a.proc t₀ ?_, fun q _ => hs.clock q⟩
    rw [← next_claimedAt hnext]
    exact h

end act

/-- **Time passes.** -/
theorem Inv.tick {s : Sys} (hs : Inv n s) {now : Time} (hle : s.clock ≤ now)
    (hdue : ∀ p < n, ∀ x ∈ (s.phases p).slots, (claimedBy (s.msgs x.message.id) p).isSome →
      now ≤ x.due)
    (hlease : ∀ p < n, ∀ t ∈ (s.phases p).claimedAt, now < t + dispatchLease) :
    Inv n { s with clock := now } := by
  have hactive : ∀ p, (s.phases p).claimedAt.isSome ∨ (∃ m, InTime s.clock (s.phases p) m) →
      p < n := by
    intro p hp
    refine hs.active p fun hidle => ?_
    rw [hidle] at hp
    rcases hp with hp | ⟨m, hm⟩
    · cases hp
    · exact hm
  refine ⟨hs.snapshots, hs.ids, hs.active, fun p t ht => ?_, hs.candidates, fun i p m hm => ?_⟩
  · have hp := hactive p (.inl (by rw [ht]; rfl))
    exact ⟨(hs.clock p t ht).1.trans hle, hlease p hp t ht⟩
  · obtain ⟨hsole, htime⟩ := hs.claimed i p m hm
    refine ⟨hsole, ?_⟩
    have hdue := hdue p (hactive p (.inr ⟨m, htime⟩))
    have hid : m.id = i := by rw [hsole.1]; exact hs.ids i
    revert htime hdue
    dsimp only
    cases s.phases p with
    | submitting slots =>
      rintro ⟨x, hx, rfl, -, hu⟩ hdue
      refine ⟨x, hx, rfl, hdue x hx ?_, hu⟩
      rw [hid, hm]
      rfl
    | _ => exact fun htime _ => htime

/-- **A worker stops**, or gives up its claim. -/
theorem Inv.stop {s : Sys} (hs : Inv n s) (p : ℕ) :
    Inv n { s with
      msgs := fun i => (s.msgs i).go p { next := .idle }
      phases := Function.update s.phases p .idle } := by
  have hother : ∀ {i q m}, claimedBy ((s.msgs i).go p { next := .idle }) q = some m →
      q ≠ p ∧ claimedBy (s.msgs i) q = some m := by
    intro i q m hm
    by_cases hq : q = p
    · subst hq
      unfold claimedBy at hm
      rw [Sys.go_procs, Function.update_self] at hm
      cases hm
    · unfold claimedBy at hm ⊢
      rw [Sys.go_procs, Function.update_of_ne hq] at hm
      exact ⟨hq, hm⟩
  refine ⟨fun i => ?_, hs.ids, ?_, ?_, fun i q m hm worker now hc => ?_, fun i q m hm => ?_⟩
  · exact (Move.become _ fun m hm => by cases hm).snapshots (hs.snapshots i)
  · rw [Function.forall_update_iff s.phases (p := fun q x => x ≠ .idle → q < n)]
    exact ⟨fun h => absurd rfl h, fun q _ => hs.active q⟩
  · rw [Function.forall_update_iff s.phases (p := fun _ x => ∀ t, x.claimedAt = some t →
      t ≤ s.clock ∧ s.clock < t + dispatchLease)]
    exact ⟨fun t ht => (by cases ht), fun q _ => hs.clock q⟩
  · dsimp only at hc ⊢
    rw [Sys.go_procs] at hc
    by_cases hq : q = p
    · subst hq
      rw [Function.update_self] at hc
      cases hc
    · rw [Function.update_of_ne hq] at hc ⊢
      exact hs.candidates i q m hm worker now hc
  · obtain ⟨hq, hm⟩ := hother hm
    obtain ⟨hsole, htime⟩ := hs.claimed i q m hm
    dsimp only
    rw [Function.update_of_ne hq]
    refine ⟨⟨hsole.1, fun q' hq' m' hm' => ?_⟩, htime⟩
    rcases update_cases contending hm' with ⟨-, hn⟩ | ⟨-, hn⟩
    · cases hn
    · exact hsole.2 q' hq' m' hn

section phases
variable {s : Sys} (hs : Inv n s) {p : ℕ}
include hs

/-- A claim starts. -/
theorem Inv.claim (hp : s.phases p = .idle) (hn : p < n) :
    Inv n { s with phases := Function.update s.phases p (.selecting s.clock []) } := by
  have hlease : (0 : ℤ) < dispatchLease := by decide
  refine hs.setPhase (fun _ => hn) (fun t ht => ?_) (fun i m hm worker now hc => ?_) fun i m hm =>
    ?_
  · cases ht
    exact ⟨le_refl _, by linarith⟩
  · have hat := (hs.candidates i p m hm worker now hc).2
    rw [hp] at hat
    cases hat
  · have htime := (hs.claimed i p m hm).2
    rw [hp] at htime
    exact htime.elim

theorem Inv.collect {now : Time} {cs : List String} (hp : s.phases p = .selecting now cs) :
    Inv n { s with phases := Function.update s.phases p (.leasing now cs []) } := by
  have hclock := hs.clock p
  have hcand := fun i => hs.candidates i p
  have hclaim := fun i => hs.claimed i p
  rw [hp] at hclock
  simp only [hp] at hcand hclaim
  exact hs.setPhase (fun _ => hs.active p (by rw [hp]; intro h; cases h)) hclock hcand
    fun i m hm => (hclaim i m hm).2.elim

/-- The loop starts: every turn is before the end of the lease. -/
theorem Inv.loop {t₀ : Time} {batch : List Message} (hp : s.phases p = .leasing t₀ [] batch)
    (turns : Message → Turn) (hq : ∀ x ∈ schedule turns s.clock batch, x.due < t₀ + dispatchLease) :
    Inv n { s with
      phases := Function.update s.phases p (.submitting (schedule turns s.clock batch)) } := by
  refine hs.setPhase (fun _ => hs.active p (by rw [hp]; intro h; cases h)) (fun t ht => by cases ht)
    (fun i m hm worker now hc => ?_) fun i m hm => ?_
  · have hmem := (hs.candidates i p m hm worker now hc).1
    rw [hp] at hmem
    cases hmem
  · obtain ⟨-, htime⟩ := hs.claimed i p m hm
    rw [hp] at htime
    have hr := routed_of_working (working_of_claimedBy hm)
    obtain ⟨x, hx, hxm⟩ := schedule_complete turns s.clock htime.1 hr
    exact ⟨x, hx, hxm, le_due hx, _, htime.2, hq x hx⟩

/-- The loop is over: nothing is claimed any more. -/
theorem Inv.done {slots : List Slot} (hp : s.phases p = .submitting slots)
    (hidle : ∀ x ∈ slots, idleAt (s.msgs x.message.id) p) :
    Inv n { s with phases := Function.update s.phases p .idle } := by
  refine hs.setPhase (fun hne => absurd rfl hne) (fun t ht => by cases ht)
    (fun i m hm worker now hc => ?_) fun i m hm => ?_
  · have hmem := (hs.candidates i p m hm worker now hc).1
    rw [hp] at hmem
    cases hmem
  · obtain ⟨hsole, htime⟩ := hs.claimed i p m hm
    rw [hp] at htime
    obtain ⟨x, hx, rfl, -⟩ := htime
    have hid : x.message.id = i := by rw [hsole.1]; exact hs.ids i
    have hno := hidle x hx
    obtain ⟨hr, hproc⟩ := procs_of_claimedBy hm
    rw [hid] at hno
    unfold idleAt at hno
    rw [hproc] at hno
    cases hno

end phases

/-- **One step.** -/
theorem step_inv {s s' : Sys} {a : Action} (hs : Inv n s) (h : step n budget s a = some s')
    (hq : WithinLease n s a s') : Inv n s' := by
  cases a with
  | tick now =>
    dsimp only [step] at h
    split_ifs at h with hguard
    cases h
    exact hs.tick hguard.1 hguard.2 hq
  | claim p =>
    dsimp only [step] at h
    split at h
    · next hp =>
      split_ifs at h with hn
      cases h
      exact hs.claim hp hn
    · cases h
  | collect p =>
    dsimp only [step] at h
    split at h
    · next now cs hp =>
      cases h
      exact hs.collect hp
    · cases h
  | loop p turns =>
    dsimp only [step] at h
    split at h
    · next t₀ batch hp =>
      cases h
      dsimp only [WithinLease] at hq
      simp only [hp] at hq
      exact hs.loop hp turns hq
    · cases h
  | act i a =>
    dsimp only [step] at h
    split at h
    · cases h
    · next t ht =>
      obtain ⟨phase, hphase, rfl⟩ := Option.map_eq_some_iff.mp h
      exact hs.act ht hphase
  | done p =>
    dsimp only [step] at h
    split at h
    · next slots hp =>
      split_ifs at h with hidle
      cases h
      exact hs.done hp hidle
    · cases h
  | stop p =>
    cases h
    exact hs.stop p

/-- The workers, before the first tick of any of them. -/
def start (clock : Time) (c : String → NewMessage) : Sys :=
  ⟨clock, fun i => System.start (c i), fun _ => .idle⟩

theorem inv_start (clock : Time) {c : String → NewMessage} (hc : ∀ i, (c i).id = i) :
    Inv n (start clock c) where
  snapshots := fun i => start_snapshots (c i)
  ids := fun i => hc i
  active := fun p h => absurd rfl h
  clock := fun p t ht => by cases ht
  candidates := fun i p m hm worker now h => by cases h
  claimed := fun i p m h => by cases h

/-- **What the lease covers.** Every submit of a batch starts within the lease of its message
exactly if the claim and all that comes before the last submit of the batch take less than the
lease. And in every run in which no worker needs as long as that to come to the last message of its
batch, no message is selected by another claim before the worker that claimed it has submitted it.
-/
theorem lease_covers_batch (db : Db Message String Unit) (clock : Time) (c : String → NewMessage)
    (hc : ∀ i, (c i).id = i) (n : ℕ) (providers : List Capabilities) :
    (∀ as s (p : ℕ) (q : Request) (batch : List Message) (turns : Message → Turn) (claiming : Time),
      exec messages.step (Lib.Consumers.start db) as = some s → .returned p q batch ∈ s.log →
      (Covered (schedule turns (q.now + claiming) batch) ↔
        ∀ d, lastSubmit turns batch = some d → claiming + d < dispatchLease)) ∧
    ∀ as : List Action,
      Along (step n (budgetFor (totalTpsCeiling providers))) (WithinLease n) (start clock c) as →
      Always (step n (budgetFor (totalTpsCeiling providers))) NotSelected (start clock c) as := by
  constructor
  · intro as s p q batch turns claiming hrun hlog
    obtain ⟨-, -, hleased⟩ := ((messages_leasedFrom.always db as).last hrun).2 p q batch hlog
    exact covered_iff turns fun m hm => (hleased m hm).1
  · intro as h
    refine Along.always (I := Inv n) (fun _ h => h.notSelected) ?_ (inv_start clock hc) h
    intro s a s' hs h hq
    exact step_inv hs h hq

/-! ### A batch of five -/

theorem budget_orangeCm : budgetFor (totalTpsCeiling [orangeCm]) = 5 := by
  norm_num [budgetFor, totalTpsCeiling, orangeCm, pollInterval]

/-- A message that has been routed and waits to be submitted. -/
def queuedMessage (id : String) : Message :=
  { accept { sampleMessage with id := id } with
    state := .queued, routeId := some "r1", providerId := some "p1" }

def fiveQueued : Db Message String Unit where
  rows := [queuedMessage "m1", queuedMessage "m2", queuedMessage "m3", queuedMessage "m4",
    queuedMessage "m5"]
  issued := ["m1", "m2", "m3", "m4", "m5"]
  rest := ()
  nodup := by decide
  issued_of_mem := by decide

/-- A tick of the Orange deployment, at the time 1. -/
def orangeRequest : Request := ⟨"w", 1, budgetFor (totalTpsCeiling [orangeCm])⟩

def claimFive :
    List (Lib.Consumers.Action Message String Unit Request (Option RoutingView × Time)) :=
  [⟨0, .claim orangeRequest⟩, ⟨0, .read⟩, ⟨0, .collect⟩, ⟨0, .lease (none, 1)⟩,
    ⟨0, .lease (none, 1)⟩, ⟨0, .lease (none, 1)⟩, ⟨0, .lease (none, 1)⟩, ⟨0, .lease (none, 1)⟩,
    ⟨0, .finish⟩]

/-- Every call takes as long as `d`; the first message's finds no token in the cache. -/
def turnsOf (d : CallDuration) (m : Message) : Turn where
  rows := .ok [sampleProvider]
  adapters := ["orange"]
  token := if m.id = "m1" then .fetched d else .cached
  call := d
  before := 0
  after := 0
  before_nonneg := le_refl _
  after_nonneg := le_refl _

def thirtySeconds : CallDuration := ⟨seconds 30, by decide, by decide⟩

theorem fiveSeconds_nonneg : 0 ≤ seconds 5 := by decide

theorem fiveSeconds_le : seconds 5 ≤ requestTimeout := by decide

def fiveSeconds : CallDuration := ⟨seconds 5, fiveSeconds_nonneg, fiveSeconds_le⟩

/-- The message as the tick has claimed it. -/
def claimedMessage (id : String) : Message :=
  written
    { state := some .routed
      attempts := some 1
      leaseOwner := some (some "w")
      leaseUntil := some (some (1 + dispatchLease)) } 1 (queuedMessage id)

def fiveClaimed : List Message := ["m1", "m2", "m3", "m4", "m5"].map claimedMessage

theorem claims_five : ∃ s, exec messages.step (Lib.Consumers.start fiveQueued) claimFive = some s ∧
    .returned 0 orangeRequest fiveClaimed ∈ s.log := by
  have hq : orangeRequest = ⟨"w", 1, 5⟩ := congrArg (Request.mk "w" 1) budget_orangeCm
  unfold claimFive
  rw [hq]
  obtain ⟨s, hs, hlog⟩ : ∃ s, exec messages.step (Lib.Consumers.start fiveQueued)
      [⟨0, .claim ⟨"w", 1, 5⟩⟩, ⟨0, .read⟩, ⟨0, .collect⟩, ⟨0, .lease (none, 1)⟩,
        ⟨0, .lease (none, 1)⟩, ⟨0, .lease (none, 1)⟩, ⟨0, .lease (none, 1)⟩, ⟨0, .lease (none, 1)⟩,
        ⟨0, .finish⟩] = some s ∧
      s.log.head? = some (.returned 0 ⟨"w", 1, 5⟩ fiveClaimed) := exec_eval rfl
  exact ⟨s, hs, List.mem_of_mem_head? hlog⟩

/-- The first tick routes the message `m1`, the second claims it, and submits it after five seconds.
-/
def quickTicks : List Action :=
  [.claim 0, .act "m1" ⟨0, .poll "w" 0⟩, .collect 0, .act "m1" ⟨0, .takeLease (some sampleView) 0⟩,
    .loop 0 (turnsOf fiveSeconds), .done 0, .tick 1, .claim 0, .act "m1" ⟨0, .poll "w" 1⟩,
      .collect 0,
    .act "m1" ⟨0, .takeLease none 1⟩, .loop 0 (turnsOf fiveSeconds), .tick (1 + seconds 5),
    .act "m1" ⟨0, .submit (.ok [sampleProvider]) ["orange"]⟩]

theorem lease_covers_batch_quick :
    Covered (schedule (turnsOf fiveSeconds) orangeRequest.now fiveClaimed) ∧
    Always (step 1 (budgetFor (totalTpsCeiling [orangeCm]))) NotSelected
      (start 0 fun id => { sampleMessage with id := id }) quickTicks := by
  obtain ⟨hone, hruns⟩ :=
    lease_covers_batch fiveQueued 0 (fun id => { sampleMessage with id := id })
    (fun _ => rfl) 1 [orangeCm]
  obtain ⟨s, hs, hlog⟩ := claims_five
  have hlast : lastSubmit (turnsOf fiveSeconds) fiveClaimed = some (seconds 25) := rfl
  refine ⟨?_, hruns quickTicks ?_⟩
  · have hcovered := hone _ _ _ _ _ (turnsOf fiveSeconds) 0 hs hlog
    rw [add_zero] at hcovered
    refine hcovered.mpr fun d hd => ?_
    rw [hlast] at hd
    cases hd
    decide
  · rw [budget_orangeCm]
    decide

/-- The fifth submit starts after 150 seconds. -/
theorem batch_outlasts_lease : ¬ ∀ (db : Db Message String Unit) (as) (s) (p : ℕ) (q : Request)
    (batch : List Message) (turns : Message → Turn),
    exec messages.step (Lib.Consumers.start db) as = some s → .returned p q batch ∈ s.log →
    q.budget = budgetFor (totalTpsCeiling [orangeCm]) → Covered (schedule turns q.now batch) := by
  intro h
  obtain ⟨s, hs, hlog⟩ := claims_five
  have hcovered := h _ _ _ _ _ _ (turnsOf thirtySeconds) hs hlog rfl
  have hlast : lastSubmit (turnsOf thirtySeconds) fiveClaimed = some (seconds 150) := rfl
  obtain ⟨x, hx, hsub, hdue⟩ := (schedule_lastSubmit _ orangeRequest.now fiveClaimed).2 _ hlast
  obtain ⟨-, -, hleased⟩ := ((messages_leasedFrom.always _ _).last hs).2 _ _ _ hlog
  have hmem := mem_of_schedule hx
  have hlt := hcovered x hx hsub _ ((hleased _ hmem.1).1 hmem.2)
  rw [hdue] at hlt
  exact absurd hlt (by decide)

end Vsms.Message.Batch
