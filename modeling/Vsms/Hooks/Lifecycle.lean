import Vsms.Lib.Runs
import Vsms.Hooks.Deliver
import Vsms.Hooks.Leases

/-! # One webhook attempt and everything that writes to it

The row of an attempt, and any number of processes over it: workers that claim it and write the
outcome of their delivery, and operators that replay it. Each reads the row once and later writes by
a compare-and-swap on the version it read, and any two steps of different processes may interleave.
A worker may stop at any point; the row is then claimed again after its lease.

Every write that commits is in the log, so the row's version is the length of the log. Hence
`superseded`: a worker whose row was claimed or replayed after its own claim holds an older version,
and what it writes is lost. The counter is the number of claims since the last replay (`claims`),
and `Counted` bounds it by the state of the row: the retryable failure that brings it to
`maxAttempts` makes the row dead. -/

namespace Vsms.Hooks.Lifecycle

open Vsms.Lib.Runs Vsms.Lib.Optimistic Vsms.Schema.Types Vsms.Schema.Webhooks
open Vsms.Hooks.Claim Vsms.Hooks.Deliver Vsms.Hooks.Leases

/-! ## Replays -/

/-- Whether the deployment permits `hmac` endpoints. -/
inductive HmacWebhooks
  | permitted
  | disabled
  deriving DecidableEq, Repr

inductive ApiError
  | conflict (message : String)
  | validation (message : String)
  deriving DecidableEq, Repr

def HmacWebhooks.require (gate : HmacWebhooks) (what : String) : Except ApiError Unit :=
  match gate with
  | .permitted => .ok ()
  | .disabled => .error (.validation ("auth_method_disabled: this deployment does not permit " ++
      "hmac_webhooks (auth.methods), so " ++ what ++ ". Use a sealed endpoint"))

/-- `{:?}` of a state. -/
def debugState : AttemptState → String
  | .pending => "pending"
  | .delivering => "delivering"
  | .succeeded => "succeeded"
  | .failed => "failed"
  | .dead => "dead"

/-- **The checks of `replay_attempt`**, on the row it read and that row's endpoint. -/
def checkReplay (gate : HmacWebhooks) (a : WebhookAttempt) (endpoint : Option WebhookEndpoint) :
    Except ApiError Unit :=
  if a.state = .failed ∨ a.state = .dead then
    if gate = .disabled ∧ endpoint.any (·.deliveryMode = .hmac) then
      gate.require "an hmac endpoint's attempt cannot be replayed (replayWebhookAttempt)"
    else .ok ()
  else .error (.conflict ("webhook attempt " ++ a.id ++ " is " ++ debugState a.state ++
    "; replay only applies to a failed or dead delivery"))

theorem checkReplay_ok {gate : HmacWebhooks} {a : WebhookAttempt}
    {endpoint : Option WebhookEndpoint} (h : checkReplay gate a endpoint = .ok ()) :
    a.state = .failed ∨ a.state = .dead := by
  unfold checkReplay at h
  split_ifs at h with hs
  · exact hs
  · exact hs

/-! ## The system -/

/-- What `enqueue` decides about an attempt before it stores it. -/
structure NewAttempt where
  id : String
  endpointId : String
  sourceEventId : String
  eventType : String
  payload : String
  createdAt : Time

/-- The row it creates. -/
def enqueue (c : NewAttempt) : WebhookAttempt where
  id := c.id
  endpointId := c.endpointId
  sourceEventId := c.sourceEventId
  eventType := c.eventType
  payload := c.payload
  state := .pending
  attempts := 0
  leaseOwner := none
  leaseUntil := none
  nextAttemptAt := some c.createdAt
  lastStatusCode := none
  lastError := none
  lastAttemptAt := none
  deliveredAt := none
  version := 0

/-- What one process is doing with the attempt. -/
inductive Proc
  | idle
  | candidate (a : WebhookAttempt) (worker : String) (now : Time)
      (h : dueAttempts now a ∨ expiredLeases now a)
  | delivering (a : WebhookAttempt) (h : a.state = .delivering)
  | replaying (a : WebhookAttempt) (now : Time) (h : a.state = .failed ∨ a.state = .dead)

/-- The copy of the row a process holds. -/
def Proc.held : Proc → Option WebhookAttempt
  | .idle => none
  | .candidate a _ _ _ => some a
  | .delivering a _ => some a
  | .replaying a _ _ => some a

/-- The writes that commit, by the process that made them. A claim of an attempt that is
`delivering` is a reclaim. -/
inductive Event
  | claimed (p : ℕ)
  | reclaimed (p : ℕ)
  | replayed (p : ℕ)
  | outcome (p : ℕ) (o : Outcome)

/-- The row, the processes and the writes, newest first. -/
structure Sys extends Shared WebhookAttempt Proc where
  log : List Event

def start (c : NewAttempt) : Sys where
  row := enqueue c
  procs := fun _ => .idle
  log := []

/-- The next thing a process does. `dbNow` is the database's clock, `now` the process's own. -/
inductive Op
  /-- The row is selected by a claim. -/
  | poll (worker : String) (now : Time)
  | takeLease (dbNow : Time)
  /-- `write_outcome` -/
  | outcome (o : Outcome) (now dbNow : Time)
  /-- `replay_attempt`, up to its write. -/
  | replay (gate : HmacWebhooks) (endpoint : Option WebhookEndpoint) (now : Time)
  /-- Its writes; they are rolled back if the one to the endpoint loses its race. -/
  | replayWrite (endpointSaved : Bool) (dbNow : Time)
  /-- The process stops, or `deliver_one` leaves the row for a later claim. -/
  | leave

structure Action where
  proc : ℕ
  op : Op

/-- A write: the copy it was made from, the patch, and how the process goes on if it commits. -/
structure Plan where
  held : WebhookAttempt
  set : UpdateWebhookAttemptInput
  dbNow : Time
  next : WebhookAttempt → Proc
  event : Event

def claimEvent (p : ℕ) (a : WebhookAttempt) : Event :=
  if a.state = .delivering then .reclaimed p else .claimed p

def deliveringOrIdle (a : WebhookAttempt) : Proc :=
  if h : a.state = .delivering then .delivering a h else .idle

variable (maxAttempts : ℤ)

/-- **The writes of process `p`.** -/
def plan (p : ℕ) : Proc → Op → Option Plan
  | .candidate a worker now _, .takeLease dbNow =>
    (takeLease a worker now).map fun set => ⟨a, set, dbNow, deliveringOrIdle, claimEvent p a⟩
  | .delivering a _, .outcome o now dbNow =>
    some ⟨a, attemptPatch a maxAttempts o now, dbNow, fun _ => .idle, .outcome p o⟩
  | .replaying a now _, .replayWrite true dbNow =>
    some ⟨a, replayPatch now, dbNow, fun _ => .idle, .replayed p⟩
  | _, _ => none

/-- **The other steps.** -/
def advance (s : Sys) : Proc → Op → Option Proc
  | .idle, .poll worker now =>
    if h : dueAttempts now s.row ∨ expiredLeases now s.row then some (.candidate s.row worker now h)
    else none
  | .idle, .replay gate endpoint now =>
    match h : checkReplay gate s.row endpoint with
    | .ok () => some (.replaying s.row now (checkReplay_ok h))
    | .error _ => some .idle
  | .replaying _ _ _, .replayWrite false _ => some .idle
  | _, .leave => some .idle
  | _, _ => none

def Sys.go (s : Sys) (p : ℕ) (x : Proc) : Sys where
  toShared := s.toShared.become p x
  log := s.log

/-- Commit the write `w` of process `p` as the row `row`. -/
def Sys.wrote (s : Sys) (p : ℕ) (w : Plan) (row : WebhookAttempt) : Sys where
  toShared := s.toShared.commit row p (w.next row)
  log := w.event :: s.log

/-- Try the write: one that does not commit is logged and dropped. -/
def Sys.write (s : Sys) (p : ℕ) (w : Plan) : Sys :=
  match s.row.update w.held.version w.set w.dbNow with
  | .ok row => s.wrote p w row
  | .error _ => s.go p .idle

/-- **One step of the system.** -/
def step (s : Sys) (a : Action) : Option Sys :=
  match plan maxAttempts a.proc (s.procs a.proc) a.op with
  | some w => some (s.write a.proc w)
  | none => (advance s (s.procs a.proc) a.op).map (s.go a.proc)

@[simp] theorem Sys.go_row (s : Sys) (p : ℕ) (x : Proc) : (s.go p x).row = s.row := rfl
@[simp] theorem Sys.go_procs (s : Sys) (p : ℕ) (x : Proc) :
    (s.go p x).procs = Function.update s.procs p x := rfl
@[simp] theorem Sys.go_log (s : Sys) (p : ℕ) (x : Proc) : (s.go p x).log = s.log := rfl
@[simp] theorem Sys.wrote_row (s : Sys) (p : ℕ) (w : Plan) (row : WebhookAttempt) :
    (s.wrote p w row).row = row := rfl
@[simp] theorem Sys.wrote_procs (s : Sys) (p : ℕ) (w : Plan) (row : WebhookAttempt) :
    (s.wrote p w row).procs = Function.update s.procs p (w.next row) := rfl
@[simp] theorem Sys.wrote_log (s : Sys) (p : ℕ) (w : Plan) (row : WebhookAttempt) :
    (s.wrote p w row).log = w.event :: s.log := rfl

/-! ## The promises -/

/-- The claims since the last replay. -/
def claims : List Event → ℕ
  | [] => 0
  | .claimed _ :: log => claims log + 1
  | .replayed _ :: _ => 0
  | _ :: log => claims log

/-- The row was claimed by another process, or replayed, after the last claim of process `p`. -/
def superseded (p : ℕ) : List Event → Bool
  | [] => false
  | .claimed q :: _ => q ≠ p
  | .reclaimed q :: _ => q ≠ p
  | .replayed _ :: _ => true
  | .outcome _ _ :: log => superseded p log

/-- **What one step promises.** -/
structure Keeps (s : Sys) (a : Action) (s' : Sys) : Prop where
  edge : s'.row.state = s.row.state ∨ (s.row.state, s'.row.state) ∈ attemptStateTransitions
  succeeded : s.row.state = .succeeded → s'.row = s.row
  claimed : ∀ p, s'.log = .claimed p :: s.log →
    (s.row.state = .pending ∨ s.row.state = .failed) ∧ s'.row.attempts = s.row.attempts + 1
  reclaimed : ∀ p, s'.log = .reclaimed p :: s.log →
    s.row.state = .delivering ∧ s'.row.attempts = s.row.attempts
  retryable : ∀ p status message, s'.log = .outcome p (.retryable status message) :: s.log →
    (s'.row.state = .dead ↔ s.row.attempts = maxAttempts) ∧
      (s'.row.state = .dead ∨ s'.row.state = .failed)
  superseded : ∀ o now dbNow, a.op = .outcome o now dbNow → superseded a.proc s.log = true →
    s'.row = s.row ∧ s'.log = s.log

/-! ## What a step can do -/

/-- **The writes, one constructor a writer.** -/
inductive Writes (p : ℕ) : Proc → Op → Plan → Prop
  | claim {a worker now h dbNow set} (hs : a.state = .pending ∨ a.state = .failed)
      (hset : set.state = some .delivering) (hn : set.attempts = some (a.attempts + 1)) :
      Writes p (.candidate a worker now h) (.takeLease dbNow)
        ⟨a, set, dbNow, deliveringOrIdle, .claimed p⟩
  | reclaim {a worker now h dbNow set} (hs : a.state = .delivering)
      (hset : set.state = some .delivering) (hn : set.attempts = none) :
      Writes p (.candidate a worker now h) (.takeLease dbNow)
        ⟨a, set, dbNow, deliveringOrIdle, .reclaimed p⟩
  | outcome {a h o now dbNow} :
      Writes p (.delivering a h) (.outcome o now dbNow)
        ⟨a, attemptPatch a maxAttempts o now, dbNow, fun _ => .idle, .outcome p o⟩
  | replay {a now h dbNow} :
      Writes p (.replaying a now h) (.replayWrite true dbNow)
        ⟨a, replayPatch now, dbNow, fun _ => .idle, .replayed p⟩

variable {maxAttempts}

theorem plan_writes {p : ℕ} {x : Proc} {op : Op} {w : Plan} (h : plan maxAttempts p x op = some w) :
    Writes maxAttempts p x op w := by
  unfold plan at h
  split at h
  · next a worker now hc dbNow =>
    obtain ⟨set, hset, rfl⟩ := Option.map_eq_some_iff.mp h
    unfold takeLease at hset
    unfold claimEvent
    split at hset
    · next hs =>
      cases hset
      rw [if_neg (by rw [hs]; exact nofun)]
      exact .claim (.inl hs) rfl rfl
    · next hs =>
      cases hset
      rw [if_neg (by rw [hs]; exact nofun)]
      exact .claim (.inr hs) rfl rfl
    · next hs =>
      cases hset
      rw [if_pos hs]
      exact .reclaim hs rfl rfl
    · cases hset
  · cases h
    exact .outcome
  · cases h
    exact .replay
  · cases h

theorem Writes.held_eq {p : ℕ} {x : Proc} {op : Op} {w : Plan} (h : Writes maxAttempts p x op w) :
    x.held = some w.held := by
  cases h <;> rfl

theorem deliveringOrIdle_cases (a : WebhookAttempt) :
    deliveringOrIdle a = .idle ∨ ∃ h, deliveringOrIdle a = .delivering a h := by
  unfold deliveringOrIdle
  split_ifs with h
  · exact Or.inr ⟨h, rfl⟩
  · exact Or.inl rfl

/-- A process that wrote keeps at most the row it wrote. -/
theorem Writes.held_next {p : ℕ} {x : Proc} {op : Op} {w : Plan} (h : Writes maxAttempts p x op w)
    {row a : WebhookAttempt} (ha : (w.next row).held = some a) : a = row := by
  have hclaim : (deliveringOrIdle row).held = some a → a = row := by
    intro ha
    rcases deliveringOrIdle_cases row with hi | ⟨hr, hi⟩
    · rw [hi] at ha
      cases ha
    · rw [hi] at ha
      cases ha
      rfl
  cases h with
  | claim => exact hclaim ha
  | reclaim => exact hclaim ha
  | outcome => cases ha
  | replay => cases ha

theorem advance_held {s : Sys} {x x' : Proc} {op : Op} (h : advance s x op = some x')
    {a : WebhookAttempt} (ha : x'.held = some a) : a = s.row := by
  unfold advance at h
  split at h
  · split_ifs at h
    cases h
    exact (Option.some.inj ha).symm
  · split at h
    · cases h
      exact (Option.some.inj ha).symm
    · cases h
      cases ha
  all_goals
    cases h
    try cases ha

/-- A process moves on to a delivery only by a claim. -/
theorem advance_ne_delivering {s : Sys} {x : Proc} {op : Op} {a : WebhookAttempt}
    {h : a.state = .delivering} : advance s x op ≠ some (.delivering a h) := by
  intro ha
  unfold advance at ha
  split at ha
  · split_ifs at ha
    cases ha
  · split at ha <;> cases ha
  all_goals cases ha

/-- **What one step can do**, where every copy is a snapshot: a write that commits was made from the
row it replaces. -/
inductive Steps (maxAttempts : ℤ) (s : Sys) (a : Action) : Sys → Prop
  | wrote (w : Plan) (hw : Writes maxAttempts a.proc (s.procs a.proc) a.op w)
      (hrow : w.held = s.row)
      (hl : Legal s.row.state (w.set.state.getD s.row.state)) :
      Steps maxAttempts s a (s.wrote a.proc w (written w.set w.dbNow s.row))
  | dropped : Steps maxAttempts s a (s.go a.proc .idle)
  | moved (x : Proc) (hx : advance s (s.procs a.proc) a.op = some x) :
      Steps maxAttempts s a (s.go a.proc x)

theorem step_cases {s s' : Sys} {a : Action} (hs : Snapshots Proc.held s.toShared)
    (h : step maxAttempts s a = some s') : Steps maxAttempts s a s' := by
  unfold step at h
  cases hp : plan maxAttempts a.proc (s.procs a.proc) a.op with
  | none =>
    rw [hp] at h
    obtain ⟨x, hx, rfl⟩ := Option.map_eq_some_iff.mp h
    exact .moved x hx
  | some w =>
    rw [hp] at h
    cases h
    have hw := plan_writes hp
    unfold Sys.write
    split
    · next row hok =>
      obtain ⟨hv, hl, rfl⟩ := update_ok hok
      exact .wrote w hw ((hs a.proc w.held hw.held_eq).eq hv.symm) hl
    · exact .dropped

theorem step_snapshots {s s' : Sys} {a : Action} (hs : Snapshots Proc.held s.toShared)
    (h : step maxAttempts s a = some s') : Snapshots Proc.held s'.toShared := by
  cases step_cases hs h with
  | wrote w hw hrow hl =>
    refine (Move.commit w.held _ _ hw.held_eq ?_ ?_ fun a ha => hw.held_next ha).snapshots hs
    · rw [hrow]
    · simp
  | dropped => exact (Move.become _ fun a ha => by cases ha).snapshots hs
  | moved x hx => exact (Move.become x fun a ha => .inr (advance_held hx ha)).snapshots hs

/-! ## The invariant -/

/-- The bound on the counter, by the state of the row. -/
def Counted (maxAttempts : ℤ) (a : WebhookAttempt) : Prop :=
  (a.state = .pending → a.attempts = 0) ∧ (a.state = .failed → a.attempts < maxAttempts) ∧
    a.attempts ≤ maxAttempts

structure Inv (maxAttempts : ℤ) (s : Sys) : Prop where
  snapshots : Snapshots Proc.held s.toShared
  version : s.row.version = s.log.length
  count : s.row.attempts = claims s.log
  counted : Counted maxAttempts s.row
  own : ∀ p a h, s.procs p = .delivering a h → ∃ newer older, s.log = newer ++ older ∧
    a.version = older.length ∧ superseded p older = false

theorem inv_start (hmax : 1 ≤ maxAttempts) (c : NewAttempt) : Inv maxAttempts (start c) where
  snapshots := fun p a h => by cases h
  version := rfl
  count := rfl
  counted := by
    refine ⟨fun _ => rfl, nofun, ?_⟩
    change (0 : ℤ) ≤ maxAttempts
    omega
  own := fun p a h hp => by cases hp

/-- **What an outcome does to the state.** -/
theorem attemptPatch_state (a : WebhookAttempt) (maxAttempts : ℤ) (o : Outcome) (now : Time) :
    (attemptPatch a maxAttempts o now).attempts = none ∧
      ((attemptPatch a maxAttempts o now).state = some .succeeded ∨
        (attemptPatch a maxAttempts o now).state = some .dead ∨
        ((attemptPatch a maxAttempts o now).state = some .failed ∧ a.attempts < maxAttempts)) := by
  unfold attemptPatch
  cases o with
  | success status => exact ⟨rfl, .inl rfl⟩
  | gone => exact ⟨rfl, .inr (.inl rfl)⟩
  | malformedPayload message => exact ⟨rfl, .inr (.inl rfl)⟩
  | retryable status message =>
    dsimp only
    split_ifs with hm
    · exact ⟨rfl, .inr (.inl rfl)⟩
    · exact ⟨rfl, .inr (.inr ⟨rfl, by omega⟩)⟩

section wrote
variable {s : Sys} (hs : Inv maxAttempts s) {p : ℕ} {op : Op} {w : Plan}
  (hw : Writes maxAttempts p (s.procs p) op w) (hrow : w.held = s.row)
include hs hw hrow

/-- The counter after a write. -/
theorem Inv.wrote_count : w.set.attempts.getD s.row.attempts = claims (w.event :: s.log) := by
  have hcount := hs.count
  generalize s.procs p = x at hw
  cases hw with
  | claim hst hset hn =>
    dsimp only at hrow hn ⊢
    rw [hn, hrow, claims, Nat.cast_succ, ← hcount]
    rfl
  | reclaim hst hset hn =>
    dsimp only at hn ⊢
    rw [hn]
    exact hcount
  | outcome =>
    dsimp only
    rw [(attemptPatch_state _ _ _ _).1]
    exact hcount
  | replay => rfl

theorem Inv.wrote_counted (hmax : 1 ≤ maxAttempts) :
    Counted maxAttempts (written w.set w.dbNow s.row) := by
  obtain ⟨hpend, hfail, hle⟩ := hs.counted
  unfold Counted
  rw [written_state, written_attempts]
  generalize s.procs p = x at hw
  cases hw with
  | claim hst hset hn =>
    dsimp only at hrow hset hn ⊢
    subst hrow
    rw [hset, hn]
    refine ⟨nofun, nofun, ?_⟩
    change s.row.attempts + 1 ≤ maxAttempts
    rcases hst with h | h
    · have := hpend h
      omega
    · have := hfail h
      omega
  | reclaim hst hset hn =>
    dsimp only at hset hn ⊢
    rw [hset, hn]
    exact ⟨nofun, nofun, hle⟩
  | @outcome a _ o now dbNow =>
    dsimp only at hrow ⊢
    subst hrow
    obtain ⟨hn, h | h | ⟨h, hlt⟩⟩ := attemptPatch_state s.row maxAttempts o now
    · rw [hn, h]
      exact ⟨nofun, nofun, hle⟩
    · rw [hn, h]
      exact ⟨nofun, nofun, hle⟩
    · rw [hn, h]
      exact ⟨nofun, fun _ => hlt, hle⟩
  | replay =>
    refine ⟨fun _ => rfl, nofun, ?_⟩
    change (0 : ℤ) ≤ maxAttempts
    omega

end wrote

/-- The log of a process that delivers: its own claim, and what came after. -/
theorem Inv.wrote_own {s : Sys} (hs : Inv maxAttempts s) {p : ℕ} {op : Op} {w : Plan}
    (hw : Writes maxAttempts p (s.procs p) op w) {q : ℕ} {a : WebhookAttempt}
    {h : a.state = .delivering}
    (hq : (s.wrote p w (written w.set w.dbNow s.row)).procs q = .delivering a h) :
    ∃ newer older, w.event :: s.log = newer ++ older ∧ a.version = older.length ∧
      superseded q older = false := by
  rw [Sys.wrote_procs] at hq
  by_cases hqp : q = p
  · subst hqp
    have hnext : w.next (written w.set w.dbNow s.row) = .delivering a h := by
      rwa [Function.update_self] at hq
    have ha : a = written w.set w.dbNow s.row := hw.held_next (by rw [hnext]; rfl)
    refine ⟨[], w.event :: s.log, rfl, ?_, ?_⟩
    · rw [ha, written_version, hs.version]
      rfl
    · generalize s.procs q = x at hw
      cases hw with
      | claim => simp [superseded]
      | reclaim => simp [superseded]
      | outcome => cases hnext
      | replay => cases hnext
  · rw [Function.update_of_ne hqp] at hq
    obtain ⟨newer, older, hlog, hv, hsup⟩ := hs.own q a h hq
    exact ⟨w.event :: newer, older, by rw [hlog]; rfl, hv, hsup⟩

theorem Inv.go {s : Sys} (hs : Inv maxAttempts s) {p : ℕ} {x : Proc}
    (hsnap : Snapshots Proc.held (s.go p x).toShared) (hx : ∀ a h, x ≠ .delivering a h) :
    Inv maxAttempts (s.go p x) := by
  refine ⟨hsnap, hs.version, hs.count, hs.counted, fun q a h hq => ?_⟩
  rw [Sys.go_procs] at hq
  by_cases hqp : q = p
  · subst hqp
    rw [Function.update_self] at hq
    exact absurd hq (hx a h)
  · rw [Function.update_of_ne hqp] at hq
    exact hs.own q a h hq

theorem step_inv (hmax : 1 ≤ maxAttempts) {s s' : Sys} {a : Action} (hs : Inv maxAttempts s)
    (h : step maxAttempts s a = some s') : Inv maxAttempts s' := by
  have hsnap := step_snapshots hs.snapshots h
  cases step_cases hs.snapshots h with
  | wrote w hw hrow hl =>
    refine ⟨hsnap, ?_, ?_, hs.wrote_counted hw hrow hmax, fun q a h hq => hs.wrote_own hw hq⟩
    · rw [Sys.wrote_row, Sys.wrote_log, written_version, hs.version, List.length_cons]
    · rw [Sys.wrote_row, Sys.wrote_log, written_attempts]
      exact hs.wrote_count hw hrow
  | dropped =>
    refine hs.go hsnap fun a h he => ?_
    cases he
  | moved x hx =>
    refine hs.go hsnap fun a h he => ?_
    rw [he] at hx
    exact advance_ne_delivering hx

/-! ## The promises hold -/

/-- A step that writes nothing keeps them all. -/
theorem keeps_go {s : Sys} (a : Action) (x : Proc) : Keeps maxAttempts s a (s.go a.proc x) := by
  have hne {e : Event} (h : s.log = e :: s.log) : False := by
    have := congrArg List.length h
    simp at this
  exact ⟨.inl rfl, fun _ => rfl, fun _ h => (hne h).elim, fun _ h => (hne h).elim,
    fun _ _ _ h => (hne h).elim, fun _ _ _ _ _ => ⟨rfl, rfl⟩⟩

/-- A retryable failure at the last attempt is the end. -/
theorem attemptPatch_retryable (a : WebhookAttempt) (maxAttempts : ℤ) (status : Option ℕ)
    (message : String) (now : Time) (hle : a.attempts ≤ maxAttempts) :
    ((attemptPatch a maxAttempts (.retryable status message) now).state = some .dead ∧
      a.attempts = maxAttempts) ∨
    ((attemptPatch a maxAttempts (.retryable status message) now).state = some .failed ∧
      a.attempts ≠ maxAttempts) := by
  unfold attemptPatch
  dsimp only
  split_ifs with hm
  · exact .inl ⟨rfl, by omega⟩
  · exact .inr ⟨rfl, by omega⟩

section writes
variable {p : ℕ} {x : Proc} {op : Op} {w : Plan} (hw : Writes maxAttempts p x op w)
include hw

/-- Nobody has a row that succeeded in hand to write to it. -/
theorem Writes.not_succeeded : w.held.state ≠ .succeeded := by
  intro hs
  cases hw with
  | claim hst hset hn =>
    dsimp only at hs
    rw [hs] at hst
    rcases hst with h | h <;> cases h
  | reclaim hst hset hn =>
    dsimp only at hs
    rw [hs] at hst
    cases hst
  | @outcome b hb =>
    dsimp only at hs
    rw [hs] at hb
    cases hb
  | @replay b now hb =>
    dsimp only at hs
    rw [hs] at hb
    rcases hb with h | h <;> cases h

theorem Writes.claimed {q : ℕ} (he : w.event = .claimed q) :
    (w.held.state = .pending ∨ w.held.state = .failed) ∧
      w.set.attempts = some (w.held.attempts + 1) := by
  cases hw with
  | claim hst hset hn => exact ⟨hst, hn⟩
  | _ => cases he

theorem Writes.reclaimed {q : ℕ} (he : w.event = .reclaimed q) :
    w.held.state = .delivering ∧ w.set.attempts = none := by
  cases hw with
  | reclaim hst hset hn => exact ⟨hst, hn⟩
  | _ => cases he

theorem Writes.outcome_set {q : ℕ} {o : Outcome} (he : w.event = .outcome q o) :
    ∃ now, w.set = attemptPatch w.held maxAttempts o now := by
  cases hw with
  | outcome =>
    cases he
    exact ⟨_, rfl⟩
  | _ => cases he

end writes

/-- **An outcome that comes too late is lost**: the row has a newer version. -/
theorem Inv.version_lt {s : Sys} (hs : Inv maxAttempts s) {p : ℕ} {b : WebhookAttempt}
    {hb : b.state = .delivering} (hp : s.procs p = .delivering b hb)
    (hsup : superseded p s.log = true) : b.version < s.row.version := by
  obtain ⟨newer, older, hlog, hv, hold⟩ := hs.own p b hb hp
  have hne : newer ≠ [] := by
    rintro rfl
    rw [hlog, List.nil_append, hold] at hsup
    cases hsup
  have hpos := List.length_pos_iff.mpr hne
  rw [hs.version, hv, hlog, List.length_append]
  omega

theorem Inv.keeps {s s' : Sys} {a : Action} (hs : Inv maxAttempts s)
    (h : step maxAttempts s a = some s') : Keeps maxAttempts s a s' := by
  cases step_cases hs.snapshots h with
  | dropped => exact keeps_go a _
  | moved x hx => exact keeps_go a x
  | wrote w hw hrow hl =>
    refine ⟨?_, fun hsucc => ?_, fun p hp => ?_, fun p hp => ?_, fun p status message hp => ?_,
      fun o now dbNow hop hsup => ?_⟩
    · rw [Sys.wrote_row, written_state]
      rcases hl with hl | hl
      · exact .inl hl
      · exact .inr hl
    · rw [← hrow] at hsucc
      exact absurd hsucc hw.not_succeeded
    · obtain ⟨hst, hn⟩ := hw.claimed (List.cons.inj hp).1
      rw [Sys.wrote_row, written_attempts, hn, ← hrow]
      exact ⟨hst, rfl⟩
    · obtain ⟨hst, hn⟩ := hw.reclaimed (List.cons.inj hp).1
      rw [Sys.wrote_row, written_attempts, hn, ← hrow]
      exact ⟨hst, rfl⟩
    · obtain ⟨now, hset⟩ := hw.outcome_set (List.cons.inj hp).1
      rw [Sys.wrote_row, written_state, hset, hrow]
      rcases attemptPatch_retryable s.row maxAttempts status message now hs.counted.2.2 with
        ⟨hd, hn⟩ | ⟨hd, hn⟩
      · rw [hd]
        exact ⟨iff_of_true rfl hn, .inl rfl⟩
      · rw [hd]
        exact ⟨iff_of_false nofun hn, .inr rfl⟩
    · generalize hx : s.procs a.proc = x at hw
      rw [hop] at hw
      cases hw with
      | @outcome b hb =>
        have hlt := hs.version_lt hx hsup
        dsimp only at hrow
        rw [hrow] at hlt
        exact absurd hlt (lt_irrefl _)

/-- **The life of a webhook attempt.** In every run the counter is the number of claims since the
last replay and at most `maxAttempts`, and every step keeps what `Keeps` says. -/
theorem attempt_lifecycle (maxAttempts : ℤ) (hmax : 1 ≤ maxAttempts) (c : NewAttempt)
    (as : List Action) :
    Always (step maxAttempts) (fun s => s.row.attempts = claims s.log ∧
      s.row.attempts ≤ maxAttempts)
      (start c) as ∧
    Along (step maxAttempts) (Keeps maxAttempts) (start c) as := by
  constructor
  · refine (along_true _ as).always (I := Inv maxAttempts)
      (fun s hs => ⟨hs.count, hs.counted.2.2⟩) ?_
      (inv_start hmax c)
    intro s a s' hs h _
    exact step_inv hmax hs h
  · have htrue : Along (step maxAttempts) (fun _ _ _ => True) (start c) as := along_true _ as
    refine htrue.of_invariant (I := Inv maxAttempts) (P := Keeps maxAttempts) ?_ ?_
      (inv_start hmax c)
    · intro s a s' hs h _
      exact hs.keeps h
    · intro s a s' hs h _
      exact step_inv hmax hs h

/-- One delivery that fails: with one attempt allowed the row is dead, and an operator replays it.
-/
def deadThenReplayed : List Action :=
  [⟨0, .poll "w" 1⟩, ⟨0, .takeLease 1⟩, ⟨0, .outcome (.retryable none "refused") 2 2⟩,
    ⟨1, .replay .permitted none 3⟩, ⟨1, .replayWrite true 3⟩]

def sampleAttempt : NewAttempt := ⟨"a1", "e1", "ev1", "message.delivered", "1", 0⟩

theorem attempt_lifecycle_replayed :
    ((exec (step 1) (start sampleAttempt) deadThenReplayed).map fun s => s.row.state) =
        some .pending ∧
      Always (step 1) (fun s => s.row.attempts = claims s.log ∧ s.row.attempts ≤ 1)
        (start sampleAttempt) deadThenReplayed :=
  ⟨by decide, (attempt_lifecycle 1 (by decide) sampleAttempt deadThenReplayed).1⟩

end Vsms.Hooks.Lifecycle
