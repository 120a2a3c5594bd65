import Vsms.Lib.Guarded
import Vsms.Schema.Types

/-! # The `messages` table

The row, the patch a writer sets (`UpdateMessageInput`: a column left out is not touched), the table
of legal state changes and the two `BEFORE UPDATE` triggers of `0002_bootstrap`. Every writer goes
through `Message.update`: the patch, the version check and increment of `if_match`, the guard, and
the touch of `updated_at`. `Message.update_ok` says what a committed update has done. -/

namespace Vsms.Schema.Messages

open Vsms.Lib.Optimistic Vsms.Lib.Guarded Vsms.Schema.Types

structure Message where
  id : String
  appId : String
  clientRef : Option String
  idempotencyKey : Option String
  msisdn : String
  msisdnHash : String
  operator : OperatorCode
  senderIdValue : String
  messageClass : MessageClass
  priority : ℤ
  body : Option String
  bodyHash : String
  bodyLength : ℤ
  encoding : Encoding
  segments : ℤ
  state : MessageState
  stateReason : Option String
  routeId : Option String
  providerId : Option String
  providerMessageRef : Option String
  providerMessageRefAlt : Option String
  excludedRouteIds : Option String
  attempts : ℤ
  maxAttempts : ℤ
  leaseOwner : Option String
  leaseUntil : Option Time
  scheduledAt : Option Time
  expiresAt : Time
  submittedAt : Option Time
  finalizedAt : Option Time
  purgedAt : Option Time
  version : ℕ
  createdAt : Time
  updatedAt : Time

instance : Versioned Message := ⟨Message.version⟩

@[simp] theorem version_eq (m : Message) : Versioned.version m = m.version := rfl

/-! ## Creation -/

/-- What `send` decides about a message before it stores it. -/
structure NewMessage where
  id : String
  appId : String
  clientRef : Option String
  msisdn : String
  msisdnHash : String
  operator : OperatorCode
  senderIdValue : String
  messageClass : MessageClass
  body : String
  bodyHash : String
  bodyLength : ℤ
  encoding : Encoding
  segments : ℤ
  scheduledAt : Option Time
  expiresAt : Time
  createdAt : Time

/-- **The row `send` creates.** `clientRef` doubles as the idempotency key; `state`, `attempts` and
`version` are the columns' defaults. -/
def accept (c : NewMessage) : Message where
  id := c.id
  appId := c.appId
  clientRef := c.clientRef
  idempotencyKey := c.clientRef
  msisdn := c.msisdn
  msisdnHash := c.msisdnHash
  operator := c.operator
  senderIdValue := c.senderIdValue
  messageClass := c.messageClass
  priority := 100
  body := some c.body
  bodyHash := c.bodyHash
  bodyLength := c.bodyLength
  encoding := c.encoding
  segments := c.segments
  state := .accepted
  stateReason := none
  routeId := none
  providerId := none
  providerMessageRef := none
  providerMessageRefAlt := none
  excludedRouteIds := none
  attempts := 0
  maxAttempts := 3
  leaseOwner := none
  leaseUntil := none
  scheduledAt := c.scheduledAt
  expiresAt := c.expiresAt
  submittedAt := none
  finalizedAt := none
  purgedAt := none
  version := 0
  createdAt := c.createdAt
  updatedAt := c.createdAt

/-! ## Updates -/

/-- A patch: `none` leaves the column alone, `some none` sets a nullable column to null. -/
structure UpdateMessageInput where
  state : Option MessageState := none
  stateReason : Option (Option String) := none
  routeId : Option (Option String) := none
  providerId : Option (Option String) := none
  providerMessageRef : Option (Option String) := none
  providerMessageRefAlt : Option (Option String) := none
  excludedRouteIds : Option (Option String) := none
  attempts : Option ℤ := none
  leaseOwner : Option (Option String) := none
  leaseUntil : Option (Option Time) := none
  submittedAt : Option (Option Time) := none
  finalizedAt : Option (Option Time) := none
  msisdn : Option String := none
  body : Option (Option String) := none
  clientRef : Option (Option String) := none
  idempotencyKey : Option (Option String) := none
  purgedAt : Option (Option Time) := none

/-- The `SET` clause: the patch written over the row, and the next version. -/
def UpdateMessageInput.apply (u : UpdateMessageInput) (m : Message) : Message :=
  { m with
    state := u.state.getD m.state
    stateReason := u.stateReason.getD m.stateReason
    routeId := u.routeId.getD m.routeId
    providerId := u.providerId.getD m.providerId
    providerMessageRef := u.providerMessageRef.getD m.providerMessageRef
    providerMessageRefAlt := u.providerMessageRefAlt.getD m.providerMessageRefAlt
    excludedRouteIds := u.excludedRouteIds.getD m.excludedRouteIds
    attempts := u.attempts.getD m.attempts
    leaseOwner := u.leaseOwner.getD m.leaseOwner
    leaseUntil := u.leaseUntil.getD m.leaseUntil
    submittedAt := u.submittedAt.getD m.submittedAt
    finalizedAt := u.finalizedAt.getD m.finalizedAt
    msisdn := u.msisdn.getD m.msisdn
    body := u.body.getD m.body
    clientRef := u.clientRef.getD m.clientRef
    idempotencyKey := u.idempotencyKey.getD m.idempotencyKey
    purgedAt := u.purgedAt.getD m.purgedAt
    version := m.version + 1 }

/-- The rows of `message_state_transitions`. -/
def messageStateTransitions : List (MessageState × MessageState) :=
  [(.accepted, .queued), (.accepted, .rejected), (.accepted, .cancelled), (.accepted, .expired),
    (.queued, .routed), (.queued, .cancelled), (.queued, .expired), (.queued, .failed),
    (.routed, .submitted), (.routed, .queued), (.routed, .failed), (.routed, .expired),
    (.routed, .cancelled), (.routed, .uncertain),
    (.submitted, .delivered), (.submitted, .uncertain), (.submitted, .undelivered),
    (.submitted, .failed), (.submitted, .expired),
    (.uncertain, .delivered), (.uncertain, .failed), (.uncertain, .expired),
    (.undelivered, .queued), (.undelivered, .failed), (.undelivered, .expired)]

/-- The states the trigger stamps `finalized_at` for; they have no outgoing row in the table. -/
def terminalStates : List MessageState := [.delivered, .failed, .expired, .rejected, .cancelled]

def Message.Terminal (m : Message) : Prop := m.state ∈ terminalStates

instance (m : Message) : Decidable m.Terminal := by unfold Message.Terminal; infer_instance

/-- `SM001`: the trigger refused a state change. -/
abbrev IllegalTransition := Illegal MessageState

def stampFinalized (now : Time) (m : Message) : Message :=
  if m.state ∈ terminalStates ∧ m.finalizedAt = none then { m with finalizedAt := some now } else m

def stampSubmitted (now : Time) (m : Message) : Message :=
  if m.state = .submitted ∧ m.submittedAt = none then { m with submittedAt := some now } else m

/-- What the trigger `messages_guard_transition` stamps on a legal change. -/
def stampMessage (now : Time) (m : Message) : Message := stampSubmitted now (stampFinalized now m)

/-- The trigger `messages_guard_transition`. -/
def messagesGuardTransition (now : Time) (old new : Message) : Except IllegalTransition Message :=
  guardTransition Message.state messageStateTransitions (stampMessage now) old new

/-- The trigger `touch_updated_at`. -/
def touchUpdatedAt (now : Time) (m : Message) : Message := { m with updatedAt := now }

/-- The statement `UPDATE messages SET ..` with its triggers. -/
def updateStatement (u : UpdateMessageInput) (now : Time) (m : Message) :
    Except IllegalTransition Message :=
  (messagesGuardTransition now m (u.apply m)).map (touchUpdatedAt now)

/-- **`update(id).set(u).if_match(v)`** on the row `m`, at the database time `now`. -/
def Message.update (m : Message) (ifMatch : ℕ) (u : UpdateMessageInput) (now : Time) :
    Except (CasError IllegalTransition) Message :=
  compareAndSwap m ifMatch (updateStatement u now)

/-! ### What a committed update has done -/

/-- The state change is none, or one of the table. -/
def Legal (old new : MessageState) : Prop := Lib.Guarded.Legal messageStateTransitions old new

instance (old new : MessageState) : Decidable (Legal old new) := by unfold Legal; infer_instance

/-- The row a committed update leaves: the patch, the next version, and the triggers' columns. -/
def written (u : UpdateMessageInput) (now : Time) (m : Message) : Message :=
  writtenRow Message.state u.apply (stampMessage now) (touchUpdatedAt now) m

/-- **A committed update**: the version matched, the state change is legal, the row is `written`. -/
theorem update_ok {m m' : Message} {v : ℕ} {u : UpdateMessageInput} {now : Time}
    (h : m.update v u now = .ok m') :
    m.version = v ∧ Legal m.state (u.state.getD m.state) ∧ m' = written u now m :=
  guardedUpdate_ok h

/-- The guard refuses an update only for an illegal change of the row's own state. -/
theorem update_refused {m : Message} {v : ℕ} {u : UpdateMessageInput} {now : Time}
    {e : IllegalTransition} (h : m.update v u now = .error (.refused e)) :
    m.version = v ∧ ¬ Legal m.state (u.state.getD m.state) :=
  guardedUpdate_refused h

/-- The triggers touch three columns only. -/
theorem written_eq (u : UpdateMessageInput) (now : Time) (m : Message) :
    ∃ a b c, written u now m =
      { u.apply m with finalizedAt := a, submittedAt := b, updatedAt := c } := by
  unfold written writtenRow touchUpdatedAt stampMessage stampSubmitted stampFinalized
  split_ifs <;> exact ⟨_, _, _, rfl⟩

/-- What does not depend on them is read off the patch. -/
theorem written_apply {β : Type*} (f : Message → β)
    (hf : ∀ m a b c, f { m with finalizedAt := a, submittedAt := b, updatedAt := c } = f m)
    (u : UpdateMessageInput) (now : Time) (m : Message) : f (written u now m) = f (u.apply m) := by
  obtain ⟨a, b, c, h⟩ := written_eq u now m
  rw [h]
  exact hf (u.apply m) a b c

section written
variable (u : UpdateMessageInput) (now : Time) (m : Message)

@[simp] theorem written_id : (written u now m).id = m.id :=
  written_apply Message.id (fun _ _ _ _ => rfl) u now m
@[simp] theorem written_version : (written u now m).version = m.version + 1 :=
  written_apply Message.version (fun _ _ _ _ => rfl) u now m
@[simp] theorem written_state : (written u now m).state = u.state.getD m.state :=
  written_apply Message.state (fun _ _ _ _ => rfl) u now m
@[simp] theorem written_attempts : (written u now m).attempts = u.attempts.getD m.attempts :=
  written_apply Message.attempts (fun _ _ _ _ => rfl) u now m
@[simp] theorem written_maxAttempts : (written u now m).maxAttempts = m.maxAttempts :=
  written_apply Message.maxAttempts (fun _ _ _ _ => rfl) u now m
@[simp] theorem written_routeId : (written u now m).routeId = u.routeId.getD m.routeId :=
  written_apply Message.routeId (fun _ _ _ _ => rfl) u now m
@[simp] theorem written_excludedRouteIds :
    (written u now m).excludedRouteIds = u.excludedRouteIds.getD m.excludedRouteIds :=
  written_apply Message.excludedRouteIds (fun _ _ _ _ => rfl) u now m
@[simp] theorem written_leaseUntil :
    (written u now m).leaseUntil = u.leaseUntil.getD m.leaseUntil :=
  written_apply Message.leaseUntil (fun _ _ _ _ => rfl) u now m
@[simp] theorem written_leaseOwner :
    (written u now m).leaseOwner = u.leaseOwner.getD m.leaseOwner :=
  written_apply Message.leaseOwner (fun _ _ _ _ => rfl) u now m
@[simp] theorem written_providerMessageRef :
    (written u now m).providerMessageRef = u.providerMessageRef.getD m.providerMessageRef :=
  written_apply Message.providerMessageRef (fun _ _ _ _ => rfl) u now m
@[simp] theorem written_providerMessageRefAlt :
    (written u now m).providerMessageRefAlt =
      u.providerMessageRefAlt.getD m.providerMessageRefAlt :=
  written_apply Message.providerMessageRefAlt (fun _ _ _ _ => rfl) u now m

theorem stampSubmitted_finalizedAt : (stampSubmitted now m).finalizedAt = m.finalizedAt := by
  unfold stampSubmitted
  split_ifs <;> rfl

theorem stampFinalized_finalizedAt : (stampFinalized now m).finalizedAt =
    if m.state ∈ terminalStates ∧ m.finalizedAt = none then some now else m.finalizedAt := by
  unfold stampFinalized
  split_ifs <;> rfl

/-- `finalized_at` is stamped on entering a terminal state, and otherwise as the patch says. -/
theorem written_finalizedAt : (written u now m).finalizedAt =
    if u.state.getD m.state ≠ m.state ∧ u.state.getD m.state ∈ terminalStates ∧
      u.finalizedAt.getD m.finalizedAt = none then some now
    else u.finalizedAt.getD m.finalizedAt := by
  by_cases h : u.state.getD m.state = m.state
  · rw [if_neg (fun hc => hc.1 h)]
    unfold written writtenRow
    rw [if_pos (show (u.apply m).state = m.state from h)]
    rfl
  · unfold written writtenRow
    rw [if_neg (show ¬ (u.apply m).state = m.state from h)]
    change (stampSubmitted now (stampFinalized now (u.apply m))).finalizedAt = _
    rw [stampSubmitted_finalizedAt, stampFinalized_finalizedAt]
    simp only [ne_eq, h, not_false_eq_true, true_and]
    rfl

end written

/-- Terminality is data: no row of the table leaves a terminal state. -/
theorem legal_of_terminal {old new : MessageState} (h : Legal old new) (ht : old ∈ terminalStates) :
    new = old := by
  revert h ht
  cases old <;> cases new <;> decide

end Vsms.Schema.Messages
