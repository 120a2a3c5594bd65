import Vsms.Lib.Guarded
import Vsms.Schema.Types
import Mathlib.Data.List.Nodup

/-! # The `webhook_endpoints` and `webhook_attempts` tables

An endpoint has a breaker, two columns that the deliveries to it write, and no guarded state. An
attempt has a guarded state, and the trigger stamps `delivered_at` where it is null. Both are
written by compare-and-swap on their versions. -/

namespace Vsms.Schema.Webhooks

open Vsms.Lib.Optimistic Vsms.Lib.Guarded Vsms.Schema.Types

/-! ## Endpoints -/

structure WebhookEndpoint where
  id : String
  appId : String
  url : String
  deliveryMode : WebhookDeliveryMode
  audience : Option String
  secret : Option String
  prevSecret : Option String
  active : Bool
  maxAttempts : ℤ
  circuitOpenUntil : Option Time
  consecutiveFailures : ℤ
  version : ℕ
  updatedAt : Time
  deriving DecidableEq

instance : Versioned WebhookEndpoint := ⟨WebhookEndpoint.version⟩

structure UpdateWebhookEndpointInput where
  active : Option Bool := none
  circuitOpenUntil : Option (Option Time) := none
  consecutiveFailures : Option ℤ := none

/-- The `SET` clause and the next version; the trigger touches `updated_at`. -/
def UpdateWebhookEndpointInput.apply (u : UpdateWebhookEndpointInput) (now : Time)
    (e : WebhookEndpoint) : WebhookEndpoint :=
  { e with
    active := u.active.getD e.active
    circuitOpenUntil := u.circuitOpenUntil.getD e.circuitOpenUntil
    consecutiveFailures := u.consecutiveFailures.getD e.consecutiveFailures
    version := e.version + 1
    updatedAt := now }

/-- **`update(id).set(u).if_match(v)`** on the endpoint `e`: it stays if the version does not
match. -/
def WebhookEndpoint.update (e : WebhookEndpoint) (ifMatch : ℕ) (u : UpdateWebhookEndpointInput)
    (now : Time) : WebhookEndpoint :=
  if e.version = ifMatch then u.apply now e else e

theorem update_endpoint_id (e : WebhookEndpoint) (ifMatch : ℕ) (u : UpdateWebhookEndpointInput)
    (now : Time) : (e.update ifMatch u now).id = e.id := by
  unfold WebhookEndpoint.update
  split_ifs <;> rfl

/-- The table, with its primary key. -/
structure WebhookEndpoints where
  rows : List WebhookEndpoint
  nodup : (rows.map WebhookEndpoint.id).Nodup

def WebhookEndpoints.find (es : WebhookEndpoints) (id : String) : Option WebhookEndpoint :=
  es.rows.find? fun e => e.id = id

/-- Change the endpoint `id`. -/
def WebhookEndpoints.modify (es : WebhookEndpoints) (id : String)
    (f : WebhookEndpoint → WebhookEndpoint) (hf : ∀ e, (f e).id = e.id) : WebhookEndpoints where
  rows := es.rows.map fun e => if e.id = id then f e else e
  nodup := by
    rw [List.map_map]
    convert es.nodup using 2
    funext e
    simp only [Function.comp_apply]
    split_ifs
    · exact hf e
    · rfl

theorem WebhookEndpoints.find_some {es : WebhookEndpoints} {id : String} {e : WebhookEndpoint}
    (h : es.find id = some e) : e ∈ es.rows ∧ e.id = id :=
  ⟨List.mem_of_find?_eq_some h, by simpa using List.find?_some h⟩

theorem WebhookEndpoints.find_of_mem {es : WebhookEndpoints} {e : WebhookEndpoint}
    (h : e ∈ es.rows) : es.find e.id = some e := by
  cases hf : es.find e.id with
  | none =>
    have := List.find?_eq_none.mp hf e h
    simp at this
  | some e' =>
    obtain ⟨he', hid⟩ := find_some hf
    rw [List.inj_on_of_nodup_map es.nodup he' h hid]

theorem WebhookEndpoints.find_modify (es : WebhookEndpoints) (id : String)
    (f : WebhookEndpoint → WebhookEndpoint) (hf : ∀ e, (f e).id = e.id) (k : String) :
    (es.modify id f hf).find k = (es.find k).map fun e => if k = id then f e else e := by
  have hid (e : WebhookEndpoint) : (if e.id = id then f e else e).id = e.id := by
    split_ifs
    · exact hf e
    · rfl
  unfold find modify
  dsimp only
  rw [List.find?_map]
  have hp : (fun e : WebhookEndpoint => decide (e.id = k)) ∘
      (fun e => if e.id = id then f e else e) = fun e => decide (e.id = k) := by
    funext e
    simp only [Function.comp_apply, hid]
  rw [hp]
  cases hk : es.rows.find? fun e => decide (e.id = k) with
  | none => rfl
  | some e =>
    have he : e.id = k := by simpa using List.find?_some hk
    simp [he]

/-! ## Attempts -/

structure WebhookAttempt where
  id : String
  endpointId : String
  sourceEventId : String
  eventType : String
  payload : String
  state : AttemptState
  attempts : ℤ
  leaseOwner : Option String
  leaseUntil : Option Time
  nextAttemptAt : Option Time
  lastStatusCode : Option ℤ
  lastError : Option String
  lastAttemptAt : Option Time
  deliveredAt : Option Time
  version : ℕ
  deriving DecidableEq

instance : Versioned WebhookAttempt := ⟨WebhookAttempt.version⟩

@[simp] theorem version_eq (a : WebhookAttempt) : Versioned.version a = a.version := rfl

structure UpdateWebhookAttemptInput where
  state : Option AttemptState := none
  attempts : Option ℤ := none
  leaseOwner : Option (Option String) := none
  leaseUntil : Option (Option Time) := none
  nextAttemptAt : Option (Option Time) := none
  lastStatusCode : Option (Option ℤ) := none
  lastError : Option (Option String) := none
  lastAttemptAt : Option (Option Time) := none

/-- The `SET` clause, and the next version. -/
def UpdateWebhookAttemptInput.apply (u : UpdateWebhookAttemptInput) (a : WebhookAttempt) :
    WebhookAttempt :=
  { a with
    state := u.state.getD a.state
    attempts := u.attempts.getD a.attempts
    leaseOwner := u.leaseOwner.getD a.leaseOwner
    leaseUntil := u.leaseUntil.getD a.leaseUntil
    nextAttemptAt := u.nextAttemptAt.getD a.nextAttemptAt
    lastStatusCode := u.lastStatusCode.getD a.lastStatusCode
    lastError := u.lastError.getD a.lastError
    lastAttemptAt := u.lastAttemptAt.getD a.lastAttemptAt
    version := a.version + 1 }

/-- The rows of `attempt_state_transitions`. -/
def attemptStateTransitions : List (AttemptState × AttemptState) :=
  [(.pending, .delivering), (.failed, .delivering),
    (.delivering, .succeeded), (.delivering, .failed), (.delivering, .dead),
    (.failed, .pending), (.dead, .pending)]

/-- What the trigger `attempts_guard_transition` stamps on a legal change. -/
def stampAttempt (now : Time) (a : WebhookAttempt) : WebhookAttempt :=
  if a.state = .succeeded ∧ a.deliveredAt = none then { a with deliveredAt := some now } else a

/-- The trigger `attempts_guard_transition`. -/
def attemptsGuardTransition (now : Time) (old new : WebhookAttempt) :
    Except (Illegal AttemptState) WebhookAttempt :=
  guardTransition WebhookAttempt.state attemptStateTransitions (stampAttempt now) old new

/-- The statement `UPDATE webhook_attempts SET ..` with its trigger; the table has no `updated_at`.
-/
def updateStatement (u : UpdateWebhookAttemptInput) (now : Time) (a : WebhookAttempt) :
    Except (Illegal AttemptState) WebhookAttempt :=
  (attemptsGuardTransition now a (u.apply a)).map id

/-- **`update(id).set(u).if_match(v)`** on the attempt `a`, at the database time `now`. -/
def WebhookAttempt.update (a : WebhookAttempt) (ifMatch : ℕ) (u : UpdateWebhookAttemptInput)
    (now : Time) : Except (CasError (Illegal AttemptState)) WebhookAttempt :=
  compareAndSwap a ifMatch (updateStatement u now)

def Legal (old new : AttemptState) : Prop := Lib.Guarded.Legal attemptStateTransitions old new

instance (old new : AttemptState) : Decidable (Legal old new) := by unfold Legal; infer_instance

/-- The row a committed update leaves. -/
def written (u : UpdateWebhookAttemptInput) (now : Time) (a : WebhookAttempt) : WebhookAttempt :=
  writtenRow WebhookAttempt.state u.apply (stampAttempt now) id a

theorem update_ok {a a' : WebhookAttempt} {v : ℕ} {u : UpdateWebhookAttemptInput} {now : Time}
    (h : a.update v u now = .ok a') :
    a.version = v ∧ Legal a.state (u.state.getD a.state) ∧ a' = written u now a :=
  guardedUpdate_ok h

/-- The trigger touches one column only. -/
theorem written_eq (u : UpdateWebhookAttemptInput) (now : Time) (a : WebhookAttempt) :
    ∃ t, written u now a = { u.apply a with deliveredAt := t } := by
  unfold written writtenRow stampAttempt
  split_ifs <;> exact ⟨_, rfl⟩

/-- What does not depend on it is read off the patch. -/
theorem written_apply {β : Type*} (f : WebhookAttempt → β)
    (hf : ∀ a t, f { a with deliveredAt := t } = f a) (u : UpdateWebhookAttemptInput) (now : Time)
    (a : WebhookAttempt) : f (written u now a) = f (u.apply a) := by
  obtain ⟨t, h⟩ := written_eq u now a
  rw [h]
  exact hf (u.apply a) t

section written
variable (u : UpdateWebhookAttemptInput) (now : Time) (a : WebhookAttempt)

@[simp] theorem written_id : (written u now a).id = a.id :=
  written_apply WebhookAttempt.id (fun _ _ => rfl) u now a
@[simp] theorem written_endpointId : (written u now a).endpointId = a.endpointId :=
  written_apply WebhookAttempt.endpointId (fun _ _ => rfl) u now a
@[simp] theorem written_version : (written u now a).version = a.version + 1 :=
  written_apply WebhookAttempt.version (fun _ _ => rfl) u now a
@[simp] theorem written_leaseOwner :
    (written u now a).leaseOwner = u.leaseOwner.getD a.leaseOwner :=
  written_apply WebhookAttempt.leaseOwner (fun _ _ => rfl) u now a
@[simp] theorem written_leaseUntil :
    (written u now a).leaseUntil = u.leaseUntil.getD a.leaseUntil :=
  written_apply WebhookAttempt.leaseUntil (fun _ _ => rfl) u now a
@[simp] theorem written_state : (written u now a).state = u.state.getD a.state :=
  written_apply WebhookAttempt.state (fun _ _ => rfl) u now a
@[simp] theorem written_attempts : (written u now a).attempts = u.attempts.getD a.attempts :=
  written_apply WebhookAttempt.attempts (fun _ _ => rfl) u now a

end written

end Vsms.Schema.Webhooks
