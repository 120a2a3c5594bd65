import Vsms.Schema.Messages
import Mathlib.Order.Basic

/-! # Delivery reports

The three parts of `ingest_one`: the correlation query, the receipt that is stored for every update
that finds its message, and the patch the outcome implies for the state the message was read in
(`nextState`). The write of the patch is a compare-and-swap on that read; its conflict error is
dropped. -/

namespace Vsms.Message.Dlr

open Vsms.Schema.Types Vsms.Schema.Messages

/-- What happened to a message, across providers. -/
inductive DeliveryOutcome
  | delivered
  | uncertain
  | failed
  | expired
  | rejected
  | inFlight
  | unknown
  deriving DecidableEq, Repr

structure DeliveryUpdate where
  providerRef : String
  outcome : DeliveryOutcome
  occurredAt : Option Time
  rawStatus : String
  errorCode : Option String
  deliveringNetwork : Option String
  deriving DecidableEq, Repr

/-- A `DeliveryReceipt` as it is created. -/
structure DeliveryReceipt where
  messageId : String
  providerId : String
  providerMessageRef : String
  outcome : ReceiptOutcome
  rawStatus : String
  errorCode : Option String
  networkCode : OperatorCode
  occurredAt : Option Time
  rawPayload : String
  deriving DecidableEq, Repr

/-- **The correlation query**: the provider, and one of the two stored references. -/
def Correlates (providerRowId : String) (update : DeliveryUpdate) (m : Message) : Prop :=
  m.providerId = some providerRowId ∧
    (m.providerMessageRef = some update.providerRef ∨
      m.providerMessageRefAlt = some update.providerRef)

instance (providerRowId : String) (update : DeliveryUpdate) (m : Message) :
    Decidable (Correlates providerRowId update m) := by unfold Correlates; infer_instance

def parseOperatorCode (s : String) : Option OperatorCode :=
  if s = "mtn" then some .mtn
  else if s = "orange" then some .orange
  else if s = "camtel" then some .camtel
  else if s = "nexttel" then some .nexttel
  else if s = "unknown" then some .unknown
  else none

def toSchemaOutcome : DeliveryOutcome → ReceiptOutcome
  | .delivered => .delivered
  | .uncertain => .uncertain
  | .failed => .failed
  | .expired => .expired
  | .rejected => .rejected
  | .inFlight => .inFlight
  | .unknown => .unknown

/-- The receipt of an update for the message it found. The network the report names wins over the
message's own classification. -/
def receiptOf (found : Message) (providerRowId rawPayload : String) (update : DeliveryUpdate) :
    DeliveryReceipt where
  messageId := found.id
  providerId := providerRowId
  providerMessageRef := update.providerRef
  outcome := toSchemaOutcome update.outcome
  rawStatus := update.rawStatus
  errorCode := update.errorCode
  networkCode := (update.deliveringNetwork.bind parseOperatorCode).getD found.operator
  occurredAt := update.occurredAt
  rawPayload := rawPayload

/-- **`next_state`**: the state an outcome implies from the current one. -/
def nextState (current : MessageState) (outcome : DeliveryOutcome) : Option MessageState :=
  match current with
  | .submitted =>
    match outcome with
    | .delivered => some .delivered
    | .uncertain => some .uncertain
    | .expired => some .expired
    | .rejected => some .failed
    | .failed => some .undelivered
    | .inFlight | .unknown => none
  | .uncertain =>
    match outcome with
    | .delivered => some .delivered
    | .expired => some .expired
    | .rejected | .failed => some .failed
    | .uncertain | .inFlight | .unknown => none
  | .undelivered =>
    match outcome with
    | .expired => some .expired
    | .rejected => some .failed
    | .delivered | .uncertain | .failed | .inFlight | .unknown => none
  | .accepted | .queued | .routed | .delivered | .failed | .expired | .rejected | .cancelled => none

def undeliveredBackoffSchedule : List Time :=
  [seconds 5, seconds 30, minutes 2, minutes 10, minutes 30]

/-- `undelivered_retry_backoff`: by the attempts made so far, the last entry for all beyond. -/
def undeliveredRetryBackoff (attempts : ℤ) : Time :=
  undeliveredBackoffSchedule.getD (min (max (attempts - 1) 0).toNat 4) 0

/-- **The patch of an update** for the message it found, if it implies one. -/
def dlrPatch (found : Message) (update : DeliveryUpdate) (now : Time) :
    Option UpdateMessageInput :=
  match nextState found.state update.outcome with
  | none => none
  | some target =>
    if target = found.state then none
    else some
      { state := some target
        leaseUntil :=
          if target = .undelivered then
            some (some (now + undeliveredRetryBackoff found.attempts))
          else none }

/-! ### What a report can do -/

/-- Every state a report proposes is another one, and an edge of the table. -/
theorem nextState_edge {current target : MessageState} {outcome : DeliveryOutcome}
    (h : nextState current outcome = some target) :
    target ≠ current ∧ (current, target) ∈ messageStateTransitions := by
  revert h
  cases current <;> cases outcome <;> rintro ⟨⟩ <;> decide

/-- A report moves a message only out of the three states after a submission. -/
theorem nextState_from {current target : MessageState} {outcome : DeliveryOutcome}
    (h : nextState current outcome = some target) :
    current = .submitted ∨ current = .uncertain ∨ current = .undelivered := by
  revert h
  cases current <;> simp [nextState]

/-- And only into these. -/
theorem nextState_into {current target : MessageState} {outcome : DeliveryOutcome}
    (h : nextState current outcome = some target) :
    target = .undelivered ∨ target = .uncertain ∨ target ∈ terminalStates := by
  revert h
  cases current <;> cases outcome <;> rintro ⟨⟩ <;> decide

/-- A patch sets the state, and a lease or none. -/
theorem dlrPatch_eq {found : Message} {update : DeliveryUpdate} {now : Time}
    {u : UpdateMessageInput} (h : dlrPatch found update now = some u) :
    ∃ target leaseUntil, nextState found.state update.outcome = some target ∧
      u = { state := some target, leaseUntil := leaseUntil } := by
  unfold dlrPatch at h
  split at h
  · cases h
  · next target hn =>
    by_cases htarget : target = found.state
    · rw [if_pos htarget] at h
      cases h
    · rw [if_neg htarget] at h
      cases h
      exact ⟨target, _, hn, rfl⟩

theorem dlrPatch_some {found : Message} {update : DeliveryUpdate} {now : Time}
    {u : UpdateMessageInput} (h : dlrPatch found update now = some u) :
    ∃ target, nextState found.state update.outcome = some target ∧ u.state = some target ∧
      u.attempts = none ∧ u.finalizedAt = none ∧ u.providerMessageRef = none ∧
      u.providerMessageRefAlt = none ∧ u.providerId = none := by
  obtain ⟨target, leaseUntil, hn, rfl⟩ := dlrPatch_eq h
  exact ⟨target, hn, rfl, rfl, rfl, rfl, rfl, rfl⟩

/-- A report does not touch the route. -/
theorem dlrPatch_route {found : Message} {update : DeliveryUpdate} {now : Time}
    {u : UpdateMessageInput} (h : dlrPatch found update now = some u) :
    u.routeId = none ∧ u.excludedRouteIds = none := by
  obtain ⟨target, leaseUntil, -, rfl⟩ := dlrPatch_eq h
  exact ⟨rfl, rfl⟩

/-- The update has a patch exactly if it implies a state. -/
theorem dlrPatch_none {found : Message} {update : DeliveryUpdate} {now : Time} :
    dlrPatch found update now = none ↔ nextState found.state update.outcome = none := by
  unfold dlrPatch
  cases hn : nextState found.state update.outcome with
  | none => simp
  | some target => simp [(nextState_edge hn).1]

end Vsms.Message.Dlr
