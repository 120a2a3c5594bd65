import Vsms.Core.Breaker
import Vsms.Hooks.Claim

/-! # Delivering webhook attempts

One poll of the hooks role: claim a batch, then deliver its attempts one after the other. A delivery
reads the endpoint, sends the request and writes the outcome, first to the attempt and then to the
endpoint; a write that fails is logged and dropped. The health of the endpoint is looked at when the
batch is claimed and not again.

What a delivery meets outside the tables is its `Call`: how much time has passed, how the operator
has set the endpoint up by then, whether the database answers, and what the sealer and the receiver
say. `parse` stands for the JSON parser of the payload, and its error. -/

namespace Vsms.Hooks.Deliver

open Vsms.Lib.Consumers Vsms.Schema.Types Vsms.Schema.Webhooks
open Vsms.Core.Breaker Vsms.Hooks.Claim

/-- How many attempts one poll claims. -/
def hooksBudget : ℕ := 20

def endpointBreaker : BreakerPolicy where
  failureThreshold := 20
  openDuration := minutes 15

def backoffSchedule : List Time :=
  [seconds 1, seconds 5, seconds 25, minutes 2, minutes 10, hours 1, hours 6, hours 24]

/-- `backoff_for`: by the attempts made so far, the last entry for all beyond. -/
def backoffFor (attempts : ℤ) : Time := backoffSchedule.getD (min (max (attempts - 1) 0).toNat 7) 0

/-! ## Workers and what they meet -/

structure Worker where
  name : String
  holdsSigningKey : Bool
  hmacPermitted : Bool

def Worker.served (w : Worker) : ServedModes := .of w.holdsSigningKey w.hmacPermitted

/-- The columns of an endpoint that an operator sets. -/
structure Settings where
  url : String
  deliveryMode : WebhookDeliveryMode
  audience : Option String
  secret : Option String
  prevSecret : Option String
  maxAttempts : ℤ

def Settings.apply (s : Settings) (e : WebhookEndpoint) : WebhookEndpoint :=
  { e with
    url := s.url
    deliveryMode := s.deliveryMode
    audience := s.audience
    secret := s.secret
    prevSecret := s.prevSecret
    maxAttempts := s.maxAttempts }

def settingsOf (e : WebhookEndpoint) : Settings where
  url := e.url
  deliveryMode := e.deliveryMode
  audience := e.audience
  secret := e.secret
  prevSecret := e.prevSecret
  maxAttempts := e.maxAttempts

@[simp] theorem settingsOf_apply (s : Settings) (e : WebhookEndpoint) :
    settingsOf (s.apply e) = s := rfl

/-- A response: its status code, and the status as text. -/
structure Response where
  status : ℕ
  text : String

/-- **What one delivery meets.** -/
structure Call where
  elapsed : ℕ
  settings : Settings
  fetched : Bool
  sealed : Except String Unit
  response : Except String Response
  attemptSaved : Bool
  endpointSaved : Bool

/-- One attempt of a batch, what its delivery meets, and when. -/
structure Turn where
  attempt : WebhookAttempt
  call : Call
  now : Time

/-- The turns of a batch claimed at the time `t`, one after the other. -/
def turns (t : Time) : List WebhookAttempt → (ℕ → Call) → List Turn
  | [], _ => []
  | attempt :: batch, calls =>
    let now := t + (calls 0).elapsed
    ⟨attempt, calls 0, now⟩ :: turns now batch fun k => calls (k + 1)

/-! ## Sending -/

inductive Outcome
  | success (status : ℕ)
  | gone
  | retryable (status : Option ℕ) (message : String)
  | malformedPayload (message : String)
  deriving DecidableEq

/-- The outcome of a request that was sent. -/
def responseOutcome : Except String Response → Outcome
  | .error error => .retryable none error
  | .ok response =>
    if 200 ≤ response.status ∧ response.status < 300 then .success response.status
    else if response.status = 410 then .gone
    else .retryable (some response.status) ("endpoint responded " ++ response.text)

/-- `sealed_request` and `hmac_request`: the message of the failure, if no request can be built. -/
def requestError (w : Worker) (s : Settings) (c : Call) : Option String :=
  match s.deliveryMode with
  | .sealed =>
    if w.holdsSigningKey then
      match c.sealed with
      | .ok () => none
      | .error error => some ("delivery not sealed: " ++ error)
    else some ("delivery not sealed: this worker holds no envelope signing key. Start it with " ++
      "--envelope-signing-key-file (the gateway's key), or switch the endpoint to hmac")
  | .hmac =>
    match s.secret with
    | some _ => none
    | none => some ("delivery not signed: this hmac endpoint has no secret. Rotate it " ++
        "(rotateWebhookSecret) to mint one")

/-- **`send`**: whether a request goes out, and the outcome. -/
def send (w : Worker) (s : Settings) (c : Call) : Bool × Outcome :=
  match requestError w s c with
  | some message => (false, .retryable none message)
  | none => (true, responseOutcome c.response)

/-! ## Writing the outcome -/

def succeededPatch (status : ℕ) (now : Time) : UpdateWebhookAttemptInput where
  state := some .succeeded
  lastStatusCode := some (some status)
  lastError := some none
  lastAttemptAt := some (some now)
  leaseOwner := some none
  leaseUntil := some none

def failedRetryPatch (a : WebhookAttempt) (status : Option ℕ) (message : String) (now : Time) :
    UpdateWebhookAttemptInput where
  state := some .failed
  lastStatusCode := some (status.map fun n => (n : ℤ))
  lastError := some (some message)
  lastAttemptAt := some (some now)
  nextAttemptAt := some (some (now + backoffFor a.attempts))
  leaseOwner := some none
  leaseUntil := some none

def deadPatch (status : Option ℕ) (message : String) (now : Time) : UpdateWebhookAttemptInput where
  state := some .dead
  lastStatusCode := some (status.map fun n => (n : ℤ))
  lastError := some (some message)
  lastAttemptAt := some (some now)
  leaseOwner := some none
  leaseUntil := some none

/-- **The attempt's write of `write_outcome`.** -/
def attemptPatch (a : WebhookAttempt) (maxAttempts : ℤ) (o : Outcome) (now : Time) :
    UpdateWebhookAttemptInput :=
  match o with
  | .success status => succeededPatch status now
  | .gone => deadPatch (some 410) "endpoint returned 410 Gone; deactivating" now
  | .retryable status message =>
    if maxAttempts ≤ a.attempts then
      deadPatch status ("max attempts (" ++ toString maxAttempts ++ ") reached: " ++ message) now
    else failedRetryPatch a status message now
  | .malformedPayload message =>
    deadPatch none ("malformed payload, not retried: " ++ message) now

/-- `record_endpoint_failure`, at the time of a clock that is not at the end of `chrono`'s range. -/
def failurePatch (e : WebhookEndpoint) (now : Time) : UpdateWebhookEndpointInput :=
  let decision := failureDecision endpointBreaker e.consecutiveFailures now
  { consecutiveFailures := some decision.consecutiveFailures
    circuitOpenUntil := decision.circuitOpenUntil.map some }

/-- **The endpoint's write of `write_outcome`**: `reset_endpoint_failures`, `deactivate_endpoint` or
`record_endpoint_failure`; a malformed payload says nothing about the endpoint. -/
def endpointPatch (e : WebhookEndpoint) (o : Outcome) (now : Time) :
    Option UpdateWebhookEndpointInput :=
  match o with
  | .success _ =>
    if needsReset e.consecutiveFailures e.circuitOpenUntil then
      some { consecutiveFailures := some 0, circuitOpenUntil := some none }
    else none
  | .gone => some { active := some false }
  | .retryable _ _ => some (failurePatch e now)
  | .malformedPayload _ => none

def saveAttempt (db : HooksDb) (a : WebhookAttempt) (u : UpdateWebhookAttemptInput) (now : Time) :
    HooksDb :=
  match db.find a.id with
  | none => db
  | some row =>
    match row.update a.version u now with
    | .ok row => db.replace row
    | .error _ => db

def saveEndpoint (db : HooksDb) (e : WebhookEndpoint) (u : UpdateWebhookEndpointInput)
    (now : Time) : HooksDb :=
  db.setRest (db.rest.modify e.id (fun row => row.update e.version u now)
    fun row => update_endpoint_id row e.version u now)

/-- **`write_outcome`** -/
def writeOutcome (db : HooksDb) (a : WebhookAttempt) (e : WebhookEndpoint) (o : Outcome)
    (now : Time) (c : Call) : HooksDb :=
  let db := if c.attemptSaved then saveAttempt db a (attemptPatch a e.maxAttempts o now) now else db
  match endpointPatch e o now with
  | none => db
  | some u => if c.endpointSaved then saveEndpoint db e u now else db

/-! ## One poll -/

/-- What happens to an endpoint: a request is sent to it, or a failure is recorded against it. The
row is the one stored at that moment. -/
inductive Contact
  | sent (stored : WebhookEndpoint) (now : Time)
  | failureRecorded (stored : WebhookEndpoint) (now : Time)

def Outcome.isRetryable : Outcome → Bool
  | .retryable _ _ => true
  | _ => false

/-- The operator's settings, as they are by the time of the delivery. -/
def withSettings (db : HooksDb) (x : Turn) : HooksDb :=
  db.setRest (db.rest.modify x.attempt.endpointId x.call.settings.apply fun _ => rfl)

section
variable (parse : String → Except String Unit) (w : Worker)

/-- **`deliver_one`** -/
def deliverOne (db : HooksDb) (x : Turn) : HooksDb × List Contact :=
  let db := withSettings db x
  if x.call.fetched then
    match db.rest.find x.attempt.endpointId with
    | none => (db, [])
    | some e =>
      if w.served.serves e.deliveryMode then
        match parse x.attempt.payload with
        | .error error =>
          (writeOutcome db x.attempt e
            (.malformedPayload ("payload did not parse as JSON: " ++ error)) x.now x.call, [])
        | .ok () =>
          let (sent, outcome) := send w (settingsOf e) x.call
          (writeOutcome db x.attempt e outcome x.now x.call,
            (if sent then [.sent e x.now] else []) ++
              if outcome.isRetryable then [.failureRecorded e x.now] else [])
      else (db, [])
  else (db, [])

/-- **`deliver_claimed`** -/
def deliverClaimed : HooksDb → List Turn → HooksDb × List Contact
  | db, [] => (db, [])
  | db, x :: xs =>
    let (db, contacts) := deliverOne parse w db x
    let (db, rest) := deliverClaimed db xs
    (db, contacts ++ rest)

end

/-- **`lease_candidates`** over candidates nobody else writes to; `none` if it returns an error. -/
def leaseCandidates (worker : String) (now : Time) :
    HooksDb → List WebhookAttempt → HooksDb × Option (List WebhookAttempt)
  | db, [] => (db, some [])
  | db, c :: cs =>
    match takeLease c worker now with
    | none => (db, none)
    | some u =>
      match db.find c.id with
      | none => leaseCandidates worker now db cs
      | some row =>
        match row.update c.version u now with
        | .ok row =>
          let (db, claimed) := leaseCandidates worker now (db.replace row) cs
          (db, claimed.map (row :: ·))
        | .error .preconditionFailed => leaseCandidates worker now db cs
        | .error (.refused _) => (db, none)

/-- **`claim_webhook_attempts`** -/
def claimWebhookAttempts (w : Worker) (db : HooksDb) (now : Time) :
    HooksDb × Option (List WebhookAttempt) :=
  leaseCandidates w.name now db ((webhookCandidates now hooksBudget w.served).run db)

/-- **`tick`**: the contacts it makes, if it starts at `now` and meets `calls`. -/
def tick (parse : String → Except String Unit) (w : Worker) (db : HooksDb) (now : Time)
    (calls : ℕ → Call) : HooksDb × List Contact :=
  match claimWebhookAttempts w db now with
  | (db, none) => (db, [])
  | (db, some claimed) => deliverClaimed parse w db (turns now claimed calls)

/-! ## What a delivery does to the endpoints -/

/-- The outcome of a delivery that contacts its endpoint: the endpoint is read, its mode is served
and the payload parses. -/
def answer (parse : String → Except String Unit) (w : Worker) (x : Turn) : Option Outcome :=
  if x.call.fetched ∧ w.served.serves x.call.settings.deliveryMode then
    match parse x.attempt.payload with
    | .error _ => none
    | .ok () => some (send w x.call.settings x.call).2
  else none

/-- The endpoint after an outcome is written. -/
def outcomeRow (e : WebhookEndpoint) (o : Outcome) (now : Time) (c : Call) : WebhookEndpoint :=
  match endpointPatch e o now with
  | none => e
  | some u => if c.endpointSaved then u.apply now e else e

/-- **The endpoint after a delivery.** -/
def deliveredRow (parse : String → Except String Unit) (w : Worker) (x : Turn)
    (e : WebhookEndpoint) : WebhookEndpoint :=
  match answer parse w x with
  | none => x.call.settings.apply e
  | some o => outcomeRow (x.call.settings.apply e) o x.now x.call

theorem saveAttempt_rest (db : HooksDb) (a : WebhookAttempt) (u : UpdateWebhookAttemptInput)
    (now : Time) : (saveAttempt db a u now).rest = db.rest := by
  unfold saveAttempt
  split
  · rfl
  · split <;> rfl

/-- The write finds the endpoint as it was read. -/
theorem saveEndpoint_find {db : HooksDb} {e : WebhookEndpoint} (he : db.rest.find e.id = some e)
    (u : UpdateWebhookEndpointInput) (now : Time) (k : String) :
    (saveEndpoint db e u now).rest.find k =
      if k = e.id then some (u.apply now e) else db.rest.find k := by
  have hfind := WebhookEndpoints.find_modify db.rest e.id (fun row => row.update e.version u now)
    (fun row => update_endpoint_id row e.version u now) k
  refine hfind.trans ?_
  split_ifs with hk
  · rw [hk, he, Option.map_some, WebhookEndpoint.update, if_pos rfl]
  · exact Option.map_id'

theorem writeOutcome_find {db : HooksDb} {e : WebhookEndpoint} (he : db.rest.find e.id = some e)
    (a : WebhookAttempt) (o : Outcome) (now : Time) (c : Call) (k : String) :
    (writeOutcome db a e o now c).rest.find k =
      if k = e.id then some (outcomeRow e o now c) else db.rest.find k := by
  have hrest : (if c.attemptSaved then
      saveAttempt db a (attemptPatch a e.maxAttempts o now) now else db).rest = db.rest := by
    split_ifs
    · exact saveAttempt_rest _ _ _ _
    · rfl
  unfold writeOutcome outcomeRow
  generalize (if c.attemptSaved then
    saveAttempt db a (attemptPatch a e.maxAttempts o now) now else db) = db' at hrest ⊢
  rw [← hrest] at he ⊢
  have hkeep : db'.rest.find k = if k = e.id then some e else db'.rest.find k := by
    split_ifs with hk
    · rw [hk, he]
    · rfl
  dsimp only
  split
  · exact hkeep
  · next u hu =>
    split_ifs with hs hk hk
    · rw [saveEndpoint_find he, if_pos hk]
    · rw [saveEndpoint_find he, if_neg hk]
    · rw [hk, he]
    · rfl

theorem withSettings_find {db : HooksDb} {x : Turn} {e : WebhookEndpoint}
    (he : db.rest.find x.attempt.endpointId = some e) (k : String) :
    (withSettings db x).rest.find k =
      if k = x.attempt.endpointId then some (x.call.settings.apply e) else db.rest.find k := by
  refine (WebhookEndpoints.find_modify db.rest _ x.call.settings.apply (fun _ => rfl) k).trans ?_
  split_ifs with hk
  · rw [hk, he]
    rfl
  · exact Option.map_id'

/-- The contacts of a delivery with the outcome `o`. -/
def contacts (e : WebhookEndpoint) (now : Time) (sent : Bool) (o : Outcome) : List Contact :=
  (if sent then [.sent e now] else []) ++ if o.isRetryable then [.failureRecorded e now] else []

/-- **What a delivery does**: it contacts its endpoint as it is stored, and changes no other. -/
theorem deliverOne_spec (parse : String → Except String Unit) (w : Worker) {db : HooksDb}
    {x : Turn} {e : WebhookEndpoint} (he : db.rest.find x.attempt.endpointId = some e) :
    (∀ k, (deliverOne parse w db x).1.rest.find k =
      if k = x.attempt.endpointId then some (deliveredRow parse w x e) else db.rest.find k) ∧
    (deliverOne parse w db x).2 =
      match answer parse w x with
      | none => []
      | some o => contacts (x.call.settings.apply e) x.now
          (send w x.call.settings x.call).1 o := by
  have hfind := withSettings_find he
  have hself : (withSettings db x).rest.find x.attempt.endpointId =
      some (x.call.settings.apply e) := by rw [hfind, if_pos rfl]
  have hid : (x.call.settings.apply e).id = x.attempt.endpointId :=
    (WebhookEndpoints.find_some hself).2
  have hstored := hself
  rw [← hid] at hstored
  have hwrite (o : Outcome) (k : String) :
      (writeOutcome (withSettings db x) x.attempt (x.call.settings.apply e) o x.now
        x.call).rest.find k = if k = x.attempt.endpointId then
          some (outcomeRow (x.call.settings.apply e) o x.now x.call) else db.rest.find k := by
    rw [writeOutcome_find hstored, hid]
    split_ifs with hk
    · rfl
    · rw [hfind, if_neg hk]
  unfold deliverOne deliveredRow
  dsimp only
  by_cases hf : x.call.fetched
  · rw [if_pos hf, hself]
    dsimp only
    by_cases hs : w.served.serves x.call.settings.deliveryMode
    · rw [if_pos (show w.served.serves (x.call.settings.apply e).deliveryMode from hs)]
      cases hp : parse x.attempt.payload with
      | error error =>
        have hans : answer parse w x = none := by
          unfold answer
          rw [if_pos ⟨hf, hs⟩, hp]
        rw [hans]
        exact ⟨hwrite _, rfl⟩
      | ok u =>
        have hans : answer parse w x = some (send w x.call.settings x.call).2 := by
          unfold answer
          rw [if_pos ⟨hf, hs⟩, hp]
        rw [hans]
        exact ⟨hwrite _, rfl⟩
    · have hans : answer parse w x = none := if_neg fun h => hs h.2
      rw [if_neg (show ¬ w.served.serves (x.call.settings.apply e).deliveryMode from hs), hans]
      exact ⟨hfind, rfl⟩
  · have hans : answer parse w x = none := if_neg fun h => hf h.1
    rw [if_neg hf, hans]
    exact ⟨hfind, rfl⟩

end Vsms.Hooks.Deliver
