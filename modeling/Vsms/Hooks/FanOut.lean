import Vsms.Api.Send
import Vsms.Hooks.Lifecycle
import Vsms.Lib.Json

/-! # Webhook fan-out

A change of a message leaves an event in the outbox, with the row as it then was. The subscriber
(`enqueue_message_webhook_attempts`) turns it into attempts: it looks up the endpoints of the
message's app that want the event and inserts an attempt for each. The drain runs it on the events
that are not marked delivered, several at a time and as often as it likes, and marks an event only
after the subscriber has returned without an error.

A state is the outbox, the two tables and what each process is doing; one step is one statement, so
that a run of the subscriber can be overtaken or fail between any two of them. An insert whose key
is there already counts as done, and one whose endpoint is gone fails the run; deleting an endpoint
deletes its attempts. `History` says which steps led to a state: which call a process is in, what it
has read, and that everything it has passed over is in the table unless its endpoint was deleted
since. -/

namespace Vsms.Hooks.FanOut

open Vsms.Core.Pack Vsms.Core.Numbers Vsms.Lib.Indexes Vsms.Lib.Runs Vsms.Schema.Types
open Vsms.Schema.Messages (Message)
open Vsms.Schema.Webhooks (WebhookEndpoint WebhookAttempt)

/-! ## Rows -/

/-- An endpoint with the columns that only the subscriber reads. -/
structure Endpoint extends WebhookEndpoint where
  eventTypes : String
  maskRecipient : Bool
  deriving DecidableEq

/-- An attempt with the column that only the unique index reads. -/
structure Attempt extends WebhookAttempt where
  aggregateId : String

/-- The columns of the index `webhook_attempts_dedupe`. -/
def Attempt.dedupeKey (a : Attempt) : String × String × String :=
  (a.endpointId, a.aggregateId, a.eventType)

/-- A message as an event carries it. The cost is a decimal, of which only the text is used. -/
structure Snapshot extends Message where
  costXaf : String

/-- A row of the outbox. -/
structure Event where
  id : String
  data : Snapshot

/-! ## The subscriber -/

/-- The event catalogue. -/
def messageEventType : MessageState → Option String
  | .accepted => some "message.accepted"
  | .submitted => some "message.submitted"
  | .delivered => some "message.delivered"
  | .failed => some "message.failed"
  | .expired => some "message.expired"
  | .uncertain => some "message.uncertain"
  | .cancelled => some "message.cancelled"
  | .queued | .routed | .undelivered | .rejected => none

/-- What `enqueue_message_webhook_attempts` decides before it reads: the type of the event, or
nothing to do. -/
def eventTypeOf (message : Snapshot) : Option String :=
  if message.purgedAt.isSome then none else messageEventType message.state

/-- The filter of `find_many`. -/
def Subscribed (appId eventType : String) (e : Endpoint) : Prop :=
  e.appId = appId ∧ e.active = true ∧ HasSubstring e.eventTypes (needle eventType)

instance (appId eventType : String) (e : Endpoint) : Decidable (Subscribed appId eventType e) := by
  unfold Subscribed
  infer_instance

def messageStateStr : MessageState → String
  | .accepted => "accepted"
  | .queued => "queued"
  | .routed => "routed"
  | .submitted => "submitted"
  | .delivered => "delivered"
  | .uncertain => "uncertain"
  | .undelivered => "undelivered"
  | .failed => "failed"
  | .expired => "expired"
  | .rejected => "rejected"
  | .cancelled => "cancelled"

/-- An integer column as JSON. -/
def integer (n : ℤ) : Lib.Json.Value Empty :=
  let n := Int64.ofInt n
  .number (if h : n.toInt < 0 then .negInt n h else .posInt n.toUInt64)

/-- No number of a payload is a floating-point one. -/
def noFloats : Lib.Json.FloatFormat Empty := ⟨nofun, nofun, nofun, nofun⟩

/-- The recipient as an endpoint may see it; a number that does not parse is given as stored. -/
def recipient (phones : PhoneLib) (message : Snapshot) (maskRecipient : Bool) : String :=
  match parse phones message.msisdn with
  | .error _ => message.msisdn
  | .ok parsed => if maskRecipient then parsed.masked else parsed.e164

/-- The `data` object of a delivery; its keys are written in order. -/
def messagePayload (phones : PhoneLib) (message : Snapshot) (maskRecipient : Bool) : String :=
  String.ofList <| Lib.Json.render noFloats <| Lib.Json.sortKeys <| .object
    [("messageId", .string message.id),
      ("appId", .string message.appId),
      ("clientRef", (message.clientRef.map .string).getD .null),
      ("to", .string (recipient phones message maskRecipient)),
      ("state", .string (messageStateStr message.state)),
      ("operator", .string (Api.Send.operatorCodeStr message.operator)),
      ("segments", integer message.segments),
      ("costXaf", .string message.costXaf)]

/-- The row `create` inserts for an endpoint, at the subscriber's time `now`. -/
def newAttempt (phones : PhoneLib) (event : Event) (eventType : String) (endpoint : Endpoint)
    (id : String) (now : Time) : Attempt where
  toWebhookAttempt := Lifecycle.enqueue
    { id := id
      endpointId := endpoint.id
      sourceEventId := event.id
      eventType := eventType
      payload := messagePayload phones event.data endpoint.maskRecipient
      createdAt := now }
  aggregateId := event.data.id

/-! ## States and steps -/

/-- What one process of the drain is doing. -/
inductive Handler
  | idle
  | called (event : Event)
  | inserting (event : Event) (eventType : String) (endpoints : List Endpoint)
  | returned (event : Event)

def Handler.event : Handler → Option Event
  | .idle => none
  | .called event => some event
  | .inserting event _ _ => some event
  | .returned event => some event

structure State where
  events : List Event
  delivered : List String
  endpoints : List Endpoint
  attempts : List Attempt
  handlers : ℕ → Handler

def init : State := ⟨[], [], [], [], fun _ => .idle⟩

def State.become (s : State) (p : ℕ) (h : Handler) : State :=
  { s with handlers := Function.update s.handlers p h }

/-- One statement, or one decision, of somebody. `fail` stands for every way a run ends without an
answer: an error of the read or of an insert, a panic, the end of the process. -/
inductive Action
  | emit (event : Event)
  | createEndpoint (e : Endpoint)
  | updateEndpoint (e : Endpoint)
  | deleteEndpoint (id : String)
  | call (p : ℕ) (eventId : String)
  | skip (p : ℕ)
  | read (p : ℕ) (rows : List Endpoint)
  | insert (p : ℕ) (id : String) (now : Time)
  | finish (p : ℕ)
  | fail (p : ℕ)
  | markDelivered (p : ℕ)

inductive InsertError
  | uniqueViolation
  | foreignKeyViolation

/-- `INSERT INTO webhook_attempts`, with the index `webhook_attempts_dedupe` and the key
`wha_endpoint_fk`. -/
def insertAttempt (s : State) (a : Attempt) : Except InsertError (List Attempt) :=
  if a.dedupeKey ∈ s.attempts.map Attempt.dedupeKey then .error .uniqueViolation
  else if a.endpointId ∈ s.endpoints.map (·.id) then .ok (s.attempts ++ [a])
  else .error .foreignKeyViolation

/-- One round of the subscriber's loop: only a violation of a unique index is no error. -/
def insertNext (s : State) (p : ℕ) (event : Event) (eventType : String) (rest : List Endpoint)
    (a : Attempt) :
    State :=
  match insertAttempt s a with
  | .ok attempts => { s with attempts := attempts }.become p (.inserting event eventType rest)
  | .error .uniqueViolation => s.become p (.inserting event eventType rest)
  | .error .foreignKeyViolation => s.become p .idle

/-- The rows of an answer to `find_many`, in some order. -/
def State.subscribed (s : State) (appId eventType : String) : List Endpoint :=
  s.endpoints.filter (Subscribed appId eventType)

/-- **One step of the system.** -/
def step (phones : PhoneLib) (s : State) : Action → Option State
  | .emit event =>
    if event.id ∈ s.events.map Event.id then none else some { s with events := s.events ++ [event] }
  | .createEndpoint e =>
    if e.id ∈ s.endpoints.map (·.id) then none else some { s with endpoints := s.endpoints ++ [e] }
  | .updateEndpoint e =>
    -- A change sets any of the columns; the id stays.
    some { s with endpoints := s.endpoints.map fun x => if x.id = e.id then e else x }
  | .deleteEndpoint id => some
      { s with
        endpoints := s.endpoints.filter (·.id ≠ id)
        attempts := s.attempts.filter (·.endpointId ≠ id) }
  | .call p eventId =>
    match s.handlers p, s.events.find? (·.id = eventId) with
    | .idle, some event => some (s.become p (.called event))
    | _, _ => none
  | .skip p =>
    match s.handlers p with
    | .called event => if eventTypeOf event.data = none then some (s.become p (.returned event))
        else none
    | _ => none
  | .read p rows =>
    match s.handlers p with
    | .called event =>
      match eventTypeOf event.data with
      | none => none
      | some eventType =>
        if rows.Perm (s.subscribed event.data.appId eventType) then
          some (s.become p (.inserting event eventType rows))
        else none
    | _ => none
  | .insert p id now =>
    match s.handlers p with
    | .inserting event eventType (e :: rest) =>
      -- The database gives a new id.
      if id ∈ s.attempts.map (·.id) then none
      else some (insertNext s p event eventType rest (newAttempt phones event eventType e id now))
    | _ => none
  | .finish p =>
    match s.handlers p with
    | .inserting event _ [] => some (s.become p (.returned event))
    | _ => none
  | .fail p => some (s.become p .idle)
  | .markDelivered p =>
    match s.handlers p with
    | .returned event => some ({ s with delivered := event.id :: s.delivered }.become p .idle)
    | _ => none

/-! ## What a step can do -/

section steps
variable {phones : PhoneLib} {s t : State} {a : Action}

/-- **The steps, one constructor a branch.** -/
inductive Steps (phones : PhoneLib) (s : State) : Action → State → Prop
  | emit {event} (h : event.id ∉ s.events.map Event.id) :
      Steps phones s (.emit event) { s with events := s.events ++ [event] }
  | createEndpoint {e} (h : e.id ∉ s.endpoints.map (·.id)) :
      Steps phones s (.createEndpoint e) { s with endpoints := s.endpoints ++ [e] }
  | updateEndpoint {e} : Steps phones s (.updateEndpoint e)
      { s with endpoints := s.endpoints.map fun x => if x.id = e.id then e else x }
  | deleteEndpoint {id} : Steps phones s (.deleteEndpoint id)
      { s with
        endpoints := s.endpoints.filter (·.id ≠ id)
        attempts := s.attempts.filter (·.endpointId ≠ id) }
  | call {p eventId event} (hp : s.handlers p = .idle)
      (hevent : s.events.find? (·.id = eventId) = some event) :
      Steps phones s (.call p eventId) (s.become p (.called event))
  | skip {p event} (hp : s.handlers p = .called event) (htype : eventTypeOf event.data = none) :
      Steps phones s (.skip p) (s.become p (.returned event))
  | read {p rows event eventType} (hp : s.handlers p = .called event)
      (htype : eventTypeOf event.data = some eventType)
      (hrows : rows.Perm (s.subscribed event.data.appId eventType)) :
      Steps phones s (.read p rows) (s.become p (.inserting event eventType rows))
  | insert {p id now event eventType e rest}
      (hp : s.handlers p = .inserting event eventType (e :: rest))
      (hid : id ∉ s.attempts.map (·.id)) :
      Steps phones s (.insert p id now)
        (insertNext s p event eventType rest (newAttempt phones event eventType e id now))
  | finish {p event eventType} (hp : s.handlers p = .inserting event eventType []) :
      Steps phones s (.finish p) (s.become p (.returned event))
  | fail {p} : Steps phones s (.fail p) (s.become p .idle)
  | markDelivered {p event} (hp : s.handlers p = .returned event) :
      Steps phones s (.markDelivered p)
      ({ s with delivered := event.id :: s.delivered }.become p .idle)

theorem step_steps (h : step phones s a = some t) : Steps phones s a t := by
  cases a with
  | emit event =>
    dsimp only [step] at h
    split_ifs at h with hid
    cases h
    exact .emit hid
  | createEndpoint e =>
    dsimp only [step] at h
    split_ifs at h with hid
    cases h
    exact .createEndpoint hid
  | updateEndpoint e =>
    cases h
    exact .updateEndpoint
  | deleteEndpoint id =>
    cases h
    exact .deleteEndpoint
  | call p eventId =>
    dsimp only [step] at h
    split at h
    · next hp hevent =>
      cases h
      exact .call hp hevent
    · exact absurd h (by simp)
  | skip p =>
    dsimp only [step] at h
    split at h
    · next hp =>
      split_ifs at h with htype
      cases h
      exact .skip hp htype
    · exact absurd h (by simp)
  | read p rows =>
    dsimp only [step] at h
    split at h
    · next hp =>
      split at h
      · exact absurd h (by simp)
      · next htype =>
        split_ifs at h with hrows
        cases h
        exact .read hp htype hrows
    · exact absurd h (by simp)
  | insert p id now =>
    dsimp only [step] at h
    split at h
    · next hp =>
      split_ifs at h with hid
      cases h
      exact .insert hp hid
    · exact absurd h (by simp)
  | finish p =>
    dsimp only [step] at h
    split at h
    · next hp =>
      cases h
      exact .finish hp
    · exact absurd h (by simp)
  | fail p =>
    cases h
    exact .fail
  | markDelivered p =>
    dsimp only [step] at h
    split at h
    · next hp =>
      cases h
      exact .markDelivered hp
    · exact absurd h (by simp)

/-- **What one round of the loop does**: the row is new and its endpoint there; or its key is in the
table already; or its endpoint is gone and the run ends. -/
theorem insertNext_cases (s : State) (p : ℕ) (event : Event) (eventType : String)
    (rest : List Endpoint) (x : Attempt) :
    ((∀ y ∈ s.attempts, y.dedupeKey ≠ x.dedupeKey) ∧ (∃ e ∈ s.endpoints, e.id = x.endpointId) ∧
        insertNext s p event eventType rest x =
          { s with attempts := s.attempts ++ [x] }.become p (.inserting event eventType rest)) ∨
      ((∃ y ∈ s.attempts, y.dedupeKey = x.dedupeKey) ∧
        insertNext s p event eventType rest x = s.become p (.inserting event eventType rest)) ∨
      insertNext s p event eventType rest x = s.become p .idle := by
  unfold insertNext insertAttempt
  by_cases hkey : x.dedupeKey ∈ s.attempts.map Attempt.dedupeKey
  · rw [if_pos hkey]
    exact Or.inr (Or.inl ⟨List.mem_map.mp hkey, rfl⟩)
  · rw [if_neg hkey]
    by_cases hend : x.endpointId ∈ s.endpoints.map (·.id)
    · rw [if_pos hend]
      refine Or.inl ⟨fun y hy heq => hkey (List.mem_map.mpr ⟨y, hy, heq⟩),
        List.mem_map.mp hend, rfl⟩
    · rw [if_neg hend]
      exact Or.inr (Or.inr rfl)

theorem insertNext_frame (s : State) (p : ℕ) (event : Event) (eventType : String)
    (rest : List Endpoint) (x : Attempt) :
    (insertNext s p event eventType rest x).events = s.events ∧
      (insertNext s p event eventType rest x).delivered = s.delivered := by
  unfold insertNext
  split <;> exact ⟨rfl, rfl⟩

/-- **What a step does to the attempts.** -/
theorem attempts_cases (h : step phones s a = some t) :
    t.attempts = s.attempts ∨
      (∃ id, a = .deleteEndpoint id ∧ t.attempts = s.attempts.filter (·.endpointId ≠ id)) ∨
      ∃ p id now event eventType e rest, a = .insert p id now ∧
        s.handlers p = .inserting event eventType (e :: rest) ∧
        (∀ y ∈ s.attempts, y.dedupeKey ≠ (e.id, event.data.id, eventType)) ∧
        t.attempts = s.attempts ++ [newAttempt phones event eventType e id now] := by
  cases step_steps h with
  | deleteEndpoint => exact Or.inr (Or.inl ⟨_, rfl, rfl⟩)
  | @insert p id now event eventType e rest hp hid =>
    rcases insertNext_cases s p event eventType rest
      (newAttempt phones event eventType e id now) with
      ⟨hnew, -, heq⟩ | ⟨-, heq⟩ | heq
    · rw [heq]
      exact Or.inr (Or.inr ⟨p, id, now, event, eventType, e, rest, rfl, hp, hnew, rfl⟩)
    · rw [heq]
      exact Or.inl rfl
    · rw [heq]
      exact Or.inl rfl
  | _ => exact Or.inl rfl

/-- A call of the subscriber by `p`. -/
def IsCall (p : ℕ) (a : Action) : Prop := ∃ eventId, a = .call p eventId

/-- **What a step does to a process.** -/
inductive Moves (s t : State) (q : ℕ) : Action → Handler → Handler → Prop
  | stay {a h} (ha : ¬ IsCall q a) : Moves s t q a h h
  | stop {a h} : Moves s t q a h .idle
  | call {event} (hevent : event ∈ s.events) : Moves s t q (.call q event.id) .idle (.called event)
  | skip {event} (htype : eventTypeOf event.data = none) :
      Moves s t q (.skip q) (.called event) (.returned event)
  | read {rows event eventType} (htype : eventTypeOf event.data = some eventType)
      (hrows : rows.Perm (s.subscribed event.data.appId eventType)) :
      Moves s t q (.read q rows) (.called event) (.inserting event eventType rows)
  | insert {id now event eventType e rest}
      (hx : ∃ x ∈ t.attempts, x.dedupeKey = (e.id, event.data.id, eventType)) :
      Moves s t q (.insert q id now) (.inserting event eventType (e :: rest))
        (.inserting event eventType rest)
  | finish {event eventType} :
      Moves s t q (.finish q) (.inserting event eventType []) (.returned event)

/-- A step of `p`, for `p` and for the others. -/
theorem Moves.become {p : ℕ} {u : State} {h : Handler} (hu : u.handlers = s.handlers)
    (ha : ∀ q, IsCall q a → q = p) (hp : Moves s (u.become p h) p a (s.handlers p) h) (q : ℕ) :
    Moves s (u.become p h) q a (s.handlers q) ((u.become p h).handlers q) := by
  have heq : (u.become p h).handlers = Function.update s.handlers p h := by rw [← hu]; rfl
  rw [heq]
  by_cases hq : q = p
  · subst hq
    rw [Function.update_self]
    exact hp
  · rw [Function.update_of_ne hq]
    exact .stay fun hcall => hq (ha q hcall)

theorem step_moves (h : step phones s a = some t) (q : ℕ) :
    Moves s t q a (s.handlers q) (t.handlers q) := by
  cases step_steps h with
  | emit => exact .stay (by rintro ⟨_, ⟨⟩⟩)
  | createEndpoint => exact .stay (by rintro ⟨_, ⟨⟩⟩)
  | updateEndpoint => exact .stay (by rintro ⟨_, ⟨⟩⟩)
  | deleteEndpoint => exact .stay (by rintro ⟨_, ⟨⟩⟩)
  | @call p eventId event hp hevent =>
    obtain ⟨hmem, rfl⟩ := mem_of_find hevent
    refine .become rfl ?_ ?_ q
    · rintro q ⟨_, ⟨⟩⟩
      rfl
    · rw [hp]
      exact .call hmem
  | skip hp htype => exact .become rfl (by rintro _ ⟨_, ⟨⟩⟩) (by rw [hp]; exact .skip htype) q
  | read hp htype hrows =>
      exact .become rfl (by rintro _ ⟨_, ⟨⟩⟩) (by rw [hp]; exact .read htype hrows) q
  | @insert p id now event eventType e rest hp hid =>
    have hcall : ∀ r, IsCall r (.insert p id now) → r = p := by rintro _ ⟨_, ⟨⟩⟩
    rcases insertNext_cases s p event eventType rest
      (newAttempt phones event eventType e id now) with
      ⟨-, -, heq⟩ | ⟨hx, heq⟩ | heq
    · rw [heq]
      refine .become ?_ hcall ?_ q
      · rfl
      rw [hp]
      exact .insert ⟨_, List.mem_append_right _ List.mem_cons_self, rfl⟩
    · rw [heq]
      exact .become rfl hcall (by rw [hp]; exact .insert hx) q
    · rw [heq]
      exact .become rfl hcall .stop q
  | finish hp => exact .become rfl (by rintro _ ⟨_, ⟨⟩⟩) (by rw [hp]; exact .finish) q
  | fail => exact .become rfl (by rintro _ ⟨_, ⟨⟩⟩) .stop q
  | markDelivered hp =>
    refine .become ?_ ?_ .stop q
    · rfl
    · rintro _ ⟨_, ⟨⟩⟩

/-- Only a process that has returned marks, and it marks the event it was called with. -/
theorem delivered_cases (h : step phones s a = some t) :
    t.delivered = s.delivered ∨
      ∃ p event, s.handlers p = .returned event ∧ t.delivered = event.id :: s.delivered := by
  cases step_steps h with
  | insert hp hid => exact Or.inl (insertNext_frame ..).2
  | markDelivered hp => exact Or.inr ⟨_, _, hp, rfl⟩
  | _ => exact Or.inl rfl

theorem events_cases (h : step phones s a = some t) :
    t.events = s.events ∨ ∃ event,
    event.id ∉ s.events.map Event.id ∧ t.events = s.events ++ [event] := by
  cases step_steps h with
  | emit hid => exact Or.inr ⟨_, hid, rfl⟩
  | insert hp hid => exact Or.inl (insertNext_frame ..).1
  | _ => exact Or.inl rfl

end steps

/-! ## The tables -/

/-- **The keys**: the index holds, an event has its id to itself, and a process is called with an
event of the outbox. -/
structure Keyed (s : State) : Prop where
  dedupe : Unique Attempt.dedupeKey s.attempts
  ids : Unique Event.id s.events
  known : ∀ p event, (s.handlers p).event = some event → event ∈ s.events

theorem keyed_init : Keyed init where
  dedupe := .nil
  ids := .nil
  known _ _ h := by cases h

section history
variable {phones : PhoneLib} {s t : State} {a : Action} {as : List Action}

theorem mem_events (h : step phones s a = some t) {event : Event} (hevent : event ∈ s.events) :
    event ∈ t.events := by
  rcases events_cases h with heq | ⟨_, -, heq⟩
  · rw [heq]
    exact hevent
  · rw [heq]
    exact List.mem_append_left _ hevent

/-- A process goes on with the event it has, or takes one of the outbox. -/
theorem Moves.event {q : ℕ} {h h' : Handler} {event : Event} (hm : Moves s t q a h h')
    (he : h'.event = some event) : h.event = some event ∨ event ∈ s.events := by
  cases hm with
  | stay _ => exact Or.inl he
  | stop => exact absurd he (by simp [Handler.event])
  | call hevent =>
    cases he
    exact Or.inr hevent
  | skip _ => exact Or.inl he
  | read _ _ => exact Or.inl he
  | insert _ => exact Or.inl he
  | finish => exact Or.inl he

theorem step_keyed (hs : Keyed s) (h : step phones s a = some t) : Keyed t where
  dedupe := by
    rcases attempts_cases h with
      heq | ⟨id, -, heq⟩ | ⟨p, id, now, event, eventType, e, rest, -, -, hnew, heq⟩
    · rw [heq]
      exact hs.dedupe
    · rw [heq]
      exact hs.dedupe.filter _
    · rw [heq]
      exact hs.dedupe.concat hnew
  ids := by
    rcases events_cases h with heq | ⟨event, hid, heq⟩
    · rw [heq]
      exact hs.ids
    · rw [heq]
      refine hs.ids.concat fun y hy hk => hid ?_
      rw [← hk]
      exact List.mem_map_of_mem hy
  known p event he := by
    rcases (step_moves h p).event he with hold | hevent
    · exact mem_events h (hs.known p event hold)
    · exact mem_events h hevent

theorem keyed (h : exec (step phones) init as = some s) : Keyed s :=
  exec_invariant' (fun _ _ _ hs ht => step_keyed hs ht) keyed_init h

/-! ## What has been passed over -/

/-- The key is in the table, or the endpoint has been deleted since. -/
def Covered (s : State) (since : List Action) (key : String × String × String) : Prop :=
  (∃ x ∈ s.attempts, x.dedupeKey = key) ∨ .deleteEndpoint key.1 ∈ since

/-- An attempt stays until its endpoint is deleted. -/
theorem attempt_stays {key : String × String × String} (h : step phones s a = some t)
    (ha : a ≠ .deleteEndpoint key.1) (hx : ∃ x ∈ s.attempts, x.dedupeKey = key) :
    ∃ x ∈ t.attempts, x.dedupeKey = key := by
  obtain ⟨x, hx, hkey⟩ := hx
  refine ⟨x, ?_, hkey⟩
  rcases attempts_cases h with
    heq | ⟨id, rfl, heq⟩ | ⟨p, id, now, event, eventType, e, rest, -, -, -, heq⟩
  · rw [heq]
    exact hx
  · rw [heq]
    have hne : x.endpointId ≠ id := by
      rintro rfl
      exact ha (by rw [← hkey]; rfl)
    exact List.mem_filter.mpr ⟨hx, by simpa using hne⟩
  · rw [heq]
    exact List.mem_append_left _ hx

theorem attempt_stays_run {key : String × String × String} (h : exec (step phones) s as = some t)
    (has : .deleteEndpoint key.1 ∉ as) (hx : ∃ x ∈ s.attempts, x.dedupeKey = key) :
    ∃ x ∈ t.attempts, x.dedupeKey = key := by
  induction as generalizing s with
  | nil =>
    cases h
    exact hx
  | cons a as ih =>
    obtain ⟨u, hu, h⟩ := exec_cons.mp h
    rw [List.mem_cons, not_or] at has
    exact ih h has.2 (attempt_stays hu (Ne.symm has.1) hx)

theorem Covered.step {since : List Action} {key : String × String × String}
    (hc : Covered s since key) (h : step phones s a = some t) : Covered t (since ++ [a]) key := by
  by_cases ha : a = .deleteEndpoint key.1
  · exact Or.inr (List.mem_append_right _ (by rw [ha]; exact List.mem_cons_self))
  · rcases hc with hx | hmem
    · exact Or.inl (attempt_stays h ha hx)
    · exact Or.inr (List.mem_append_left _ hmem)

/-! ## Runs of the subscriber -/

/-- **A run of the subscriber on `event` by `p`**, called after `pre`, in the state `s₀`; `run` is
all that has happened since. -/
structure Began (phones : PhoneLib) (p : ℕ) (event : Event) (pre run : List Action) (s₀ : State) :
    Prop where
  start : exec (step phones) init (pre ++ [.call p event.id]) = some s₀
  called : s₀.handlers p = .called event
  own : ∀ c ∈ run, ¬ IsCall p c

/-- The run has returned without an error, in the state `s₁`. -/
structure Succeeded (phones : PhoneLib) (p : ℕ) (event : Event) (pre run : List Action)
    (s₀ s₁ : State) : Prop
    extends Began phones p event pre run s₀ where
  ran : exec (step phones) s₀ run = some s₁
  returned : s₁.handlers p = .returned event

/-- What the run has to insert. -/
def Passed (h : Handler) (event : Event) (eventType : String) (rest : List Endpoint) : Prop :=
  h = .inserting event eventType rest ∨
    h = .returned event ∧ eventTypeOf event.data = some eventType ∧ rest = []

/-- **The run has read the endpoints, and has put in all but `rest`.** -/
def HasRead (phones : PhoneLib) (p : ℕ) (event : Event) (eventType : String) (run : List Action)
    (s₀ s : State) (rest : List Endpoint) : Prop :=
  eventTypeOf event.data = some eventType ∧ ∃ before rows after y,
    run = before ++ .read p rows :: after ∧ exec (step phones) s₀ before = some y ∧
      y.handlers p = .called event ∧ rows.Perm (y.subscribed event.data.appId eventType) ∧
      (∀ e ∈ rest, e ∈ rows) ∧
      ∀ e ∈ rows, e ∈ rest ∨ Covered s after (e.id, event.data.id, eventType)

variable {p : ℕ} {event : Event} {eventType : String} {pre run : List Action} {s₀ : State}
  {rest : List Endpoint}

theorem Began.concat (hb : Began phones p event pre run s₀) (ha : ¬ IsCall p a) :
    Began phones p event pre (run ++ [a]) s₀ where
  start := hb.start
  called := hb.called
  own c hc := by
    rcases List.mem_append.mp hc with hc | hc
    · exact hb.own c hc
    · rw [List.mem_singleton.mp hc]
      exact ha

theorem Began.ran (hb : Began phones p event pre run s₀)
    (h : exec (step phones) init (pre ++ .call p event.id :: run) = some s) :
    exec (step phones) s₀ run = some s := by
  obtain ⟨u, hu, h⟩ := exec_cut.mp h
  obtain rfl : s₀ = u := Option.some.inj (hb.start.symm.trans hu)
  exact h

theorem HasRead.step (hr : HasRead phones p event eventType run s₀ s rest)
    (h : step phones s a = some t) :
    HasRead phones p event eventType (run ++ [a]) s₀ t rest := by
  obtain ⟨htype, before, rows, after, y, rfl, hy, hcalled, hperm, hrest, hcov⟩ := hr
  refine ⟨htype, before, rows, after ++ [a], y, by simp, hy, hcalled, hperm, hrest, fun e he => ?_⟩
  exact (hcov e he).imp_right fun hc => hc.step h

/-- A round of the loop: the first of what was left has its key in the table now. -/
theorem HasRead.insert {e : Endpoint} (hr : HasRead phones p event eventType run s₀ s (e :: rest))
    (h : FanOut.step phones s a = some t)
    (hx : ∃ x ∈ t.attempts, x.dedupeKey = (e.id, event.data.id, eventType)) :
    HasRead phones p event eventType (run ++ [a]) s₀ t rest := by
  obtain ⟨htype, before, rows, after, y, hrun, hy, hcalled, hperm, hrest, hcov⟩ := hr.step h
  refine ⟨htype, before, rows, after, y, hrun, hy, hcalled, hperm, fun e' he' => ?_,
    fun e' he' => ?_⟩
  · exact hrest e' (List.mem_cons_of_mem e he')
  · rcases hcov e' he' with hmem | hc
    · rcases List.mem_cons.mp hmem with rfl | hmem
      · exact Or.inr (Or.inl hx)
      · exact Or.inl hmem
    · exact Or.inr hc

/-- A process in a run, and where it is in it. -/
def InRun (phones : PhoneLib) (as : List Action) (s : State) (p : ℕ) (event : Event) : Prop :=
  ∃ pre run s₀, as = pre ++ .call p event.id :: run ∧ Began phones p event pre run s₀ ∧
    ∀ eventType rest, Passed (s.handlers p) event eventType rest →
      HasRead phones p event eventType run s₀ s rest

/-- A run goes on. -/
theorem InRun.concat (hs : InRun phones as s p event) (ha : ¬ IsCall p a)
    (hread : ∀ pre run s₀, as = pre ++ .call p event.id :: run → Began phones p event pre run s₀ →
      (∀ eventType rest, Passed (s.handlers p) event eventType rest →
        HasRead phones p event eventType run s₀ s rest) →
      ∀ eventType rest, Passed (t.handlers p) event eventType rest →
        HasRead phones p event eventType (run ++ [a]) s₀ t rest) :
    InRun phones (as ++ [a]) t p event := by
  obtain ⟨pre, run, s₀, rfl, hb, hr⟩ := hs
  exact ⟨pre, run ++ [a], s₀, by simp, hb.concat ha, hread pre run s₀ rfl hb hr⟩

/-- **Every process in a run has got where it is by its own steps.** -/
theorem step_inRun (hrun : exec (step phones) init as = some s)
    (hs : ∀ p event, (s.handlers p).event = some event → InRun phones as s p event)
    (h : step phones s a = some t) (p : ℕ) (event : Event)
    (he : (t.handlers p).event = some event) :
    InRun phones (as ++ [a]) t p event := by
  have hmove := step_moves h p
  generalize hold : s.handlers p = old at hmove
  generalize hnow : t.handlers p = now at hmove
  cases hmove with
  | stay ha =>
    refine (hs p event (by rw [hold, ← hnow]; exact he)).concat ha ?_
    intro pre run s₀ _ _ hr eventType rest hpassed
    rw [hnow, ← hold] at hpassed
    exact (hr eventType rest hpassed).step h
  | stop =>
    rw [hnow] at he
    exact absurd he (by simp [Handler.event])
  | @call event' hevent =>
    rw [hnow] at he
    cases he
    refine ⟨as, [], t, rfl, ⟨exec_concat hrun h, hnow, by simp⟩, ?_⟩
    intro eventType rest hpassed
    rw [hnow] at hpassed
    exact absurd hpassed (by simp [Passed])
  | @skip event' htype =>
    rw [hnow] at he
    cases he
    refine (hs p event (by rw [hold]; rfl)).concat (by rintro ⟨_, ⟨⟩⟩) ?_
    intro pre run s₀ _ _ _ eventType rest hpassed
    rw [hnow] at hpassed
    rcases hpassed with heq | ⟨-, htype', -⟩
    · cases heq
    · rw [htype] at htype'
      exact absurd htype' (by simp)
  | @read rows event' eventType' htype hrows =>
    rw [hnow] at he
    cases he
    refine (hs p event (by rw [hold]; rfl)).concat (by rintro ⟨_, ⟨⟩⟩) ?_
    intro pre run s₀ has hb _ eventType rest hpassed
    rw [hnow] at hpassed
    rcases hpassed with heq | ⟨heq, -⟩
    · cases heq
      rw [has] at hrun
      exact ⟨htype, run, rows, [], s, rfl, hb.ran hrun, hold, hrows, fun _ he => he,
        fun _ he => Or.inl he⟩
    · cases heq
  | @insert id now event' eventType' e rest' hx =>
    rw [hnow] at he
    cases he
    refine (hs p event (by rw [hold]; rfl)).concat (by rintro ⟨_, ⟨⟩⟩) ?_
    intro pre run s₀ _ _ hr eventType rest hpassed
    rw [hnow] at hpassed
    rcases hpassed with heq | ⟨⟨⟩, -⟩
    cases heq
    exact (hr _ _ (Or.inl hold)).insert h hx
  | @finish event' eventType' =>
    rw [hnow] at he
    cases he
    refine (hs p event (by rw [hold]; rfl)).concat (by rintro ⟨_, ⟨⟩⟩) ?_
    intro pre run s₀ _ _ hr eventType rest hpassed
    rw [hnow] at hpassed
    rcases hpassed with heq | ⟨-, htype, rfl⟩
    · cases heq
    · have hread := (hr _ _ (Or.inl hold)).step h
      obtain rfl : eventType' = eventType := Option.some.inj (hread.1.symm.trans htype)
      exact hread

/-! ## Histories -/

/-- **Where an attempt comes from**: `p` read its endpoint, in the state `y` after `pre`, and
inserted it in the same run. -/
def Created (phones : PhoneLib) (as : List Action) (x : Attempt) (event : Event) : Prop :=
  ∃ p e now pre rows mid post y,
    as = pre ++ .read p rows :: (mid ++ .insert p x.id now :: post) ∧ (∀ c ∈ mid, ¬ IsCall p c) ∧
      exec (step phones) init pre = some y ∧ y.handlers p = .called event ∧ e ∈ y.endpoints ∧
      Subscribed event.data.appId x.eventType e ∧ eventTypeOf event.data = some x.eventType ∧
      x = newAttempt phones event x.eventType e x.id now

/-- **The steps that led to a state.** -/
structure History (phones : PhoneLib) (as : List Action) (s : State) : Prop where
  handlers : ∀ p event, (s.handlers p).event = some event → InRun phones as s p event
  delivered : ∀ id ∈ s.delivered, ∃ p event pre run post s₀ s₁, event.id = id ∧
    as = (pre ++ .call p event.id :: run) ++ post ∧ Succeeded phones p event pre run s₀ s₁
  attempts : ∀ x ∈ s.attempts, ∃ event ∈ s.events, Created phones as x event

theorem history_init : History phones [] init where
  handlers _ _ h := by cases h
  delivered _ h := by cases h
  attempts _ h := by cases h

theorem Created.concat {x : Attempt} (hx : Created phones as x event) (a : Action) :
    Created phones (as ++ [a]) x event := by
  obtain ⟨p, e, now, pre, rows, mid, post, y, rfl, hrest⟩ := hx
  exact ⟨p, e, now, pre, rows, mid, post ++ [a], y, by simp, hrest⟩

/-- The insert of a run that has read. -/
theorem InRun.created {e : Endpoint} {id : String} {now : Time}
    (hrun : exec (step phones) init as = some s) (hs : InRun phones as s p event)
    (hp : s.handlers p = .inserting event eventType (e :: rest)) :
    Created phones (as ++ [.insert p id now])
      (newAttempt phones event eventType e id now) event := by
  obtain ⟨pre, run, s₀, rfl, hb, hr⟩ := hs
  obtain ⟨htype, before, rows, after, y, rfl, hy, hcalled, hperm, hrest, -⟩ :=
    hr eventType _ (Or.inl hp)
  have he : e ∈ y.subscribed event.data.appId eventType :=
    hperm.mem_iff.mp (hrest e List.mem_cons_self)
  obtain ⟨hmem, hsub⟩ := List.mem_filter.mp he
  have hown : ∀ c ∈ after, ¬ IsCall p c := fun c hc =>
    hb.own c (List.mem_append_right _ (List.mem_cons_of_mem _ hc))
  refine ⟨p, e, now, pre ++ .call p event.id :: before, rows, after, [], y, ?_, hown, ?_,
    hcalled, hmem, ?_, htype, rfl⟩
  · simp [newAttempt, Lifecycle.enqueue]
  · exact exec_cut.mpr ⟨s₀, hb.start, hy⟩
  · exact of_decide_eq_true hsub

theorem step_history (hrun : exec (step phones) init as = some s) (hs : History phones as s)
    (h : step phones s a = some t) : History phones (as ++ [a]) t where
  handlers := step_inRun hrun hs.handlers h
  delivered id hid := by
    have hold : ∀ id ∈ s.delivered, ∃ p event pre run post s₀ s₁, event.id = id ∧
        as ++ [a] = (pre ++ .call p event.id :: run) ++ post ∧
          Succeeded phones p event pre run s₀ s₁ := by
      intro id hid
      obtain ⟨p, event, pre, run, post, s₀, s₁, hevent, rfl, hsucc⟩ := hs.delivered id hid
      exact ⟨p, event, pre, run, post ++ [a], s₀, s₁, hevent, by simp, hsucc⟩
    rcases delivered_cases h with heq | ⟨p, event, hp, heq⟩
    · rw [heq] at hid
      exact hold id hid
    · rw [heq] at hid
      rcases List.mem_cons.mp hid with rfl | hid
      · obtain ⟨pre, run, s₀, rfl, hb, -⟩ := hs.handlers p event (by rw [hp]; rfl)
        exact ⟨p, event, pre, run, [a], s₀, s, rfl, rfl, hb, hb.ran hrun, hp⟩
      · exact hold id hid
  attempts x hx := by
    have hold : ∀ x ∈ s.attempts, ∃ event ∈ t.events, Created phones (as ++ [a]) x event := by
      intro x hx
      obtain ⟨event, hevent, hc⟩ := hs.attempts x hx
      exact ⟨event, mem_events h hevent, hc.concat a⟩
    rcases attempts_cases h with
      heq | ⟨id, -, heq⟩ | ⟨p, id, now, event, eventType, e, rest, rfl, hp, -, heq⟩
    · rw [heq] at hx
      exact hold x hx
    · rw [heq] at hx
      exact hold x (List.mem_of_mem_filter hx)
    · rw [heq] at hx
      rcases List.mem_append.mp hx with hx | hx
      · exact hold x hx
      · rw [List.mem_singleton.mp hx]
        have hevent : (s.handlers p).event = some event := by rw [hp]; rfl
        exact ⟨event, mem_events h ((keyed hrun).known p event hevent),
          (hs.handlers p event hevent).created hrun hp⟩

theorem history (h : exec (step phones) init as = some s) : History phones as s :=
  exec_history history_init (fun _ _ _ _ hrun hs ht => step_history hrun hs ht) h

/-! ## Nothing lost, nothing doubled -/

/-- **A run that has returned has left an attempt for every endpoint that wanted the event
throughout.** -/
theorem Succeeded.covers {s₁ : State} (hsucc : Succeeded phones p event pre run s₀ s₁)
    (htype : eventTypeOf event.data = some eventType) {id : String}
    (hall : Always (step phones) (fun y => ∃ e ∈ y.endpoints, e.id = id ∧
      Subscribed event.data.appId eventType e)
      s₀ run) :
    ∃ x ∈ s₁.attempts, x.dedupeKey = (id, event.data.id, eventType) := by
  have hrun : exec (step phones) init (pre ++ .call p event.id :: run) = some s₁ :=
    exec_cut.mpr ⟨s₀, hsucc.start, hsucc.ran⟩
  obtain ⟨pre', run', s₀', heq, hb, hr⟩ :=
    (history hrun).handlers p event (by rw [hsucc.returned]; rfl)
  -- The call of the history is the call of the run.
  obtain ⟨rfl, -, rfl⟩ := last_unique heq ⟨_, rfl⟩ ⟨_, rfl⟩ hsucc.own hb.own
  obtain rfl : s₀ = s₀' := Option.some.inj (hsucc.start.symm.trans hb.start)
  obtain ⟨-, before, rows, after, y, rfl, hy, -, hperm, -, hcov⟩ :=
    hr eventType [] (Or.inr ⟨hsucc.returned, htype, rfl⟩)
  obtain ⟨e, he, rfl, hsub⟩ := hall.initial (List.prefix_append _ _) hy
  have hrow : e ∈ rows := hperm.mem_iff.mpr (List.mem_filter.mpr ⟨he, decide_eq_true hsub⟩)
  rcases hcov e hrow with hnil | hx | hdel
  · cases hnil
  · exact hx
  · -- Right after a delete the endpoint would not be there.
    exfalso
    obtain ⟨u, v, rfl⟩ := List.append_of_mem hdel
    have hsplit : before ++ .read p rows :: (u ++ .deleteEndpoint e.id :: v) =
        (before ++ .read p rows :: u ++ [.deleteEndpoint e.id]) ++ v := by simp
    have hexec := hsucc.ran
    rw [hsplit] at hexec
    obtain ⟨z, hz, -⟩ := exec_append.mp hexec
    obtain ⟨e', he', hid, -⟩ := hall.initial (by rw [hsplit]; exact List.prefix_append _ _) hz
    obtain ⟨w, -, hdelete⟩ := exec_append.mp hz
    obtain ⟨_, hdelete, hnil⟩ := exec_cons.mp hdelete
    cases hnil
    cases hdelete
    exact absurd hid (by simpa using (List.mem_filter.mp he').2)

theorem eventTypeOf_some {message : Snapshot} :
    eventTypeOf message = some eventType ↔
      message.purgedAt = none ∧ messageEventType message.state = some eventType := by
  unfold eventTypeOf
  split_ifs with hpurged
  · rw [Option.isSome_iff_ne_none] at hpurged
    simp [hpurged]
  · rw [Option.not_isSome_iff_eq_none] at hpurged
    simp [hpurged]

/-- A purged snapshot notifies nobody. -/
theorem no_attempt_of_purged (h : exec (step phones) init as = some s) (hevent : event ∈ s.events)
    (hpurged : event.data.purgedAt ≠ none) : ∀ x ∈ s.attempts, x.sourceEventId ≠ event.id := by
  intro x hx hid
  obtain ⟨event', hevent', p, e, now, pre, rows, mid, post, y, -, -, -, -, -, -, htype, hxeq⟩ :=
    (history h).attempts x hx
  have hid' : event'.id = event.id := by
    rw [← hid, hxeq]
    rfl
  obtain rfl : event' = event := (keyed h).ids.eq hevent' hevent hid'
  exact hpurged (eventTypeOf_some.mp htype).1

/-- **Webhook fan-out.** However the drain runs the subscriber, wherever it fails and whatever
becomes of the endpoints meanwhile: no two attempts are for one endpoint, message and event type; an
event that is marked delivered has had a run of the subscriber that returned, and such a run leaves
an attempt for every endpoint that satisfied the filter throughout, as long as the endpoint is not
deleted; and an attempt comes from a run that had read its endpoint, then active, of the message's
app and subscribed to the type, for a snapshot in a catalogued state that is not purged. -/
theorem fan_out (h : exec (step phones) init as = some s) :
    Unique Attempt.dedupeKey s.attempts ∧
      (∀ id ∈ s.delivered, ∃ p event pre run post s₀ s₁, event.id = id ∧
        as = (pre ++ .call p event.id :: run) ++ post ∧ Succeeded phones p event pre run s₀ s₁) ∧
      (∀ p event pre run post s₀ s₁ eventType id, as = (pre ++ .call p event.id :: run) ++ post →
        Succeeded phones p event pre run s₀ s₁ → event.data.purgedAt = none →
        messageEventType event.data.state = some eventType →
        Always (step phones)
          (fun y => ∃ e ∈ y.endpoints, e.id = id ∧ Subscribed event.data.appId eventType e) s₀ run →
        .deleteEndpoint id ∉ post →
        ∃ x ∈ s.attempts, x.endpointId = id ∧ x.aggregateId = event.data.id ∧
          x.eventType = eventType) ∧
      ∀ x ∈ s.attempts, ∃ event ∈ s.events, x.sourceEventId = event.id ∧
        x.aggregateId = event.data.id ∧
        event.data.purgedAt = none ∧ messageEventType event.data.state = some x.eventType ∧
        ∃ p now pre rows mid post y,
        as = pre ++ .read p rows :: (mid ++ .insert p x.id now :: post) ∧
          (∀ c ∈ mid, ¬ IsCall p c) ∧ exec (step phones) init pre = some y ∧
          y.handlers p = .called event ∧
          ∃ e ∈ y.endpoints, e.id = x.endpointId ∧ Subscribed event.data.appId x.eventType e := by
  have hhist := history h
  refine ⟨(keyed h).dedupe, hhist.delivered, ?_, ?_⟩
  · intro p event pre run post s₀ s₁ eventType id has hsucc hpurged htype hall hpost
    have hcovers := hsucc.covers (eventTypeOf_some.mpr ⟨hpurged, htype⟩) hall
    have hrest : exec (step phones) s₁ post = some s := by
      rw [has] at h
      obtain ⟨t, ht, h⟩ := exec_append.mp h
      obtain rfl : s₁ = t := Option.some.inj (hsucc.ran.symm.trans (hsucc.toBegan.ran ht))
      exact h
    obtain ⟨x, hx, hkey⟩ := attempt_stays_run hrest hpost hcovers
    obtain ⟨hid, hagg, htype⟩ := by simpa [Attempt.dedupeKey] using hkey
    exact ⟨x, hx, hid, hagg, htype⟩
  · intro x hx
    obtain ⟨event, hevent, p, e, now, pre, rows, mid, post, y, has, hown, hy, hcalled, he, hsub,
        htype, hxeq⟩ :=
      hhist.attempts x hx
    obtain ⟨hpurged, htype⟩ := eventTypeOf_some.mp htype
    refine ⟨event, hevent, ?_, ?_, hpurged, htype, p, now, pre, rows, mid, post, y, has, hown,
      hy, hcalled, e, he, ?_, hsub⟩
    all_goals
      rw [hxeq]
      rfl

end history

section runs

def sampleEndpoint : Endpoint where
  id := "w1"
  appId := "app1"
  url := "https://example.test/hook"
  deliveryMode := .hmac
  audience := none
  secret := some "whsec"
  prevSecret := none
  active := true
  maxAttempts := 5
  circuitOpenUntil := none
  consecutiveFailures := 0
  version := 0
  updatedAt := 0
  eventTypes := " message.accepted "
  maskRecipient := true

def sampleEvent : Event where
  id := "e1"
  data :=
    { Schema.Messages.accept
        { id := "m1", appId := "app1", clientRef := none, msisdn := "+237677123456",
          msisdnHash := "h", operator := .mtn, senderIdValue := "VSMS", messageClass :=
            .otp, body := "1234", bodyHash := "b",
          bodyLength := 4, encoding := .gsm7, segments := 1, scheduledAt :=
            none, expiresAt := hours 1,
          createdAt := 0 } with
      costXaf := "0" }

/-- A message is accepted, and process 0 has read the one endpoint that wants to know. -/
def readRun : List Action :=
  [.createEndpoint sampleEndpoint, .emit sampleEvent, .call 0 "e1", .read 0 [sampleEndpoint]]

/-- Process 0 fails after its insert, and process 1 finds the attempt there already. -/
def retryRun : List Action :=
  readRun ++ [.insert 0 "a1" 0, .fail 0, .call 1 "e1", .read 1 [sampleEndpoint],
    .insert 1 "a2" 1, .finish 1, .markDelivered 1]

theorem fan_out_retry : ∃ s, exec (step Api.Send.samplePhones) init retryRun = some s ∧
    s.delivered = ["e1"] ∧ s.attempts.map (·.id) = ["a1"] ∧
    Unique Attempt.dedupeKey s.attempts := by
  have hrun : (exec (step Api.Send.samplePhones) init retryRun).map
      (fun s => (s.delivered, s.attempts.map (·.id))) = some (["e1"], ["a1"]) := by decide
  obtain ⟨s, hs, heq⟩ := exec_eval hrun
  obtain ⟨hdelivered, hattempts⟩ := Prod.mk.inj heq
  exact ⟨s, hs, hdelivered, hattempts, (fan_out hs).1⟩

/-- An endpoint that is given to another app after the subscriber has read it gets the attempt. -/
theorem moved_endpoint_gets_attempt : ¬ ∀ as s t p id now,
    exec (step Api.Send.samplePhones) init as = some s →
    step Api.Send.samplePhones s (.insert p id now) = some t →
      ∀ x ∈ t.attempts, x ∉ s.attempts → ∀ event ∈ t.events, x.sourceEventId = event.id →
        ∀ e ∈ t.endpoints, e.id = x.endpointId → e.appId = event.data.appId := by
  intro hall
  have hmoved :=
    hall (readRun ++ [.updateEndpoint { sampleEndpoint with appId := "app2" }]) _ _ 0 "a1" 0 rfl rfl
    _ List.mem_cons_self List.not_mem_nil sampleEvent List.mem_cons_self rfl _
      List.mem_cons_self rfl
  exact absurd hmoved (by decide)

end runs

end Vsms.Hooks.FanOut
