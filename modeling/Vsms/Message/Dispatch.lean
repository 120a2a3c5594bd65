import Vsms.Message.Claim
import Vsms.Core.Pack

/-! # Dispatch

What a worker does with a message it claimed into `routed`: it resolves the provider, submits, and
writes back the transition the outcome implies. A provider that cannot be resolved counts as
`unavailable`. `handleSubmitError` puts `attempt_failover` before `terminal_outcome`, for the errors
whose routing consequence is another route; its routing query may fail, and then nothing is written.

The chain of causes of an error is left out, and so is the circuit breaker of the provider row,
which no write to the message depends on. -/

namespace Vsms.Message.Dispatch

open Vsms.Schema.Types Vsms.Schema.Messages Vsms.Routing.Engine Vsms.Routing.Decide
open Vsms.Core.Pack Vsms.Message.Claim

/-! ## Providers -/

/-- `std::time::Duration`. -/
structure Duration where
  secs : ℕ
  nanos : ℕ
  deriving DecidableEq, Repr

inductive ProviderError
  | permanent (code message : String)
  | transient (retryAfter : Duration) (message : String)
  | unavailable (message : String)
  | rejected (code message : String)
  | unsupported
  | indeterminate (message : String)
  deriving DecidableEq, Repr

inductive RoutingConsequence
  | retryThisProvider (after : Duration)
  | tryNextRoute
  | openCircuitAndTryNextRoute
  | failMessage
  | holdIndeterminate
  deriving DecidableEq, Repr

def ProviderError.routing : ProviderError → RoutingConsequence
  | .permanent _ _ => .tryNextRoute
  | .transient retryAfter _ => .retryThisProvider retryAfter
  | .unavailable _ => .openCircuitAndTryNextRoute
  | .rejected _ _ => .failMessage
  | .unsupported => .failMessage
  | .indeterminate _ => .holdIndeterminate

/-- A number with so many digits after the point, without the zeros at its end. -/
def fmtDecimal (integer fractional digits : ℕ) : String :=
  if fractional = 0 then toString integer
  else
    let written := (toString fractional).toList
    let padded := List.replicate (digits - written.length) '0' ++ written
    toString integer ++ "." ++ String.ofList (padded.rdropWhile (· = '0'))

/-- `{:?}` of a duration. -/
def Duration.debug (d : Duration) : String :=
  if 0 < d.secs then fmtDecimal d.secs d.nanos 9 ++ "s"
  else if 1000000 ≤ d.nanos then fmtDecimal (d.nanos / 1000000) (d.nanos % 1000000) 6 ++ "ms"
  else if 1000 ≤ d.nanos then fmtDecimal (d.nanos / 1000) (d.nanos % 1000) 3 ++ "µs"
  else fmtDecimal d.nanos 0 0 ++ "ns"

/-- The text of an error. -/
def ProviderError.display : ProviderError → String
  | .permanent code message => code ++ ": " ++ message
  | .transient retryAfter message => "retry after " ++ retryAfter.debug ++ ": " ++ message
  | .unavailable message => "provider unavailable: " ++ message
  | .rejected code message => code ++ ": " ++ message
  | .unsupported => "not supported by this provider"
  | .indeterminate message => "submission outcome unknown, possibly sent: " ++ message

structure SubmitRequest where
  recipient : String
  senderId : String
  body : String
  encoding : Encoding
  reference : String
  deriving DecidableEq, Repr

structure SubmitAck where
  providerRef : String
  providerRefAlt : Option String
  deriving DecidableEq, Repr

/-- The references a submission returned. -/
def SubmitAck.refs (ack : SubmitAck) : List String := ack.providerRef :: ack.providerRefAlt.toList

/-- What a call of `submit` returns. -/
abbrev SubmitResult := Except ProviderError SubmitAck

/-- After these answers the SMS has been, or may have been, sent. -/
def Conclusive : SubmitResult → Bool
  | .ok _ => true
  | .error (.indeterminate _) => true
  | .error _ => false

/-- `resolve_provider`: the row `providerId` names, and an adapter for its key. -/
def resolveProvider (m : Message) (rows : Except String (List Provider)) (adapters : List String) :
    Except String Provider :=
  match m.providerId with
  | none => .error "message reached routed with no providerId stamped"
  | some providerId =>
    match rows with
    | .error e => .error ("looking up provider " ++ providerId ++ ": " ++ e)
    | .ok rows =>
      match rows.find? (·.id = providerId) with
      | none => .error ("provider " ++ providerId ++ " no longer exists")
      | some row =>
        if row.key ∈ adapters then .ok row
        else .error ("no adapter configured in this process for provider key " ++
          debugString row.key ++ " (provider " ++ providerId ++ ")")

/-- The request for a message with this body. -/
def submitRequest (m : Message) (body : String) : SubmitRequest :=
  ⟨m.msisdn, m.senderIdValue, body, m.encoding, m.id⟩

/-! ## Patches -/

/-- `chrono::Duration::from_std`, in whole microseconds, with the 30 s that stand in for a delay
beyond `i64::MAX` milliseconds. -/
def backoffDelay (d : Duration) : Time :=
  if (d.secs : ℤ) * 1000000000 + d.nanos ≤ 9223372036854775807 * 1000000 then
    seconds d.secs + d.nanos / 1000
  else seconds 30

/-- `write_transition`. Every caller passes no alternate reference. -/
def writeTransition (next : MessageState) (reason : String) (backoff : Option Duration)
    (now : Time) : UpdateMessageInput where
  state := some next
  stateReason := some (some reason)
  leaseUntil := some (backoff.map fun d => now + backoffDelay d)

/-- `write_submitted`. -/
def writeSubmitted (ack : SubmitAck) : UpdateMessageInput where
  state := some .submitted
  providerMessageRef := some (some ack.providerRef)
  providerMessageRefAlt := some ack.providerRefAlt

/-- `write_failover`: a new route, claimable at once. -/
def writeFailover (winner : Winner) (excludedRouteIds reason : String) (now : Time) :
    UpdateMessageInput where
  state := some .queued
  providerId := some (some winner.providerId)
  routeId := some (some winner.routeId)
  excludedRouteIds := some (some excludedRouteIds)
  stateReason := some (some reason)
  leaseUntil := some (some now)

/-! ## Failover -/

def unavailableBackoff : Duration := ⟨30, 0⟩

def maxFailoverHops : ℕ := 2

/-- `terminal_outcome`: the state, the reason and the backoff. -/
def terminalOutcome : ProviderError → MessageState × String × Option Duration
  | .transient retryAfter msg => (.queued, "transient: " ++ msg, some retryAfter)
  | .unavailable msg => (.queued, "provider unavailable: " ++ msg, some unavailableBackoff)
  | .permanent code msg =>
    (.failed, code ++ ": " ++ msg ++ " (no alternate route available)", none)
  | .rejected code msg => (.failed, code ++ ": " ++ msg, none)
  | .unsupported => (.failed, "operation not supported by this provider", none)
  | .indeterminate msg =>
    (.uncertain,
      "submission outcome unknown, possibly already sent; not retrying: " ++ msg, none)

/-- Another route is tried. -/
def RoutingConsequence.shouldAttemptFailover : RoutingConsequence → Bool
  | .tryNextRoute => true
  | .openCircuitAndTryNextRoute => true
  | .retryThisProvider _ => false
  | .failMessage => false
  | .holdIndeterminate => false

/-- The message's exclude set with its current route. -/
def excludedWith (m : Message) : List String :=
  let excluded := unpack (m.excludedRouteIds.getD "")
  match m.routeId with
  | none => excluded
  | some current => if current ∈ excluded then excluded else excluded ++ [current]

/-- What `attempt_failover` comes to. `queryFailed` is its error, `panicked` the `expect` on the
packed exclude set. -/
inductive FailoverOutcome
  | rerouted (set : UpdateMessageInput)
  | exhausted
  | queryFailed
  | panicked

/-- **`attempt_failover`**, up to the write. `query` is what its routing query sees, `none` if that
query fails. -/
def attemptFailover (m : Message) (reason : String) (query : Option RoutingView) (now : Time) :
    FailoverOutcome :=
  let excluded := excludedWith m
  if maxFailoverHops < excluded.length then .exhausted
  else
    match query with
    | none => .queryFailed
    | some view =>
      match (decide view (candidateOf m) excluded).winner with
      | none => .exhausted
      | some winner =>
        match pack excluded with
        | .error _ => .panicked
        | .ok packed =>
          .rerouted (writeFailover winner packed
            ("failover (hop " ++ toString excluded.length ++ " of " ++ toString maxFailoverHops ++
              "): " ++ reason ++ "; rerouted to route " ++ winner.routeId) now)

/-! ## Writing back -/

/-- What a worker does once it knows how the submission went. -/
inductive WriteBack
  | write (set : UpdateMessageInput)
  | leave
  | panic

def writeTerminal (err : ProviderError) (now : Time) : UpdateMessageInput :=
  writeTransition (terminalOutcome err).1 (terminalOutcome err).2.1 (terminalOutcome err).2.2 now

/-- **`handle_submit_error`.** -/
def handleSubmitError (m : Message) (err : ProviderError) (query : Option RoutingView)
    (now : Time) : WriteBack :=
  if err.routing.shouldAttemptFailover then
    match attemptFailover m err.display query now with
    | .rerouted set => .write set
    | .exhausted => .write (writeTerminal err now)
    | .queryFailed => .leave
    | .panicked => .panic
  else .write (writeTerminal err now)

/-- **The end of `submit_one`.** -/
def finishSubmit (m : Message) (result : SubmitResult) (query : Option RoutingView) (now : Time) :
    WriteBack :=
  match result with
  | .ok ack => .write (writeSubmitted ack)
  | .error err => handleSubmitError m err query now

/-! ### What these patches can do -/

/-- After an error that leads to another route, the SMS has not been sent. -/
theorem conclusive_of_shouldAttemptFailover {err : ProviderError}
    (h : err.routing.shouldAttemptFailover = true) : Conclusive (.error err) = false := by
  cases err with
  | permanent code message => rfl
  | transient retryAfter message => rfl
  | unavailable message => rfl
  | rejected code message => rfl
  | unsupported => rfl
  | indeterminate message => exact absurd h Bool.false_ne_true

theorem terminalOutcome_state (err : ProviderError) :
    ((terminalOutcome err).1 = .uncertain ∧ Conclusive (.error err) = true) ∨
      (((terminalOutcome err).1 = .queued ∨ (terminalOutcome err).1 = .failed) ∧
        Conclusive (.error err) = false) := by
  cases err <;> simp [terminalOutcome, Conclusive]

/-- **A reroute**: the route is one of the table and not excluded, and the exclude set with the
current route has at most `maxFailoverHops` entries. -/
theorem attemptFailover_rerouted {m : Message} {reason : String} {query : Option RoutingView}
    {now : Time} {set : UpdateMessageInput}
    (h : attemptFailover m reason query now = .rerouted set) :
    ∃ winner packed text, set = writeFailover winner packed text now ∧
      (excludedWith m).length ≤ maxFailoverHops ∧ pack (excludedWith m) = .ok packed ∧
      ∃ view, query = some view ∧
        (decide view (candidateOf m) (excludedWith m)).winner = some winner := by
  unfold attemptFailover at h
  dsimp only at h
  split_ifs at h with hlen
  split at h
  · cases h
  · next view =>
    split at h
    · cases h
    · next winner hwinner =>
      split at h
      · cases h
      · next packed hpack =>
        cases h
        exact ⟨_, _, _, rfl, not_lt.mp hlen, hpack, view, rfl, hwinner⟩

/-- **The three patches of `submit_one`**: an acknowledgement, an error that ends the attempt, and a
reroute. -/
theorem finishSubmit_cases {m : Message} {result : SubmitResult} {query : Option RoutingView}
    {now : Time} {set : UpdateMessageInput} (h : finishSubmit m result query now = .write set) :
    (∃ ack, result = .ok ack ∧ set = writeSubmitted ack) ∨
    (∃ err, result = .error err ∧ set = writeTerminal err now) ∨
    ∃ err, result = .error err ∧ err.routing.shouldAttemptFailover = true ∧
      attemptFailover m err.display query now = .rerouted set := by
  cases result with
  | ok ack =>
    cases h
    exact Or.inl ⟨ack, rfl, rfl⟩
  | error err =>
    unfold finishSubmit handleSubmitError at h
    dsimp only at h
    split_ifs at h with hr
    · cases ha : attemptFailover m err.display query now with
      | rerouted set' =>
        simp only [ha] at h
        cases h
        exact Or.inr (Or.inr ⟨err, rfl, hr, ha⟩)
      | exhausted =>
        simp only [ha] at h
        cases h
        exact Or.inr (Or.inl ⟨err, rfl, rfl⟩)
      | queryFailed => simp only [ha] at h; cases h
      | panicked => simp only [ha] at h; cases h
    · cases h
      exact Or.inr (Or.inl ⟨err, rfl, rfl⟩)

/-- **What a worker writes after a submission**: `submitted` with the references after an
acknowledgement, `uncertain` after an indeterminate error, and `queued` or `failed` after any
other. -/
theorem finishSubmit_write {m : Message} {result : SubmitResult} {query : Option RoutingView}
    {now : Time} {set : UpdateMessageInput} (h : finishSubmit m result query now = .write set) :
    (∃ ack, result = .ok ack ∧ set = writeSubmitted ack) ∨
    (∃ err, result = .error err ∧ set.attempts = none ∧ set.finalizedAt = none ∧
      set.providerMessageRef = none ∧ set.providerMessageRefAlt = none ∧
      ((Conclusive result = true ∧ set.state = some .uncertain) ∨
        (Conclusive result = false ∧
          (set.state = some .queued ∨ set.state = some .failed)))) := by
  rcases finishSubmit_cases h with hack | ⟨err, rfl, rfl⟩ | ⟨err, rfl, hr, ha⟩
  · exact Or.inl hack
  · refine Or.inr ⟨err, rfl, rfl, rfl, rfl, rfl, ?_⟩
    rcases terminalOutcome_state err with ⟨h1, h2⟩ | ⟨h1, h2⟩
    · exact Or.inl ⟨h2, congrArg some h1⟩
    · exact Or.inr ⟨h2, h1.imp (congrArg some) (congrArg some)⟩
  · obtain ⟨winner, packed, text, rfl, -⟩ := attemptFailover_rerouted ha
    have hc := conclusive_of_shouldAttemptFailover hr
    exact Or.inr ⟨err, rfl, rfl, rfl, rfl, rfl, Or.inr ⟨hc, Or.inl rfl⟩⟩

/-- **What a submission does to the route**: nothing, or a reroute. -/
theorem finishSubmit_route {m : Message} {result : SubmitResult} {query : Option RoutingView}
    {now : Time} {set : UpdateMessageInput} (h : finishSubmit m result query now = .write set) :
    (set.routeId = none ∧ set.excludedRouteIds = none) ∨
      ∃ reason, attemptFailover m reason query now = .rerouted set := by
  rcases finishSubmit_cases h with ⟨ack, -, rfl⟩ | ⟨err, -, rfl⟩ | ⟨err, -, -, ha⟩
  · exact Or.inl ⟨rfl, rfl⟩
  · exact Or.inl ⟨rfl, rfl⟩
  · exact Or.inr ⟨err.display, ha⟩

/-- Only after an error that allows another route can nothing be written. -/
theorem finishSubmit_leave {m : Message} {result : SubmitResult} {query : Option RoutingView}
    {now : Time} (h : finishSubmit m result query now = .leave) :
    query = none ∧ Conclusive result = false := by
  cases result with
  | ok ack => cases h
  | error err =>
    unfold finishSubmit handleSubmitError at h
    dsimp only at h
    split_ifs at h with hr
    · refine ⟨?_, conclusive_of_shouldAttemptFailover hr⟩
      cases query with
      | none => rfl
      | some view =>
        exfalso
        cases ha : attemptFailover m err.display (some view) now with
        | rerouted set => simp only [ha] at h; cases h
        | exhausted => simp only [ha] at h; cases h
        | panicked => simp only [ha] at h; cases h
        | queryFailed =>
          unfold attemptFailover at ha
          dsimp only at ha
          split_ifs at ha
          split at ha
          · cases ha
          · split at ha <;> cases ha

end Vsms.Message.Dispatch
