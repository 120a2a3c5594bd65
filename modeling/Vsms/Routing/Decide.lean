import Vsms.Routing.Engine
import Mathlib.Data.List.Sort
import Mathlib.Order.Basic

/-! # The worker's routing pass

`decide` reads the `Route` rows in a fixed order and the `Provider` rows they name, judges each
provider available or not at the time of the read, and asks the engine. What one call sees is a
`RoutingView`: both tables, the clock, the draw, and what `Msisdn::parse` made of the recipient. A
later call may see other tables. -/

namespace Vsms.Routing.Decide

open Vsms.Schema.Types Vsms.Routing.Engine

/-- The columns of `providers` the worker reads. -/
structure Provider where
  id : String
  key : String
  state : ProviderState
  consecutiveFailures : ℤ
  circuitOpenUntil : Option Time
  version : ℕ

/-- What one call of `decide` sees. The `Route` rows have the columns of `RouteRow`. -/
structure RoutingView where
  routes : List RouteRow
  providers : List Provider
  now : Time
  draw : ℚ
  national : Option String

/-- The columns of a message a routing decision reads. -/
structure Candidate where
  operator : OperatorCode
  messageClass : MessageClass
  appId : String
  deriving DecidableEq, Repr

/-- `{:?}` of a provider state. -/
def debugProviderState : ProviderState → String
  | .active => "active"
  | .degraded => "degraded"
  | .disabled => "disabled"
  | .draining => "draining"

/-- A provider is available if it is active and its circuit is not open. -/
def convertProvider (row : Provider) (now : Time) : ProviderRow :=
  let circuitOpen : Bool := row.circuitOpenUntil.any fun t => now < t
  let available : Bool := row.state = .active && !circuitOpen
  { id := row.id
    available := available
    reason :=
      if circuitOpen then some "circuit breaker open after consecutive Unavailable failures"
      else if !available then
        some ("provider state is " ++ debugProviderState row.state ++ ", not active")
      else none }

/-- `ORDER BY priority DESC, id ASC`. -/
def routeOrder (a b : RouteRow) : Prop :=
  b.priority < a.priority ∨ (a.priority = b.priority ∧ a.id ≤ b.id)

instance : DecidableRel routeOrder := fun a b => by unfold routeOrder; infer_instance

def RoutingView.orderedRoutes (v : RoutingView) : List RouteRow := v.routes.insertionSort routeOrder

/-- The providers the routes name, by id. -/
def RoutingView.providerRow (v : RoutingView) (id : String) : Option ProviderRow :=
  if v.routes.any (·.providerId = id) then
    (v.providers.find? (·.id = id)).map fun p => convertProvider p v.now
  else none

/-- **The routing decision for a message.** A recipient that does not parse has no national number,
and then no prefix predicate other than the empty one matches. -/
def decide (v : RoutingView) (c : Candidate) (exclude : List String) : Decision :=
  selectRoute v.orderedRoutes v.providerRow
    ⟨c.operator, c.messageClass, c.appId, v.national.getD ""⟩ exclude v.draw

theorem decide_winner {v : RoutingView} {c : Candidate} {exclude : List String} {winner : Winner}
    (h : (decide v c exclude).winner = some winner) :
    ∃ route ∈ v.routes, route.id = winner.routeId ∧ route.id ∉ exclude := by
  obtain ⟨route, hr, hid, hx⟩ := selectRoute_winner h
  exact ⟨route, (List.mem_insertionSort _).mp hr, hid, hx⟩

/-! ## The explanation of a decision without a winner -/

def debugOperator : OperatorCode → String
  | .mtn => "Mtn"
  | .orange => "Orange"
  | .camtel => "Camtel"
  | .nexttel => "Nexttel"
  | .unknown => "Unknown"

def debugClass : MessageClass → String
  | .otp => "Otp"
  | .transactional => "Transactional"
  | .notification => "Notification"
  | .marketing => "Marketing"

/-- `{:?}` of a character inside a string. The `\u` escapes of characters that are not printable are
left out. -/
def debugChar (c : Char) : List Char :=
  if c = '"' then ['\\', '"']
  else if c = '\\' then ['\\', '\\']
  else if c = '\n' then ['\\', 'n']
  else if c = '\r' then ['\\', 'r']
  else if c = '\t' then ['\\', 't']
  else if c.toNat = 0 then ['\\', '0']
  else [c]

def debugString (s : String) : String := "\"" ++ String.ofList (s.toList.flatMap debugChar) ++ "\""

def debugPredicate : PredicateFailure → String
  | .operator e a =>
    "Operator \x7b expected: " ++ debugOperator e ++ ", actual: " ++ debugOperator a ++ " \x7d"
  | .messageClass e a =>
    "Class \x7b expected: " ++ debugClass e ++ ", actual: " ++ debugClass a ++ " \x7d"
  | .appId e a =>
      "AppId \x7b expected: " ++ debugString e ++ ", actual: " ++ debugString a ++ " \x7d"
  | .matchPrefix e n =>
    "Prefix \x7b expected: " ++ debugString e ++ ", msisdn_national: " ++ debugString n ++ " \x7d"

def debugOutcome : RouteOutcome → String
  | .excluded => "Excluded"
  | .disabled => "Disabled"
  | .predicateFailed f => "PredicateFailed(" ++ debugPredicate f ++ ")"
  | .providerUnavailable r => "ProviderUnavailable(" ++ debugString r ++ ")"
  | .eligible b => "Eligible \x7b winning_band: " ++ (if b then "true" else "false") ++ " \x7d"

/-- The `stateReason` of a message no route took. -/
def explainNoRoute (d : Decision) : String :=
  if d.evaluations.isEmpty then "no eligible route: no Route rows are configured"
  else
    "no eligible route: " ++ toString d.evaluations.length ++
      " route(s) evaluated, 0 eligible — " ++
      String.intercalate "; " (d.evaluations.map fun e =>
        e.routeName ++ " (" ++ debugOutcome e.outcome ++ ")")

end Vsms.Routing.Decide
