import Vsms.Schema.Types
import Mathlib.Algebra.Order.Ring.Unbundled.Rat
import Mathlib.Algebra.Ring.Int.Defs
import Mathlib.Data.List.Basic
import Mathlib.Data.Rat.Defs

/-! # Route selection

The engine of `sms_routing`: every route is evaluated (exclusion, the enabled flag, the predicates
in a fixed order, the provider), the eligible routes of the highest priority form the band, and a
band of two or more is decided by one weighted draw. Draws and ranges are exact rationals. Operators
and message classes are those of the schema (the conversions between the two are renamings). -/

namespace Vsms.Routing.Engine

open Vsms.Schema.Types

structure RouteRow where
  id : String
  name : String
  priority : ℤ
  weight : ℤ
  enabled : Bool
  matchOperator : Option OperatorCode
  matchClass : Option MessageClass
  matchAppId : Option String
  matchPrefix : Option String
  providerId : String
  failoverRouteId : Option String
  deriving DecidableEq, Repr

structure ProviderRow where
  id : String
  available : Bool
  reason : Option String
  deriving DecidableEq, Repr

structure RoutingCandidate where
  operator : OperatorCode
  messageClass : MessageClass
  appId : String
  msisdnNational : String
  deriving DecidableEq, Repr

inductive PredicateFailure
  | operator (expected actual : OperatorCode)
  | messageClass (expected actual : MessageClass)
  | appId (expected actual : String)
  | matchPrefix (expected msisdnNational : String)
  deriving DecidableEq, Repr

inductive RouteOutcome
  | excluded
  | disabled
  | predicateFailed (failure : PredicateFailure)
  | providerUnavailable (reason : String)
  | eligible (winningBand : Bool)
  deriving DecidableEq, Repr

def RouteOutcome.isEligible : RouteOutcome → Bool
  | .eligible _ => true
  | _ => false

structure RouteEvaluation where
  routeId : String
  routeName : String
  priority : ℤ
  weight : ℤ
  providerId : String
  outcome : RouteOutcome
  deriving DecidableEq, Repr

structure TieBreakRange where
  routeId : String
  weight : ℤ
  low : ℚ
  high : ℚ
  deriving DecidableEq, Repr

structure TieBreak where
  priority : ℤ
  draw : ℚ
  ranges : List TieBreakRange
  winnerRouteId : String
  deriving DecidableEq, Repr

structure Winner where
  routeId : String
  providerId : String
  failoverRouteId : Option String
  deriving DecidableEq, Repr

structure Decision where
  evaluations : List RouteEvaluation
  tieBreak : Option TieBreak
  winner : Option Winner
  deriving DecidableEq, Repr

/-- The first predicate that does not match; `none` is a wildcard. -/
def failingPredicate (route : RouteRow) (c : RoutingCandidate) : Option PredicateFailure :=
  match route.matchOperator.filter (· ≠ c.operator) with
  | some expected => some (.operator expected c.operator)
  | none =>
    match route.matchClass.filter (· ≠ c.messageClass) with
    | some expected => some (.messageClass expected c.messageClass)
    | none =>
      match route.matchAppId.filter (· ≠ c.appId) with
      | some expected => some (.appId expected c.appId)
      | none =>
        match route.matchPrefix.filter fun p => !p.toList.isPrefixOf c.msisdnNational.toList with
        | some expected => some (.matchPrefix expected c.msisdnNational)
        | none => none

def outcomeOf (route : RouteRow) (providers : String → Option ProviderRow) (c : RoutingCandidate)
    (exclude : List String) : RouteOutcome :=
  if route.id ∈ exclude then .excluded
  else if !route.enabled then .disabled
  else
    match failingPredicate route c with
    | some failure => .predicateFailed failure
    | none =>
      match providers route.providerId with
      | some provider =>
        if provider.available then .eligible false
        else .providerUnavailable (provider.reason.getD "provider unavailable")
      | none => .providerUnavailable ("no provider record for " ++ route.providerId)

def evaluateOne (route : RouteRow) (providers : String → Option ProviderRow)
    (c : RoutingCandidate) (exclude : List String) : RouteEvaluation where
  routeId := route.id
  routeName := route.name
  priority := route.priority
  weight := route.weight
  providerId := route.providerId
  outcome := outcomeOf route providers c exclude

/-- The loop of `pick_weighted`: the ranges in band order, and the first route whose range's upper
end exceeds the draw. -/
def pickLoop (uniform : Bool) (denom draw : ℚ) :
    List RouteRow → ℚ → Option String → List TieBreakRange × Option String
  | [], _, winner => ([], winner)
  | route :: band, acc, winner =>
    let share : ℚ := if uniform then 1 else (max route.weight 0 : ℤ)
    let low := acc / denom
    let high := (acc + share) / denom
    let winner := if winner.isNone ∧ draw < high then some route.id else winner
    let rest := pickLoop uniform denom draw band (acc + share) winner
    (⟨route.id, route.weight, low, high⟩ :: rest.1, rest.2)

/-- An `i64` that arithmetic has carried out of range, as a release build leaves it. -/
def wrapI64 (n : ℤ) : ℤ := (n + 2 ^ 63) % 2 ^ 64 - 2 ^ 63

/-- The weighted draw over a band. -/
def pickWeighted (band : List RouteRow) (priority : ℤ) (draw : ℚ) : String × TieBreak :=
  let totalWeight := wrapI64 (band.map fun r => max r.weight 0).sum
  let uniform : Bool := totalWeight = 0
  let denom : ℚ := if uniform then (band.length : ℤ) else totalWeight
  let picked := pickLoop uniform denom draw band 0 none
  let winner := picked.2.getD ((band.getLast?.map RouteRow.id).getD "")
  (winner, ⟨priority, draw, picked.1, winner⟩)

/-- `f64::clamp` to the range below one. -/
def clampDraw (draw : ℚ) : ℚ := max 0 (min draw (9999999999 / 10000000000))

/-- The highest priority among the eligible routes. -/
def winningPriority (evaluated : List (RouteEvaluation × RouteRow)) : Option ℤ :=
  ((evaluated.filter fun e => e.1.outcome.isEligible).map fun e => e.2.priority).max?

/-- **Select a route.** -/
def selectRoute (routes : List RouteRow) (providers : String → Option ProviderRow)
    (c : RoutingCandidate) (exclude : List String) (draw : ℚ) : Decision :=
  let evaluated := routes.map fun r => (evaluateOne r providers c exclude, r)
  match winningPriority evaluated with
  | none => ⟨evaluated.map Prod.fst, none, none⟩
  | some priority =>
    let wins : RouteEvaluation × RouteRow → Bool := fun e =>
      e.2.priority = priority && e.1.outcome.isEligible
    let evaluations := evaluated.map fun e =>
      if wins e then { e.1 with outcome := .eligible true } else e.1
    let band := (evaluated.filter wins).map Prod.snd
    match band with
    | [route] => ⟨evaluations, none, some ⟨route.id, route.providerId, route.failoverRouteId⟩⟩
    | _ =>
      let picked := pickWeighted band priority (clampDraw draw)
      ⟨evaluations, some picked.2, (band.find? fun r => r.id = picked.1).map fun route =>
        ⟨route.id, route.providerId, route.failoverRouteId⟩⟩

/-! ### Who wins -/

theorem outcomeOf_eligible {route : RouteRow} {providers : String → Option ProviderRow}
    {c : RoutingCandidate} {exclude : List String}
    (h : (outcomeOf route providers c exclude).isEligible) : route.id ∉ exclude := by
  intro hmem
  unfold outcomeOf at h
  rw [if_pos hmem] at h
  cases h

/-- **The winner is a route that is not excluded.** -/
theorem selectRoute_winner {routes : List RouteRow} {providers : String → Option ProviderRow}
    {c : RoutingCandidate} {exclude : List String} {draw : ℚ} {winner : Winner}
    (h : (selectRoute routes providers c exclude draw).winner = some winner) :
    ∃ route ∈ routes, route.id = winner.routeId ∧ route.id ∉ exclude := by
  unfold selectRoute at h
  dsimp only at h
  split at h
  · cases h
  · next priority hp =>
    generalize hband : ((routes.map fun r => (evaluateOne r providers c exclude, r)).filter fun e =>
      e.2.priority = priority && e.1.outcome.isEligible).map Prod.snd = band at h
    have hmem : ∀ route ∈ band, route ∈ routes ∧ route.id ∉ exclude := by
      intro route hr
      rw [← hband] at hr
      obtain ⟨e, he, rfl⟩ := List.mem_map.mp hr
      obtain ⟨he, hwins⟩ := List.mem_filter.mp he
      obtain ⟨r, hroute, rfl⟩ := List.mem_map.mp he
      exact ⟨hroute, outcomeOf_eligible (Bool.and_eq_true_iff.mp hwins).2⟩
    split at h
    · next route =>
      cases h
      obtain ⟨hr, hx⟩ := hmem route List.mem_cons_self
      exact ⟨route, hr, rfl, hx⟩
    · obtain ⟨route, hfind, rfl⟩ := Option.map_eq_some_iff.mp h
      obtain ⟨hr, hx⟩ := hmem route (List.mem_of_find?_eq_some hfind)
      exact ⟨route, hr, rfl, hx⟩

end Vsms.Routing.Engine
