import Vsms.Routing.Shares
import Mathlib.Data.List.Forall2
import Mathlib.Data.List.Nodup
import Mathlib.Data.List.Perm.Subperm

/-! # What `select_route` chooses, and how it explains it

A route passes the stages of the engine in order or fails at one of them (`passes`), and the best
routes are those that pass all of them and have the highest priority (`best`). `selectRoute_eq` says
once what a call returns: the evaluation of every route, marked if the route is one of the best, and
what `choose` makes of the best ones, which depends on nothing else. `selectRoute_spec` is read off
that. -/

namespace Vsms.Routing.Choice

open Vsms.Schema.Types Vsms.Routing.Engine Vsms.Routing.Shares

/-- What a route has to pass. -/
inductive Stage
  | exclusion
  | enabled
  | operator
  | messageClass
  | appId
  | matchPrefix
  | provider
  deriving DecidableEq, Repr

def predicates : List Stage := [.operator, .messageClass, .appId, .matchPrefix]

/-- In the order in which they are looked at. -/
def stages : List Stage := .exclusion :: .enabled :: (predicates ++ [.provider])

/-- The stage at which a predicate fails. -/
def failureStage : PredicateFailure → Stage
  | .operator _ _ => .operator
  | .messageClass _ _ => .messageClass
  | .appId _ _ => .appId
  | .matchPrefix _ _ => .matchPrefix

/-- The stage that an outcome names. -/
def stageOf : RouteOutcome → Option Stage
  | .excluded => some .exclusion
  | .disabled => some .enabled
  | .predicateFailed failure => some (failureStage failure)
  | .providerUnavailable _ => some .provider
  | .eligible _ => none

def winnerOf (route : RouteRow) : Winner := ⟨route.id, route.providerId, route.failoverRouteId⟩

section stages
variable (providers : String → Option ProviderRow) (c : RoutingCandidate) (exclude : List String)

/-- **The route passes the stage**: a predicate that is null is passed. -/
def passes (route : RouteRow) : Stage → Bool
  | .exclusion => route.id ∉ exclude
  | .enabled => route.enabled
  | .operator => route.matchOperator.all (· = c.operator)
  | .messageClass => route.matchClass.all (· = c.messageClass)
  | .appId => route.matchAppId.all (· = c.appId)
  | .matchPrefix => route.matchPrefix.all fun p => p.toList.isPrefixOf c.msisdnNational.toList
  | .provider => (providers route.providerId).any (·.available)

/-- It passes all. -/
def eligible (route : RouteRow) : Bool := stages.all (passes providers c exclude route)

/-- The first stage it fails at. -/
def firstFailing (route : RouteRow) : Option Stage :=
  stages.find? (! passes providers c exclude route ·)

/-- What a failed predicate reports is what the route asks for and what the message has. -/
def DescribesFailure (route : RouteRow) : PredicateFailure → Prop
  | .operator expected actual => route.matchOperator = some expected ∧ actual = c.operator
  | .messageClass expected actual => route.matchClass = some expected ∧ actual = c.messageClass
  | .appId expected actual => route.matchAppId = some expected ∧ actual = c.appId
  | .matchPrefix expected national => route.matchPrefix = some expected ∧
      national = c.msisdnNational

/-- What an outcome says besides. -/
def Describes (route : RouteRow) : RouteOutcome → Prop
  | .predicateFailed failure => DescribesFailure c route failure
  | .providerUnavailable reason =>
    reason = ((providers route.providerId).map fun p => p.reason.getD "provider unavailable").getD
      ("no provider record for " ++ route.providerId)
  | .excluded | .disabled | .eligible _ => True

/-! ## The outcome of a route -/

/-- A predicate that does not match, and one that does or is null. -/
theorem filter_cases {α : Type} [DecidableEq α] (o : Option α) (p : α → Bool) :
    (∃ a, o.filter p = some a ∧ o = some a ∧ o.all (! p ·) = false) ∨
      (o.filter p = none ∧ o.all (! p ·) = true) := by
  cases o with
  | none => exact Or.inr ⟨rfl, rfl⟩
  | some a =>
    rcases hp : p a with _ | _
    · exact Or.inr (by simp [Option.filter, hp])
    · exact Or.inl ⟨a, by simp [Option.filter, hp]⟩

/-- **The failure that is reported is of the first predicate that fails.** -/
theorem failingPredicate_spec (route : RouteRow) :
    (∃ failure, failingPredicate route c = some failure ∧
        predicates.find? (! passes providers c exclude route ·) = some (failureStage failure) ∧
        DescribesFailure c route failure) ∨
      (failingPredicate route c = none ∧
        predicates.find? (! passes providers c exclude route ·) = none) := by
  have hoperator := filter_cases route.matchOperator (· ≠ c.operator)
  have hclass := filter_cases route.matchClass (· ≠ c.messageClass)
  have happ := filter_cases route.matchAppId (· ≠ c.appId)
  have hprefix :=
    filter_cases route.matchPrefix fun p => !p.toList.isPrefixOf c.msisdnNational.toList
  simp only [decide_not, Bool.not_not] at hoperator hclass happ hprefix
  unfold failingPredicate predicates
  simp only [decide_not]
  rcases hoperator with ⟨expected, hfilter, hmatch, hall⟩ | ⟨hfilter, hall⟩
  · rw [hfilter]
    exact Or.inl ⟨.operator expected c.operator, rfl, by simp [passes, hall, failureStage],
      hmatch, rfl⟩
  rw [hfilter]
  rcases hclass with ⟨expected, hfilter, hmatch, hclass⟩ | ⟨hfilter, hclass⟩
  · rw [hfilter]
    exact Or.inl ⟨.messageClass expected c.messageClass, rfl,
      by simp [passes, hall, hclass, failureStage], hmatch, rfl⟩
  rw [hfilter]
  rcases happ with ⟨expected, hfilter, hmatch, happ⟩ | ⟨hfilter, happ⟩
  · rw [hfilter]
    exact Or.inl ⟨.appId expected c.appId, rfl, by simp [passes, hall, hclass, happ, failureStage],
      hmatch, rfl⟩
  rw [hfilter]
  rcases hprefix with ⟨expected, hfilter, hmatch, hprefix⟩ | ⟨hfilter, hprefix⟩
  · rw [hfilter]
    exact Or.inl ⟨.matchPrefix expected c.msisdnNational, rfl,
      by simp [passes, hall, hclass, happ, hprefix, failureStage], hmatch, rfl⟩
  · rw [hfilter]
    exact Or.inr ⟨rfl, by simp [passes, hall, hclass, happ, hprefix]⟩

/-- **An outcome names the first stage that the route fails at**, and says why. -/
theorem outcomeOf_spec (route : RouteRow) :
    stageOf (outcomeOf route providers c exclude) = firstFailing providers c exclude route ∧
      Describes providers c route (outcomeOf route providers c exclude) ∧
      outcomeOf route providers c exclude ≠ .eligible true := by
  unfold outcomeOf firstFailing stages
  by_cases hexclude : route.id ∈ exclude
  · rw [if_pos hexclude]
    exact ⟨by simp [passes, hexclude, stageOf], trivial, by simp⟩
  rw [if_neg hexclude]
  rcases henabled : route.enabled with _ | _
  · exact ⟨by simp [passes, hexclude, henabled, stageOf], trivial, by simp⟩
  have hfirst : (Stage.exclusion :: .enabled :: (predicates ++ [.provider])).find?
      (! passes providers c exclude route ·) =
        (predicates.find? (! passes providers c exclude route ·)).or
          ([Stage.provider].find? (! passes providers c exclude route ·)) := by
    simp [passes, hexclude, henabled, List.find?_append]
  rw [hfirst]
  rcases failingPredicate_spec providers c exclude route with
    ⟨failure, hfailure, hfind, hdescribes⟩ | ⟨hnone, hfind⟩
  · rw [hfailure, hfind]
    exact ⟨rfl, hdescribes, by simp⟩
  · rw [hnone, hfind]
    rcases hprovider : providers route.providerId with _ | provider
    · exact ⟨by simp [passes, hprovider, stageOf], by simp [Describes, hprovider], by simp⟩
    · rcases havailable : provider.available with _ | _
      · exact ⟨by simp [passes, hprovider, havailable, stageOf],
          by simp [Describes, hprovider, havailable], by simp [havailable]⟩
      · exact ⟨by simp [passes, hprovider, havailable, stageOf], by simp [havailable, Describes],
          by simp [havailable]⟩

theorem firstFailing_eq_none (route : RouteRow) :
    firstFailing providers c exclude route = none ↔ eligible providers c exclude route = true := by
  unfold firstFailing eligible
  rw [List.find?_eq_none, List.all_eq_true]
  simp

theorem isEligible_iff (outcome : RouteOutcome) : outcome.isEligible = true ↔
    stageOf outcome = none := by
  cases outcome <;> simp [RouteOutcome.isEligible, stageOf]

theorem isEligible_outcomeOf (route : RouteRow) :
    (outcomeOf route providers c exclude).isEligible = eligible providers c exclude route := by
  rw [Bool.eq_iff_iff, isEligible_iff, (outcomeOf_spec providers c exclude route).1,
    firstFailing_eq_none]

/-! ## The best routes -/

variable (routes : List RouteRow)

/-- It passes all stages, and so does none of a higher priority. -/
def best (route : RouteRow) : Bool :=
  eligible providers c exclude route &&
    routes.all fun other => !eligible providers c exclude other || other.priority ≤ route.priority

theorem best_iff (route : RouteRow) :
    best providers c exclude routes route = true ↔ eligible providers c exclude route = true ∧
      ∀ other ∈ routes, eligible providers c exclude other = true →
        other.priority ≤ route.priority := by
  unfold best
  simp only [Bool.and_eq_true, List.all_eq_true, Bool.or_eq_true, Bool.not_eq_true',
    decide_eq_true_eq]
  refine and_congr_right fun _ => forall₂_congr fun other _ => ?_
  cases eligible providers c exclude other <;> simp

/-- There are best routes exactly if there are eligible ones. -/
theorem filter_best_eq_nil :
    routes.filter (best providers c exclude routes) = [] ↔
      ¬ ∃ route ∈ routes, eligible providers c exclude route = true := by
  rw [List.filter_eq_nil_iff]
  constructor
  · rintro hnone ⟨route, hroute, helig⟩
    cases hpriority :
      ((routes.filter (eligible providers c exclude)).map RouteRow.priority).max? with
    | none =>
      have hnil : routes.filter (eligible providers c exclude) = [] := by
        simpa using List.max?_eq_none_iff.mp hpriority
      exact List.filter_eq_nil_iff.mp hnil route hroute helig
    | some priority =>
      obtain ⟨hmem, hmax⟩ := List.max?_eq_some_iff.mp hpriority
      obtain ⟨top, htop, rfl⟩ := List.mem_map.mp hmem
      obtain ⟨htop, htope⟩ := List.mem_filter.mp htop
      refine hnone top htop ((best_iff providers c exclude routes top).mpr ⟨htope, ?_⟩)
      intro other hother helig
      exact hmax other.priority (List.mem_map_of_mem (List.mem_filter.mpr ⟨hother, helig⟩))
  · intro hany route hroute hb
    exact hany ⟨route, hroute, ((best_iff providers c exclude routes route).mp hb).1⟩

/-- What is chosen among the best routes. -/
def choose (band : List RouteRow) (draw : ℚ) : Option TieBreak × Option Winner :=
  match band with
  | [] => (none, none)
  | [route] => (none, some (winnerOf route))
  | route :: _ :: _ =>
    let picked := pickWeighted band route.priority (clampDraw draw)
    (some picked.2, (band.find? (·.id = picked.1)).map winnerOf)

/-- The evaluation of a route in a decision. -/
def evaluation (route : RouteRow) : RouteEvaluation :=
  if best providers c exclude routes route then
    { evaluateOne route providers c exclude with outcome := .eligible true }
  else evaluateOne route providers c exclude

theorem winningPriority_eq :
    winningPriority (routes.map fun r => (evaluateOne r providers c exclude, r)) =
      ((routes.filter (eligible providers c exclude)).map RouteRow.priority).max? := by
  unfold winningPriority
  have hfilter : (routes.map fun r => (evaluateOne r providers c exclude, r)).filter
    (fun e => e.1.outcome.isEligible) =
      (routes.filter (eligible providers c exclude)).map fun r =>
        (evaluateOne r providers c exclude, r) := by
    rw [List.filter_map]
    congr 1
    exact List.filter_congr fun r _ => isEligible_outcomeOf providers c exclude r
  rw [hfilter, List.map_map]
  rfl

/-- The routes of the highest priority that is eligible are the best ones. -/
theorem wins_eq_best {priority : ℤ}
    (h : ((routes.filter (eligible providers c exclude)).map RouteRow.priority).max? =
      some priority)
    {route : RouteRow} (hroute : route ∈ routes) :
    (route.priority = priority && (evaluateOne route providers c exclude).outcome.isEligible) =
      best providers c exclude routes route := by
  obtain ⟨hmem, hmax⟩ := List.max?_eq_some_iff.mp h
  obtain ⟨top, htop, htopp⟩ := List.mem_map.mp hmem
  obtain ⟨htop, htope⟩ := List.mem_filter.mp htop
  have hle : ∀ other ∈ routes, eligible providers c exclude other = true →
      other.priority ≤ priority := by
    intro other hother helig
    exact hmax other.priority (List.mem_map_of_mem (List.mem_filter.mpr ⟨hother, helig⟩))
  have houtcome : (evaluateOne route providers c exclude).outcome.isEligible =
      eligible providers c exclude route :=
    isEligible_outcomeOf providers c exclude route
  rw [Bool.eq_iff_iff, best_iff, houtcome, Bool.and_eq_true, decide_eq_true_iff]
  constructor
  · rintro ⟨rfl, helig⟩
    exact ⟨helig, hle⟩
  · rintro ⟨helig, hbest⟩
    refine ⟨Int.le_antisymm (hle route hroute helig) ?_, helig⟩
    rw [← htopp]
    exact hbest top htop htope

/-- **What a call returns.** -/
theorem selectRoute_eq (draw : ℚ) :
    selectRoute routes providers c exclude draw =
      ⟨routes.map (evaluation providers c exclude routes),
        (choose (routes.filter (best providers c exclude routes)) draw).1,
        (choose (routes.filter (best providers c exclude routes)) draw).2⟩ := by
  unfold selectRoute
  dsimp only
  rw [winningPriority_eq]
  cases hpriority : ((routes.filter (eligible providers c exclude)).map RouteRow.priority).max? with
  | none =>
    have hnone : routes.filter (eligible providers c exclude) = [] := by
      simpa using List.max?_eq_none_iff.mp hpriority
    have hbest : routes.filter (best providers c exclude routes) = [] := by
      rw [filter_best_eq_nil]
      rintro ⟨r, hr, helig⟩
      exact List.filter_eq_nil_iff.mp hnone r hr helig
    have hevaluation : routes.map (evaluation providers c exclude routes) =
        routes.map fun r => evaluateOne r providers c exclude :=
      List.map_congr_left fun r hr => if_neg (List.filter_eq_nil_iff.mp hbest r hr)
    rw [hbest, hevaluation, List.map_map]
    rfl
  | some priority =>
    have hwins := @wins_eq_best providers c exclude routes priority hpriority
    have hevaluation : ((routes.map fun r => (evaluateOne r providers c exclude, r)).map fun e =>
        if e.2.priority = priority && e.1.outcome.isEligible then
          { e.1 with outcome := RouteOutcome.eligible true }
        else e.1) = routes.map (evaluation providers c exclude routes) := by
      rw [List.map_map]
      refine List.map_congr_left fun r hr => ?_
      unfold evaluation
      rw [← hwins hr]
      rfl
    have hband : ((routes.map fun r => (evaluateOne r providers c exclude, r)).filter fun e =>
        e.2.priority = priority && e.1.outcome.isEligible).map Prod.snd =
          routes.filter (best providers c exclude routes) := by
      rw [List.filter_map, List.map_map]
      have hsnd : (Prod.snd ∘ fun r => (evaluateOne r providers c exclude, r)) = id := rfl
      rw [hsnd, List.map_id]
      exact List.filter_congr fun r hr => hwins hr
    dsimp only
    rw [hevaluation, hband]
    -- The band has a route, and all of its routes have the priority.
    have hall : ∀ r ∈ routes.filter (best providers c exclude routes), r.priority = priority := by
      intro r hr
      obtain ⟨hmem, hb⟩ := List.mem_filter.mp hr
      rw [← hwins hmem] at hb
      simpa using (Bool.and_eq_true_iff.mp hb).1
    obtain ⟨hmem, -⟩ := List.max?_eq_some_iff.mp hpriority
    obtain ⟨top, htop, -⟩ := List.mem_map.mp hmem
    obtain ⟨htop, htope⟩ := List.mem_filter.mp htop
    have hsome : routes.filter (best providers c exclude routes) ≠ [] := fun hnil =>
      (filter_best_eq_nil providers c exclude routes).mp hnil ⟨top, htop, htope⟩
    generalize routes.filter (best providers c exclude routes) = band at hall hsome
    match band with
    | [] => exact absurd rfl hsome
    | [route] => rfl
    | route :: other :: rest =>
      have hroute : route.priority = priority := hall route List.mem_cons_self
      subst hroute
      rfl

/-! ## The choice -/

theorem pickWeighted_named (band : List RouteRow) (priority : ℤ) (draw : ℚ) :
    (pickWeighted band priority draw).2.winnerRouteId = (pickWeighted band priority draw).1 := rfl

/-- **One of a band is chosen**, if there is any, by a draw if there are two or more; and then the
draw names the one that is chosen. -/
theorem choose_spec {band : List RouteRow} (hband : band ≠ []) (draw : ℚ) :
    ∃ route ∈ band, (choose band draw).2 = some (winnerOf route) ∧
      ((choose band draw).1.isSome = true ↔ 2 ≤ band.length) ∧
      ∀ tieBreak, (choose band draw).1 = some tieBreak → tieBreak.winnerRouteId = route.id := by
  match band with
  | [] => exact absurd rfl hband
  | [route] => exact ⟨route, List.mem_cons_self, rfl, by simp [choose], by simp [choose]⟩
  | first :: second :: rest =>
    have hpicked := pickWeighted_mem hband first.priority (clampDraw draw)
    obtain ⟨named, hnamed, hid⟩ := List.mem_map.mp hpicked
    obtain ⟨route, hfind⟩ := Option.isSome_iff_exists.mp
      (List.find?_isSome (p := fun r : RouteRow =>
        r.id = (pickWeighted (first :: second :: rest) first.priority (clampDraw draw)).1).mpr
        ⟨named, hnamed, by simpa using hid⟩)
    have hrouteid :
        route.id = (pickWeighted (first :: second :: rest) first.priority (clampDraw draw)).1 := by
      simpa using List.find?_some hfind
    refine ⟨route, List.mem_of_find?_eq_some hfind, ?_, by simp [choose], ?_⟩
    · dsimp only [choose]
      rw [hfind]
      rfl
    · intro tieBreak htie
      rw [← Option.some.inj htie, hrouteid]
      exact pickWeighted_named _ _ _

/-- What an evaluation says of its route. -/
structure Explains (route : RouteRow) (e : RouteEvaluation) : Prop where
  routeId : e.routeId = route.id
  routeName : e.routeName = route.name
  priority : e.priority = route.priority
  weight : e.weight = route.weight
  providerId : e.providerId = route.providerId
  /-- Its outcome names the first stage the route fails at. -/
  stage : stageOf e.outcome = firstFailing providers c exclude route
  describes : Describes providers c route e.outcome
  /-- It is marked exactly if the route is one of the best. -/
  winningBand : e.outcome = .eligible true ↔ eligible providers c exclude route = true ∧
    ∀ other ∈ routes, eligible providers c exclude other = true → other.priority ≤ route.priority

theorem evaluation_explains (route : RouteRow) :
    Explains providers c exclude routes route (evaluation providers c exclude routes route) := by
  obtain ⟨hstage, hdescribes, hunmarked⟩ := outcomeOf_spec providers c exclude route
  have hbest := best_iff providers c exclude routes route
  unfold evaluation
  by_cases hb : best providers c exclude routes route = true
  · have helig := (hbest.mp hb).1
    rw [if_pos hb]
    exact ⟨rfl, rfl, rfl, rfl, rfl,
      ((firstFailing_eq_none providers c exclude route).mpr helig).symm, trivial,
      iff_of_true rfl (hbest.mp hb)⟩
  · rw [if_neg hb]
    exact ⟨rfl, rfl, rfl, rfl, rfl, hstage, hdescribes, iff_of_false hunmarked fun h =>
      hb (hbest.mpr h)⟩

end stages

/-! ## Routes that do not count -/

theorem filter_eq_of_sublist {α : Type*} {xs ys : List α} {p : α → Bool} (hsub : xs.Sublist ys)
    (hys : ys.Nodup) (h : ∀ y ∈ ys, p y = true → y ∈ xs) : ys.filter p = xs.filter p := by
  refine ((hsub.filter p).eq_of_length_le ?_).symm
  refine (List.subperm_of_subset (hys.filter p) fun y hy => ?_).length_le
  obtain ⟨hmem, hp⟩ := List.mem_filter.mp hy
  exact List.mem_filter.mpr ⟨h y hmem hp, hp⟩

section sublist
variable (providers : String → Option ProviderRow) (c : RoutingCandidate) (exclude : List String)
  {routes more : List RouteRow}

/-- **Routes that are not eligible or of a lower priority do not change which are the best.** -/
theorem best_of_sublist (hids : (more.map RouteRow.id).Nodup) (hsub : routes.Sublist more)
    (h : ∀ route ∈ more, route ∉ routes → eligible providers c exclude route = false ∨
      ∃ other ∈ routes, eligible providers c exclude other = true ∧
        route.priority < other.priority) :
    more.filter (best providers c exclude more) =
      routes.filter (best providers c exclude routes) := by
  have hmem : ∀ route ∈ more, best providers c exclude more route = true → route ∈ routes := by
    intro route hroute hb
    obtain ⟨helig, hmax⟩ := (best_iff providers c exclude more route).mp hb
    by_contra hnot
    rcases h route hroute hnot with hinel | ⟨other, hother, hotherelig, hlt⟩
    · rw [helig] at hinel
      exact absurd hinel (by simp)
    · exact absurd (hmax other (hsub.subset hother) hotherelig) (Int.not_le.mpr hlt)
  rw [filter_eq_of_sublist hsub (List.Nodup.of_map _ hids) hmem]
  refine List.filter_congr fun route hroute => ?_
  rw [Bool.eq_iff_iff, best_iff, best_iff]
  refine and_congr_right fun helig =>
    ⟨fun hmax other hother => hmax other (hsub.subset hother), fun hmax => ?_⟩
  intro other hother hotherelig
  by_cases hin : other ∈ routes
  · exact hmax other hin hotherelig
  · rcases h other hother hin with hinel | ⟨top, htop, htopelig, hlt⟩
    · rw [hotherelig] at hinel
      exact absurd hinel (by simp)
    · exact Int.le_trans (Int.le_of_lt hlt) (hmax top htop htopelig)

end sublist

/-- **Route selection.** There is a winner exactly if a route passes all stages, and then it is such
a route of the highest priority; each route is evaluated, in order; there is a tie break exactly if
two or more of the best have to be decided between, and it names the winner; and more routes that
are not eligible or of a lower priority change neither. -/
theorem selectRoute_spec (routes : List RouteRow) (providers : String → Option ProviderRow)
    (c : RoutingCandidate) (exclude : List String) (draw : ℚ) :
    ((selectRoute routes providers c exclude draw).winner.isSome = true ↔
        ∃ route ∈ routes, eligible providers c exclude route = true) ∧
      (∀ winner, (selectRoute routes providers c exclude draw).winner = some winner →
        ∃ route ∈ routes, winner = winnerOf route ∧ eligible providers c exclude route = true ∧
          ∀ other ∈ routes, eligible providers c exclude other = true →
            other.priority ≤ route.priority) ∧
      List.Forall₂ (Explains providers c exclude routes) routes
        (selectRoute routes providers c exclude draw).evaluations ∧
      ((selectRoute routes providers c exclude draw).tieBreak.isSome = true ↔
        2 ≤ (routes.filter (best providers c exclude routes)).length) ∧
      (∀ tieBreak, (selectRoute routes providers c exclude draw).tieBreak = some tieBreak →
        ∃ route ∈ routes, tieBreak.winnerRouteId = route.id ∧
          (selectRoute routes providers c exclude draw).winner = some (winnerOf route)) ∧
      ∀ more, (more.map RouteRow.id).Nodup → routes.Sublist more →
        (∀ route ∈ more, route ∉ routes → eligible providers c exclude route = false ∨
          ∃ other ∈ routes, eligible providers c exclude other = true ∧
            route.priority < other.priority) →
        (selectRoute more providers c exclude draw).winner =
        (selectRoute routes providers c exclude draw).winner ∧
        (selectRoute more providers c exclude draw).tieBreak =
          (selectRoute routes providers c exclude draw).tieBreak := by
  have hcall := selectRoute_eq providers c exclude routes draw
  have hexplained : List.Forall₂ (Explains providers c exclude routes) routes
      (routes.map (evaluation providers c exclude routes)) :=
    List.forall₂_map_right_iff.mpr (List.forall₂_same.mpr fun r _ =>
      evaluation_explains providers c exclude routes r)
  have hmore : ∀ more, (more.map RouteRow.id).Nodup → routes.Sublist more →
      (∀ route ∈ more, route ∉ routes → eligible providers c exclude route = false ∨
        ∃ other ∈ routes, eligible providers c exclude other = true ∧
          route.priority < other.priority) →
      (selectRoute more providers c exclude draw).winner =
        (selectRoute routes providers c exclude draw).winner ∧
      (selectRoute more providers c exclude draw).tieBreak =
        (selectRoute routes providers c exclude draw).tieBreak := by
    intro more hids hsub h
    rw [hcall, selectRoute_eq providers c exclude more draw,
      best_of_sublist providers c exclude hids hsub h]
    exact ⟨rfl, rfl⟩
  rw [hcall] at hmore ⊢
  by_cases hany : ∃ route ∈ routes, eligible providers c exclude route = true
  · have hsome : routes.filter (best providers c exclude routes) ≠ [] := fun hnil =>
      (filter_best_eq_nil providers c exclude routes).mp hnil hany
    obtain ⟨route, hroute, hwinner, htie, hnamed⟩ := choose_spec hsome draw
    obtain ⟨hmem, hb⟩ := List.mem_filter.mp hroute
    obtain ⟨helig, hmax⟩ := (best_iff providers c exclude routes route).mp hb
    refine ⟨iff_of_true (by rw [hwinner]; rfl) hany, ?_, hexplained, htie, ?_, hmore⟩
    · intro winner h
      exact ⟨route, hmem, (Option.some.inj (hwinner.symm.trans h)).symm, helig, hmax⟩
    · intro tieBreak h
      exact ⟨route, hmem, hnamed tieBreak h, hwinner⟩
  · have hnone := (filter_best_eq_nil providers c exclude routes).mpr hany
    rw [hnone] at hmore ⊢
    exact ⟨iff_of_false (by simp [choose]) hany, by simp [choose], hexplained, by simp [choose],
      by simp [choose], hmore⟩

end Vsms.Routing.Choice
