import Vsms.Core.Numbers
import Vsms.Routing.Decide

/-! # The route simulator

`simulateRoute` fetches the same rows as the worker's routing pass and asks the same engine, but
has its own copies of the row conversions. They agree on routes. On providers they do not: the
simulator looks at the state only, the worker also at the circuit breaker. So the two decisions are
the same exactly if no route that gets as far as its provider has one with an open circuit
(`simulate_eq_decide_iff`). -/

namespace Vsms.Routing.Simulate

open Vsms.Schema.Types Vsms.Core.Numbers Vsms.Routing.Engine Vsms.Routing.Decide

/-- The columns of `routes` that are read. -/
structure Route where
  id : String
  name : String
  priority : ℤ
  weight : ℤ
  enabled : Bool
  matchOperator : Option OperatorCode
  matchClass : Option MessageClass
  matchAppId : Option String
  matchPrefix : Option String
  providerId : String
  failoverRouteId : Option String

/-- The two tables a routing decision reads. -/
structure RoutingTables where
  routes : List Route
  providers : List Provider

/-! ## The worker -/

def Worker.convertOperator : OperatorCode → OperatorCode
  | .mtn => .mtn
  | .orange => .orange
  | .camtel => .camtel
  | .nexttel => .nexttel
  | .unknown => .unknown

def Worker.convertClass : MessageClass → MessageClass
  | .otp => .otp
  | .transactional => .transactional
  | .notification => .notification
  | .marketing => .marketing

def Worker.convertRoute (row : Route) : RouteRow where
  id := row.id
  name := row.name
  priority := row.priority
  weight := row.weight
  enabled := row.enabled
  matchOperator := row.matchOperator.map Worker.convertOperator
  matchClass := row.matchClass.map Worker.convertClass
  matchAppId := row.matchAppId
  matchPrefix := row.matchPrefix
  providerId := row.providerId
  failoverRouteId := row.failoverRouteId

/-- What the worker's `decide` sees of the tables, for a message stored with the number `msisdn`. -/
def Worker.view (lib : PhoneLib) (t : RoutingTables) (now : Time) (draw : ℚ) (msisdn : String) :
    RoutingView where
  routes := t.routes.map Worker.convertRoute
  providers := t.providers
  now := now
  draw := draw
  national := (parse lib msisdn).toOption.map Msisdn.national

/-- The worker's decision for a message that no route was excluded for. -/
def Worker.decide (lib : PhoneLib) (t : RoutingTables) (now : Time) (draw : ℚ)
    (operator : OperatorCode) (messageClass : MessageClass) (appId msisdn : String) : Decision :=
  Decide.decide (Worker.view lib t now draw msisdn)
    ⟨Worker.convertOperator operator, Worker.convertClass messageClass, appId⟩ []

/-! ## The simulator -/

def convertOperator : OperatorCode → OperatorCode
  | .mtn => .mtn
  | .orange => .orange
  | .camtel => .camtel
  | .nexttel => .nexttel
  | .unknown => .unknown

def convertClass : MessageClass → MessageClass
  | .otp => .otp
  | .transactional => .transactional
  | .notification => .notification
  | .marketing => .marketing

def convertRoute (row : Route) : RouteRow where
  id := row.id
  name := row.name
  priority := row.priority
  weight := row.weight
  enabled := row.enabled
  matchOperator := row.matchOperator.map convertOperator
  matchClass := row.matchClass.map convertClass
  matchAppId := row.matchAppId
  matchPrefix := row.matchPrefix
  providerId := row.providerId
  failoverRouteId := row.failoverRouteId

/-- A provider is available if it is active. -/
def convertProvider (row : Provider) : ProviderRow :=
  let available : Bool := row.state = .active
  { id := row.id
    available := available
    reason :=
      if !available then
        some ("provider state is " ++ debugProviderState row.state ++ ", not active")
      else none }

/-- `ORDER BY priority DESC, id ASC`. -/
def rowOrder (a b : Route) : Prop :=
  b.priority < a.priority ∨ (a.priority = b.priority ∧ a.id ≤ b.id)

instance : DecidableRel rowOrder := fun a b => by unfold rowOrder; infer_instance

/-- **`fetch_routes_and_providers`.** -/
def fetchRoutesAndProviders (t : RoutingTables) : List RouteRow × (String → Option ProviderRow) :=
  let routes := t.routes.insertionSort rowOrder
  (routes.map convertRoute, fun id =>
    if routes.any (·.providerId = id) then (t.providers.find? (·.id = id)).map convertProvider
    else none)

/-- The candidate `simulate` asks about. -/
def simulated (operator : OperatorCode) (messageClass : MessageClass) (appId : String)
    (m : Msisdn) : RoutingCandidate :=
  ⟨convertOperator operator, convertClass messageClass, appId, m.national⟩

/-- **`simulate`**, up to the rendering. `operator` is what the number was classified as. -/
def simulate (lib : PhoneLib) (t : RoutingTables) (draw : ℚ) (operator : OperatorCode)
    (messageClass : MessageClass) (appId input : String) : Except MsisdnError Decision :=
  match parseMobile lib input with
  | .error e => .error e
  | .ok m =>
    let fetched := fetchRoutesAndProviders t
    .ok (selectRoute fetched.1 fetched.2 (simulated operator messageClass appId m) [] draw)

/-! ### What a decision depends on -/

/-- An outcome but for the mark of the winning band. -/
def unmarked : RouteOutcome → RouteOutcome
  | .eligible _ => .eligible false
  | o => o

theorem unmarked_outcomeOf (route : RouteRow) (providers : String → Option ProviderRow)
    (c : RoutingCandidate) (exclude : List String) :
    unmarked (outcomeOf route providers c exclude) = outcomeOf route providers c exclude := by
  unfold outcomeOf
  split_ifs
  · rfl
  · rfl
  · split
    · rfl
    · split
      · split_ifs <;> rfl
      · rfl

/-- **A decision tells the outcome of every route.** -/
theorem selectRoute_outcomes (routes : List RouteRow) (providers : String → Option ProviderRow)
    (c : RoutingCandidate) (exclude : List String) (draw : ℚ) :
    (selectRoute routes providers c exclude draw).evaluations.map (fun e => unmarked e.outcome) =
      routes.map fun r => outcomeOf r providers c exclude := by
  have heval (r : RouteRow) : unmarked (evaluateOne r providers c exclude).outcome =
      outcomeOf r providers c exclude := unmarked_outcomeOf r providers c exclude
  unfold selectRoute
  dsimp only
  split
  · rw [List.map_map, List.map_map]
    exact List.map_congr_left fun r _ => heval r
  · next priority _ =>
    have hmarked : ∀ r ∈ routes,
        unmarked
          ((if (r.priority = priority && (evaluateOne r providers c exclude).outcome.isEligible)
          then { evaluateOne r providers c exclude with outcome := .eligible true }
          else evaluateOne r providers c exclude).outcome) = outcomeOf r providers c exclude := by
      intro r _
      split_ifs with hw
      · have hel := (Bool.and_eq_true_iff.mp hw).2
        rw [← heval r]
        cases ho : (evaluateOne r providers c exclude).outcome with
        | eligible b => rfl
        | _ => rw [ho] at hel; cases hel
      · exact heval r
    split
    · rw [List.map_map, List.map_map]
      exact List.map_congr_left hmarked
    · rw [List.map_map, List.map_map]
      exact List.map_congr_left hmarked

/-- **And depends on nothing else about the providers.** -/
theorem selectRoute_eq_iff {routes : List RouteRow}
    {providers providers' : String → Option ProviderRow} {c : RoutingCandidate}
    {exclude : List String} {draw : ℚ} :
    selectRoute routes providers c exclude draw = selectRoute routes providers' c exclude draw ↔
      ∀ r ∈ routes, outcomeOf r providers c exclude = outcomeOf r providers' c exclude := by
  constructor
  · intro h
    have houtcomes := selectRoute_outcomes routes providers c exclude draw
    rw [h, selectRoute_outcomes] at houtcomes
    exact fun r hr => (List.map_inj_left.mp houtcomes r hr).symm
  · intro h
    have hevaluated : (routes.map fun r => (evaluateOne r providers c exclude, r)) =
        routes.map fun r => (evaluateOne r providers' c exclude, r) := by
      refine List.map_congr_left fun r hr => ?_
      unfold evaluateOne
      rw [h r hr]
    unfold selectRoute
    rw [hevaluated]

/-! ### The two conversions -/

theorem convertOperator_eq (o : OperatorCode) : Worker.convertOperator o = convertOperator o := by
  cases o <;> rfl

theorem convertClass_eq (c : MessageClass) : Worker.convertClass c = convertClass c := by
  cases c <;> rfl

theorem convertRoute_eq (row : Route) : Worker.convertRoute row = convertRoute row := by
  have ho : Worker.convertOperator = convertOperator := funext convertOperator_eq
  have hc : Worker.convertClass = convertClass := funext convertClass_eq
  unfold Worker.convertRoute convertRoute
  rw [ho, hc]

/-- The provider's circuit is open at `now`. -/
def CircuitOpen (p : Provider) (now : Time) : Prop := ∃ t ∈ p.circuitOpenUntil, now < t

/-- **The simulator sees a provider as the worker does exactly if its circuit is not open.** -/
theorem convertProvider_eq_iff {p : Provider} {now : Time} :
    Decide.convertProvider p now = convertProvider p ↔ ¬ CircuitOpen p now := by
  have hopen : (p.circuitOpenUntil.any fun t => now < t) = true ↔ CircuitOpen p now := by
    simp [CircuitOpen, Option.any_eq_true]
  by_cases h : CircuitOpen p now
  · have ho := hopen.mpr h
    simp only [h, not_true_eq_false, iff_false]
    unfold Decide.convertProvider convertProvider
    dsimp only
    rw [ho]
    cases p.state <;> simp [debugProviderState]
  · have ho : (p.circuitOpenUntil.any fun t => now < t) = false := by
      rw [← Bool.not_eq_true, hopen]
      exact h
    simp only [h, not_false_eq_true, iff_true]
    unfold Decide.convertProvider convertProvider
    dsimp only
    rw [ho]
    cases p.state <;> simp

/-- The providers of the worker, and of the simulator, over the same tables. -/
theorem worker_providerRow (lib : PhoneLib) (t : RoutingTables) (now : Time) (draw : ℚ)
    (msisdn id : String) : (Worker.view lib t now draw msisdn).providerRow id =
      if t.routes.any (·.providerId = id) then
        (t.providers.find? (·.id = id)).map (Decide.convertProvider · now)
      else none := by
  unfold RoutingView.providerRow Worker.view
  dsimp only
  rw [List.any_map]
  rfl

theorem simulator_providerRow (t : RoutingTables) (id : String) :
    (fetchRoutesAndProviders t).2 id =
      if t.routes.any (·.providerId = id) then (t.providers.find? (·.id = id)).map convertProvider
      else none := by
  unfold fetchRoutesAndProviders
  dsimp only
  rw [(List.perm_insertionSort rowOrder t.routes).any_eq]

theorem worker_orderedRoutes (lib : PhoneLib) (t : RoutingTables) (now : Time) (draw : ℚ)
    (msisdn : String) :
    (Worker.view lib t now draw msisdn).orderedRoutes = (fetchRoutesAndProviders t).1 := by
  have hconvert : Worker.convertRoute = convertRoute := funext convertRoute_eq
  unfold RoutingView.orderedRoutes Worker.view fetchRoutesAndProviders
  dsimp only
  rw [hconvert]
  exact (List.map_insertionSort rowOrder routeOrder convertRoute t.routes
    fun a _ b _ => Iff.rfl).symm

/-! ### Agreement -/

/-- The route is enabled and its predicates match: its provider is asked for. -/
def ReachesProvider (c : RoutingCandidate) (r : Route) : Prop :=
  r.enabled = true ∧ failingPredicate (convertRoute r) c = none

/-- What a provider makes of a route that reaches it. -/
def providerOutcome (providerId : String) : Option ProviderRow → RouteOutcome
  | some provider =>
    if provider.available then .eligible false
    else .providerUnavailable (provider.reason.getD "provider unavailable")
  | none => .providerUnavailable ("no provider record for " ++ providerId)

theorem outcomeOf_reached {r : Route} {providers : String → Option ProviderRow}
    {c : RoutingCandidate} (h : ReachesProvider c r) :
    outcomeOf (convertRoute r) providers c [] =
      providerOutcome r.providerId (providers r.providerId) := by
  obtain ⟨he, hp⟩ := h
  have he' : (convertRoute r).enabled = true := he
  unfold outcomeOf providerOutcome
  rw [hp, he']
  simp only [List.not_mem_nil, Bool.not_true, Bool.false_eq_true, if_false]
  rfl

theorem outcomeOf_not_reached {r : Route} {providers providers' : String → Option ProviderRow}
    {c : RoutingCandidate} (h : ¬ ReachesProvider c r) :
    outcomeOf (convertRoute r) providers c [] = outcomeOf (convertRoute r) providers' c [] := by
  unfold outcomeOf
  simp only [List.not_mem_nil, if_false]
  split_ifs with he
  · rfl
  · split
    · rfl
    · next hp =>
      have he' : (convertRoute r).enabled = true := by simpa using he
      exact absurd ⟨he', hp⟩ h

theorem providerOutcome_eq_iff {providerId : String} {row : Option Provider} {now : Time} :
    providerOutcome providerId (row.map (Decide.convertProvider · now)) =
      providerOutcome providerId (row.map convertProvider) ↔ ∀ p ∈ row, ¬ CircuitOpen p now := by
  cases row with
  | none => simp
  | some p =>
    simp only [Option.map_some, Option.mem_def, Option.some.injEq, forall_eq']
    constructor
    · intro h hopen
      have ho : (p.circuitOpenUntil.any fun t => now < t) = true := by
        simpa [CircuitOpen, Option.any_eq_true] using hopen
      revert h
      unfold providerOutcome Decide.convertProvider convertProvider
      dsimp only
      rw [ho]
      cases p.state <;> simp [debugProviderState]
    · intro h
      rw [convertProvider_eq_iff.mpr h]

/-- A provider with an open circuit that a route gets as far as. -/
def OpenProviderReached (t : RoutingTables) (now : Time) (c : RoutingCandidate) : Prop :=
  ∃ r ∈ t.routes, ReachesProvider c r ∧
    ∃ p, t.providers.find? (·.id = r.providerId) = some p ∧ CircuitOpen p now

/-- **One route**: the two sets of providers give it the same outcome exactly if it does not reach a
provider with an open circuit. -/
theorem outcomeOf_eq_iff (lib : PhoneLib) {t : RoutingTables} (now : Time) (draw : ℚ)
    (msisdn : String) (c : RoutingCandidate) {r : Route} (hr : r ∈ t.routes) :
    outcomeOf (convertRoute r) (Worker.view lib t now draw msisdn).providerRow c [] =
        outcomeOf (convertRoute r) (fetchRoutesAndProviders t).2 c [] ↔
      (ReachesProvider c r →
        ∀ p, t.providers.find? (·.id = r.providerId) = some p → ¬ CircuitOpen p now) := by
  by_cases hreach : ReachesProvider c r
  · have hany : t.routes.any (·.providerId = r.providerId) = true :=
      List.any_eq_true.mpr ⟨r, hr, by simp⟩
    rw [outcomeOf_reached hreach, outcomeOf_reached hreach, worker_providerRow,
      simulator_providerRow, if_pos hany, if_pos hany, providerOutcome_eq_iff]
    simp [hreach]
  · simp only [hreach, false_implies, iff_true]
    exact outcomeOf_not_reached hreach

/-- The routes fetched are those of the table. -/
theorem mem_fetchedRoutes {t : RoutingTables} {row : RouteRow} :
    row ∈ (fetchRoutesAndProviders t).1 ↔ ∃ r ∈ t.routes, convertRoute r = row := by
  unfold fetchRoutesAndProviders
  simp [List.mem_insertionSort]

/-- **The simulator agrees with the worker exactly if no open circuit is reached.** For every
content of the tables, clock, draw, and recipient whose stored form the number library reads as the
same number: the simulated decision is the worker's if and only if no enabled route whose predicates
match names a provider with an open circuit. -/
theorem simulate_eq_decide_iff (lib : PhoneLib) (t : RoutingTables) (now : Time) (draw : ℚ)
    (operator : OperatorCode) (messageClass : MessageClass) (appId input : String) (m : Msisdn)
    (hm : parseMobile lib input = .ok m)
    (hread : ∀ n, ofPhoneNumber lib n = .ok m → lib.ReadsE164 n) :
    simulate lib t draw operator messageClass appId input =
      .ok (Worker.decide lib t now draw operator messageClass appId m.e164) ↔
    ¬ OpenProviderReached t now (simulated operator messageClass appId m) := by
  obtain ⟨n, hn, he⟩ := parse_ok (parseMobile_ok hm)
  have hparse : parse lib m.e164 = .ok m := by
    rw [he]
    exact parse_e164 hn (hread n hn)
  have hnational : (Worker.view lib t now draw m.e164).national = some m.national := by
    unfold Worker.view
    dsimp only
    rw [hparse]
    rfl
  -- Both ask the engine about the same routes and the same candidate.
  unfold simulate Worker.decide Decide.decide
  rw [hm, worker_orderedRoutes, hnational, convertOperator_eq, convertClass_eq]
  dsimp only
  rw [Except.ok.injEq, eq_comm]
  refine (selectRoute_eq_iff (c := simulated operator messageClass appId m)).trans ?_
  generalize simulated operator messageClass appId m = c
  constructor
  · rintro h ⟨r, hr, hreach, p, hp, hopen⟩
    have hsame := h _ (mem_fetchedRoutes.mpr ⟨r, hr, rfl⟩)
    exact (outcomeOf_eq_iff lib now draw m.e164 c hr).mp hsame hreach p hp hopen
  · intro h row hrow
    obtain ⟨r, hr, rfl⟩ := mem_fetchedRoutes.mp hrow
    refine (outcomeOf_eq_iff lib now draw m.e164 c hr).mpr fun hreach p hp hopen => ?_
    exact h ⟨r, hr, hreach, p, hp, hopen⟩

/-! ### One route, one provider -/

/-- The number the two tables below are asked about. -/
def mobileNumber : PhoneNumber := ⟨237, 0, 677123456⟩

def mobileLine : Descriptor where
  isMatch national := national = "677123456"
  nationalNumber := "(?:24[23]|6(?:[25-9]\\d|40))\\d\x7b6\x7d"
  possibleLength := [9]

/-- The library, on that number. -/
def mobileLib : PhoneLib where
  parse _ text :=
    if text = String.ofList mobileNumber.e164 then .ok mobileNumber else .error .invalidCountryCode
  metadata n :=
    if n = mobileNumber then
      some ⟨"CM", mobileLine, none, some mobileLine, none, none, none, none, none, none, none, none⟩
    else none
  region id := some id

def mobileMsisdn : Msisdn := ⟨"+237677123456", 4, some "CM", .mobile⟩

/-- An enabled route without predicates, to an active provider. -/
def oneRoute (circuitOpenUntil : Option Time) : RoutingTables where
  routes := [⟨"r", "default", 0, 1, true, none, none, none, none, "p", none⟩]
  providers := [⟨"p", "smpp", .active, 5, circuitOpenUntil, 1⟩]

theorem parseMobile_mobileLib : parseMobile mobileLib "+237677123456" = .ok mobileMsisdn := by
  decide

theorem readsE164_mobileLib {n : PhoneNumber} {m : Msisdn} (h : ofPhoneNumber mobileLib n = .ok m) :
    mobileLib.ReadsE164 n := by
  by_cases hn : n = mobileNumber
  · subst hn
    rfl
  · unfold ofPhoneNumber mobileLib at h
    simp only [if_neg hn, Option.map_none, Option.getD_none, if_true] at h
    split_ifs at h

theorem simulate_eq_decide_iff_closed :
    simulate mobileLib (oneRoute none) 0 .mtn .otp "app" "+237677123456" =
      .ok (Worker.decide mobileLib (oneRoute none) 0 0 .mtn .otp "app" "+237677123456") := by
  refine (simulate_eq_decide_iff mobileLib (oneRoute none) 0 0 .mtn .otp "app" "+237677123456"
    mobileMsisdn parseMobile_mobileLib fun n h => readsE164_mobileLib h).mpr ?_
  rintro ⟨r, hr, hreach, p, hp, t, ht, hlt⟩
  simp only [oneRoute, List.mem_singleton] at hr
  subst hr
  simp [oneRoute] at hp
  subst hp
  cases ht

/-- With the circuit open until after the clock, the simulator answers the route and the worker
none. -/
theorem open_circuit_disagrees :
    parseMobile mobileLib "+237677123456" = .ok mobileMsisdn ∧
    (∀ n, ofPhoneNumber mobileLib n = .ok mobileMsisdn → mobileLib.ReadsE164 n) ∧
    simulate mobileLib (oneRoute (some 1)) 0 .mtn .otp "app" "+237677123456" ≠
      .ok (Worker.decide mobileLib (oneRoute (some 1)) 0 0 .mtn .otp "app" mobileMsisdn.e164) := by
  refine ⟨parseMobile_mobileLib, fun n h => readsE164_mobileLib h, ?_⟩
  decide

end Vsms.Routing.Simulate
