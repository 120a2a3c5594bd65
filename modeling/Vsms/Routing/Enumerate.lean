import Vsms.Routing.Choice

/-! # Failing over

A caller whose route has failed selects again with that route excluded, and goes on until there is
no winner. That ends after as many calls as there are eligible routes and one more, whatever the
draws are, and tries each of the routes once, none before one of a higher priority
(`failover_visits`). -/

namespace Vsms.Routing.Enumerate

open Vsms.Routing.Engine Vsms.Routing.Choice

variable (routes : List RouteRow) (providers : String → Option ProviderRow) (c : RoutingCandidate)
    (draws : ℕ → ℚ)

/-- **The winners of the calls**, from the `n`-th on, with what is excluded so far; `none` if the
calls have not ended. -/
def failover : ℕ → ℕ → List String → Option (List Winner)
  | 0, _, _ => none
  | fuel + 1, n, exclude =>
    match (selectRoute routes providers c exclude (draws n)).winner with
    | none => some []
    | some winner => (failover fuel (n + 1) (winner.routeId :: exclude)).map (winner :: ·)

/-- The routes that are still eligible. -/
def remaining (exclude : List String) : List RouteRow :=
  routes.filter (eligible providers c exclude)

/-- Excluding a route changes nothing else. -/
theorem eligible_cons (id : String) (exclude : List String) (route : RouteRow) :
    eligible providers c (id :: exclude) route =
      (route.id ≠ id && eligible providers c exclude route) := by
  unfold eligible stages predicates
  by_cases hid : route.id = id
  · simp [passes, hid]
  · by_cases hexclude : route.id ∈ exclude
    · simp [passes, hexclude]
    · simp [passes, hid, hexclude]

/-- **What is left after a route is excluded** is all but the route. -/
theorem remaining_cons (hids : (routes.map RouteRow.id).Nodup) {exclude : List String}
    {route : RouteRow} (h : route ∈ remaining routes providers c exclude) :
    (remaining routes providers c exclude).Perm
      (route :: remaining routes providers c (route.id :: exclude)) := by
  have hnodup : (remaining routes providers c exclude).Nodup := (List.Nodup.of_map _ hids).filter _
  have hrest : remaining routes providers c (route.id :: exclude) =
      (remaining routes providers c exclude).erase route := by
    rw [hnodup.erase_eq_filter, remaining, remaining, List.filter_filter]
    refine List.filter_congr fun other hother => ?_
    have hsame : other.id = route.id ↔ other = route :=
      ⟨fun hid => List.inj_on_of_nodup_map hids hother (List.mem_filter.mp h).1 hid,
        fun heq => by rw [heq]⟩
    rw [eligible_cons]
    by_cases heq : other = route
    · simp [heq]
    · simp [heq, hsame]
  rw [hrest]
  exact List.perm_cons_erase h

/-- **One call**: there is no winner if no route is left, and otherwise the winner is one of those
that are left, of the highest priority. -/
theorem winner_cases (exclude : List String) (draw : ℚ) :
    ((selectRoute routes providers c exclude draw).winner = none ∧
      remaining routes providers c exclude = []) ∨
      ∃ route ∈ remaining routes providers c exclude,
        (selectRoute routes providers c exclude draw).winner = some (winnerOf route) ∧
        ∀ other ∈ remaining routes providers c exclude, other.priority ≤ route.priority := by
  have hcall := selectRoute_eq providers c exclude routes draw
  by_cases hany : ∃ route ∈ routes, eligible providers c exclude route = true
  · have hsome : routes.filter (best providers c exclude routes) ≠ [] := fun hnil =>
      (filter_best_eq_nil providers c exclude routes).mp hnil hany
    obtain ⟨route, hroute, hwinner, -⟩ := choose_spec hsome draw
    obtain ⟨hmem, hb⟩ := List.mem_filter.mp hroute
    obtain ⟨helig, hmax⟩ := (best_iff providers c exclude routes route).mp hb
    refine Or.inr ⟨route, List.mem_filter.mpr ⟨hmem, helig⟩, by rw [hcall]; exact hwinner, ?_⟩
    intro other hother
    obtain ⟨hother, hotherelig⟩ := List.mem_filter.mp hother
    exact hmax other hother hotherelig
  · have hnone : remaining routes providers c exclude = [] :=
      List.filter_eq_nil_iff.mpr fun route hroute helig => hany ⟨route, hroute, helig⟩
    refine Or.inl ⟨?_, hnone⟩
    rw [hcall, (filter_best_eq_nil providers c exclude routes).mpr hany]
    rfl

/-- From any call on, by induction on what is left. -/
theorem failover_from (hids : (routes.map RouteRow.id).Nodup) (n : ℕ) (exclude : List String) :
    ∃ order : List RouteRow, order.Perm (remaining routes providers c exclude) ∧
      order.Pairwise (fun earlier later => later.priority ≤ earlier.priority) ∧
      remaining routes providers c ((order.map RouteRow.id).reverse ++ exclude) = [] ∧
      ∀ fuel, order.length < fuel →
        failover routes providers c draws fuel n exclude = some (order.map winnerOf) := by
  induction hleft : (remaining routes providers c exclude).length generalizing n exclude with
  | zero =>
    have hnil := List.length_eq_zero_iff.mp hleft
    refine ⟨[], by rw [hnil], List.Pairwise.nil, hnil, fun fuel hfuel => ?_⟩
    obtain ⟨fuel, rfl⟩ := Nat.exists_eq_add_of_lt hfuel
    rcases winner_cases routes providers c exclude (draws n) with ⟨hwinner, -⟩ | ⟨route, hroute, -⟩
    · simp [failover, hwinner]
    · rw [hnil] at hroute
      exact absurd hroute (by simp)
  | succ k ih =>
    rcases winner_cases routes providers c exclude (draws n) with
      ⟨-, hnil⟩ | ⟨route, hroute, hwinner, hmax⟩
    · rw [hnil] at hleft
      exact absurd hleft (by simp)
    · have hperm := remaining_cons routes providers c hids hroute
      have hrest : (remaining routes providers c (route.id :: exclude)).length = k := by
        have hlength := hperm.length_eq
        rw [List.length_cons] at hlength
        omega
      obtain ⟨order, horder, hpairwise, hend, hrun⟩ := ih (n + 1) (route.id :: exclude) hrest
      refine ⟨route :: order, (horder.cons route).trans hperm.symm,
        List.pairwise_cons.mpr ⟨?_, hpairwise⟩, ?_, ?_⟩
      · intro later hlater
        exact hmax later (hperm.symm.subset (List.mem_cons_of_mem route (horder.subset hlater)))
      · rw [List.map_cons, List.reverse_cons, List.append_assoc]
        exact hend
      · intro fuel hfuel
        obtain ⟨fuel, rfl⟩ := Nat.exists_eq_add_of_lt hfuel
        have htail := hrun (order.length + 1 + fuel) (by omega)
        rw [List.length_cons, failover, hwinner]
        dsimp only
        have hid : (winnerOf route).routeId = route.id := rfl
        rw [hid, htail]
        rfl

/-- **Failing over ends, and tries every eligible route once**, in an order in which priorities do
not increase; with all of them excluded there is no winner. -/
theorem failover_visits (hids : (routes.map RouteRow.id).Nodup) :
    ∃ order : List RouteRow, order.Perm (routes.filter (eligible providers c [])) ∧
      order.Pairwise (fun earlier later => later.priority ≤ earlier.priority) ∧
      (∀ fuel, order.length < fuel →
        failover routes providers c draws fuel 0 [] = some (order.map winnerOf)) ∧
      ∀ draw, (selectRoute routes providers c (order.map RouteRow.id).reverse draw).winner =
        none := by
  obtain ⟨order, horder, hpairwise, hend, hrun⟩ := failover_from routes providers c draws hids 0 []
  refine ⟨order, horder, hpairwise, hrun, fun draw => ?_⟩
  rw [List.append_nil] at hend
  rcases winner_cases routes providers c (order.map RouteRow.id).reverse draw with
    ⟨hnone, -⟩ | ⟨route, hroute, -⟩
  · exact hnone
  · rw [hend] at hroute
    exact absurd hroute (by simp)

section runs

def sampleProviders : String → Option ProviderRow := fun id => some ⟨id, true, none⟩

def sampleCandidate : RoutingCandidate := ⟨.mtn, .otp, "app1", "677123456"⟩

/-- Two routes to decide between, and a third of a lower priority that comes before them. -/
def sampleRoutes : List RouteRow :=
  [⟨"last", "last", 0, 1, true, none, none, none, none, "p1", none⟩,
    ⟨"left", "left", 1, 1, true, none, none, none, none, "p1", none⟩,
    ⟨"right", "right", 1, 1, true, none, none, none, none, "p2", none⟩,
    ⟨"off", "off", 2, 1, false, none, none, none, none, "p2", none⟩]

theorem failover_visits_sample : ∃ order : List RouteRow,
    order.Perm (sampleRoutes.filter (eligible sampleProviders sampleCandidate [])) ∧
      ∀ fuel, order.length < fuel →
        failover sampleRoutes sampleProviders sampleCandidate (fun _ => 3 / 4) fuel 0 [] =
          some (order.map winnerOf) := by
  obtain ⟨order, hperm, -, hrun, -⟩ :=
    failover_visits sampleRoutes sampleProviders sampleCandidate (fun _ => 3 / 4) (by decide)
  exact ⟨order, hperm, hrun⟩

end runs

end Vsms.Routing.Enumerate
