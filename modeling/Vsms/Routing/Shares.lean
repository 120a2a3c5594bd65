import Vsms.Core.Chrono
import Vsms.Lib.Tiling
import Vsms.Routing.Engine
import Mathlib.Algebra.Order.Field.Rat
import Mathlib.Algebra.BigOperators.Group.List.Basic
import Mathlib.Algebra.Order.BigOperators.Group.List
import Mathlib.Tactic.NormNum
import Mathlib.Tactic.Ring

/-! # The weighted draw

`pick_weighted` gives each route of a band a range of `[0, 1)` in proportion to its weight, one
after the other in the order of the band, and picks the first route whose range ends past the draw.
As long as the weights sum to a number of 64 bits the ranges tile the interval, and the route that
is picked is the one whose range the draw is in (`pickWeighted_shares`): the last route is never
picked for want of another. -/

namespace Vsms.Routing.Shares

open Vsms.Lib.Tiling Vsms.Core.Chrono Vsms.Routing.Engine

/-- The weight that counts. -/
def counted (route : RouteRow) : ℤ := max route.weight 0

/-- The sum of the weights that count. -/
def totalWeight (band : List RouteRow) : ℤ := (band.map counted).sum

/-- A route's share of the draw: in proportion to its weight, or as all the others if none has a
positive one. -/
def share (band : List RouteRow) (route : RouteRow) : ℚ :=
  if totalWeight band = 0 then 1 / (band.length : ℤ)
    else (counted route : ℤ) / (totalWeight band : ℤ)

/-- The ends of a range. -/
def bounds (range : TieBreakRange) : ℚ × ℚ := (range.low, range.high)

/-- What the loop of `pick_weighted` leaves: the ranges, and the route it has matched, if any. -/
def matched (band : List RouteRow) (draw : ℚ) : List TieBreakRange × Option String :=
  pickLoop (wrapI64 (totalWeight band) = 0)
    (if wrapI64 (totalWeight band) = 0 then (band.length : ℤ)
      else wrapI64 (totalWeight band)) draw band 0 none

/-- The last route is picked if none is matched. -/
theorem pickWeighted_eq (band : List RouteRow) (priority : ℤ) (draw : ℚ) :
    pickWeighted band priority draw =
      ((matched band draw).2.getD ((band.getLast?.map RouteRow.id).getD ""),
        ⟨priority, draw, (matched band draw).1,
          (matched band draw).2.getD ((band.getLast?.map RouteRow.id).getD "")⟩) := by
  unfold pickWeighted matched totalWeight counted
  simp

/-! ## The loop -/

section loop
variable (uniform : Bool) (denom draw : ℚ)

/-- What a route adds to the sum. -/
def step (route : RouteRow) : ℚ := if uniform then 1 else (counted route : ℤ)

theorem pickLoop_cons (route : RouteRow) (band : List RouteRow) (acc : ℚ) (winner : Option String) :
    pickLoop uniform denom draw (route :: band) acc winner =
      (⟨route.id, route.weight, acc / denom, (acc + step uniform route) / denom⟩ ::
        (pickLoop uniform denom draw band (acc + step uniform route)
          (if winner.isNone ∧ draw < (acc + step uniform route) / denom then some route.id
            else winner)).1,
        (pickLoop uniform denom draw band (acc + step uniform route)
          (if winner.isNone ∧ draw < (acc + step uniform route) / denom then some route.id
            else winner)).2) := rfl

/-- **The ranges**: one for each route, as long as its part of the sum. -/
theorem pickLoop_ranges (band : List RouteRow) (acc : ℚ) (winner : Option String) :
    List.Forall₂ (fun route range => range.routeId = route.id ∧ range.weight = route.weight ∧
      range.high - range.low =
        step uniform route / denom) band (pickLoop uniform denom draw band acc winner).1 := by
  induction band generalizing acc winner with
  | nil => exact List.Forall₂.nil
  | cons route band ih =>
    refine List.Forall₂.cons ⟨rfl, rfl, ?_⟩ (ih _ _)
    show (acc + step uniform route) / denom - acc / denom = step uniform route / denom
    ring

theorem step_nonneg (route : RouteRow) : 0 ≤ step uniform route := by
  unfold step counted
  split_ifs
  · exact zero_le_one
  · exact_mod_cast le_max_right route.weight 0

/-- They follow one another. -/
theorem pickLoop_tiles (hdenom : 0 < denom) (band : List RouteRow) (acc : ℚ)
    (winner : Option String) :
    Tiles (acc / denom) ((acc + (band.map (step uniform)).sum) / denom)
      ((pickLoop uniform denom draw band acc winner).1.map bounds) := by
  induction band generalizing acc winner with
  | nil =>
    show acc / denom = (acc + 0) / denom
    rw [add_zero]
  | cons route band ih =>
    refine ⟨rfl, ?_, ?_⟩
    · exact div_le_div_of_nonneg_right
        (le_add_of_nonneg_right (step_nonneg uniform route)) hdenom.le
    · rw [List.map_cons, List.sum_cons, ← add_assoc]
      exact ih _ _

/-- A route that has been matched stays. -/
theorem pickLoop_some (band : List RouteRow) (acc : ℚ) (id : String) :
    (pickLoop uniform denom draw band acc (some id)).2 = some id := by
  induction band generalizing acc with
  | nil => rfl
  | cons route band ih => exact ih _

/-- **The route that is matched** is the first whose range ends past the draw. -/
theorem pickLoop_winner (band : List RouteRow) (acc : ℚ) :
    (pickLoop uniform denom draw band acc none).2 =
      (((pickLoop uniform denom draw band acc none).1.map bounds).findIdx? fun tile =>
        draw < tile.2).bind
        fun i => (band.map RouteRow.id)[i]? := by
  induction band generalizing acc with
  | nil => rfl
  | cons route band ih =>
    rw [pickLoop_cons]
    by_cases hmatch : draw < (acc + step uniform route) / denom
    · have hwinner :
        (if (none : Option String).isNone ∧ draw < (acc + step uniform route) / denom then
          some route.id else none) = some route.id := if_pos ⟨rfl, hmatch⟩
      rw [hwinner, pickLoop_some]
      simp [bounds, List.findIdx?_cons, hmatch]
    · have hwinner :
        (if (none : Option String).isNone ∧ draw < (acc + step uniform route) / denom then
          some route.id else none) = none := if_neg fun h => hmatch h.2
      rw [hwinner, ih]
      simp [bounds, List.findIdx?_cons, hmatch, Option.bind_map, Function.comp_def]

end loop

/-! ## The band -/

section band
variable {band : List RouteRow}

theorem counted_nonneg (route : RouteRow) : 0 ≤ counted route := le_max_right _ _

theorem counted_le_total {route : RouteRow} (h : route ∈ band) : counted route ≤ totalWeight band :=
  List.single_le_sum (by simpa using fun r _ => counted_nonneg r) _ (List.mem_map_of_mem h)

theorem totalWeight_nonneg (band : List RouteRow) : 0 ≤ totalWeight band :=
  List.sum_nonneg (by simpa using fun r _ => counted_nonneg r)

theorem wrap_totalWeight (h : totalWeight band ≤ maxI64) :
    wrapI64 (totalWeight band) = totalWeight band := by
  have hnonneg := totalWeight_nonneg band
  unfold wrapI64 maxI64 at *
  omega

theorem sum_step_uniform (band : List RouteRow) :
    (band.map (step true)).sum = (band.length : ℤ) := by
  have hstep : step true = fun _ => 1 := funext fun _ => rfl
  rw [hstep]
  simp

theorem sum_step_counted (band : List RouteRow) :
    (band.map (step false)).sum = (totalWeight band : ℤ) := by
  unfold totalWeight
  induction band with
  | nil => rfl
  | cons route band ih =>
    rw [List.map_cons, List.sum_cons, ih, List.map_cons, List.sum_cons, Int.cast_add]
    rfl

/-- **The ranges tile `[0, 1)`**, each as long as the route's share. -/
theorem matched_ranges (hband : band ≠ []) (hsum : totalWeight band ≤ maxI64) (draw : ℚ) :
    List.Forall₂ (fun route range => range.routeId = route.id ∧ range.weight = route.weight ∧
        range.high - range.low = share band route) band (matched band draw).1 ∧
      Tiles 0 1 ((matched band draw).1.map bounds) := by
  unfold matched share
  rw [wrap_totalWeight hsum]
  by_cases hzero : totalWeight band = 0
  · have hlength : (0 : ℚ) < (band.length : ℤ) := by
      have hpos := List.length_pos_of_ne_nil hband
      exact_mod_cast hpos
    have htiles := pickLoop_tiles true _ draw hlength band 0 none
    simp only [hzero, decide_true, if_true]
    rw [sum_step_uniform, zero_div, zero_add, div_self hlength.ne'] at htiles
    exact ⟨pickLoop_ranges true _ draw band 0 none, htiles⟩
  · have htotal : (0 : ℚ) < (totalWeight band : ℤ) := by
      have hpos := (totalWeight_nonneg band).lt_of_ne (Ne.symm hzero)
      exact_mod_cast hpos
    have htiles := pickLoop_tiles false _ draw htotal band 0 none
    simp only [hzero, decide_false, if_false]
    rw [sum_step_counted, zero_div, zero_add, div_self htotal.ne'] at htiles
    exact ⟨pickLoop_ranges false _ draw band 0 none, htiles⟩

/-- A route of the band is picked, whatever its weights are. -/
theorem pickWeighted_mem (hband : band ≠ []) (priority : ℤ) (draw : ℚ) :
    (pickWeighted band priority draw).1 ∈ band.map RouteRow.id := by
  rw [pickWeighted_eq]
  dsimp only
  cases hpicked : (matched band draw).2 with
  | none =>
    rw [Option.getD_none, List.getLast?_eq_getLast_of_ne_nil hband]
    exact List.mem_map_of_mem (List.getLast_mem hband)
  | some id =>
    unfold matched at hpicked
    rw [pickLoop_winner] at hpicked
    obtain ⟨i, -, hid⟩ := Option.bind_eq_some_iff.mp hpicked
    exact List.mem_of_getElem? hid

/-- **The route whose range the draw is in is matched.** -/
theorem matched_winner (hband : band ≠ []) (hsum : totalWeight band ≤ maxI64) {draw : ℚ}
    (h0 : 0 ≤ draw) (h1 : draw < 1) : ∃ entry ∈ band.zip (matched band draw).1,
    (matched band draw).2 = some entry.1.id ∧
      In draw (bounds entry.2) := by
  obtain ⟨hranges, htiles⟩ := matched_ranges hband hsum draw
  have hlength := hranges.length_eq
  obtain ⟨i, hi, hfind, hin⟩ := htiles.find h0 h1
  have hirange : i < (matched band draw).1.length := by simpa using hi
  have hiband : i < band.length := by rw [hlength]; exact hirange
  refine ⟨(band[i], (matched band draw).1[i]), ?_, ?_, ?_⟩
  · have hzip : i < (band.zip (matched band draw).1).length := by
      rw [List.length_zip]
      exact lt_min hiband hirange
    have hget : (band.zip (matched band draw).1)[i] = (band[i], (matched band draw).1[i]) :=
      List.getElem_zip
    rw [← hget]
    exact List.getElem_mem hzip
  · have hwinner : (matched band draw).2 = (((matched band draw).1.map bounds).findIdx? fun tile =>
      draw < tile.2).bind
        fun i => (band.map RouteRow.id)[i]? := pickLoop_winner _ _ draw band 0
    rw [hwinner, hfind]
    simp [hiband]
  · rw [List.getElem_map] at hin
    exact hin

/-- A route without a positive weight has no share where another has one. -/
theorem weight_pos_of_share {route : RouteRow} (hshare : 0 < share band route)
    (h : ∃ other ∈ band, 0 < other.weight) : 0 < route.weight := by
  obtain ⟨other, hother, hpos⟩ := h
  have hcounted : 0 < counted other := lt_max_of_lt_left hpos
  have htotal : 0 < totalWeight band := hcounted.trans_le (counted_le_total hother)
  unfold share at hshare
  rw [if_neg htotal.ne'] at hshare
  have hne : counted route ≠ 0 := by
    intro hzero
    rw [hzero] at hshare
    exact absurd hshare (by simp)
  have hroute : 0 < counted route := (counted_nonneg route).lt_of_ne hne.symm
  exact (lt_max_iff.mp hroute).resolve_right (lt_irrefl 0)

/-- **The weighted draw.** The ranges are those of the routes of the band, in its order, each as
long as the route's share; they follow one another from 0 to 1, so that each draw is in just one;
the route that is picked is the one whose range the draw is in, which is found and not fallen back
on; and it has a positive weight, if any route has. -/
theorem pickWeighted_shares (hband : 2 ≤ band.length) (hsum : totalWeight band ≤ maxI64)
    (priority : ℤ) {draw : ℚ} (h0 : 0 ≤ draw) (h1 : draw < 1) :
    List.Forall₂ (fun route range => range.routeId = route.id ∧ range.weight = route.weight ∧
        range.high - range.low = share band route) band (pickWeighted band priority draw).2.ranges ∧
      Tiles 0 1 ((pickWeighted band priority draw).2.ranges.map bounds) ∧
      (∀ x, 0 ≤ x → x < 1 →
        ∃! i : Fin ((pickWeighted band priority draw).2.ranges.map bounds).length,
        In x ((pickWeighted band priority draw).2.ranges.map bounds)[i]) ∧
      (matched band draw).2 = some (pickWeighted band priority draw).1 ∧
      ∃ entry ∈ band.zip (pickWeighted band priority draw).2.ranges,
        (pickWeighted band priority draw).1 = entry.1.id ∧
        (pickWeighted band priority draw).2.winnerRouteId = entry.1.id ∧ In draw (bounds entry.2) ∧
        ((∃ route ∈ band, 0 < route.weight) → 0 < entry.1.weight) := by
  have hne : band ≠ [] := by
    rintro rfl
    exact absurd hband (by decide)
  obtain ⟨hranges, htiles⟩ := matched_ranges hne hsum draw
  obtain ⟨entry, hentry, hwinner, hin⟩ := matched_winner hne hsum h0 h1
  have hpicked := pickWeighted_eq band priority draw
  rw [hwinner, Option.getD_some] at hpicked
  have hmatched : (matched band draw).1 = (pickWeighted band priority draw).2.ranges := by
    rw [hpicked]
  have hid : (pickWeighted band priority draw).1 = entry.1.id := by rw [hpicked]
  have hnamed : (pickWeighted band priority draw).2.winnerRouteId = entry.1.id := by rw [hpicked]
  rw [hmatched] at hranges htiles hentry
  refine ⟨hranges, htiles, fun x hx0 hx1 => htiles.existsUnique hx0 hx1, ?_, entry, hentry, hid,
    hnamed, hin, ?_⟩
  · rw [hwinner, hid]
  intro hpositive
  obtain ⟨-, -, hwidth⟩ := List.forall₂_iff_zip.mp hranges |>.2 hentry
  refine weight_pos_of_share ?_ hpositive
  rw [← hwidth]
  exact sub_pos.mpr (hin.1.trans_lt hin.2)

end band

section runs

def sampleRoute (id : String) (weight : ℤ) : RouteRow :=
  ⟨id, id, 0, weight, true, none, none, none, none, "p1", none⟩

/-- A route with no weight between one and three. -/
theorem pickWeighted_light :
    ∃ entry ∈ [sampleRoute "light" 1, sampleRoute "none" (-2), sampleRoute "heavy" 3].zip
        (pickWeighted [sampleRoute "light" 1, sampleRoute "none" (-2), sampleRoute "heavy" 3] 0
          (1 / 5)).2.ranges,
      (pickWeighted [sampleRoute "light" 1, sampleRoute "none" (-2), sampleRoute "heavy" 3] 0
        (1 / 5)).1 =
          entry.1.id ∧ 0 < entry.1.weight := by
  obtain ⟨-, -, -, -, entry, hentry, hid, -, -, hpositive⟩ :=
    @pickWeighted_shares [sampleRoute "light" 1, sampleRoute "none" (-2),
      sampleRoute "heavy" 3] (by decide)
      (by decide) 0 (1 / 5) (by norm_num) (by norm_num)
  exact ⟨entry, hentry, hid, hpositive ⟨sampleRoute "light" 1, by simp, by decide⟩⟩

end runs

end Vsms.Routing.Shares
