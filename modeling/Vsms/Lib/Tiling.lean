import Mathlib.Data.List.Basic
import Mathlib.Data.Fin.Basic
import Mathlib.Order.Basic

/-! # Intervals laid end to end

`Tiles left right tiles`: the half-open intervals `tiles` follow one another from `left` to `right`;
some may be empty. A point from `left` on and before `right` is in just one of them
(`Tiles.existsUnique`), which is the first whose upper end is past it (`Tiles.find`). -/

namespace Vsms.Lib.Tiling

variable {K : Type*} [LinearOrder K]

/-- **Consecutive half-open intervals.** -/
def Tiles : K → K → List (K × K) → Prop
  | left, right, [] => left = right
  | left, right, tile :: tiles => tile.1 = left ∧ tile.1 ≤ tile.2 ∧ Tiles tile.2 right tiles

/-- The point is in the interval. -/
def In (x : K) (tile : K × K) : Prop := tile.1 ≤ x ∧ x < tile.2

variable {left right x : K} {tiles : List (K × K)}

/-- No interval begins before the first. -/
theorem Tiles.left_le (h : Tiles left right tiles) {tile : K × K} (htile : tile ∈ tiles) :
    left ≤ tile.1 := by
  induction tiles generalizing left with
  | nil => exact absurd htile (by simp)
  | cons first tiles ih =>
    obtain ⟨rfl, hle, hrest⟩ := h
    rcases List.mem_cons.mp htile with rfl | htile
    · exact le_refl _
    · exact hle.trans (ih hrest htile)

/-- **The first interval whose upper end is past a point has the point in it.** -/
theorem Tiles.find (h : Tiles left right tiles) (hleft : left ≤ x) (hright : x < right) :
    ∃ (i : ℕ) (hi : i < tiles.length), tiles.findIdx? (fun tile => x < tile.2) = some i ∧
      In x tiles[i] := by
  induction tiles generalizing left with
  | nil =>
    have hsame : left = right := h
    exact absurd (hleft.trans_lt hright) (by rw [hsame]; exact lt_irrefl _)
  | cons tile tiles ih =>
    obtain ⟨rfl, -, hrest⟩ := h
    by_cases hx : x < tile.2
    · exact ⟨0, by simp, by simp [List.findIdx?_cons, hx], hleft, hx⟩
    · obtain ⟨i, hi, hfind, hin⟩ := ih hrest (not_lt.mp hx)
      refine ⟨i + 1, by simpa using hi, ?_, by simpa using hin⟩
      simp [List.findIdx?_cons, hx, hfind]

theorem Tiles.eq_of_in (h : Tiles left right tiles) {i j : ℕ} {hi : i < tiles.length}
    {hj : j < tiles.length} (hini : In x tiles[i]) (hinj : In x tiles[j]) : i = j := by
  induction tiles generalizing left i j with
  | nil => exact absurd hi (by simp)
  | cons tile tiles ih =>
    obtain ⟨rfl, -, hrest⟩ := h
    -- A later interval begins where the first one ends, or after.
    have hlater {k : ℕ} (hk : k < tiles.length) (hfirst : In x tile) : ¬ In x tiles[k] := by
      intro hin
      have hle := hrest.left_le (List.getElem_mem hk)
      exact absurd (hfirst.2.trans_le hle) (not_lt.mpr hin.1)
    cases i with
    | zero =>
      cases j with
      | zero => rfl
      | succ j => exact absurd hinj (hlater (by simpa using hj) hini)
    | succ i =>
      cases j with
      | zero => exact absurd hini (hlater (by simpa using hi) hinj)
      | succ j => rw [ih hrest hini hinj]

/-- **A point is in just one of the intervals.** -/
theorem Tiles.existsUnique (h : Tiles left right tiles) (hleft : left ≤ x) (hright : x < right) :
    ∃! i : Fin tiles.length, In x tiles[i] := by
  obtain ⟨i, hi, -, hin⟩ := h.find hleft hright
  refine ⟨⟨i, hi⟩, hin, fun j hj => ?_⟩
  exact Fin.ext (h.eq_of_in hj hin)

end Vsms.Lib.Tiling
