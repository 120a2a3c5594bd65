import Mathlib.Data.List.Sort
import Mathlib.Data.List.Perm.Subperm
import Mathlib.Tactic.SplitIfs

/-! # The first entries of a list in an order

`Firsts r n all sel`: the list `sel` has the first `n` entries of `all` in the order `r`, or all of
them if there are fewer; where `r` does not decide between two entries, either may come first.
Sorting and taking `n` gives them (`firsts_take`), and so does the same on fewer entries, as long as
each one left out comes after `n` of those that stay (`Firsts.of_dominated`): it is enough to look
at the first `n` of each part of a list. Any two such selections agree in the order's keys
(`Firsts.map_eq`). -/

namespace Vsms.Lib.Selection

variable {α κ : Type*} {r : α → α → Prop} {n : ℕ}

/-- Two counts of different entries add up. -/
theorem length_filter_or {P Q : α → Prop} [DecidablePred P] [DecidablePred Q] {l : List α}
    (h : ∀ x ∈ l, P x → ¬ Q x) :
    (l.filter fun x => P x ∨ Q x).length =
      (l.filter fun x => P x).length + (l.filter fun x => Q x).length := by
  induction l with
  | nil => rfl
  | cons x l ih =>
    have hx := h x List.mem_cons_self
    have ih := ih fun y hy => h y (List.mem_cons_of_mem _ hy)
    simp only [List.filter_cons]
    by_cases hP : P x
    · simp only [hP, hx hP, or_false, decide_true, decide_false, if_true,
        Bool.false_eq_true, if_false, List.length_cons]
      omega
    · by_cases hQ : Q x
      · simp only [hP, hQ, or_true, decide_true, decide_false, if_true,
          Bool.false_eq_true, if_false, List.length_cons]
        omega
      · simpa [hP, hQ] using ih

/-- **`sel` has the first `n` entries of `all`.** -/
structure Firsts (r : α → α → Prop) (n : ℕ) (all sel : List α) : Prop where
  nodup : sel.Nodup
  subset : sel ⊆ all
  sorted : sel.Pairwise r
  length : sel.length = min n all.length
  before : ∀ x ∈ sel, ∀ y ∈ all, y ∉ sel → r x y

/-- Sort, and take `n`. -/
theorem firsts_take [DecidableRel r] [Std.Total r] [IsTrans α r] {all : List α} (hall : all.Nodup) :
    Firsts r n all ((all.insertionSort r).take n) := by
  have hperm := List.perm_insertionSort r all
  have hsorted := List.pairwise_insertionSort r all
  have hsplit := List.take_append_drop n (all.insertionSort r)
  refine ⟨?_, ?_, hsorted.sublist (List.take_sublist _ _), ?_, ?_⟩
  · exact (hperm.nodup_iff.mpr hall).sublist (List.take_sublist _ _)
  · exact fun x hx => hperm.subset (List.mem_of_mem_take hx)
  · rw [List.length_take, hperm.length_eq]
  · intro x hx y hy hyn
    have hmem : y ∈ (all.insertionSort r).take n ++ (all.insertionSort r).drop n := by
      rw [hsplit]
      exact hperm.symm.subset hy
    have hdrop : y ∈ (all.insertionSort r).drop n := (List.mem_append.mp hmem).resolve_left hyn
    rw [← hsplit] at hsorted
    exact (List.pairwise_append.mp hsorted).2.2 x hx y hdrop

/-- Where an entry is left out, there are `n` before it. -/
theorem Firsts.length_eq_of_notMem {all sel : List α} (h : Firsts r n all sel)
    {y : α} (hy : y ∈ all) (hyn : y ∉ sel) : sel.length = n := by
  have hlen := h.length
  have hlt : sel.length < all.length := by
    have hcons : (y :: sel).Nodup := List.nodup_cons.mpr ⟨hyn, h.nodup⟩
    have hsub : y :: sel ⊆ all := List.cons_subset.mpr ⟨hy, h.subset⟩
    have := (hcons.subperm hsub).length_le
    rw [List.length_cons] at this
    omega
  omega

/-- **It is enough to look at some of the entries**, if each one that is left out comes after `n` of
them. -/
theorem Firsts.of_dominated [IsTrans α r] {all sub sel : List α} (h : Firsts r n sub sel)
    (hall : all.Nodup) (hsub : sub.Nodup) (hss : sub ⊆ all)
    (hdom : ∀ y ∈ all, y ∉ sub → ∃ d : List α, d.Nodup ∧ d ⊆ sub ∧ n ≤ d.length ∧ ∀ x ∈ d, r x y) :
    Firsts r n all sel := by
  have hlen := h.length
  have hle := (hsub.subperm hss).length_le
  refine ⟨h.nodup, fun x hx => hss (h.subset hx), h.sorted, ?_, fun x hx y hy hyn => ?_⟩
  · by_cases hmissing : ∃ y ∈ all, y ∉ sub
    · obtain ⟨y, hy, hyn⟩ := hmissing
      obtain ⟨d, hd, hds, hn, -⟩ := hdom y hy hyn
      have := (hd.subperm hds).length_le
      omega
    · have hsame : all ⊆ sub := fun y hy => by
        by_contra hyn
        exact hmissing ⟨y, hy, hyn⟩
      have := (hall.subperm hsame).length_le
      omega
  · by_cases hys : y ∈ sub
    · exact h.before x hx y hys hyn
    · obtain ⟨d, hd, hds, hn, hr⟩ := hdom y hy hys
      by_cases hout : ∃ z ∈ d, z ∉ sel
      · obtain ⟨z, hz, hzn⟩ := hout
        exact IsTrans.trans x z y (h.before x hx z (hds hz) hzn) (hr z hz)
      · -- All `n` of them are selected, so there is no room for another.
        have hdsel : d ⊆ sel := fun z hz => by
          by_contra hzn
          exact hout ⟨z, hz, hzn⟩
        have hsub' := hd.subperm hdsel
        have hperm := hsub'.perm_of_length_le (by omega)
        exact hr x (hperm.symm.subset hx)

/-- A selection is where sorting the list begins. -/
theorem Firsts.exists_sorted [Std.Total r] [IsTrans α r] {all sel : List α} (h : Firsts r n all sel)
    (hall : all.Nodup) : ∃ rest, List.Perm (sel ++ rest) all ∧ (sel ++ rest).Pairwise r := by
  classical
  have hperm := List.perm_insertionSort r (all.filter fun y => y ∉ sel)
  have hmem : ∀ y, y ∈ (all.filter fun y => y ∉ sel).insertionSort r ↔ y ∈ all ∧ y ∉ sel := by
    intro y
    rw [hperm.mem_iff, List.mem_filter, decide_eq_true_iff]
  have hnodup : ((all.filter fun y => y ∉ sel).insertionSort r).Nodup :=
    hperm.nodup_iff.mpr (hall.filter _)
  refine ⟨(all.filter fun y => y ∉ sel).insertionSort r, ?_, ?_⟩
  · refine (List.perm_ext_iff_of_nodup ?_ hall).mpr fun y => ?_
    · refine List.nodup_append.mpr ⟨h.nodup, hnodup, ?_⟩
      rintro x hx y hy rfl
      exact ((hmem x).mp hy).2 hx
    · rw [List.mem_append, hmem]
      constructor
      · rintro (hy | hy)
        · exact h.subset hy
        · exact hy.1
      · intro hy
        by_cases hys : y ∈ sel
        · exact .inl hys
        · exact .inr ⟨hy, hys⟩
  · refine List.pairwise_append.mpr ⟨h.sorted, List.pairwise_insertionSort r _, fun x hx y hy => ?_⟩
    obtain ⟨hy, hyn⟩ := (hmem y).mp hy
    exact h.before x hx y hy hyn

/-- **Two selections agree in their keys**, if the order is one of the keys. -/
theorem Firsts.map_eq [Std.Total r] [IsTrans α r] {s : κ → κ → Prop} [Std.Antisymm s] {k : α → κ}
    (hk : ∀ a b, r a b → s (k a) (k b)) {all sel sel' : List α} (h : Firsts r n all sel)
    (h' : Firsts r n all sel') (hall : all.Nodup) : sel.map k = sel'.map k := by
  obtain ⟨rest, hperm, hsorted⟩ := h.exists_sorted hall
  obtain ⟨rest', hperm', hsorted'⟩ := h'.exists_sorted hall
  have heq : (sel ++ rest).map k = (sel' ++ rest').map k :=
    List.Perm.eq_of_pairwise' (hsorted.map k hk) (hsorted'.map k hk)
      ((hperm.trans hperm'.symm).map k)
  rw [List.map_append, List.map_append] at heq
  refine List.append_inj_left heq ?_
  rw [List.length_map, List.length_map, h.length, h'.length]

/-! ### The least entry under a comparison -/

section minBy
variable {cmp : α → α → Ordering}

/-- The first of the entries that no other is less than, read from the left. -/
def minBy (cmp : α → α → Ordering) : List α → Option α
  | [] => none
  | x :: xs => some (xs.foldl (fun least y => if cmp least y = .gt then y else least) x)

theorem minBy_mem {l : List α} {m : α} (h : minBy cmp l = some m) : m ∈ l := by
  have hfold : ∀ (xs : List α) (x : α),
      xs.foldl (fun least y => if cmp least y = .gt then y else least) x ∈ x :: xs := by
    intro xs
    induction xs with
    | nil => simp
    | cons y xs ih =>
      intro x
      rw [List.foldl_cons]
      split_ifs
      · exact List.mem_cons_of_mem _ (ih y)
      · rcases List.mem_cons.mp (ih x) with hx | hx
        · rw [hx]
          exact List.mem_cons_self
        · exact List.mem_cons_of_mem _ (List.mem_cons_of_mem _ hx)
  cases l with
  | nil => cases h
  | cons x xs => exact Option.some.inj h ▸ hfold xs x

/-- **An entry that comes before all others** is the least one, wherever it stands. -/
theorem minBy_eq_some {l : List α} {m : α} (hm : m ∈ l) (hle : ∀ y ∈ l, cmp m y ≠ .gt)
    (hgt : ∀ y ∈ l, y ≠ m → cmp y m = .gt) : minBy cmp l = some m := by
  have hfold : ∀ (xs : List α) (x : α), m ∈ x :: xs → (∀ y ∈ x :: xs, cmp m y ≠ .gt) →
      (∀ y ∈ x :: xs, y ≠ m → cmp y m = .gt) →
      xs.foldl (fun least y => if cmp least y = .gt then y else least) x = m := by
    intro xs
    induction xs with
    | nil =>
      intro x hm _ _
      exact (List.mem_singleton.mp hm).symm
    | cons y xs ih =>
      intro x hm hle hgt
      rw [List.foldl_cons]
      -- Either the least so far is `m`, or `m` is still to come and takes its place.
      by_cases hx : x = m
      · subst hx
        rw [if_neg (hle y (by simp))]
        refine ih x List.mem_cons_self (fun z hz => hle z ?_) (fun z hz => hgt z ?_)
        · exact (List.mem_cons.mp hz).elim (fun h => h ▸ List.mem_cons_self) fun h => by simp [h]
        · exact (List.mem_cons.mp hz).elim (fun h => h ▸ List.mem_cons_self) fun h => by simp [h]
      · have hrest : m ∈ y :: xs := (List.mem_cons.mp hm).resolve_left fun h => hx h.symm
        split_ifs with hcmp
        · exact ih y hrest (fun z hz => hle z (List.mem_cons_of_mem _ hz))
            fun z hz => hgt z (List.mem_cons_of_mem _ hz)
        · have hy : y ≠ m := by
            rintro rfl
            exact hcmp (hgt x List.mem_cons_self hx)
          have hxs : m ∈ xs := (List.mem_cons.mp hrest).resolve_left fun h => hy h.symm
          have hsub : ∀ z ∈ x :: xs, z ∈ x :: y :: xs := by simp +contextual
          exact ih x (List.mem_cons_of_mem _ hxs) (fun z hz => hle z (hsub z hz)) fun z hz =>
            hgt z (hsub z hz)
  cases l with
  | nil => cases hm
  | cons x xs => rw [minBy, hfold xs x hm hle hgt]

end minBy

/-! ### The first entry of a stable sort -/

section mergeSort
variable {le : α → α → Bool}

/-- **The first entry with `P` of a sorted list** comes before every other one with `P`, and before
it in the list there was none that the order does not put after it. -/
theorem find?_mergeSort (htrans : ∀ a b c, le a b → le b c → le a c)
    (htotal : ∀ a b, le a b || le b a) {P : α → Bool} {l : List α} {m : α}
    (h : (l.mergeSort le).find? P = some m) :
    ∃ before after, l = before ++ m :: after ∧ P m = true ∧
      (∀ x ∈ before, P x = true → le m x = true ∧ le x m = false) ∧ ∀ x ∈ after, P x = true →
      le m x = true := by
  induction l with
  | nil => simp at h
  | cons a l ih =>
    obtain ⟨front, back, hsort, hrest, hfront⟩ := List.mergeSort_cons htrans htotal a l
    have hsorted := List.pairwise_mergeSort htrans htotal (a :: l)
    rw [hsort] at h hsorted
    rw [List.find?_append] at h
    -- Before `a` there are the entries that come strictly before it.
    cases hfind : front.find? P with
    | some y =>
      rw [hfind] at h
      obtain rfl : y = m := Option.some.inj h
      obtain ⟨before, after, rfl, hm, hbefore, hafter⟩ :=
        ih (by rw [hrest, List.find?_append, hfind]; rfl)
      refine ⟨a :: before, after, rfl, hm, fun x hx hPx => ?_, hafter⟩
      rcases List.mem_cons.mp hx with rfl | hx
      · have hmem := List.mem_of_find?_eq_some hfind
        refine ⟨(List.pairwise_append.mp hsorted).2.2 y hmem x List.mem_cons_self, ?_⟩
        simpa using hfront y hmem
      · exact hbefore x hx hPx
    | none =>
      rw [hfind, Option.none_or, List.find?_cons] at h
      cases hPa : P a with
      | true =>
        rw [hPa] at h
        obtain rfl : a = m := Option.some.inj h
        refine ⟨[], l, rfl, hPa, by simp, fun x hx hPx => ?_⟩
        have hmem : x ∈ front ++ back := hrest ▸ List.mem_mergeSort.mpr hx
        rcases List.mem_append.mp hmem with hx | hx
        · exact absurd hPx (List.find?_eq_none.mp hfind x hx)
        · exact (List.pairwise_cons.mp (List.pairwise_append.mp hsorted).2.1).1 x hx
      | false =>
        rw [hPa] at h
        obtain ⟨before, after, rfl, hm, hbefore, hafter⟩ :=
          ih (by rw [hrest, List.find?_append, hfind, Option.none_or]; exact h)
        refine ⟨a :: before, after, rfl, hm, fun x hx hPx => ?_, hafter⟩
        rcases List.mem_cons.mp hx with rfl | hx
        · rw [hPa] at hPx
          cases hPx
        · exact hbefore x hx hPx

end mergeSort

end Vsms.Lib.Selection
