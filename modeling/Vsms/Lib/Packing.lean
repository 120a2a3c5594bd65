import Mathlib.Data.List.Forall2
import Mathlib.Data.List.Induction
import Mathlib.Algebra.Order.Group.Nat
import Mathlib.Algebra.BigOperators.Group.List.Basic
import Mathlib.Tactic.Linarith

/-! # Next-fit packing

Items are packed in order into parts that hold `limit` each: an item that does not fit in the last
part begins a new one. The state is the number of parts, and what the last one holds.

* Packing fewer and smaller items never takes more parts (`nextFit_mono`).
* The parts are as few as any cut of the list into consecutive parts (`nextFit_le_iff`,
  `isLeast_nextFit`).
* Nothing is lost at the ends of the parts exactly if no item would straddle a multiple of the limit
  (`total_eq_iff`).
* What is lost at the end of a part is less than the item that begins the next one. So the sum of
  the items says how many parts there are, up to what can be lost (`sum_le_mul_nextFit`,
  `nextFit_le_of_sum`). -/

namespace Vsms.Lib.Packing

/-- The parts so far, and what the last one holds, after one more item. -/
def fill (limit : ℕ) (b : ℕ × ℕ) (size : ℕ) : ℕ × ℕ :=
  if limit < b.2 + size then (b.1 + 1, size) else (b.1, b.2 + size)

/-- **Next-fit.** -/
def nextFit (limit : ℕ) (b : ℕ × ℕ) (sizes : List ℕ) : ℕ × ℕ := sizes.foldl (fill limit) b

variable {limit : ℕ}

@[simp] theorem nextFit_nil (b : ℕ × ℕ) : nextFit limit b [] = b := rfl

@[simp] theorem nextFit_cons (b : ℕ × ℕ) (size : ℕ) (sizes : List ℕ) :
    nextFit limit b (size :: sizes) = nextFit limit (fill limit b size) sizes := rfl

theorem nextFit_append (b : ℕ × ℕ) (xs ys : List ℕ) :
    nextFit limit b (xs ++ ys) = nextFit limit (nextFit limit b xs) ys := List.foldl_append

theorem nextFit_concat (b : ℕ × ℕ) (xs : List ℕ) (x : ℕ) :
    nextFit limit b (xs ++ [x]) = fill limit (nextFit limit b xs) x := by
  rw [nextFit_append]
  rfl

/-! ## Items that fit in the last part, and items that do not -/

theorem nextFit_of_fits {b : ℕ × ℕ} {sizes : List ℕ} (h : b.2 + sizes.sum ≤ limit) :
    nextFit limit b sizes = (b.1, b.2 + sizes.sum) := by
  induction sizes generalizing b with
  | nil => rfl
  | cons x xs ih =>
    rw [List.sum_cons] at h
    have hfill : fill limit b x = (b.1, b.2 + x) := if_neg (by omega)
    rw [nextFit_cons, hfill, ih (by dsimp only; omega), List.sum_cons, add_assoc]

theorem le_nextFit_fst (b : ℕ × ℕ) (sizes : List ℕ) : b.1 ≤ (nextFit limit b sizes).1 := by
  induction sizes generalizing b with
  | nil => exact le_refl _
  | cons x xs ih =>
    have hfill : b.1 ≤ (fill limit b x).1 := by
      unfold fill
      split_ifs
      · exact Nat.le_succ _
      · exact le_refl _
    exact hfill.trans (ih _)

theorem lt_nextFit_fst {b : ℕ × ℕ} {sizes : List ℕ} (hb : b.2 ≤ limit)
    (h : limit < b.2 + sizes.sum) :
    b.1 < (nextFit limit b sizes).1 := by
  induction sizes generalizing b with
  | nil => exact absurd h (by simpa using hb)
  | cons x xs ih =>
    rw [List.sum_cons] at h
    by_cases hx : limit < b.2 + x
    · have hfill : fill limit b x = (b.1 + 1, x) := if_pos hx
      rw [nextFit_cons, hfill]
      exact le_nextFit_fst (b.1 + 1, x) xs
    · have hfill : fill limit b x = (b.1, b.2 + x) := if_neg hx
      rw [nextFit_cons, hfill]
      exact ih (b := (b.1, b.2 + x)) (by dsimp only; omega) (by dsimp only; omega)

theorem nextFit_snd_le {b : ℕ × ℕ} {sizes : List ℕ} (hb : b.2 ≤ limit)
    (h : ∀ x ∈ sizes, x ≤ limit) :
    (nextFit limit b sizes).2 ≤ limit := by
  induction sizes generalizing b with
  | nil => exact hb
  | cons x xs ih =>
    refine ih ?_ fun y hy => h y (List.mem_cons_of_mem x hy)
    unfold fill
    split_ifs with hx
    · exact h x List.mem_cons_self
    · exact not_lt.mp hx

/-! ## Fewer and smaller items -/

/-- In fewer parts, or in as many with at most `k` times as much in the last one. -/
def Before (k : ℕ) (b b' : ℕ × ℕ) : Prop := b.1 < b'.1 ∨ (b.1 = b'.1 ∧ b.2 ≤ k * b'.2)

variable {limit' k : ℕ}

theorem Before.fst_le {b b' : ℕ × ℕ} (h : Before k b b') : b.1 ≤ b'.1 := by
  rcases h with h | ⟨h, -⟩
  · exact h.le
  · exact h.le

theorem Before.fill_right {b b' : ℕ × ℕ} (h : Before k b b') (y : ℕ) :
    Before k b (fill limit' b' y) := by
  unfold fill
  split_ifs
  · exact Or.inl (Nat.lt_succ_of_le h.fst_le)
  · rcases h with h | ⟨h, hused⟩
    · exact Or.inl h
    · exact Or.inr ⟨h, hused.trans (Nat.mul_le_mul_left k (Nat.le_add_right _ _))⟩

theorem Before.fill (hlimit : k * limit' ≤ limit) {b b' : ℕ × ℕ} {x y : ℕ} (hxy : x ≤ k * y)
    (h : Before k b b') : Before k (fill limit b x) (fill limit' b' y) := by
  have hsum : b'.2 + y ≤ limit' → k * b'.2 + k * y ≤ limit := by
    intro hfits
    rw [← Nat.mul_add]
    exact (Nat.mul_le_mul_left k hfits).trans hlimit
  have hdistrib := Nat.mul_add k b'.2 y
  unfold Packing.fill Before at *
  split_ifs with hx hy hy <;> dsimp only
  · omega
  · omega
  · omega
  · omega

/-- **Fewer and smaller items take no more parts**, also if the parts are larger by as much as the
items. -/
theorem nextFit_mono (hlimit : k * limit' ≤ limit) {xs ys : List ℕ}
    (h : List.SublistForall₂ (fun x y => x ≤ k * y) xs ys) {b b' : ℕ × ℕ} (hb : Before k b b') :
    Before k (nextFit limit b xs) (nextFit limit' b' ys) := by
  induction h generalizing b b' with
  | @nil ys =>
    induction ys generalizing b' with
    | nil => exact hb
    | cons y ys ih => exact ih (hb.fill_right y)
  | cons hxy _ ih => exact ih (hb.fill hlimit hxy)
  | cons_right _ ih => exact ih (hb.fill_right _)

theorem sum_le_mul_sum {xs ys : List ℕ} (h : List.SublistForall₂ (fun x y => x ≤ k * y) xs ys) :
    xs.sum ≤ k * ys.sum := by
  induction h with
  | nil => exact Nat.zero_le _
  | cons hxy _ ih =>
    rw [List.sum_cons, List.sum_cons, Nat.mul_add]
    exact Nat.add_le_add hxy ih
  | cons_right _ ih =>
    rw [List.sum_cons, Nat.mul_add]
    exact ih.trans (Nat.le_add_left _ _)

/-! ## Cuts -/

/-- The parts that next-fit makes of the items, if the last one holds `last` so far. -/
def nextFitParts (limit : ℕ) : List ℕ → List ℕ → List (List ℕ)
  | last, [] => [last]
  | last, x :: xs =>
    if limit < last.sum + x then last :: nextFitParts limit [x] xs
      else nextFitParts limit (last ++ [x]) xs

theorem flatten_nextFitParts (last sizes : List ℕ) :
    (nextFitParts limit last sizes).flatten = last ++ sizes := by
  induction sizes generalizing last with
  | nil => simp [nextFitParts]
  | cons x xs ih =>
    unfold nextFitParts
    split_ifs
    · rw [List.flatten_cons, ih]
      rfl
    · rw [ih, List.append_assoc]
      rfl

theorem length_nextFitParts (n : ℕ) (last sizes : List ℕ) :
    (nextFit limit (n, last.sum) sizes).1 + 1 = n + (nextFitParts limit last sizes).length := by
  induction sizes generalizing n last with
  | nil => rfl
  | cons x xs ih =>
    rw [nextFit_cons]
    unfold nextFitParts fill
    split_ifs
    · have hrest := ih (n + 1) [x]
      rw [List.sum_singleton] at hrest
      rw [List.length_cons]
      dsimp only
      omega
    · have hrest := ih n (last ++ [x])
      rw [List.sum_append, List.sum_singleton] at hrest
      exact hrest

theorem sum_nextFitParts_le {last sizes : List ℕ} (hlast : last.sum ≤ limit)
    (h : ∀ x ∈ sizes, x ≤ limit) :
    ∀ part ∈ nextFitParts limit last sizes, part.sum ≤ limit := by
  induction sizes generalizing last with
  | nil => simpa [nextFitParts] using hlast
  | cons x xs ih =>
    have hxs : ∀ y ∈ xs, y ≤ limit := fun y hy => h y (List.mem_cons_of_mem x hy)
    unfold nextFitParts
    split_ifs with hx
    · intro part hpart
      rcases List.mem_cons.mp hpart with rfl | hpart
      · exact hlast
      · exact ih (by simpa using h x List.mem_cons_self) hxs part hpart
    · exact ih (by simpa using not_lt.mp hx) hxs

/-- The list can be cut into at most `n` consecutive parts that hold no more than the limit. -/
def Cuts (limit : ℕ) (sizes : List ℕ) (n : ℕ) : Prop :=
  ∃ parts : List (List ℕ), parts.flatten = sizes ∧ parts.length ≤ n ∧ ∀ part ∈ parts,
    part.sum ≤ limit

/-- A part that holds no more than the limit is spread over at most one new part. -/
theorem nextFit_flatten_le {parts : List (List ℕ)} (h : ∀ part ∈ parts, part.sum ≤ limit)
    (b : ℕ × ℕ) :
    (nextFit limit b parts.flatten).1 ≤ b.1 + parts.length := by
  induction parts generalizing b with
  | nil => exact le_refl _
  | cons part parts ih =>
    have hone : (nextFit limit b part).1 ≤ b.1 + 1 := by
      have hpart : nextFit limit (b.1 + 1, 0) part = (b.1 + 1, 0 + part.sum) :=
        nextFit_of_fits (by simpa using h part List.mem_cons_self)
      have hsame : List.SublistForall₂ (fun x y => x ≤ 1 * y) part part :=
        List.sublistForall₂_iff.mpr ⟨part, List.forall₂_same.mpr fun x _ => by simp,
          List.Sublist.refl part⟩
      have hbefore : Before 1 b (b.1 + 1, 0) := Or.inl (Nat.lt_succ_self _)
      have hle := (nextFit_mono (le_of_eq (Nat.one_mul limit)) hsame hbefore).fst_le
      rwa [hpart] at hle
    have hrest := ih (fun p hp => h p (List.mem_cons_of_mem part hp)) (nextFit limit b part)
    rw [List.flatten_cons, nextFit_append, List.length_cons]
    omega

/-- **Next-fit makes as few parts as any cut.** -/
theorem nextFit_le_iff {sizes : List ℕ} (h : ∀ x ∈ sizes, x ≤ limit) {n : ℕ} (hn : 0 < n) :
    (nextFit limit (1, 0) sizes).1 ≤ n ↔ Cuts limit sizes n := by
  constructor
  · intro hle
    have hlength := @length_nextFitParts limit 1 [] sizes
    rw [List.sum_nil] at hlength
    exact ⟨nextFitParts limit [] sizes, flatten_nextFitParts [] sizes, by omega,
      sum_nextFitParts_le (Nat.zero_le limit) h⟩
  · rintro ⟨parts, rfl, hlength, hparts⟩
    rcases parts with _ | ⟨part, parts⟩
    · exact hn
    · have hfirst : nextFit limit (1, 0) part = (1, 0 + part.sum) :=
        nextFit_of_fits (by simpa using hparts part List.mem_cons_self)
      have hrest := nextFit_flatten_le (fun p hp => hparts p (List.mem_cons_of_mem part hp))
        (nextFit limit (1, 0) part)
      rw [List.length_cons] at hlength
      rw [List.flatten_cons, nextFit_append]
      rw [hfirst] at hrest ⊢
      dsimp only at hrest
      omega

/-- The list is cut into just `k` consecutive parts that hold no more than the limit. -/
def Splits (limit : ℕ) (sizes : List ℕ) (k : ℕ) : Prop :=
  ∃ parts : List (List ℕ), parts.flatten = sizes ∧ parts.length = k ∧ ∀ part ∈ parts,
    part.sum ≤ limit

theorem splits_nextFit {sizes : List ℕ} (h : ∀ x ∈ sizes, x ≤ limit) :
    Splits limit sizes (nextFit limit (1, 0) sizes).1 := by
  have hlength := @length_nextFitParts limit 1 [] sizes
  rw [List.sum_nil] at hlength
  exact ⟨nextFitParts limit [] sizes, flatten_nextFitParts [] sizes, by omega,
    sum_nextFitParts_le (Nat.zero_le limit) h⟩

/-- **The number of parts is the least.** -/
theorem isLeast_nextFit {sizes : List ℕ} (hne : sizes ≠ []) (h : ∀ x ∈ sizes, x ≤ limit) :
    IsLeast {k | Splits limit sizes k} (nextFit limit (1, 0) sizes).1 := by
  refine ⟨splits_nextFit h, ?_⟩
  rintro k ⟨parts, hflatten, hlength, hparts⟩
  have hk : 0 < k := by
    rw [← hlength, List.length_pos_iff]
    rintro rfl
    exact hne hflatten.symm
  exact (nextFit_le_iff h hk).mpr ⟨parts, hflatten, hlength.le, hparts⟩

/-! ## What is lost at the ends of the parts -/

/-- No item would straddle a multiple of the limit, if all were laid end to end. -/
def Aligned (limit : ℕ) (sizes : List ℕ) : Prop :=
  ∀ before x after, sizes = before ++ x :: after → before.sum % limit + x ≤ limit

theorem aligned_concat {xs : List ℕ} {x : ℕ} :
    Aligned limit (xs ++ [x]) ↔ Aligned limit xs ∧ xs.sum % limit + x ≤ limit := by
  constructor
  · intro h
    refine ⟨fun before y after hxs => ?_, h xs x [] rfl⟩
    exact h before y (after ++ [x]) (by rw [hxs, List.append_assoc]; rfl)
  · rintro ⟨hxs, hx⟩ before y after heq
    rcases List.eq_nil_or_concat after with rfl | ⟨after, z, rfl⟩
    · obtain ⟨rfl, hy⟩ := List.append_inj' heq rfl
      obtain rfl : x = y := by simpa using hy
      exact hx
    · have hsplit : xs ++ [x] = (before ++ y :: after) ++ [z] := by simpa using heq
      exact hxs before y after (List.append_inj' hsplit rfl).1

/-- The full parts and what the last one holds. -/
def total (limit : ℕ) (b : ℕ × ℕ) : ℕ := (b.1 - 1) * limit + b.2

/-- Of `n` parts, all but the last, and the last. -/
theorem parts_mul {n : ℕ} (hn : 0 < n) (k : ℕ) : n * k = (n - 1) * k + k := by
  rw [← Nat.succ_mul, Nat.succ_eq_add_one, Nat.sub_add_cancel hn]

theorem total_fill {b : ℕ × ℕ} (hb : 1 ≤ b.1) (x : ℕ) :
    total limit (fill limit b x) =
      if limit < b.2 + x then (b.1 - 1) * limit + limit + x else total limit b + x := by
  unfold total fill
  split_ifs
  · rw [Nat.add_sub_cancel, parts_mul hb]
  · rw [add_assoc]

variable (limit) in
theorem one_le_nextFit (sizes : List ℕ) : 1 ≤ (nextFit limit (1, 0) sizes).1 :=
  le_nextFit_fst (1, 0) sizes

/-- Items take up no less than their size. -/
theorem sum_le_total {sizes : List ℕ} (h : ∀ x ∈ sizes, x ≤ limit) :
    sizes.sum ≤ total limit (nextFit limit (1, 0) sizes) := by
  induction sizes using List.reverseRecOn with
  | nil => exact Nat.zero_le _
  | append_singleton xs x ih =>
    have hxs : ∀ y ∈ xs, y ≤ limit := fun y hy => h y (List.mem_append_left [x] hy)
    have hle := ih hxs
    have hused := nextFit_snd_le (b := (1, 0)) (Nat.zero_le limit) hxs
    rw [nextFit_concat, total_fill (one_le_nextFit limit xs), List.sum_append, List.sum_singleton]
    unfold total at *
    split_ifs
    · omega
    · omega

/-- **They take up just their size exactly if none would straddle a multiple of the limit.** -/
theorem total_eq_iff {sizes : List ℕ} (h : ∀ x ∈ sizes, x ≤ limit) :
    total limit (nextFit limit (1, 0) sizes) = sizes.sum ↔ Aligned limit sizes := by
  induction sizes using List.reverseRecOn with
  | nil => simp [Aligned, total]
  | append_singleton xs x ih =>
    have hxs : ∀ y ∈ xs, y ≤ limit := fun y hy => h y (List.mem_append_left [x] hy)
    have hx : x ≤ limit := h x (List.mem_append_right xs List.mem_cons_self)
    have hle := sum_le_total hxs
    have hused := nextFit_snd_le (b := (1, 0)) (Nat.zero_le limit) hxs
    rw [nextFit_concat, total_fill (one_le_nextFit limit xs), List.sum_append, List.sum_singleton,
      aligned_concat, ← ih hxs]
    unfold total at *
    -- What the last part holds is the remainder, unless the part is full.
    have hmod : ((nextFit limit (1, 0) xs).1 - 1) * limit + (nextFit limit (1, 0) xs).2 = xs.sum →
        xs.sum % limit = (nextFit limit (1, 0) xs).2 ∨
          (xs.sum % limit = 0 ∧ (nextFit limit (1, 0) xs).2 = limit) := by
      intro hsum
      rw [← hsum, Nat.mul_add_mod_self_right]
      rcases hused.lt_or_eq with hlt | heq
      · exact Or.inl (Nat.mod_eq_of_lt hlt)
      · exact Or.inr ⟨by rw [heq, Nat.mod_self], heq⟩
    have hfull : ((nextFit limit (1, 0) xs).1 - 1) * limit + limit = xs.sum →
        xs.sum % limit = 0 := by
      intro hsum
      rw [← hsum, Nat.mul_add_mod_self_right, Nat.mod_self]
    split_ifs
    · omega
    · omega

/-! ## Parts by the sum -/

/-- The parts hold all items. -/
theorem sum_le_mul_nextFit {sizes : List ℕ} (h : ∀ x ∈ sizes, x ≤ limit) :
    sizes.sum ≤ limit * (nextFit limit (1, 0) sizes).1 := by
  have hle := sum_le_total h
  have hused := nextFit_snd_le (b := (1, 0)) (Nat.zero_le limit) h
  have hfull := parts_mul (one_le_nextFit limit sizes) limit
  unfold total at hle
  rw [Nat.mul_comm]
  omega

/-- What the items are longer than one, together. -/
def excess (sizes : List ℕ) : ℕ := (sizes.map (· - 1)).sum

theorem excess_concat (xs : List ℕ) (x : ℕ) : excess (xs ++ [x]) = excess xs + (x - 1) := by
  simp [excess]

variable {w : ℕ}

variable (limit) in
/-- **What is lost** is less than an item at the end of each part, and less than each item. -/
theorem total_le_add {sizes : List ℕ} (h : ∀ x ∈ sizes, x ≤ w) :
    total limit (nextFit limit (1, 0) sizes) ≤ sizes.sum + excess sizes ∧
      total limit (nextFit limit (1, 0) sizes) ≤
        sizes.sum + ((nextFit limit (1, 0) sizes).1 - 1) * (w - 1) := by
  induction sizes using List.reverseRecOn with
  | nil => simp [total]
  | append_singleton xs x ih =>
    obtain ⟨hexcess, hparts⟩ := ih fun y hy => h y (List.mem_append_left [x] hy)
    have hx : x ≤ w := h x (List.mem_append_right xs List.mem_cons_self)
    have hpos := one_le_nextFit limit xs
    rw [nextFit_concat, total_fill hpos, excess_concat, List.sum_append, List.sum_singleton]
    unfold fill
    unfold total at *
    split_ifs
    · -- A new part: it begins with `x`, which the room left in the last one was too small for.
      have hmore := parts_mul hpos (w - 1)
      dsimp only
      rw [Nat.add_sub_cancel]
      omega
    · dsimp only
      omega

theorem lt_of_lt_nextFit {sizes : List ℕ} (h : ∀ x ∈ sizes, x ≤ w) {n : ℕ} (hn : 0 < n)
    (hlt : n < (nextFit limit (1, 0) sizes).1) :
    limit * n < sizes.sum + min (excess sizes) ((n - 1) * (w - 1)) := by
  induction sizes using List.reverseRecOn with
  | nil => exact absurd hlt (not_lt.mpr hn)
  | append_singleton xs x ih =>
    have hxs : ∀ y ∈ xs, y ≤ w := fun y hy => h y (List.mem_append_left [x] hy)
    have hrest := ih hxs
    obtain ⟨hexcess, hparts⟩ := total_le_add limit hxs
    rw [nextFit_concat] at hlt
    rw [excess_concat, List.sum_append, List.sum_singleton]
    by_cases hmany : n < (nextFit limit (1, 0) xs).1
    · have hrest := hrest hmany
      omega
    · -- The first item beyond the `n` parts.
      unfold fill at hlt
      split_ifs at hlt with hstraddles
      · have heq : (nextFit limit (1, 0) xs).1 = n := by
          dsimp only at hlt
          omega
        have hfull := parts_mul hn limit
        unfold total at hexcess hparts
        rw [heq] at hexcess hparts
        rw [Nat.mul_comm limit n]
        omega
      · exact absurd hlt hmany

/-- **So many parts are enough** for what they hold less what can be lost. -/
theorem nextFit_le_of_sum {sizes : List ℕ} (h : ∀ x ∈ sizes, x ≤ w) {n : ℕ} (hn : 0 < n)
    (hsum : sizes.sum + min (excess sizes) ((n - 1) * (w - 1)) ≤ limit * n) :
    (nextFit limit (1, 0) sizes).1 ≤ n :=
  not_lt.mp fun hlt => absurd hsum (not_le.mpr (lt_of_lt_nextFit h hn hlt))

end Vsms.Lib.Packing
