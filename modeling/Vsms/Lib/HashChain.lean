import Mathlib.Data.List.Forall2
import Mathlib.Data.List.Induction

/-! # Chains of hashes

A chain starts at a fixed value `g` and takes in one element after the other: `step p x` is the link
after `p` that commits to `x`. `links` lists the pairs that are hashed. If `step` tells the pairs of
two chains apart, up to `R` in the element, and none of them leads back to `g`, then the last link
determines the chain: its length, and each of its elements up to `R` (`foldl_binding`). -/

namespace Vsms.Lib.HashChain

variable {α β : Type*}

/-- The pairs hashed along the chain over `xs` that starts at `p`. -/
def links (step : β → α → β) : β → List α → List (β × α)
  | _, [] => []
  | p, x :: xs => (p, x) :: links step (step p x) xs

variable {step : β → α → β}

theorem links_append (p : β) (xs ys : List α) :
    links step p (xs ++ ys) = links step p xs ++ links step (xs.foldl step p) ys := by
  induction xs generalizing p with
  | nil => rfl
  | cons x xs ih => simp [links, ih]

theorem links_concat (p : β) (xs : List α) (x : α) :
    links step p (xs ++ [x]) = links step p xs ++ [(xs.foldl step p, x)] :=
  links_append p xs [x]

theorem mem_links_concat (p : β) (xs : List α) (x : α) :
    (xs.foldl step p, x) ∈ links step p (xs ++ [x]) := by
  rw [links_concat]
  exact List.mem_append_right _ (List.mem_singleton_self _)

theorem mem_links_of_mem {p : β} {xs : List α} {x : α} {l : β × α} (h : l ∈ links step p xs) :
    l ∈ links step p (xs ++ [x]) := by
  rw [links_concat]
  exact List.mem_append_left _ h

theorem mem_of_mem_links {p : β} {xs : List α} {l : β × α} (h : l ∈ links step p xs) :
    l.2 ∈ xs := by
  induction xs generalizing p with
  | nil => cases h
  | cons x xs ih =>
    rcases List.mem_cons.mp h with rfl | h
    · exact List.mem_cons_self
    · exact List.mem_cons_of_mem _ (ih h)

/-- An element of one of two chains that agree has its counterpart in the other. -/
theorem exists_of_forall₂_left {R : α → β → Prop} {xs : List α} {ys : List β}
    (h : List.Forall₂ R xs ys) {x : α} (hx : x ∈ xs) : ∃ y ∈ ys, R x y := by
  induction h with
  | nil => cases hx
  | @cons a b xs ys hab _ ih =>
    rcases List.mem_cons.mp hx with rfl | hx
    · exact ⟨b, List.mem_cons_self, hab⟩
    · obtain ⟨y, hy, hxy⟩ := ih hx
      exact ⟨y, List.mem_cons_of_mem _ hy, hxy⟩

/-- **The last link determines the chain.** -/
theorem foldl_binding {g : β} {R : α → α → Prop} {xs ys : List α}
    (hinj : ∀ l ∈ links step g xs, ∀ m ∈ links step g ys,
      step l.1 l.2 = step m.1 m.2 → l.1 = m.1 ∧ R l.2 m.2)
    (hxs : ∀ l ∈ links step g xs, step l.1 l.2 ≠ g) (hys : ∀ l ∈ links step g ys, step l.1 l.2 ≠ g)
    (h : xs.foldl step g = ys.foldl step g) : List.Forall₂ R xs ys := by
  -- Both chains lose their last element at a time; a longer one would lead back to `g`.
  induction xs using List.reverseRecOn generalizing ys with
  | nil =>
    rcases ys.eq_nil_or_concat with rfl | ⟨ys, y, rfl⟩
    · exact .nil
    · rw [List.concat_eq_append] at h hys
      rw [List.foldl_append] at h
      exact absurd h.symm (hys _ (mem_links_concat g ys y))
  | append_singleton xs x ih =>
    have hx : (xs.foldl step g, x) ∈ links step g (xs ++ [x]) := mem_links_concat g xs x
    rcases ys.eq_nil_or_concat with rfl | ⟨ys, y, rfl⟩
    · rw [List.foldl_append] at h
      exact absurd h (hxs _ hx)
    · rw [List.concat_eq_append] at h hys hinj ⊢
      have hy : (ys.foldl step g, y) ∈ links step g (ys ++ [y]) := mem_links_concat g ys y
      rw [List.foldl_append, List.foldl_append] at h
      obtain ⟨hlast, hR⟩ := hinj _ hx _ hy h
      have hrest : List.Forall₂ R xs ys := by
        refine ih (fun l hl m hm => ?_) (fun l hl => ?_) (fun l hl => ?_) hlast
        · exact hinj l (mem_links_of_mem hl) m (mem_links_of_mem hm)
        · exact hxs l (mem_links_of_mem hl)
        · exact hys l (mem_links_of_mem hl)
      exact List.rel_append hrest (.cons hR .nil)

end Vsms.Lib.HashChain
