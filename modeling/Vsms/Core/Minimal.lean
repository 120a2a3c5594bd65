import Vsms.Core.Segments
import Mathlib.Order.Bounds.Defs

/-! # The fewest parts

The parts that the loop of `pack` makes are written out by `nextFitParts`, and there are as few of
them as the characters can be cut into. What is written behind a body never makes it take fewer
parts: in its encoding it has more units, and if it is moved from the alphabet to UTF-16, a part
there holds fewer of its characters. -/

namespace Vsms.Core.Minimal

open Vsms.Schema.Types Vsms.Core.Encoding Vsms.Core.Segments Vsms.Lib.Packing

section pack
variable {sizes : List ℕ} {one limit : ℕ}

/-- A list takes no fewer parts than what it begins with. -/
theorem pack_le_append (xs ys : List ℕ) :
    (pack xs one limit).segments ≤ (pack (xs ++ ys) one limit).segments := by
  have hprefix : List.SublistForall₂ (fun x y => x ≤ 1 * y) xs (xs ++ ys) :=
    List.sublistForall₂_iff.mpr ⟨xs, List.forall₂_same.mpr fun x _ => by simp,
      List.sublist_append_left xs ys⟩
  exact pack_mono (by simp) (by simp) hprefix

/-- The loop counts the parts, and they are within the limit. -/
theorem packLoop_parts (h : ∀ x ∈ sizes, x ≤ limit) :
    (nextFitParts limit [] sizes).flatten = sizes ∧
      (nextFitParts limit [] sizes).length = packLoop limit sizes 1 0 ∧
        ∀ part ∈ nextFitParts limit [] sizes, part.sum ≤ limit := by
  have hlength := @length_nextFitParts limit 1 [] sizes
  rw [List.sum_nil, ← packLoop_eq] at hlength
  exact ⟨flatten_nextFitParts [] sizes, by omega, sum_nextFitParts_le (Nat.zero_le limit) h⟩

theorem packLoop_isLeast (hne : sizes ≠ []) (h : ∀ x ∈ sizes, x ≤ limit) :
    IsLeast {k | Splits limit sizes k} (packLoop limit sizes 1 0) := by
  rw [packLoop_eq]
  exact isLeast_nextFit hne h

end pack

/-- A body takes no fewer parts than what it begins with, in whatever encodings. -/
theorem analyse_le_append (lib : UnicodeLib) (body suffix : List Char) :
    (analyse lib body).segments ≤ (analyse lib (body ++ suffix)).segments := by
  rw [(analyse_eq lib body).2.2.1, (analyse_eq lib (body ++ suffix)).2.2.1]
  rcases hall : isGsm7Str (body ++ suffix) with _ | _
  · have hprefix : NoLonger body (body ++ suffix) :=
      List.sublistForall₂_iff.mpr ⟨body, List.forall₂_same.mpr fun _ _ => le_refl _,
        List.sublist_append_left body suffix⟩
    exact packing_noLonger hprefix hall
  · have hboth : isGsm7Str body = true ∧ isGsm7Str suffix = true := by
      unfold isGsm7Str at hall ⊢
      rwa [List.all_append, Bool.and_eq_true] at hall
    unfold packing encodingOf
    rw [hall, hboth.1]
    simp only [if_true]
    rw [costs_append]
    exact pack_le_append _ _

/-- **Segmentation is minimal**: of characters that are more than one part, the loop makes as few
parts as they can be split into, all within the limit; and characters written behind others never
lower the parts, in an encoding or from one to the other. -/
theorem segmentation_minimal {encoding : Encoding} {sizes : List ℕ}
    (h : ∀ n ∈ sizes, n = 1 ∨ n = 2) :
    (single encoding < sizes.sum →
      (pack sizes (single encoding) (concatenated encoding)).segments =
          min (packLoop (concatenated encoding) sizes 1 0) 255 ∧
        IsLeast {k | Splits (concatenated encoding) sizes k}
          (packLoop (concatenated encoding) sizes 1 0) ∧
        (nextFitParts (concatenated encoding) [] sizes).flatten = sizes ∧
        (nextFitParts (concatenated encoding) [] sizes).length =
          packLoop (concatenated encoding) sizes 1 0 ∧
        ∀ part ∈ nextFitParts (concatenated encoding) [] sizes, part.sum ≤ concatenated encoding) ∧
      (∀ more : List ℕ, (pack sizes (single encoding) (concatenated encoding)).segments ≤
        (pack (sizes ++ more) (single encoding) (concatenated encoding)).segments) ∧
      ∀ (lib : UnicodeLib) (body suffix : List Char),
        (analyse lib body).segments ≤ (analyse lib (body ++ suffix)).segments := by
  have htwo : 2 ≤ concatenated encoding := by cases encoding <;> decide
  have hle : ∀ n ∈ sizes, n ≤ concatenated encoding := by
    intro n hn
    have hcost := h n hn
    omega
  refine ⟨fun hsum => ?_, fun more => pack_le_append sizes more, analyse_le_append⟩
  have hne : sizes ≠ [] := by
    rintro rfl
    exact absurd hsum (Nat.not_lt_zero _)
  have hsegments : (pack sizes (single encoding) (concatenated encoding)).segments =
      min (packLoop (concatenated encoding) sizes 1 0) 255 := by
    unfold pack
    rw [if_neg (not_le.mpr hsum)]
  exact ⟨hsegments, packLoop_isLeast hne hle, packLoop_parts hle⟩

/-- One septet more than a message holds. -/
theorem segmentation_minimal_two : (pack (List.replicate 161 1) 160 153).segments = 2 ∧
    IsLeast {k | Splits 153 (List.replicate 161 1) k} 2 := by
  have hones : ∀ n ∈ List.replicate 161 1, n = 1 ∨ n = 2 :=
    fun n hn => Or.inl (List.eq_of_mem_replicate hn)
  have hmany := (@segmentation_minimal .gsm7 (List.replicate 161 1) hones).1 (by decide +kernel)
  have hcount : packLoop 153 (List.replicate 161 1) 1 0 = 2 := by decide +kernel
  exact ⟨hmany.1.trans (by rw [show concatenated .gsm7 = 153 from rfl, hcount]; rfl),
    hcount ▸ hmany.2.1⟩

end Vsms.Core.Minimal
