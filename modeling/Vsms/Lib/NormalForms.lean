import Mathlib.Data.List.Basic
import Mathlib.Tactic.SplitIfs

/-! # Normal forms of texts

A normal form of texts rewrites letters that stand together. It is its own normal form, that of a
text can be had from those of its pieces, and a piece of a text in it is in it too. An *inert*
letter takes part in no rewriting: a text can be cut at it, and its pieces have normal forms of
their own.

* A text is in normal form exactly if it is after some of its inert letters are replaced by others
  (`normal_flatMap_iff`).
* Leaving out inert letters can bring letters together that are rewritten. The normal form is kept
  exactly if that does not happen: if leaving them out before gives the same as after
  (`normal_drop_iff`). -/

namespace Vsms.Lib.NormalForms

variable {α : Type*}

/-- What a normal form keeps to; `Inert` are letters that take part in no rewriting. -/
structure Lawful (nf : List α → List α) (Inert : α → Prop) : Prop where
  idempotent : ∀ x, nf (nf x) = nf x
  append : ∀ x y, nf (nf x ++ nf y) = nf (x ++ y)
  closed : ∀ x y, nf (x ++ y) = x ++ y → nf x = x ∧ nf y = y
  inert : ∀ c, Inert c → ∀ x y, nf (x ++ c :: y) = nf x ++ c :: nf y

variable {nf : List α → List α} {Inert : α → Prop}

section lawful
variable (h : Lawful nf Inert)
include h

theorem Lawful.nil : nf [] = [] := (h.closed [] (nf []) (h.idempotent [])).1

/-- A letter of a normal form is its own. -/
theorem Lawful.singleton {x : List α} {c : α} (hc : c ∈ nf x) : nf [c] = [c] := by
  obtain ⟨before, after, hsplit⟩ := List.append_of_mem hc
  have hnormal := h.idempotent x
  rw [hsplit] at hnormal
  exact (h.closed [c] after (h.closed before (c :: after) hnormal).2).1

/-- **A text can be cut at an inert letter.** -/
theorem Lawful.cut_iff {c : α} (hc : Inert c) (x y : List α) :
    nf (x ++ c :: y) = x ++ c :: y ↔ nf x = x ∧ nf y = y := by
  constructor
  · intro hnormal
    obtain ⟨hx, hrest⟩ := h.closed x (c :: y) hnormal
    exact ⟨hx, (h.closed [c] y hrest).2⟩
  · rintro ⟨hx, hy⟩
    rw [h.inert c hc, hx, hy]

/-- At several of them, too. -/
theorem Lawful.cut_text_iff {t : List α} (ht : ∀ c ∈ t, Inert c) (hne : t ≠ []) (x y : List α) :
    nf (x ++ (t ++ y)) = x ++ (t ++ y) ↔ nf x = x ∧ nf y = y := by
  induction t generalizing x with
  | nil => exact absurd rfl hne
  | cons c t ih =>
    rw [List.cons_append, h.cut_iff (ht c List.mem_cons_self)]
    by_cases hlast : t = []
    · rw [hlast, List.nil_append]
    · have hrest := ih (fun d hd => ht d (List.mem_cons_of_mem c hd)) hlast []
      rw [List.nil_append] at hrest
      rw [hrest, h.nil]
      simp

/-- **Replacing inert letters by inert letters** makes no difference. By induction on the text, with
what is before it. -/
theorem Lawful.normal_flatMap_iff {f : α → List α} {text : List α}
    (hf : ∀ c ∈ text, f c = [c] ∨ (Inert c ∧ f c ≠ [] ∧ ∀ d ∈ f c, Inert d)) :
    nf (text.flatMap f) = text.flatMap f ↔ nf text = text := by
  have hbefore (x : List α) : nf (x ++ text.flatMap f) = x ++ text.flatMap f ↔
      nf (x ++ text) = x ++ text := by
    induction text generalizing x with
    | nil => rw [List.flatMap_nil]
    | cons c cs ih =>
      have hcs := ih fun d hd => hf d (List.mem_cons_of_mem c hd)
      rw [List.flatMap_cons]
      rcases hf c List.mem_cons_self with hsame | ⟨hc, hne, htarget⟩
      · have hmoved := hcs (x ++ [c])
        rw [List.append_assoc, List.append_assoc] at hmoved
        rw [hsame]
        exact hmoved
      · have hrest := hcs []
        rw [List.nil_append, List.nil_append] at hrest
        rw [h.cut_text_iff htarget hne, h.cut_iff hc, hrest]
  simpa using hbefore []

/-- Leaving out inert letters after normalising does not change the normal form of what is left. -/
theorem Lawful.nf_filter {keep : α → Bool} (hinert : ∀ c, keep c = false → Inert c)
    (hfresh : ∀ c x, keep c = false → c ∈ nf x → c ∈ x) (text : List α) :
    nf ((nf text).filter keep) = nf (text.filter keep) := by
  -- By induction on the length: the text is cut at a letter that is left out.
  induction hn : text.length using Nat.strongRecOn generalizing text with
  | ind n ih =>
    by_cases hall : ∀ c ∈ text, keep c = true
    · have hkept : ∀ c ∈ nf text, keep c = true := by
        intro c hc
        by_contra hdrop
        exact hdrop (hall c (hfresh c text (by simpa using hdrop) hc))
      rw [List.filter_eq_self.mpr hall, List.filter_eq_self.mpr hkept, h.idempotent]
    · obtain ⟨c, hc, hdrop⟩ : ∃ c ∈ text, keep c = false := by simpa using hall
      obtain ⟨x, y, rfl⟩ := List.append_of_mem hc
      have hx := ih x.length (by rw [← hn, List.length_append, List.length_cons]; omega) x rfl
      have hy := ih y.length (by rw [← hn, List.length_append, List.length_cons]; omega) y rfl
      have hskip (z : List α) : (c :: z).filter keep = z.filter keep :=
        List.filter_cons_of_neg (by simp [hdrop])
      rw [h.inert c (hinert c hdrop), List.filter_append, List.filter_append, hskip, hskip,
        ← h.append, hx, hy, h.append]

/-- **A normal form without some of its inert letters is one exactly if leaving them out before
gives the same.** -/
theorem Lawful.normal_drop_iff {keep : α → Bool} (hinert : ∀ c, keep c = false → Inert c)
    (hfresh : ∀ c x, keep c = false → c ∈ nf x → c ∈ x) (text : List α) :
    nf ((nf text).filter keep) = (nf text).filter keep ↔
    nf (text.filter keep) = (nf text).filter keep := by
  rw [h.nf_filter hinert hfresh]

end lawful

end Vsms.Lib.NormalForms
