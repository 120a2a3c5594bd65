import Mathlib.Data.List.Basic
import Mathlib.Data.List.Flatten
import Mathlib.Tactic.SplitIfs

/-! # Edits of a text

A text is a list of letters, and each letter is written as a list of units. An edit takes some units
out at an offset and puts others there. A rewriting that replaces some letters by texts makes one
edit for each, at the offset of the letter in the text before.

* The edits are in order and do not overlap (`pairwise_edits`), and each begins at a letter that is
  replaced and takes out just that letter (`mem_edits_iff`).
* Applied from the last to the first, they give the text after (`applyEdits_edits`). -/

namespace Vsms.Lib.Edits

variable {α γ : Type*}

structure Edit (γ : Type*) where
  offset : ℕ
  removed : ℕ
  inserted : List γ

def Edit.apply (e : Edit γ) (text : List γ) : List γ :=
  text.take e.offset ++ e.inserted ++ text.drop (e.offset + e.removed)

/-- From the last to the first, so that each offset is one of the text before. -/
def applyEdits (es : List (Edit γ)) (text : List γ) : List γ := es.foldr Edit.apply text

section edits
variable (write : α → List γ) (f : α → Option (List α))

/-- The edits of a rewriting, from an offset on. -/
def edits : ℕ → List α → List (Edit γ)
  | _, [] => []
  | offset, a :: as =>
    match f a with
    | some target =>
        ⟨offset, (write a).length, target.flatMap write⟩ :: edits (offset + (write a).length) as
    | none => edits (offset + (write a).length) as

/-- The text after. -/
def rewrite (as : List α) : List α := as.flatMap fun a => (f a).getD [a]

variable {write f}

theorem edits_cons_some {a : α} {target : List α} (h : f a = some target) (offset : ℕ)
    (as : List α) :
    edits write f offset (a :: as) =
      ⟨offset, (write a).length, target.flatMap write⟩ ::
        edits write f (offset + (write a).length) as := by
  rw [edits, h]

theorem edits_cons_none {a : α} (h : f a = none) (offset : ℕ) (as : List α) :
    edits write f offset (a :: as) = edits write f (offset + (write a).length) as := by
  rw [edits, h]

/-- **Each edit takes out a letter that is replaced**, where it is, and puts in what it is replaced
by. -/
theorem mem_edits_iff {e : Edit γ} {offset : ℕ} {as : List α} :
    e ∈ edits write f offset as ↔ ∃ before a after target,
    as = before ++ a :: after ∧ f a = some target ∧
      e = ⟨offset + (before.flatMap write).length, (write a).length, target.flatMap write⟩ := by
  induction as generalizing offset with
  | nil => simp [edits]
  | cons b bs ih =>
    have hlater : e ∈ edits write f (offset + (write b).length) bs ↔
        ∃ before a after target, b :: bs = b :: before ++ a :: after ∧ f a = some target ∧
          e = ⟨offset + ((b :: before).flatMap write).length, (write a).length,
            target.flatMap write⟩ := by
      rw [ih]
      simp [Nat.add_assoc]
    constructor
    · intro he
      cases hb : f b with
      | none =>
        rw [edits_cons_none hb] at he
        obtain ⟨before, hrest⟩ := hlater.mp he
        exact ⟨b :: before, hrest⟩
      | some target =>
        rw [edits_cons_some hb] at he
        rcases List.mem_cons.mp he with rfl | he
        · exact ⟨[], b, bs, target, rfl, hb, rfl⟩
        · obtain ⟨before, hrest⟩ := hlater.mp he
          exact ⟨b :: before, hrest⟩
    · rintro ⟨before, a, after, target, hsplit, ha, rfl⟩
      cases before with
      | nil =>
        obtain ⟨rfl, rfl⟩ := List.cons.inj hsplit
        rw [edits_cons_some ha]
        exact List.mem_cons_self
      | cons c before =>
        obtain ⟨rfl, hrest⟩ := List.cons.inj hsplit
        have hmem := hlater.mpr ⟨before, a, after, target, by rw [hrest]; rfl, ha, rfl⟩
        cases hb : f b with
        | none => rwa [edits_cons_none hb]
        | some target' =>
          rw [edits_cons_some hb]
          exact List.mem_cons_of_mem _ hmem

/-- **The edits are in order**, and each ends before the next begins. -/
theorem pairwise_edits (offset : ℕ) (as : List α) :
    (edits write f offset as).Pairwise fun e e' => e.offset + e.removed ≤ e'.offset := by
  induction as generalizing offset with
  | nil => exact List.Pairwise.nil
  | cons a as ih =>
    cases ha : f a with
    | none =>
      rw [edits_cons_none ha]
      exact ih _
    | some target =>
      rw [edits_cons_some ha]
      refine List.Pairwise.cons (fun e he => ?_) (ih _)
      obtain ⟨before, b, after, target', -, -, rfl⟩ := mem_edits_iff.mp he
      exact Nat.le_add_right _ _

/-- **The edits make the text after of the text before.** By induction on the text, with what is
before it. -/
theorem applyEdits_edits (before : List γ) (as : List α) :
    applyEdits (edits write f before.length as) (before ++ as.flatMap write) =
      before ++ (rewrite f as).flatMap write := by
  induction as generalizing before with
  | nil => rfl
  | cons a as ih =>
    have hrest := ih (before ++ write a)
    rw [List.length_append, List.append_assoc, List.append_assoc] at hrest
    unfold rewrite at hrest ⊢
    rw [List.flatMap_cons, List.flatMap_cons]
    cases ha : f a with
    | none =>
      rw [edits_cons_none ha, hrest]
      simp
    | some target =>
      rw [edits_cons_some ha]
      unfold applyEdits at hrest ⊢
      rw [List.foldr_cons, hrest]
      unfold Edit.apply
      dsimp only
      rw [List.take_left, ← List.append_assoc before, ← List.length_append, List.drop_left]
      simp

end edits

end Vsms.Lib.Edits
