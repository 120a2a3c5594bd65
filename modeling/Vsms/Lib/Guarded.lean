import Vsms.Lib.Optimistic

/-! # Rows with a guarded state column

A table whose rows have a state, a list of legal state changes, and a trigger on updates: it lets an
update that keeps the state through, raises an error on a change that is not in the list, and stamps
the row on one that is. An update applies a patch, runs the trigger, and then sets the columns every
update touches; it is a compare-and-swap on the version. `guardedUpdate_ok` says what a committed
update has done, and `guardedUpdate_refused` when the guard raises. -/

namespace Vsms.Lib.Guarded

open Vsms.Lib.Optimistic

variable {ρ S : Type*} [DecidableEq S]

/-- The error of the trigger: the change it refused. -/
structure Illegal (S : Type*) where
  old : S
  new : S
  deriving DecidableEq, Repr

/-- The state stays, or the change is in the list. -/
def Legal (table : List (S × S)) (old new : S) : Prop := new = old ∨ (old, new) ∈ table

instance (table : List (S × S)) (old new : S) : Decidable (Legal table old new) := by
  unfold Legal; infer_instance

variable (state : ρ → S) (table : List (S × S)) (patch stamp touch : ρ → ρ)

/-- **The trigger.** -/
def guardTransition (old new : ρ) : Except (Illegal S) ρ :=
  if state new = state old then .ok new
  else if (state old, state new) ∉ table then .error ⟨state old, state new⟩
  else .ok (stamp new)

/-- The update statement with its triggers. -/
def guardedWrite (r : ρ) : Except (Illegal S) ρ :=
  (guardTransition state table stamp r (patch r)).map touch

/-- The row a committed update leaves. -/
def writtenRow (r : ρ) : ρ :=
  touch (if state (patch r) = state r then patch r else stamp (patch r))

variable {state table patch stamp touch}

theorem guardedWrite_ok {r r' : ρ} (h : guardedWrite state table patch stamp touch r = .ok r') :
    Legal table (state r) (state (patch r)) ∧ r' = writtenRow state patch stamp touch r := by
  unfold guardedWrite guardTransition at h
  unfold writtenRow
  split_ifs at h with h1 h2
  · cases h
    exact ⟨Or.inl h1, by rw [if_pos h1]⟩
  · cases h
    exact ⟨Or.inr h2, by rw [if_neg h1]⟩
  · cases h

theorem guardedWrite_error {r : ρ} {e : Illegal S}
    (h : guardedWrite state table patch stamp touch r = .error e) :
    ¬ Legal table (state r) (state (patch r)) := by
  unfold guardedWrite guardTransition at h
  split_ifs at h with h1 h2
  · cases h
  · cases h
  · exact fun hl => h2 (hl.resolve_left h1)

theorem guardedWrite_of_legal {r : ρ} (h : Legal table (state r) (state (patch r))) :
    guardedWrite state table patch stamp touch r = .ok (writtenRow state patch stamp touch r) := by
  unfold guardedWrite guardTransition writtenRow
  split_ifs with h1 h2
  · rfl
  · rfl
  · exact absurd (h.resolve_left h1) h2

section update
variable [Versioned ρ] {v : ℕ}

/-- **A committed update**: the version matched, the change is legal, and the row is `writtenRow`.
-/
theorem guardedUpdate_ok {r r' : ρ}
    (h : compareAndSwap r v (guardedWrite state table patch stamp touch) = .ok r') :
    version r = v ∧ Legal table (state r) (state (patch r)) ∧
      r' = writtenRow state patch stamp touch r := by
  obtain ⟨hv, hw⟩ := compareAndSwap_ok.mp h
  exact ⟨hv, guardedWrite_ok hw⟩

/-- The guard refuses an update only for an illegal change of the row's own state. -/
theorem guardedUpdate_refused {r : ρ} {e : Illegal S}
    (h : compareAndSwap r v (guardedWrite state table patch stamp touch) = .error (.refused e)) :
    version r = v ∧ ¬ Legal table (state r) (state (patch r)) := by
  obtain ⟨hv, hw⟩ := compareAndSwap_refused.mp h
  exact ⟨hv, guardedWrite_error hw⟩

theorem guardedUpdate_of_legal {r : ρ} (hv : version r = v)
    (h : Legal table (state r) (state (patch r))) :
    compareAndSwap r v (guardedWrite state table patch stamp touch) =
      .ok (writtenRow state patch stamp touch r) :=
  compareAndSwap_ok.mpr ⟨hv, guardedWrite_of_legal h⟩

end update

end Vsms.Lib.Guarded
