import Vsms.Lib.Runs
import Mathlib.Data.Nat.Basic
import Mathlib.Logic.Function.Basic
import Mathlib.Order.Lattice
import Mathlib.Tactic.SplitIfs

/-! # Optimistic writes to a shared row

One row carries a version, and every write is a compare-and-swap on the version its writer read: it
commits only if the row still has that version, and a commit increases it. Any number of processes
hold copies of the row they read at some earlier time (`held`).

`Snapshot m r`: the copy `m` is no newer than the row `r`, and equal to it if it has its version.
Every step of such a system is a `Move`: a process changes its own state, keeping its copy or taking
a fresh one, or it commits a write made from its copy. `Move.snapshots`: every copy stays a
snapshot. Hence a write that commits was computed from the row it replaces (`Snapshot.eq`). -/

namespace Vsms.Lib.Optimistic

open Vsms.Lib.Runs

/-- Rows with a version. -/
class Versioned (ρ : Type*) where
  version : ρ → ℕ

export Versioned (version)

variable {ρ π ε : Type*}

/-! ### Processes over one row -/

/-- The row and what each process is doing. -/
structure Shared (ρ π : Type*) where
  row : ρ
  procs : ℕ → π

/-- Let process `p` go on as `x`. -/
def Shared.become (s : Shared ρ π) (p : ℕ) (x : π) : Shared ρ π :=
  { s with procs := Function.update s.procs p x }

/-- Replace the row, and let process `p` go on as `x`. -/
def Shared.commit (s : Shared ρ π) (r : ρ) (p : ℕ) (x : π) : Shared ρ π :=
  { row := r, procs := Function.update s.procs p x }

@[simp] theorem Shared.row_become (s : Shared ρ π) (p : ℕ) (x : π) : (s.become p x).row = s.row :=
  rfl

@[simp] theorem Shared.row_commit (s : Shared ρ π) (r : ρ) (p : ℕ) (x : π) :
    (s.commit r p x).row = r := rfl

@[simp] theorem Shared.procs_become (s : Shared ρ π) (p : ℕ) (x : π) :
    (s.become p x).procs = Function.update s.procs p x := rfl

@[simp] theorem Shared.procs_commit (s : Shared ρ π) (r : ρ) (p : ℕ) (x : π) :
    (s.commit r p x).procs = Function.update s.procs p x := rfl

/-! ### Compare and swap -/

variable [Versioned ρ]

/-- Why a compare-and-swap did not write. -/
inductive CasError (ε : Type*)
  | preconditionFailed
  | refused (e : ε)
  deriving DecidableEq, Repr

/-- Write to the row if it still has the version `ifMatch`. The write itself may be refused. -/
def compareAndSwap (r : ρ) (ifMatch : ℕ) (write : ρ → Except ε ρ) : Except (CasError ε) ρ :=
  if version r = ifMatch then
    match write r with
    | .ok r' => .ok r'
    | .error e => .error (.refused e)
  else .error .preconditionFailed

theorem compareAndSwap_ok {r r' : ρ} {v : ℕ} {write : ρ → Except ε ρ} :
    compareAndSwap r v write = .ok r' ↔ version r = v ∧ write r = .ok r' := by
  unfold compareAndSwap
  split_ifs with hv
  · cases hw : write r <;> simp [hv]
  · simp [hv]

theorem compareAndSwap_preconditionFailed {r : ρ} {v : ℕ} {write : ρ → Except ε ρ} :
    compareAndSwap r v write = .error .preconditionFailed ↔ version r ≠ v := by
  unfold compareAndSwap
  split_ifs with hv
  · cases hw : write r <;> simp [hv]
  · simp [hv]

theorem compareAndSwap_refused {r : ρ} {v : ℕ} {write : ρ → Except ε ρ} {e : ε} :
    compareAndSwap r v write = .error (.refused e) ↔ version r = v ∧ write r = .error e := by
  unfold compareAndSwap
  split_ifs with hv
  · cases hw : write r <;> simp [hv]
  · simp [hv]

/-! ### Snapshots -/

/-- **`m` is a copy of the row `r` read now or earlier.** -/
structure Snapshot (m r : ρ) : Prop where
  le : version m ≤ version r
  eq : version m = version r → m = r

theorem Snapshot.refl (r : ρ) : Snapshot r r := ⟨le_rfl, fun _ => rfl⟩

/-- A copy of the row stays one when the row gets a larger version. -/
theorem Snapshot.write {m r r' : ρ} (h : Snapshot m r) (hv : version r < version r') :
    Snapshot m r' :=
  ⟨h.le.trans hv.le, fun he => absurd (he ▸ h.le) (not_le.mpr hv)⟩

/-- After a write every older copy is stale. -/
theorem Snapshot.lt_of_write {m r r' : ρ} (h : Snapshot m r) (hv : version r < version r') :
    version m < version r' :=
  lt_of_le_of_lt h.le hv

/-! ### Steps -/

variable (held : π → Option ρ)

/-- Every process's copy is a snapshot of the row. -/
def Snapshots (s : Shared ρ π) : Prop :=
  ∀ p m, held (s.procs p) = some m → Snapshot m s.row

/-- **What one step of process `p` can do.** Either it only moves on, with the copy it had or with a
fresh one, or it replaces the row from a copy that has the row's version. -/
inductive Move (s : Shared ρ π) (p : ℕ) : Shared ρ π → Prop
  | become (x : π) (hx : ∀ m, held x = some m → held (s.procs p) = some m ∨ m = s.row) :
      Move s p (s.become p x)
  | commit (m r : ρ) (x : π) (hm : held (s.procs p) = some m) (hv : version m = version s.row)
      (hr : version s.row < version r) (hx : ∀ m', held x = some m' → m' = r) :
      Move s p (s.commit r p x)

variable {held}

theorem Move.snapshots {s s' : Shared ρ π} {p : ℕ} (h : Move held s p s')
    (hs : Snapshots held s) : Snapshots held s' := by
  cases h with
  | become x hx =>
    intro q m hm
    rw [Shared.procs_become] at hm
    rcases update_cases held hm with ⟨-, hn⟩ | ⟨-, hn⟩
    · rcases hx m hn with ho | rfl
      · exact hs p m ho
      · exact .refl _
    · exact hs q m hn
  | commit m r x hm hv hr hx =>
    intro q m' hm'
    rw [Shared.procs_commit] at hm'
    rcases update_cases held hm' with ⟨-, hn⟩ | ⟨-, hn⟩
    · rw [hx m' hn]
      exact .refl _
    · exact (hs q m' hn).write hr

end Vsms.Lib.Optimistic
