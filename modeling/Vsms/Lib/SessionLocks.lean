import Mathlib.Data.Nat.Basic
import Mathlib.Logic.Function.Basic
import Mathlib.Tactic.SplitIfs

/-! # Locks held by sessions

A server gives out locks to sessions: a lock belongs to the session that took it until the session
gives it back or ends. Sessions are numbered in the order they are opened. `Server.WF`: only
sessions that have not ended hold locks. -/

namespace Vsms.Lib.SessionLocks

variable {κ : Type*}

structure Server (κ : Type*) where
  next : ℕ
  live : ℕ → Bool
  locks : κ → Option ℕ

/-- A server nobody has connected to. -/
def Server.new : Server κ := ⟨0, fun _ => false, fun _ => none⟩

/-- Open the session `next`. -/
def Server.connect (v : Server κ) : Server κ :=
  { v with next := v.next + 1, live := Function.update v.live v.next true }

/-- Whether a session that asks for a lock gets it: nobody holds it, or the session itself does. -/
def Server.grants (v : Server κ) (k : κ) (x : ℕ) : Bool := v.locks k = none || v.locks k = some x

/-- End a session: all its locks are free. -/
def Server.endSession (v : Server κ) (x : ℕ) : Server κ :=
  { v with
    live := Function.update v.live x false
    locks := fun k => if v.locks k = some x then none else v.locks k }

/-- Sessions are those opened so far, and the holders of locks have not ended. -/
structure Server.WF (v : Server κ) : Prop where
  opened : ∀ x, v.live x = true → x < v.next
  holders : ∀ k x, v.locks k = some x → v.live x = true

theorem Server.new_wf : (Server.new : Server κ).WF :=
  ⟨fun _ h => (Bool.false_ne_true h).elim, fun _ _ h => by cases h⟩

theorem Server.WF.connect {v : Server κ} (hv : v.WF) : v.connect.WF := by
  constructor
  · intro x hx
    by_cases h : x = v.next
    · rw [h]
      exact Nat.lt_succ_self _
    · have hx : v.live x = true := by simpa [Server.connect, h] using hx
      exact Nat.lt_succ_of_lt (hv.opened x hx)
  · intro k x hk
    have hx := hv.holders k x hk
    have hne : x ≠ v.next := Nat.ne_of_lt (hv.opened x hx)
    simpa [Server.connect, hne] using hx

theorem Server.WF.endSession {v : Server κ} (hv : v.WF) (x : ℕ) : (v.endSession x).WF := by
  constructor
  · intro y hy
    by_cases h : y = x
    · simp [Server.endSession, h] at hy
    · exact hv.opened y (by simpa [Server.endSession, h] using hy)
  · intro k y hy
    unfold Server.endSession at hy ⊢
    dsimp only at hy ⊢
    split_ifs at hy with hx
    have hne : y ≠ x := by
      rintro rfl
      exact hx hy
    rw [Function.update_of_ne hne]
    exact hv.holders k y hy

theorem Server.endSession_locks {v : Server κ} {k : κ} {x y : ℕ} (h : v.locks k = some x)
    (hne : x ≠ y) : (v.endSession y).locks k = some x := by
  have hy : v.locks k ≠ some y := by
    rw [h]
    exact fun h => hne (Option.some.inj h)
  unfold Server.endSession
  dsimp only
  rw [if_neg hy]
  exact h

/-- A lock that is held is granted to its holder only. -/
theorem Server.grants_held {v : Server κ} {k : κ} {x y : ℕ} (h : v.locks k = some x)
    (hg : v.grants k y = true) : x = y := by
  unfold Server.grants at hg
  simpa [h] using hg

variable [DecidableEq κ]

/-- The lock `k` is the session's. -/
def Server.take (v : Server κ) (k : κ) (x : ℕ) : Server κ :=
  { v with locks := Function.update v.locks k (some x) }

/-- Give back a lock; one that is not the session's stays where it is. -/
def Server.unlock (v : Server κ) (k : κ) (x : ℕ) : Server κ :=
  if v.locks k = some x then { v with locks := Function.update v.locks k none } else v

@[simp] theorem Server.unlock_next (v : Server κ) (k : κ) (x : ℕ) :
    (v.unlock k x).next = v.next := by
  unfold Server.unlock; split_ifs <;> rfl

@[simp] theorem Server.unlock_live (v : Server κ) (k : κ) (x : ℕ) :
    (v.unlock k x).live = v.live := by
  unfold Server.unlock; split_ifs <;> rfl

theorem Server.WF.take {v : Server κ} (hv : v.WF) {x : ℕ} (hx : v.live x = true) (k : κ) :
    (v.take k x).WF := by
  refine ⟨hv.opened, fun k' y hy => ?_⟩
  by_cases h : k' = k
  · have hxy : x = y := by simpa [Server.take, h] using hy
    rw [← hxy]
    exact hx
  · exact hv.holders k' y (by simpa [Server.take, h] using hy)

theorem Server.WF.unlock {v : Server κ} (hv : v.WF) (k : κ) (x : ℕ) : (v.unlock k x).WF := by
  unfold Server.unlock
  split_ifs
  · refine ⟨hv.opened, fun k' y hy => ?_⟩
    by_cases h : k' = k
    · simp [h] at hy
    · exact hv.holders k' y (by simpa [h] using hy)
  · exact hv

/-- A lock that was granted: the locks of others are as before. -/
theorem Server.take_locks {v : Server κ} {k k' : κ} {x y : ℕ} (h : v.locks k = some x)
    (hg : v.grants k' y = true) : (v.take k' y).locks k = some x := by
  unfold Server.take
  dsimp only
  by_cases hk : k = k'
  · subst hk
    rw [Function.update_self, Server.grants_held h hg]
  · rw [Function.update_of_ne hk]
    exact h

/-- A lock given back by another session stays. -/
theorem Server.unlock_locks {v : Server κ} {k k' : κ} {x y : ℕ} (h : v.locks k = some x)
    (hne : x ≠ y) : (v.unlock k' y).locks k = some x := by
  unfold Server.unlock
  split_ifs with hy
  · by_cases hk : k = k'
    · subst hk
      rw [h] at hy
      exact absurd (Option.some.inj hy) hne
    · dsimp only
      rw [Function.update_of_ne hk]
      exact h
  · exact h

end Vsms.Lib.SessionLocks
