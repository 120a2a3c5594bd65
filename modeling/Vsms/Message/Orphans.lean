import Vsms.Message.System

/-! # Messages nothing selects

A row is looked after if, from some clock value on, the claim query or one of the filters of
`expire_stale` selects it. The claim query asks for `expires_at` in the future in all its states, so
in the long run it selects nothing; the filters of `expire_stale` have the three states after a
submission only. A message that is still `accepted`, `queued` or `routed` when its validity elapses
is therefore never selected again. -/

namespace Vsms.Message.Orphans

open Vsms.Lib.Runs Vsms.Schema.Types Vsms.Schema.Messages
open Vsms.Message.Claim Vsms.Message.Dispatch Vsms.Message.Expiry Vsms.Message.System

/-- The claim query or a filter of `expire_stale` selects the row at `now`. -/
def Selected (now : Time) (m : Message) : Prop := Claimable now m ∨ Stale now m

/-- **The row is selected at all sufficiently late clock values.** -/
def EventuallySelected (m : Message) : Prop := ∃ t, ∀ now, t ≤ now → Selected now m

theorem not_claimable_of_expired {m : Message} {now : Time} (h : m.expiresAt ≤ now) :
    ¬ Claimable now m := fun hc => absurd hc.2.1 (not_lt.mpr h)

/-- A row in a state of `expire_stale` is stale in the long run: by its validity, or by the grace
after its last write. -/
theorem eventuallySelected_of_stale {m : Message} (h : m.state ∈ staleStates) :
    EventuallySelected m := by
  have hs : m.state = .submitted ∨ m.state = .uncertain ∨ m.state = .undelivered := by
    simpa [staleStates] using h
  rcases hs with hs | hs | hs
  · exact ⟨m.expiresAt, fun now hn => Or.inr (Or.inl ⟨hs, hn⟩)⟩
  · refine ⟨m.updatedAt + uncertainGrace, fun now hn => Or.inr (Or.inr (Or.inl ⟨hs, ?_⟩))⟩
    unfold Time at *
    omega
  · exact ⟨m.expiresAt, fun now hn => Or.inr (Or.inr (Or.inr ⟨hs, hn⟩))⟩

/-- Any other row is not selected once its validity has elapsed. -/
theorem not_selected_of_expired {m : Message} (h : m.state ∉ staleStates) {now : Time}
    (hn : m.expiresAt ≤ now) : ¬ Selected now m := by
  rintro (hc | hst)
  · exact not_claimable_of_expired hn hc
  · exact h hst.state

theorem eventuallySelected_iff (m : Message) :
    EventuallySelected m ↔ m.state ∈ staleStates := by
  refine ⟨?_, eventuallySelected_of_stale⟩
  rintro ⟨t, ht⟩
  by_contra h
  exact not_selected_of_expired h (le_max_right t m.expiresAt) (ht _ (le_max_left t m.expiresAt))

/-- **Which messages are orphaned.** A reachable message that is not terminal is selected at all
late clock values exactly if it is `submitted`, `uncertain` or `undelivered`. In the other states it
is not selected at any clock value from `expires_at` on. -/
theorem selected_iff_submitted : ∀ s, Reachable s → ¬ s.row.Terminal →
    (EventuallySelected s.row ↔
      s.row.state = .submitted ∨ s.row.state = .uncertain ∨ s.row.state = .undelivered) ∧
    (¬ EventuallySelected s.row → ∀ now, s.row.expiresAt ≤ now → ¬ Selected now s.row) := by
  intro s _ _
  refine ⟨?_, fun h now hn => not_selected_of_expired (mt eventuallySelected_of_stale h) hn⟩
  rw [eventuallySelected_iff]
  simp [staleStates]

/-- A message that was sent is looked after. -/
theorem selected_iff_submitted_sent : ∃ s, Reachable s ∧ ¬ s.row.Terminal ∧
    EventuallySelected s.row := by
  obtain ⟨s, hs, hst⟩ : ∃ s, exec step (start sampleMessage) sentRun = some s ∧
      s.row.state = .submitted := exec_eval (f := fun s : Sys => s.row.state) rfl
  have hr : Reachable s := ⟨sampleMessage, sentRun, hs⟩
  have hn : ¬ s.row.Terminal := by
    unfold Message.Terminal
    rw [hst]
    decide
  exact ⟨s, hr, hn, (selected_iff_submitted s hr hn).1.mpr (Or.inl hst)⟩

/-- A message that no worker took before its validity elapsed is never selected again. -/
theorem accepted_orphaned : ¬ ∀ s, Reachable s → ¬ s.row.Terminal → EventuallySelected s.row := by
  intro h
  have ht : ¬ (start sampleMessage).row.Terminal := by decide
  have hsel := h (start sampleMessage) ⟨sampleMessage, [], rfl⟩ ht
  rw [eventuallySelected_iff] at hsel
  exact absurd hsel (by decide)

end Vsms.Message.Orphans
