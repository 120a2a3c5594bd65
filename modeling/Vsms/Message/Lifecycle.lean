import Vsms.Message.System

/-! # The life of a message

In any interleaving of the writers, every write that commits follows an edge of the table, so the
guard never raises `SM001`; a terminal state is never left; and `finalized_at` is set exactly in the
terminal states. The invariant is `Finalized`, on the row alone: a write of the system keeps it, as
it is made from the row it replaces. -/

namespace Vsms.Message.Lifecycle

open Vsms.Lib.Runs Vsms.Lib.Optimistic
open Vsms.Schema.Types Vsms.Schema.Messages Vsms.Message.Dispatch Vsms.Message.System

/-- `finalized_at` is set exactly if the state is terminal. -/
def Finalized (m : Message) : Prop := m.finalizedAt.isSome ↔ m.Terminal

theorem finalized_accept (c : NewMessage) : Finalized (accept c) := by
  unfold Finalized Message.Terminal accept
  simp [terminalStates]

/-- The trigger keeps `finalized_at` in step with the state, unless the patch sets it. -/
theorem finalized_written {u : UpdateMessageInput} {now : Time} {m : Message}
    (hf : u.finalizedAt = none) (hl : Legal m.state (u.state.getD m.state)) (hm : Finalized m) :
    Finalized (written u now m) := by
  unfold Finalized Message.Terminal at hm ⊢
  rw [written_finalizedAt, written_state, hf, Option.getD_none]
  by_cases hs : u.state.getD m.state = m.state
  · rw [if_neg (fun h => h.1 hs), hs]
    exact hm
  · -- The state changes, so the old one was not terminal and nothing was stamped yet.
    have hold : m.state ∉ terminalStates := fun ht => hs (legal_of_terminal hl ht)
    have hnone : m.finalizedAt = none := by
      rw [← Option.not_isSome_iff_eq_none, hm]
      exact hold
    by_cases ht : u.state.getD m.state ∈ terminalStates
    · rw [if_pos ⟨hs, ht, hnone⟩]
      simp [ht]
    · rw [if_neg (fun h => ht h.2.1), hnone]
      simp [ht]

/-! ### Steps -/

theorem refused_notMem_events {x : Proc} {op : Op} {w : Plan} (h : Writes x op w) (row : Message)
    (e : IllegalTransition) : Event.refused e ∉ w.events row := by
  cases h <;> simp

theorem refused_notMem_advances {s : Sys} {x : Proc} {op : Op} {o : Outcome}
    (h : Advances s x op o) (e : IllegalTransition) : Event.refused e ∉ o.events := by
  cases h <;> simp

section steps
variable {s s' : Sys} {a : Action} (hs : Snapshots Proc.held s.toShared) (h : step s a = some s')
include hs h

theorem step_legal : Legal s.row.state s'.row.state := by
  cases step_sound hs h with
  | wrote w hw hrow =>
    have hl := hw.legal
    rw [hrow] at hl
    simpa using hl
  | lost w hw hv => exact Or.inl rfl
  | moved o ho => exact Or.inl rfl

theorem step_finalized (hf : Finalized s.row) : Finalized s'.row := by
  cases step_sound hs h with
  | wrote w hw hrow => exact finalized_written hw.finalizedAt (hrow ▸ hw.legal) hf
  | lost w hw hv => exact hf
  | moved o ho => exact hf

/-- No step raises `SM001`. -/
theorem step_not_refused (hlog : ∀ e, Event.refused e ∉ s.log) (e : IllegalTransition) :
    Event.refused e ∉ s'.log := by
  cases step_sound hs h with
  | wrote w hw hrow =>
    rw [Sys.wrote_log, List.mem_append, not_or]
    exact ⟨refused_notMem_events hw _ e, hlog e⟩
  | lost w hw hv => simpa using hlog e
  | moved o ho =>
    rw [Sys.go_log, List.mem_append, not_or]
    exact ⟨refused_notMem_advances ho e, hlog e⟩

end steps

/-! ### Runs -/

/-- A terminal state stays as it is for the rest of the run. -/
theorem exec_terminal {s t : Sys} {as : List Action} (hs : Snapshots Proc.held s.toShared)
    (h : exec step s as = some t) (ht : s.row.Terminal) : t.row.state = s.row.state := by
  have hrel := exec_rel (I := fun s => Snapshots Proc.held s.toShared)
    (R := fun s t : Sys => s.row.Terminal → t.row.state = s.row.state) (fun _ _ => rfl)
    (fun s t u hst htu hs =>
      (htu (by unfold Message.Terminal; rw [hst hs]; exact hs)).trans (hst hs))
    (fun s a s' hs hstep => ⟨step_snapshots hs hstep,
      fun ht => legal_of_terminal (step_legal hs hstep) ht⟩) hs h
  exact hrel ht

/-- **The life of a message.** In every state a run of any interleaving reaches from an accepted
message: each further write keeps the state or follows an edge of `message_state_transitions`, and
the guard has refused none so far; a terminal state is the last; and `finalized_at` is set exactly
in a terminal state. -/
theorem message_lifecycle (c : NewMessage) (as : List Action) (s : Sys)
    (h : exec step (start c) as = some s) :
    ((∀ a s', step s a = some s' → Legal s.row.state s'.row.state) ∧
      ∀ e, Event.refused e ∉ s.log) ∧
    (s.row.Terminal → ∀ bs t, exec step s bs = some t → t.row.state = s.row.state) ∧
    (s.row.finalizedAt.isSome ↔ s.row.Terminal) := by
  have hsnap : Snapshots Proc.held s.toShared := Reachable.snapshots ⟨c, as, h⟩
  have hinv := exec_invariant'
    (I := fun s => Snapshots Proc.held s.toShared ∧ Finalized s.row ∧ ∀ e, Event.refused e ∉ s.log)
    (fun s a s' hs hstep => ⟨step_snapshots hs.1 hstep, step_finalized hs.1 hstep hs.2.1,
      step_not_refused hs.1 hstep hs.2.2⟩)
    ⟨start_snapshots c, finalized_accept c, fun e he => nomatch he⟩ h
  exact ⟨⟨fun a s' ha => step_legal hsnap ha, hinv.2.2⟩,
    fun ht bs t hb => exec_terminal hsnap hb ht, hinv.2.1⟩

/-- A message that is sent and then reported delivered. -/
def deliveredRun : List Action :=
  sentRun ++ ingestRun 1 "p1" "" ⟨"x1", .delivered, none, "DeliveredToTerminal", none, none⟩ 3 3

theorem message_lifecycle_delivered : ∃ s, exec step (start sampleMessage) deliveredRun = some s ∧
    s.row.state = .delivered ∧ s.row.finalizedAt.isSome := by
  have hrun : ((exec step (start sampleMessage) deliveredRun).map (·.row.state)) =
      some .delivered := by rfl
  obtain ⟨s, hs, hstate⟩ := Option.map_eq_some_iff.mp hrun
  refine ⟨s, hs, hstate, (message_lifecycle sampleMessage deliveredRun s hs).2.2.mpr ?_⟩
  unfold Message.Terminal
  rw [hstate]
  decide

end Vsms.Message.Lifecycle
