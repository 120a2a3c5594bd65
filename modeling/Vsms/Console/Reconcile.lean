import Vsms.Console.Hub

/-! # The rows of the messages screen

`reconcileReducer`: a result of `messages.list` replaces what is shown, a frame of the stream is
merged into the row of its message, or becomes a row of its own, and the rows that came while the
list was scrolled away are put on top when they are asked for.

The reducer takes what it is given: a frame replaces the version of its row, whatever that was. What
is shown before and after a frame differs in the rows of its message alone (`mem_applyEvent`), and
no message has two rows (`Distinct.applyEvent`). -/

namespace Vsms.Console.Reconcile

open Vsms.Schema.Types Vsms.Console.Hub

/-- `LIST_FIELDS` -/
structure MessageListItem where
  id : String
  appId : String
  clientRef : Option String
  msisdn : String
  operator : OperatorCode
  senderIdValue : String
  messageClass : MessageClass
  state : MessageState
  stateReason : Option String
  encoding : Encoding
  segments : ℕ
  providerMessageRef : Option String
  version : ℕ
  createdAt : String
  updatedAt : String
  submittedAt : Option String
  finalizedAt : Option String
  deriving DecidableEq, Repr

structure ReconcileState where
  rows : List MessageListItem
  pending : List MessageListItem
  deriving DecidableEq, Repr

/-- `merge` -/
def merge (event : MessageStateEvent) (row : MessageListItem) : MessageListItem :=
  { row with
    state := event.state
    stateReason := event.stateReason
    providerMessageRef := event.providerMessageRef
    version := event.version
    updatedAt := event.occurredAt }

/-- The rows, with that of the message merged. -/
def mergeInto (event : MessageStateEvent) (rows : List MessageListItem) : List MessageListItem :=
  rows.map fun row => if row.id = event.id then merge event row else row

/-- `placeholder` -/
def placeholder (event : MessageStateEvent) : MessageListItem where
  id := event.id
  appId := event.appId
  clientRef := none
  msisdn := ""
  operator := event.operator
  senderIdValue := ""
  messageClass := .transactional
  state := event.state
  stateReason := event.stateReason
  encoding := .gsm7
  segments := event.segments
  providerMessageRef := event.providerMessageRef
  version := event.version
  createdAt := event.occurredAt
  updatedAt := event.occurredAt
  submittedAt := none
  finalizedAt := none

/-- Whether one of the rows is of the message. -/
def has (id : String) (rows : List MessageListItem) : Bool := rows.any (·.id = id)

/-- **`applyEvent`** -/
def applyEvent (prev : ReconcileState) (event : MessageStateEvent)
    (stateFilter : Option MessageState) (scrolledAway : Bool) : ReconcileState :=
  let matchesFilter : Bool := stateFilter = none || stateFilter = some event.state
  if !matchesFilter then
    if !has event.id prev.rows && !has event.id prev.pending then prev
    else ⟨prev.rows.filter (·.id ≠ event.id), prev.pending.filter (·.id ≠ event.id)⟩
  else if has event.id prev.rows then { prev with rows := mergeInto event prev.rows }
  else if has event.id prev.pending then { prev with pending := mergeInto event prev.pending }
  else if scrolledAway then { prev with pending := placeholder event :: prev.pending }
  else { prev with rows := placeholder event :: prev.rows }

/-- **`resetReconcileState`** -/
def resetReconcileState (items : List MessageListItem) : ReconcileState := ⟨items, []⟩

/-- **`insertPendingIntoRows`** -/
def insertPendingIntoRows (state : ReconcileState) : ReconcileState :=
  if state.pending.length = 0 then state else ⟨state.pending ++ state.rows, []⟩

inductive ReconcileAction
  | reset (items : List MessageListItem)
  | event (event : MessageStateEvent) (stateFilter : Option MessageState) (scrolledAway : Bool)
  | insertPending

/-- **`reconcileReducer`** -/
def reconcileReducer (state : ReconcileState) : ReconcileAction → ReconcileState
  | .reset items => resetReconcileState items
  | .event event stateFilter scrolledAway => applyEvent state event stateFilter scrolledAway
  | .insertPending => insertPendingIntoRows state

/-- `INITIAL_RECONCILE_STATE` -/
def initialReconcileState : ReconcileState := ⟨[], []⟩

/-! ## One row for a message -/

/-- No message has two rows. -/
def Distinct (state : ReconcileState) : Prop := ((state.pending ++ state.rows).map (·.id)).Nodup

theorem map_id_mergeInto (event : MessageStateEvent) (rows : List MessageListItem) :
    (mergeInto event rows).map (·.id) = rows.map (·.id) := by
  unfold mergeInto
  rw [List.map_map]
  refine List.map_congr_left fun row _ => ?_
  simp only [Function.comp_apply]
  split_ifs <;> rfl

theorem has_eq_false {id : String} {rows : List MessageListItem} (h : ¬ has id rows = true) :
    id ∉ rows.map (·.id) := by
  intro hmem
  obtain ⟨row, hrow, hid⟩ := List.mem_map.mp hmem
  exact h (List.any_eq_true.mpr ⟨row, hrow, decide_eq_true hid⟩)

theorem Distinct.applyEvent {prev : ReconcileState} (h : Distinct prev) (event : MessageStateEvent)
    (stateFilter : Option MessageState) (scrolledAway : Bool) :
    Distinct (applyEvent prev event stateFilter scrolledAway) := by
  unfold Distinct at h ⊢
  unfold Reconcile.applyEvent
  dsimp only
  split_ifs with hmatches hnone hrows hpending hscrolled
  · exact h
  · refine h.sublist (List.Sublist.map _ ?_)
    exact List.filter_sublist.append List.filter_sublist
  · rw [List.map_append, map_id_mergeInto, ← List.map_append]
    exact h
  · rw [List.map_append, map_id_mergeInto, ← List.map_append]
    exact h
  · have hnew : event.id ∉ (prev.pending ++ prev.rows).map (·.id) := by
      rw [List.map_append, List.mem_append, not_or]
      exact ⟨has_eq_false hpending, has_eq_false hrows⟩
    exact List.nodup_cons.mpr ⟨hnew, h⟩
  · have hnew : event.id ∉ (prev.pending ++ prev.rows).map (·.id) := by
      rw [List.map_append, List.mem_append, not_or]
      exact ⟨has_eq_false hpending, has_eq_false hrows⟩
    rw [List.map_append, List.map_cons, List.nodup_middle, ← List.map_append]
    exact List.nodup_cons.mpr ⟨hnew, h⟩

theorem Distinct.insertPending {state : ReconcileState} (h : Distinct state) :
    Distinct (insertPendingIntoRows state) := by
  unfold insertPendingIntoRows
  split_ifs with hempty
  · exact h
  · exact h

/-- Two rows of one message are the same row. -/
theorem Distinct.eq {state : ReconcileState} (h : Distinct state) {row row' : MessageListItem}
    (hrow : row ∈ state.pending ++ state.rows) (hrow' : row' ∈ state.pending ++ state.rows)
    (hid : row.id = row'.id) : row = row' := List.inj_on_of_nodup_map h hrow hrow' hid

/-! ## What is shown after a step -/

theorem mem_mergeInto {event : MessageStateEvent} {rows : List MessageListItem}
    {row : MessageListItem} (h : row ∈ mergeInto event rows) :
    row ∈ rows ∨ (row.id = event.id ∧ row.version = event.version) := by
  obtain ⟨before, hbefore, rfl⟩ := List.mem_map.mp h
  split_ifs with hid
  · exact Or.inr ⟨hid, rfl⟩
  · exact Or.inl hbefore

/-- **A row after a frame was there before, or is of the frame's message and version.** -/
theorem mem_applyEvent {prev : ReconcileState} {event : MessageStateEvent}
    {stateFilter : Option MessageState} {scrolledAway : Bool} {row : MessageListItem} :
    (row ∈ (applyEvent prev event stateFilter scrolledAway).rows →
      row ∈ prev.rows ∨ (row.id = event.id ∧ row.version = event.version)) ∧
    (row ∈ (applyEvent prev event stateFilter scrolledAway).pending →
      row ∈ prev.pending ∨ (row.id = event.id ∧ row.version = event.version)) := by
  unfold applyEvent
  dsimp only
  split_ifs
  · exact ⟨Or.inl, Or.inl⟩
  · exact ⟨fun h => Or.inl (List.mem_of_mem_filter h), fun h => Or.inl (List.mem_of_mem_filter h)⟩
  · exact ⟨mem_mergeInto, Or.inl⟩
  · exact ⟨Or.inl, mem_mergeInto⟩
  · refine ⟨Or.inl, fun h => ?_⟩
    rcases List.mem_cons.mp h with rfl | h
    · exact Or.inr ⟨rfl, rfl⟩
    · exact Or.inl h
  · refine ⟨fun h => ?_, Or.inl⟩
    rcases List.mem_cons.mp h with rfl | h
    · exact Or.inr ⟨rfl, rfl⟩
    · exact Or.inl h

theorem mem_insertPending {state : ReconcileState} {row : MessageListItem} :
    row ∈ (insertPendingIntoRows state).pending ++ (insertPendingIntoRows state).rows ↔
      row ∈ state.pending ++ state.rows := by
  unfold insertPendingIntoRows
  split_ifs <;> simp

end Vsms.Console.Reconcile
