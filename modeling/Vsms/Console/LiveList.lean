import Vsms.Console.Reconcile
import Vsms.Lib.Indexes
import Vsms.Lib.Runs

/-! # The filters of the messages screen

The screen asks `listMessages` for the messages that pass its filters: the newest ones are fetched
and the filters are applied to them. What the stream brings later goes through `reconcileReducer`,
which is given the filter by state and no other. A row whose state does not pass any more is taken
off. A message that was not there gets a row with what the event has of it: no client reference, and
the time of the event for the time it was created.

A message on the screen passes the filters if the state of its row does, and its own client
reference and time of creation: those of the record that the list was made of, or of the message
behind the event. So what is shown passes in every state of a run exactly if each event with a state
that passes is of a message that passes the others (`live_list_iff`). Nothing sees to that, and a
message with another client reference is shown (`client_ref_filter_is_broken`). -/

namespace Vsms.Console.LiveList

open Vsms.Schema.Types Vsms.Lib.Indexes Vsms.Lib.Runs Vsms.Console.Hub
  Vsms.Console.Reconcile

/-! ## The list -/

/-- A row of `GET /messages`, with a column that the list leaves out. -/
structure MessageRecord extends MessageListItem where
  body : Option String
  deriving DecidableEq, Repr

/-- What `GET /messages` answers: no message twice. -/
structure MessagesPage where
  items : List MessageRecord
  nodup : (items.map (·.id)).Nodup

/-- The filters, as the screen hands them to `listMessages`. -/
structure Filters where
  state : Option MessageState
  clientRef : Option String
  fromIso : Option String
  toIso : Option String
  deriving DecidableEq, Repr

structure ListMessagesInput extends Filters where
  limit : Option ℕ
  offset : Option ℕ

structure ListMessagesResult where
  items : List MessageListItem
  totalCount : ℕ
  hasNextPage : Bool
  truncated : Bool
  deriving DecidableEq, Repr

def defaultListLimit : ℕ := 50

def maxServerLimit : ℕ := 1000

/-- The UTF-16 code units of a text, by which strings are compared. -/
def utf16 (s : String) : List ℕ :=
  s.toList.flatMap fun c =>
    let n := c.toNat
    if n < 0x10000 then [n]
    else [0xD800 + (n - 0x10000) / 0x400, 0xDC00 + (n - 0x10000) % 0x400]

/-- `a < b` -/
def jsLt (a b : String) : Bool := utf16 a < utf16 b

/-- **`withinRange`** -/
def withinRange (createdAt : String) (fromIso toIso : Option String) : Bool :=
  if fromIso.any (jsLt createdAt ·) then false
  else if toIso.any (!jsLt createdAt ·) then false
  else true

/-- The filter of `listMessages`. -/
def Filters.passes (f : Filters) (record : MessageListItem) : Bool :=
  if f.state.any (record.state ≠ ·) then false
  else if f.clientRef.any (record.clientRef ≠ some ·) then false
  else if !withinRange record.createdAt f.fromIso f.toIso then false
  else true

/-- **`listMessages`**, of the page that was fetched; there is none on a 404. -/
def listMessages (input : ListMessagesInput) (page : Option MessagesPage) : ListMessagesResult :=
  let limit := input.limit.getD defaultListLimit
  let offset := input.offset.getD 0
  let window := (page.map (·.items)).getD []
  let filtered := window.filter fun record => input.passes record.toMessageListItem
  { items := ((filtered.drop offset).take limit).map (·.toMessageListItem)
    totalCount := filtered.length
    hasNextPage := offset + limit < filtered.length
    truncated := window.length ≥ maxServerLimit }

/-! ## The screen -/

/-- What the filters ask of a message and an event does not have. -/
structure Origin where
  clientRef : Option String
  createdAt : String
  deriving DecidableEq, Repr

def originOf (record : MessageListItem) : Origin := ⟨record.clientRef, record.createdAt⟩

/-- The screen, and the message behind each row, as it was when last read. -/
structure Screen where
  state : ReconcileState
  behind : String → Origin

/-- What is on the screen. -/
def Screen.shown (s : Screen) : List MessageListItem := s.state.pending ++ s.state.rows

/-- The messages behind the rows after a page was fetched. -/
def seen (behind : String → Origin) (page : Option MessagesPage) (id : String) : Origin :=
  match ((page.map (·.items)).getD []).find? (·.id = id) with
  | some record => originOf record.toMessageListItem
  | none => behind id

/-- What the screen does while its filters are `f`. -/
inductive ScreenAction
  /-- A result of the list has come. -/
  | reset (page : Option MessagesPage) (limit offset : Option ℕ)
  /-- A frame of the stream has come, for a change of `message`. -/
  | event (event : MessageStateEvent) (message : Origin) (scrolledAway : Bool)
  | insertPending

/-- What is dispatched: `stateFilterRef` has the filter by state. -/
def ScreenAction.dispatch (f : Filters) : ScreenAction → ReconcileAction
  | .reset page limit offset => .reset (listMessages ⟨f, limit, offset⟩ page).items
  | .event frame _ scrolledAway => .event frame f.state scrolledAway
  | .insertPending => .insertPending

/-- What is read of the messages. -/
def ScreenAction.read (behind : String → Origin) : ScreenAction → String → Origin
  | .reset page _ _ => seen behind page
  | .event frame message _ => Function.update behind frame.id message
  | .insertPending => behind

def step (f : Filters) (s : Screen) (a : ScreenAction) : Option Screen :=
  some { state := reconcileReducer s.state (a.dispatch f), behind := a.read s.behind }

/-- The screen with a result of the list. -/
def opened (f : Filters) (behind : String → Origin) (page : Option MessagesPage)
    (limit offset : Option ℕ) : Screen where
  state := resetReconcileState (listMessages ⟨f, limit, offset⟩ page).items
  behind := seen behind page

/-- The state passes. -/
def Filters.Matches (f : Filters) (state : MessageState) : Prop :=
  f.state = none ∨ f.state = some state

/-- The message passes the other filters. -/
def Filters.Fits (f : Filters) (message : Origin) : Prop :=
  (f.clientRef = none ∨ f.clientRef = message.clientRef) ∧
    withinRange message.createdAt f.fromIso f.toIso = true

/-- **What is on the screen passes the filters**, and no message is there twice. -/
structure Respects (f : Filters) (s : Screen) : Prop where
  passes : ∀ row ∈ s.shown, f.Matches row.state ∧ f.Fits (s.behind row.id)
  distinct : Distinct s.state

/-- **An event with a state that passes is of a message that passes.** -/
def EventFits (f : Filters) : ScreenAction → Prop
  | .event event message _ => f.Matches event.state → f.Fits message
  | _ => True

/-! ### One action -/

theorem passes_iff {f : Filters} {row : MessageListItem} : f.passes row = true ↔
    (f.state = none ∨ f.state = some row.state) ∧
      (f.clientRef = none ∨ f.clientRef = row.clientRef) ∧
      withinRange row.createdAt f.fromIso f.toIso = true := by
  obtain ⟨state, clientRef, fromIso, toIso⟩ := f
  unfold Filters.passes
  have hcomm : ∀ {α : Type} {a b : α}, (a = b ↔ b = a) := eq_comm
  cases state <;> cases clientRef <;> simp [hcomm (a := row.state), hcomm (a := row.clientRef)]

theorem has_iff {id : String} {rows : List MessageListItem} :
    has id rows = true ↔ id ∈ rows.map (·.id) := by
  simp [has]

/-- A row after a merge is of the event, or was there. -/
theorem of_mem_mergeInto {event : MessageStateEvent} {rows : List MessageListItem}
    {row : MessageListItem} (h : row ∈ mergeInto event rows) :
    (row.id = event.id ∧ row.state = event.state) ∨ (row.id ≠ event.id ∧ row ∈ rows) := by
  obtain ⟨before, hbefore, rfl⟩ := List.mem_map.mp h
  split_ifs with hid
  · exact Or.inl ⟨hid, rfl⟩
  · exact Or.inr ⟨hid, hbefore⟩

/-- Merging leaves the rows of other messages alone. -/
theorem mergeInto_of_not_mem {event : MessageStateEvent} {rows : List MessageListItem}
    (h : event.id ∉ rows.map (·.id)) : mergeInto event rows = rows := by
  unfold mergeInto
  have hother : ∀ row ∈ rows, (if row.id = event.id then merge event row else row) = row := by
    intro row hrow
    refine if_neg fun hid => h ?_
    rw [← hid]
    exact List.mem_map_of_mem hrow
  rw [List.map_congr_left hother, List.map_id']

section applyEvent
variable {s : ReconcileState} {event : MessageStateEvent} {stateFilter : Option MessageState}

/-- What an event with a state that passes does to the rows: it is merged into that of its message,
or a row is added for it. -/
theorem applyEvent_shows (hs : Distinct s)
    (h : stateFilter = none ∨ stateFilter = some event.state) (scrolledAway : Bool) :
    let rows := (applyEvent s event stateFilter scrolledAway).pending ++
      (applyEvent s event stateFilter scrolledAway).rows
    (event.id ∈ (s.pending ++ s.rows).map (·.id) ∧
      rows = mergeInto event (s.pending ++ s.rows)) ∨
    (event.id ∉ (s.pending ++ s.rows).map (·.id) ∧
      rows.Perm (placeholder event :: (s.pending ++ s.rows))) := by
  have hmatches : (stateFilter = none || stateFilter = some event.state : Bool) = true := by
    simpa using h
  unfold Distinct at hs
  rw [List.map_append] at hs ⊢
  have hdisjoint := List.disjoint_of_nodup_append hs
  have happend : mergeInto event (s.pending ++ s.rows) =
      mergeInto event s.pending ++ mergeInto event s.rows := List.map_append
  unfold applyEvent
  dsimp only
  rw [hmatches, if_neg (by simp), happend]
  split_ifs with hrows hpending hscrolled
  · rw [has_iff] at hrows
    left
    rw [mergeInto_of_not_mem fun hmem => hdisjoint hmem hrows]
    exact ⟨List.mem_append_right _ hrows, rfl⟩
  · rw [has_iff] at hpending
    left
    rw [mergeInto_of_not_mem (has_eq_false hrows)]
    exact ⟨List.mem_append_left _ hpending, rfl⟩
  · right
    refine ⟨?_, List.Perm.refl _⟩
    rw [List.mem_append, not_or]
    exact ⟨has_eq_false hpending, has_eq_false hrows⟩
  · right
    refine ⟨?_, List.perm_middle⟩
    rw [List.mem_append, not_or]
    exact ⟨has_eq_false hpending, has_eq_false hrows⟩

/-- **After an event with a state that passes**, its message is shown with that state, and the
others are as before. -/
theorem applyEvent_of_matches (hs : Distinct s)
    (h : stateFilter = none ∨ stateFilter = some event.state) (scrolledAway : Bool) :
    (∀ row ∈ (applyEvent s event stateFilter scrolledAway).pending ++
        (applyEvent s event stateFilter scrolledAway).rows,
      (row.id = event.id ∧ row.state = event.state) ∨
        (row.id ≠ event.id ∧ row ∈ s.pending ++ s.rows)) ∧
    event.id ∈ ((applyEvent s event stateFilter scrolledAway).pending ++
      (applyEvent s event stateFilter scrolledAway).rows).map (·.id) := by
  rcases applyEvent_shows hs h scrolledAway with ⟨hold, hmerged⟩ | ⟨hnew, hadded⟩
  · rw [hmerged, map_id_mergeInto]
    exact ⟨fun row hrow => of_mem_mergeInto hrow, hold⟩
  · constructor
    · intro row hrow
      rcases List.mem_cons.mp (hadded.mem_iff.mp hrow) with rfl | hrow
      · exact Or.inl ⟨rfl, rfl⟩
      · refine Or.inr ⟨fun hid => hnew ?_, hrow⟩
        rw [← hid]
        exact List.mem_map_of_mem hrow
    · exact (hadded.map _).mem_iff.mpr List.mem_cons_self

/-- **After another one** its message is not shown. -/
theorem applyEvent_of_not_matches (h : ¬ (stateFilter = none ∨ stateFilter = some event.state))
    (scrolledAway : Bool) :
    ∀ row ∈ (applyEvent s event stateFilter scrolledAway).pending ++
        (applyEvent s event stateFilter scrolledAway).rows,
      row.id ≠ event.id ∧ row ∈ s.pending ++ s.rows := by
  have hmatches : (stateFilter = none || stateFilter = some event.state : Bool) = false := by
    simpa using h
  unfold applyEvent
  dsimp only
  rw [hmatches, if_pos (by simp)]
  split_ifs with hnone
  · intro row hrow
    refine ⟨fun hid => ?_, hrow⟩
    have hmem : event.id ∈ (s.pending ++ s.rows).map (·.id) := hid ▸ List.mem_map_of_mem hrow
    rw [List.map_append, List.mem_append, ← has_iff, ← has_iff] at hmem
    simp only [Bool.and_eq_true, Bool.not_eq_true'] at hnone
    rcases hmem with hmem | hmem
    · exact absurd hmem (by simp [hnone.2])
    · exact absurd hmem (by simp [hnone.1])
  · intro row hrow
    rw [← List.filter_append] at hrow
    obtain ⟨hmem, hid⟩ := List.mem_filter.mp hrow
    exact ⟨of_decide_eq_true hid, hmem⟩

end applyEvent

/-- The message behind a record of the page. -/
theorem seen_of_mem (behind : String → Origin) {page : MessagesPage} {record : MessageRecord}
    (h : record ∈ page.items) :
    seen behind (some page) record.id = originOf record.toMessageListItem := by
  have hunique : Unique (fun record : MessageRecord => record.id) page.items := page.nodup
  have hfind : page.items.find? (·.id = record.id) = some record := hunique.find.mpr ⟨h, rfl⟩
  unfold seen
  rw [Option.map_some, Option.getD_some, hfind]

/-- The list has records of the page that pass, in their order. -/
theorem listMessages_sublist (input : ListMessagesInput) (page : Option MessagesPage) :
    ∃ records : List MessageRecord, records.Sublist ((page.map (·.items)).getD []) ∧
      (listMessages input page).items = records.map (·.toMessageListItem) ∧
      ∀ record ∈ records, input.passes record.toMessageListItem = true := by
  refine ⟨_, ?_, rfl, fun record hrecord => ?_⟩
  · exact ((List.take_sublist _ _).trans (List.drop_sublist _ _)).trans List.filter_sublist
  · exact (List.mem_filter.mp (List.mem_of_mem_drop (List.mem_of_mem_take hrecord))).2

/-- **What the list returns** passes the filters, and is of different messages. -/
theorem respects_opened (f : Filters) (behind : String → Origin) (page : Option MessagesPage)
    (limit offset : Option ℕ) : Respects f (opened f behind page limit offset) := by
  obtain ⟨records, hsub, hitems, hpasses⟩ := listMessages_sublist ⟨f, limit, offset⟩ page
  constructor
  · intro row hrow
    unfold opened Screen.shown resetReconcileState at hrow
    rw [List.nil_append, hitems] at hrow
    obtain ⟨record, hrecord, rfl⟩ := List.mem_map.mp hrow
    have hkept := passes_iff.mp (hpasses record hrecord)
    cases page with
    | none => exact absurd (hsub.subset hrecord) List.not_mem_nil
    | some page =>
      have hbehind := seen_of_mem behind (hsub.subset hrecord)
      unfold opened
      dsimp only
      rw [hbehind]
      exact hkept
  · have hnodup : ((page.map (·.items)).getD [] |>.map (·.id)).Nodup := by
      cases page with
      | none => exact List.nodup_nil
      | some page => exact page.nodup
    unfold Distinct opened resetReconcileState
    rw [List.nil_append, hitems, List.map_map]
    exact hnodup.sublist (hsub.map _)

/-- **What one action does to what is shown.** -/
theorem Respects.step_iff {f : Filters} {s s' : Screen} (h : Respects f s) {a : ScreenAction}
    (hstep : step f s a = some s') : Respects f s' ↔ EventFits f a := by
  rw [← Option.some.inj hstep]
  cases a with
  | reset page limit offset =>
    exact iff_of_true (respects_opened f s.behind page limit offset) trivial
  | insertPending =>
    refine iff_of_true ⟨fun row hrow => h.passes row (mem_insertPending.mp hrow), ?_⟩ trivial
    exact h.distinct.insertPending
  | event event message scrolledAway =>
    have hdistinct := h.distinct.applyEvent event f.state scrolledAway
    by_cases hmatches : f.Matches event.state
    · obtain ⟨hrows, hshown⟩ := applyEvent_of_matches h.distinct hmatches scrolledAway
      constructor
      · intro h' _
        obtain ⟨row, hrow, hid⟩ := List.mem_map.mp hshown
        have hfits := (h'.passes row hrow).2
        dsimp only [ScreenAction.read] at hfits
        rwa [hid, Function.update_self] at hfits
      · intro hfits
        refine ⟨fun row hrow => ?_, hdistinct⟩
        dsimp only [ScreenAction.read]
        rcases hrows row hrow with ⟨hid, hstate⟩ | ⟨hid, hrow⟩
        · rw [hid, Function.update_self, hstate]
          exact ⟨hmatches, hfits hmatches⟩
        · rw [Function.update_of_ne hid]
          exact h.passes row hrow
    · refine iff_of_true ⟨fun row hrow => ?_, hdistinct⟩ fun hm => absurd hm hmatches
      obtain ⟨hid, hrow⟩ := applyEvent_of_not_matches hmatches scrolledAway row hrow
      dsimp only [ScreenAction.read]
      rw [Function.update_of_ne hid]
      exact h.passes row hrow

/-- **The live list respects its filters exactly if each event with a state that passes is of a
message that passes**, whatever the filters are, the result of the list that the screen starts with,
and the actions after it. -/
theorem live_list_iff (f : Filters) (behind : String → Origin) (page : Option MessagesPage)
    (limit offset : Option ℕ) (actions : List ScreenAction) :
    Always (step f) (Respects f) (opened f behind page limit offset) actions ↔
      ∀ action ∈ actions, EventFits f action := by
  rw [always_iff (I := Respects f) (Q := fun _ action _ => EventFits f action) (fun _ h => h) ?_ ?_
    (respects_opened f behind page limit offset)]
  · exact along_iff_forall fun _ _ => rfl
  · exact fun _ _ _ h hstep => h.step_iff hstep
  · exact fun _ _ _ h hstep hfits => (h.step_iff hstep).mpr hfits

/-! ### A filter by client reference -/

def orderFilter : Filters := ⟨none, some "order-1", none, none⟩

/-- A message that has no client reference is delivered. -/
def deliveredEvent : MessageStateEvent where
  id := "msg_2"
  appId := "app_1"
  state := .delivered
  stateReason := none
  operator := .mtn
  segments := 1
  version := 3
  occurredAt := "2026-08-08T12:00:00.000Z"
  providerMessageRef := none

/-- **A message without the client reference** that is filtered by is shown. -/
theorem client_ref_filter_is_broken :
    ¬ ∀ (f : Filters) (behind : String → Origin) (page : Option MessagesPage)
        (limit offset : Option ℕ) (actions : List ScreenAction),
      Always (step f) (Respects f) (opened f behind page limit offset) actions := by
  intro hall
  have h := (hall orderFilter (fun _ => ⟨none, ""⟩) none none none
    [.event deliveredEvent ⟨none, "2026-08-08T11:59:58.000Z"⟩ false]).2.1
  obtain ⟨-, hclientRef, -⟩ := h.passes (placeholder deliveredEvent) (by decide)
  revert hclientRef
  decide

end Vsms.Console.LiveList
