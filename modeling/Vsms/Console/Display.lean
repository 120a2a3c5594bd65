import Vsms.Console.LongPoll
import Vsms.Console.Reconcile

/-! # What the screen shows, over time

Polls may overlap: a fetch returns the database as it was at some instant between its beginning and
its end, and fetches end in any order. The frames of the calls that have returned are applied to the
screen one after the other, and results of `messages.list`, which read the database at an instant of
theirs, replace it at any time. Neither the hub nor the reducer compares versions.

Versions only grow on the screen and for each subscriber (`Steady`) in every run in which results
are used in the order in which they were read, and no pair that the hub has forgotten is fetched
again (`InOrder`). -/

namespace Vsms.Console.Display

open Vsms.Schema.Types Vsms.Lib.Runs
open Vsms.Console.Hub Vsms.Console.Hub.MessageStreamHub Vsms.Console.LongPoll Vsms.Console.Reconcile

/-! ## The database -/

/-- The row of a message, at each instant. -/
abbrev Database := ℕ → String → Option MessageListItem

/-- **The versions of a message only grow.** -/
structure Grows (db : Database) : Prop where
  id : ∀ i id row, db i id = some row → row.id = id
  version : ∀ i j id row row', i ≤ j → db i id = some row → db j id = some row' →
    row.version ≤ row'.version

/-- `STREAM_FIELDS` of a row. -/
def candidate (row : MessageListItem) : StreamCandidate where
  id := row.id
  appId := row.appId
  state := row.state
  stateReason := row.stateReason
  operator := row.operator
  segments := row.segments
  version := row.version
  updatedAt := row.updatedAt
  providerMessageRef := row.providerMessageRef

/-- The rows of some messages, at an instant. -/
def readAt (db : Database) (i : ℕ) (ids : List String) : List MessageListItem :=
  ids.filterMap (db i)

/-- What a poll returns of them. -/
def windowAt (db : Database) (i : ℕ) (ids : List String) : List StreamCandidate :=
  (readAt db i ids).map candidate

/-- The version of a message at an instant. -/
def Version (db : Database) (i : ℕ) (id : String) (version : ℕ) : Prop :=
  ∃ row, db i id = some row ∧ row.version = version

theorem Version.mono {db : Database} (hdb : Grows db) {i j v w : ℕ} {id : String}
    (hi : Version db i id v) (hj : Version db j id w) (hle : i ≤ j) : v ≤ w := by
  obtain ⟨row, hrow, rfl⟩ := hi
  obtain ⟨row', hrow', rfl⟩ := hj
  exact hdb.version i j id row row' hle hrow hrow'

theorem version_of_readAt {db : Database} (hdb : Grows db) {i : ℕ} {ids : List String}
    {row : MessageListItem} (h : row ∈ readAt db i ids) : Version db i row.id row.version := by
  obtain ⟨id, -, hrow⟩ := List.mem_filterMap.mp h
  rw [hdb.id i id row hrow]
  exact ⟨row, hrow, rfl⟩

/-! ## The page -/

structure Page where
  tab : Tab
  /-- What the tab has got (`Tab.got`), and the instant at which it was read. -/
  tagged : List (ℕ × MessageStreamFrame)
  /-- How many frames have been applied to the screen. -/
  applied : ℕ
  view : ReconcileState
  /-- The instant of the database, and those at which the fetches began, and the list requests that
  are open. -/
  instant : ℕ
  begun : List ℕ
  lists : List (Option ℕ)
  /-- The last instant that a fetch which has ended has read, and that the screen shows something
  of. -/
  fetchedAt : ℕ
  shownAt : ℕ
  deriving DecidableEq, Repr

inductive PageAction
  /-- The database moves on. -/
  | write
  /-- What is not the success of a fetch. -/
  | stream (a : TabAction)
  /-- A fetch ends, and has read these messages at this instant. -/
  | fetched (fetch i : ℕ) (ids : List String)
  /-- The next frame is dispatched. -/
  | apply (stateFilter : Option MessageState) (scrolledAway : Bool)
  /-- `messages.list` is asked for, and answers. -/
  | list
  | listed (request i : ℕ) (ids : List String)
  | insertPending
  deriving DecidableEq, Repr

namespace Page

def init (pollMs clock : ℕ) : Page :=
  ⟨.init pollMs clock, [], 0, initialReconcileState, 0, [], [], 0, 0⟩

/-- The tab has taken a step, with what was read at an instant. -/
def advance (s : Page) (a : TabAction) (i : ℕ) (tab : Tab) : Page :=
  { s with
    tab := tab
    tagged := (s.tagged ++ (s.tab.added a).map (i, ·)).take tab.got.length
    begun := if tab.net.nextFetch = s.tab.net.nextFetch then s.begun else s.begun ++ [s.instant] }

/-- One frame of a result of `onStateChange`. -/
def dispatch (s : Page) (stateFilter : Option MessageState) (scrolledAway : Bool) :
    ℕ × MessageStreamFrame → Page
  | (i, .message event) =>
    { s with
      applied := s.applied + 1
      view := reconcileReducer s.view (.event event stateFilter scrolledAway)
      shownAt := max s.shownAt i }
  | _ => { s with applied := s.applied + 1 }

def step (db : Database) (s : Page) : PageAction → Option Page
  | .write => some { s with instant := s.instant + 1 }
  | .stream a => if a.rows = [] then (s.tab.step a).map (s.advance a s.instant) else none
  | .fetched fetch i ids =>
    if s.begun.getD fetch 0 ≤ i ∧ i ≤ s.instant ∧ ids.Nodup then
      (s.tab.step (.hub (.settle fetch (some (windowAt db i ids))))).map fun tab =>
        { s.advance (.hub (.settle fetch (some (windowAt db i ids)))) i tab with
          fetchedAt := max s.fetchedAt i }
    else none
  | .apply stateFilter scrolledAway =>
    if s.applied < s.tab.answers.flatten.length then
      (s.tagged[s.applied]?).map (s.dispatch stateFilter scrolledAway)
    else none
  | .list => some { s with lists := s.lists ++ [some s.instant] }
  | .listed request i ids =>
    if s.lists[request]?.join.any (· ≤ i) ∧ i ≤ s.instant ∧ ids.Nodup then
      some { s with
        lists := s.lists.set request none
        view := reconcileReducer s.view (.reset (readAt db i ids))
        shownAt := max s.shownAt i }
    else none
  | .insertPending => some { s with view := reconcileReducer s.view .insertPending }

end Page

/-- For each message, later versions come later, and none twice. -/
def Increasing (frames : List MessageStreamFrame) : Prop :=
  (framePairs frames).Pairwise fun p q => p.1 = q.1 → p.2 < q.2

/-- A row that stays on the screen does not get an older version. -/
def Forward (view view' : ReconcileState) : Prop :=
  ∀ row ∈ view.rows, ∀ row' ∈ view'.rows, row.id = row'.id → row.version ≤ row'.version

/-- **No version goes back**, neither on the screen nor in what a subscriber receives. -/
def Steady (s s' : Page) : Prop :=
  Forward s.view s'.view ∧ ∀ entry ∈ s'.tab.net.hub.subscribers, Increasing entry.2.received

/-- What a fetch has returned before is among the keys that stay remembered while its rows are gone
through. -/
def Remembered (net : Net) (rows : List StreamCandidate) : Prop :=
  ∀ row ∈ rows, row.pair ∈ returned net.log →
    key row.id row.version ∈ net.hub.seen.drop (net.hub.seen.length + rows.length - seenCap)

/-- **Results are used in the order in which they were read**: no fetch ends after one that has read
later, no frame and no list is put on a screen that shows something read later, and what a fetch
returns again has not been forgotten. -/
def InOrder (db : Database) (s : Page) : PageAction → Prop
  | .fetched _ i ids => s.fetchedAt ≤ i ∧ Remembered s.tab.net (windowAt db i ids)
  | .apply _ _ => ∀ x ∈ s.tagged[s.applied]?, framePairs [x.2] ≠ [] → s.shownAt ≤ x.1
  | .listed _ i _ => s.shownAt ≤ i
  | _ => True

instance (frames : List MessageStreamFrame) : Decidable (Increasing frames) := by
  unfold Increasing
  infer_instance

instance (view view' : ReconcileState) : Decidable (Forward view view') := by
  unfold Forward
  infer_instance

instance (s s' : Page) : Decidable (Steady s s') := by
  unfold Steady
  infer_instance

theorem remembered_iff (net : Net) (rows : List StreamCandidate) :
    (rows.all fun row => !(returned net.log).contains row.pair ||
      (net.hub.seen.drop (net.hub.seen.length + rows.length - seenCap)).contains
        (key row.id row.version)) = true ↔
      Remembered net rows := by
  simp [Remembered, or_iff_not_imp_left]

instance (net : Net) (rows : List StreamCandidate) : Decidable (Remembered net rows) :=
  decidable_of_iff _ (remembered_iff net rows)

instance (db : Database) (s : Page) (a : PageAction) : Decidable (InOrder db s a) := by
  unfold InOrder
  split <;> infer_instance

/-! ## What is read -/

theorem readAt_sublist {db : Database} (hdb : Grows db) (i : ℕ) (ids : List String) :
    ((readAt db i ids).map (·.id)).Sublist ids := by
  induction ids with
  | nil => exact List.Sublist.refl _
  | cons id ids ih =>
    unfold readAt at ih ⊢
    rcases hrow : db i id with _ | row
    · rw [List.filterMap_cons_none hrow]
      exact ih.cons id
    · rw [List.filterMap_cons_some hrow, List.map_cons, hdb.id i id row hrow]
      exact ih.cons_cons id

/-- What the rows of a fetch are: each message once, in its version at the instant. -/
structure Read (db : Database) (i : ℕ) (rows : List StreamCandidate) : Prop where
  ids : (rows.map (·.id)).Nodup
  version : ∀ row ∈ rows, Version db i row.id row.version

theorem Read.nil (db : Database) (i : ℕ) : Read db i [] := ⟨List.nodup_nil, by simp⟩

theorem read_windowAt {db : Database} (hdb : Grows db) (i : ℕ) {ids : List String}
    (hids : ids.Nodup) :
    Read db i (windowAt db i ids) := by
  refine ⟨?_, ?_⟩
  · unfold windowAt
    rw [List.map_map]
    exact hids.sublist (readAt_sublist hdb i ids)
  · intro row hrow
    obtain ⟨item, hitem, rfl⟩ := List.mem_map.mp hrow
    exact version_of_readAt hdb hitem

/-- What is remembered is not emitted again. -/
theorem Remembered.new {net : Net} {rows : List StreamCandidate} (h : Remembered net rows) :
    ∀ row ∈ emitted net.hub.seen rows, row.pair ∉ returned net.log := by
  intro row hrow hreturned
  have hmem := (emitted_sublist net.hub.seen rows).subset hrow
  exact key_ne_of_emitted (h row hmem hreturned) row hrow rfl

/-! ## Versions only grow -/

/-- **What holds in a run in which results are used in order**: what subscribers have received and
what is shown was read by then, and the versions of a message come in their order. -/
structure Sound (db : Database) (s : Page) : Prop where
  seated : Seated s.tab
  tagged : s.tagged.map Prod.snd = s.tab.got
  tags : ∀ x ∈ s.tagged, ∀ event, x.2 = .message event → Version db x.1 event.id event.version
  sources : ∀ entry ∈ s.tab.net.hub.subscribers, ∀ p ∈ framePairs entry.2.received,
    p ∈ returned s.tab.net.log ∧ ∃ i ≤ s.fetchedAt, Version db i p.1 p.2
  increasing : ∀ entry ∈ s.tab.net.hub.subscribers, Increasing entry.2.received
  distinct : Distinct s.view
  shown : ∀ row ∈ s.view.pending ++ s.view.rows, ∃ i ≤ s.shownAt, Version db i row.id row.version

theorem Sound.init (db : Database) (pollMs clock : ℕ) : Sound db (Page.init pollMs clock) where
  seated := .init pollMs clock
  tagged := rfl
  tags := by simp [Page.init]
  sources := by simp [Page.init, Tab.init, Net.init, MessageStreamHub.new]
  increasing := by simp [Page.init, Tab.init, Net.init, MessageStreamHub.new]
  distinct := List.nodup_nil
  shown := by simp [Page.init, initialReconcileState]

variable {db : Database} {s s' : Page}

theorem mem_framePairs {frames : List MessageStreamFrame} {event : MessageStateEvent}
    (h : MessageStreamFrame.message event ∈ frames) : event.pair ∈ framePairs frames :=
  List.mem_filterMap.mpr ⟨_, h, rfl⟩

/-- The frames of a step of the tab, as tagged. -/
theorem Sound.tagged_advance (h : Sound db s) {a : TabAction} {i : ℕ} {tab : Tab}
    (hstep : s.tab.step a = some tab) : (s.advance a i tab).tagged.map Prod.snd = tab.got := by
  obtain ⟨-, hgot⟩ := h.seated.step hstep
  have hadded : ((s.tab.added a).map (i, ·)).map Prod.snd = s.tab.added a := by simp
  change ((s.tagged ++ _).take _).map Prod.snd = _
  rw [List.map_take, List.map_append, h.tagged, hadded, ← hgot]
  exact List.take_left

/-- What is emitted of rows that were read in order goes well with what a subscriber has received.
-/
theorem Increasing.append (hdb : Grows db) {log : List FetchEvent}
    {frames frames' : List MessageStreamFrame} {last i : ℕ} {rows emitted : List StreamCandidate}
    (h : Increasing frames)
    (hsources : ∀ p ∈ framePairs frames, p ∈ returned log ∧ ∃ j ≤ last, Version db j p.1 p.2)
    (hread : Read db i rows) (hemitted : emitted.Sublist rows)
    (hnew : ∀ row ∈ emitted, row.pair ∉ returned log) (horder : rows ≠ [] → last ≤ i)
    (hframes : (framePairs frames').Sublist (emitted.map StreamCandidate.pair)) :
    Increasing (frames ++ frames') := by
  unfold Increasing
  rw [framePairs_append, List.pairwise_append]
  refine ⟨h, ?_, ?_⟩
  · have hids : ((rows.map StreamCandidate.pair).map Prod.fst).Nodup := by
      rw [List.map_map]
      exact hread.ids
    have hsub : ((framePairs frames').map Prod.fst).Sublist
        ((rows.map StreamCandidate.pair).map Prod.fst) :=
      (hframes.trans (hemitted.map _)).map _
    refine List.Pairwise.imp (fun hne heq => absurd heq hne)
      (List.pairwise_map.mp (hids.sublist hsub))
  · intro p hp q hq hid
    obtain ⟨hreturned, j, hj, hversion⟩ := hsources p hp
    obtain ⟨row, hrow, rfl⟩ := List.mem_map.mp (hframes.subset hq)
    have hmem := hemitted.subset hrow
    have hle : p.2 ≤ row.version :=
      hversion.mono hdb (hid ▸ hread.version row hmem) (hj.trans (horder (List.ne_nil_of_mem hmem)))
    refine lt_of_le_of_ne hle fun heq => hnew row hrow ?_
    rw [show row.pair = p from Prod.ext hid.symm heq.symm]
    exact hreturned

/-- **What a step of the tab keeps**, if what it has read is new, and not older than what was read
before. -/
theorem Sound.advance (h : Sound db s) (hdb : Grows db) {a : TabAction} {i m : ℕ} {tab : Tab}
    (hstep : s.tab.step a = some tab) (hread : Read db i a.rows)
    (hnew : ∀ row ∈ emitted s.tab.net.hub.seen a.rows, row.pair ∉ returned s.tab.net.log)
    (horder : a.rows ≠ [] → s.fetchedAt ≤ i ∧ i ≤ m) (hm : s.fetchedAt ≤ m) :
    Sound db { s.advance a i tab with fetchedAt := m } := by
  have hreceives := receives_step hstep
  have hemitted := emitted_sublist s.tab.net.hub.seen a.rows
  have hpairs : ∀ frames, frames.Sublist (s.tab.sent a) →
      (framePairs frames).Sublist
        ((emitted s.tab.net.hub.seen a.rows).map StreamCandidate.pair) := by
    intro frames hframes
    rw [← framePairs_sent]
    exact hframes.filterMap _
  refine ⟨(h.seated.step hstep).1, h.tagged_advance hstep, ?_, ?_, ?_, h.distinct, h.shown⟩
  · intro x hx event hevent
    rcases List.mem_append.mp (List.mem_of_mem_take hx) with hx | hx
    · exact h.tags x hx event hevent
    · obtain ⟨frame, hframe, rfl⟩ := List.mem_map.mp hx
      obtain rfl : frame = .message event := hevent
      have hpair := (hpairs _ (added_sublist s.tab a)).subset (mem_framePairs hframe)
      obtain ⟨row, hrow, heq⟩ := List.mem_map.mp hpair
      have hversion := hread.version row (hemitted.subset hrow)
      rw [show row.id = event.id from congrArg Prod.fst heq,
        show row.version = event.version from congrArg Prod.snd heq] at hversion
      exact hversion
  · intro entry hentry p hp
    change p ∈ returned tab.net.log ∧ ∃ i ≤ m, Version db i p.1 p.2
    rw [returned_step hstep]
    rcases hreceives entry hentry with hnil | ⟨entry', hentry', frames, hframes, heq⟩
    · rw [hnil] at hp
      exact absurd hp (by simp [framePairs])
    · rw [heq, framePairs_append] at hp
      rcases List.mem_append.mp hp with hp | hp
      · obtain ⟨hreturned, j, hj, hversion⟩ := h.sources entry' hentry' p hp
        exact ⟨List.mem_append_left _ hreturned, j, hj.trans hm, hversion⟩
      · obtain ⟨row, hrow, rfl⟩ := List.mem_map.mp ((hpairs frames hframes).subset hp)
        have hmem := hemitted.subset hrow
        exact ⟨List.mem_append_right _ (List.mem_map.mpr ⟨row, hmem, rfl⟩), i,
          (horder (List.ne_nil_of_mem hmem)).2, hread.version row hmem⟩
  · intro entry hentry
    rcases hreceives entry hentry with hnil | ⟨entry', hentry', frames, hframes, heq⟩
    · rw [hnil]
      exact List.Pairwise.nil
    · rw [heq]
      exact (h.increasing entry' hentry').append hdb (h.sources entry' hentry') hread hemitted hnew
        (fun hne => (horder hne).1) (hpairs frames hframes)

theorem Forward.refl {view : ReconcileState} (h : Distinct view) : Forward view view := by
  intro row hrow row' hrow' hid
  rw [h.eq (List.mem_append_right _ hrow) (List.mem_append_right _ hrow') hid]

/-- Only the screen has changed. -/
theorem Sound.show (h : Sound db s) (htab : s'.tab = s.tab) (htagged : s'.tagged = s.tagged)
    (hfetched : s'.fetchedAt = s.fetchedAt) (hdistinct : Distinct s'.view)
    (hshown : ∀ row ∈ s'.view.pending ++ s'.view.rows, ∃ i ≤ s'.shownAt,
      Version db i row.id row.version) :
    Sound db s' where
  seated := by rw [htab]; exact h.seated
  tagged := by rw [htab, htagged]; exact h.tagged
  tags := by rw [htagged]; exact h.tags
  sources := by rw [htab, hfetched]; exact h.sources
  increasing := by rw [htab]; exact h.increasing
  distinct := hdistinct
  shown := hshown

/-- What is shown and is not older than something read later. -/
theorem Sound.version_le (h : Sound db s) (hdb : Grows db) {i v : ℕ} (hle : s.shownAt ≤ i)
    {row : MessageListItem} (hrow : row ∈ s.view.rows) (hversion : Version db i row.id v) :
    row.version ≤ v := by
  obtain ⟨j, hj, hshown⟩ := h.shown row (List.mem_append_right _ hrow)
  exact hshown.mono hdb hversion (hj.trans hle)

/-- **A frame is applied.** -/
theorem Sound.dispatch (h : Sound db s) (hdb : Grows db) {stateFilter : Option MessageState}
    {scrolledAway : Bool} {x : ℕ × MessageStreamFrame} (hx : x ∈ s.tagged)
    (hle : framePairs [x.2] ≠ [] → s.shownAt ≤ x.1) :
    Sound db (s.dispatch stateFilter scrolledAway x) ∧
      Forward s.view (s.dispatch stateFilter scrolledAway x).view := by
  obtain ⟨i, frame⟩ := x
  cases frame with
  | message event =>
    have hversion : Version db i event.id event.version := h.tags _ hx event rfl
    constructor
    · refine h.show rfl rfl rfl (h.distinct.applyEvent event stateFilter scrolledAway) ?_
      intro row hrow
      have hcases : row ∈ s.view.pending ++ s.view.rows ∨
          (row.id = event.id ∧ row.version = event.version) := by
        rcases List.mem_append.mp hrow with hrow | hrow
        · exact (mem_applyEvent.2 hrow).imp_left (List.mem_append_left _)
        · exact (mem_applyEvent.1 hrow).imp_left (List.mem_append_right _)
      rcases hcases with hrow | ⟨hid, hv⟩
      · obtain ⟨j, hj, hshown⟩ := h.shown row hrow
        exact ⟨j, hj.trans (le_max_left _ _), hshown⟩
      · refine ⟨i, le_max_right _ _, ?_⟩
        rw [hid, hv]
        exact hversion
    · intro row hrow row' hrow' hid
      rcases mem_applyEvent.1 hrow' with hrow' | ⟨hid', hv⟩
      · exact Forward.refl h.distinct row hrow row' hrow' hid
      · rw [hv]
        refine h.version_le hdb (hle (by simp [framePairs])) hrow ?_
        rw [hid, hid']
        exact hversion
  | degraded retryInMs => exact ⟨h.show rfl rfl rfl h.distinct h.shown, .refl h.distinct⟩
  | recovered => exact ⟨h.show rfl rfl rfl h.distinct h.shown, .refl h.distinct⟩

/-- **A list replaces what is shown.** -/
theorem Sound.reset (h : Sound db s) (hdb : Grows db) {i : ℕ} {ids : List String} (hids : ids.Nodup)
    (hle : s.shownAt ≤ i) (lists : List (Option ℕ)) :
    let s' :=
      { s with
        lists := lists
        view := resetReconcileState (readAt db i ids)
        shownAt := max s.shownAt i }
    Sound db s' ∧ Forward s.view s'.view := by
  constructor
  · refine h.show rfl rfl rfl (hids.sublist (readAt_sublist hdb i ids)) ?_
    intro row hrow
    exact ⟨i, le_max_right _ _, version_of_readAt hdb hrow⟩
  · intro row hrow row' hrow' hid
    refine h.version_le hdb hle hrow ?_
    rw [hid]
    exact version_of_readAt hdb hrow'

theorem Sound.insertPending (h : Sound db s) :
    let s' := { s with view := insertPendingIntoRows s.view }
    Sound db s' ∧ Forward s.view s'.view := by
  constructor
  · refine h.show rfl rfl rfl h.distinct.insertPending ?_
    intro row hrow
    exact h.shown row (mem_insertPending.mp hrow)
  · intro row hrow row' hrow' hid
    have hmem := mem_insertPending.mp (List.mem_append_right _ hrow')
    rw [h.distinct.eq (List.mem_append_right _ hrow) hmem hid]

/-- **What a step keeps.** -/
theorem Sound.step (h : Sound db s) (hdb : Grows db) {a : PageAction}
    (hstep : s.step db a = some s') (hq : InOrder db s a) :
    Sound db s' ∧ Forward s.view s'.view := by
  cases a with
  | write =>
    obtain rfl := Option.some.inj hstep
    exact ⟨h.show rfl rfl rfl h.distinct h.shown, .refl h.distinct⟩
  | stream a =>
    dsimp only [Page.step] at hstep
    split_ifs at hstep with hrows
    obtain ⟨tab, htab, rfl⟩ := Option.map_eq_some_iff.mp hstep
    have hread : Read db s.instant a.rows := by rw [hrows]; exact .nil db s.instant
    refine ⟨h.advance hdb htab hread ?_ (fun hne => absurd hrows hne) le_rfl, .refl h.distinct⟩
    rw [hrows]
    simp [emitted]
  | fetched fetch i ids =>
    dsimp only [Page.step] at hstep
    split_ifs at hstep with hguard
    obtain ⟨tab, htab, rfl⟩ := Option.map_eq_some_iff.mp hstep
    obtain ⟨hle, hremembered⟩ := hq
    exact ⟨h.advance hdb htab (read_windowAt hdb i hguard.2.2) hremembered.new
      (fun _ => ⟨hle, le_max_right _ _⟩) (le_max_left _ _), .refl h.distinct⟩
  | apply stateFilter scrolledAway =>
    dsimp only [Page.step] at hstep
    split_ifs at hstep
    obtain ⟨x, hx, rfl⟩ := Option.map_eq_some_iff.mp hstep
    exact h.dispatch hdb (List.mem_of_getElem? hx) (hq x hx)
  | list =>
    obtain rfl := Option.some.inj hstep
    exact ⟨h.show rfl rfl rfl h.distinct h.shown, .refl h.distinct⟩
  | listed request i ids =>
    dsimp only [Page.step] at hstep
    split_ifs at hstep with hguard
    obtain rfl := Option.some.inj hstep
    exact h.reset hdb hguard.2.2 hq _
  | insertPending =>
    obtain rfl := Option.some.inj hstep
    exact h.insertPending

/-- **No version goes back in a run in which results are used in the order in which they were
read.** -/
theorem along_steady {db : Database} (hdb : Grows db) (pollMs clock : ℕ) (actions : List PageAction)
    (h : Along (Page.step db) (fun s a _ => InOrder db s a) (Page.init pollMs clock) actions) :
    Along (Page.step db) (fun s _ s' => Steady s s') (Page.init pollMs clock) actions := by
  refine Along.of_invariant (I := Sound db) ?_ ?_ (.init db pollMs clock) h
  · intro s a s' hs hstep hq
    obtain ⟨hs', hforward⟩ := hs.step hdb hstep hq
    exact ⟨hforward, hs'.increasing⟩
  · intro s a s' hs hstep hq
    exact (hs.step hdb hstep hq).1

/-- A message that is delivered at the first write. -/
def sampleItem (i : ℕ) : MessageListItem where
  id := "m1"
  appId := "app1"
  clientRef := none
  msisdn := "+237677123456"
  operator := .mtn
  senderIdValue := "VSMS"
  messageClass := .transactional
  state := if i = 0 then .submitted else .delivered
  stateReason := none
  encoding := .gsm7
  segments := 1
  providerMessageRef := none
  version := if i = 0 then 1 else 2
  createdAt := "2026-08-08T00:00:00.000Z"
  updatedAt := "2026-08-08T00:00:00.000Z"
  submittedAt := none
  finalizedAt := none

def sampleDb : Database := fun i id => if id = "m1" then some (sampleItem i) else none

theorem sampleDb_grows : Grows sampleDb where
  id := by
    intro i id row h
    unfold sampleDb at h
    split_ifs at h with hid
    rw [← Option.some.inj h, hid]
    rfl
  version := by
    intro i j id row row' hle h h'
    unfold sampleDb at h h'
    split_ifs at h h'
    rw [← Option.some.inj h, ← Option.some.inj h']
    dsimp only [sampleItem]
    split_ifs <;> omega

/-- The list is shown, and then the delivery. -/
def orderly : List PageAction :=
  [.list, .listed 0 0 ["m1"], .stream .call, .stream .run, .write, .fetched 0 1 ["m1"],
    .stream .run, .stream .run,
   .stream (.hub (.wait 2000)), .stream .timeout, .apply none false]

theorem along_steady_orderly :
    (exec (Page.step sampleDb) (Page.init 2000 0) orderly).map
      (fun s => s.view.rows.map (·.version)) = some [2] ∧
      Along (Page.step sampleDb) (fun s _ s' => Steady s s') (Page.init 2000 0) orderly :=
  ⟨by decide, along_steady sampleDb_grows 2000 0 orderly (by decide)⟩

/-- The first fetch of a tab takes longer than its call, and the next call begins another one, which
reads the delivery and ends first. -/
def overtaken : List PageAction :=
  [.stream .call, .stream .run, .stream (.hub (.wait 2000)), .stream .timeout, .stream .call,
    .stream .run, .write,
   .fetched 1 1 ["m1"], .stream .run, .stream .run, .fetched 0 0 ["m1"], .stream .run, .stream .run,
   .stream (.hub (.wait 2000)), .stream .timeout, .apply none false, .apply none false]

/-- **The message is shown as delivered, and then as submitted.** -/
theorem overtaken_not_steady :
    (exec (Page.step sampleDb) (Page.init 2000 0) overtaken).map (fun s =>
        s.view.rows.map fun row => (row.state, row.version)) = some [(.submitted, 1)] ∧
      ¬ Along (Page.step sampleDb) (fun s _ s' => Steady s s') (Page.init 2000 0) overtaken :=
  ⟨by decide, by decide⟩

end Vsms.Console.Display
