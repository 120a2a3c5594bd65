import Vsms.Lib.Runs
import Vsms.Schema.Types
import Mathlib.Data.List.Sort
import Mathlib.Data.List.Sublists

/-! # The replay cache

`PgNonceStore::record_if_unseen` inserts a row under the unique index on `nonce`; on a conflict it
reads the row, answers `false` while it has not expired, and otherwise deletes it by its id and
inserts once more. `sweep_envelope_nonces` deletes expired rows by their ids. Every statement
commits on its own, and any number of calls and sweeps are under way at a time, over one clock.

A row that is about to be deleted has expired: the clock does not go back, and an id names one row
for ever. So a row leaves the table only after it expired, and two calls record the same nonce only
if the first one's row was removed, expired, between the two (`replay_cache_safe`). -/

namespace Vsms.Api.Nonces

open Vsms.Lib.Runs Vsms.Schema.Types

/-- The columns of `envelope_nonces` that are read. Ids are numbered in the order of the inserts:
`cs_cuid()` does not give an id twice. -/
structure EnvelopeNonce where
  id : ℕ
  nonce : String
  expiresAt : Time
  deriving DecidableEq, Repr

/-- `@length(min: 1, max: 255)` of the generated input type. -/
def validNonce (nonce : String) : Bool := 1 ≤ nonce.length && nonce.length ≤ 255

/-- A call of `record_if_unseen(nonce, expires_at)`. -/
inductive Call
  | idle
  | inserting (nonce : String) (expiresAt : Time)
  /-- The insert failed on the unique index. -/
  | seen (nonce : String) (expiresAt : Time)
  /-- The row that was read, before its expiry is looked at. -/
  | found (nonce : String) (expiresAt : Time) (existing : EnvelopeNonce)
  | deleting (nonce : String) (expiresAt : Time) (existing : EnvelopeNonce)
  /-- `insert_once_more` -/
  | insertingOnceMore (nonce : String) (expiresAt : Time)
  | returned (nonce : String) (expiresAt : Time) (result : Bool)
  /-- Returned an error, or the process stopped. -/
  | failed
  deriving DecidableEq, Repr

/-- Rows a sweep reads at a time. -/
def batch : ℕ := 500

/-- Batches of a sweep. -/
def maxBatches : ℕ := 40

/-- A run of `sweep_envelope_nonces` as of `now`, with `left` batches still to read. -/
inductive Sweep
  | idle
  | fetching (now : Time) (left : ℕ)
  | deleting (now : Time) (left : ℕ) (rows : List EnvelopeNonce) (full : Bool)
  deriving DecidableEq, Repr

/-- What happened to the table, with the clock. -/
inductive Event
  | inserted (call : ℕ) (row : EnvelopeNonce) (clock : Time)
  | removed (row : EnvelopeNonce) (clock : Time)
  deriving DecidableEq, Repr

structure Sys where
  clock : Time
  /-- The id of the next row. -/
  next : ℕ
  rows : List EnvelopeNonce
  calls : ℕ → Call
  sweeps : ℕ → Sweep
  /-- Oldest first. -/
  log : List Event

def init (clock : Time) : Sys := ⟨clock, 0, [], fun _ => .idle, fun _ => .idle, []⟩

/-! ## The statements -/

/-- The row the unique index holds for a nonce. -/
def Sys.lookup (s : Sys) (nonce : String) : Option EnvelopeNonce :=
  s.rows.find? (·.nonce = nonce)

def Sys.insert (s : Sys) (p : ℕ) (nonce : String) (expiresAt : Time) : Sys :=
  let row : EnvelopeNonce := ⟨s.next, nonce, expiresAt⟩
  { s with
    next := s.next + 1
    rows := s.rows ++ [row]
    log := s.log ++ [.inserted p row s.clock] }

/-- Delete by id; a row that is gone is not an error. -/
def Sys.delete (s : Sys) (id : ℕ) : Sys :=
  match s.rows.find? (·.id = id) with
  | none => s
  | some row =>
    { s with
      rows := s.rows.filter (·.id ≠ id)
      log := s.log ++ [.removed row s.clock] }

/-- The rows of one batch: expired before `now`, oldest first. -/
def selectExpired (rows : List EnvelopeNonce) (now : Time) : List EnvelopeNonce :=
  ((rows.filter (·.expiresAt < now)).insertionSort (·.expiresAt ≤ ·.expiresAt)).take batch

def Sys.setCall (s : Sys) (p : ℕ) (c : Call) : Sys :=
  { s with calls := Function.update s.calls p c }

def Sys.setSweep (s : Sys) (p : ℕ) (w : Sweep) : Sys :=
  { s with sweeps := Function.update s.sweeps p w }

/-! ## Calls and sweeps -/

inductive CallOp
  | call (nonce : String) (expiresAt : Time)
  /-- The next statement, or the next look at the clock. -/
  | go
  /-- The next statement is carried out, and its answer is lost. -/
  | lost
  | fail
  deriving DecidableEq, Repr

/-- The next statement of a call. -/
def callStep (s : Sys) (p : ℕ) : Call → Option Sys
  | .inserting nonce expiresAt =>
    if !validNonce nonce then some (s.setCall p .failed)
    else if (s.lookup nonce).isSome then some (s.setCall p (.seen nonce expiresAt))
    else some ((s.insert p nonce expiresAt).setCall p (.returned nonce expiresAt true))
  | .seen nonce expiresAt =>
    match s.lookup nonce with
    | none => some (s.setCall p (.insertingOnceMore nonce expiresAt))
    | some existing => some (s.setCall p (.found nonce expiresAt existing))
  | .found nonce expiresAt existing =>
    if s.clock < existing.expiresAt then some (s.setCall p (.returned nonce expiresAt false))
    else some (s.setCall p (.deleting nonce expiresAt existing))
  | .deleting nonce expiresAt existing =>
    some ((s.delete existing.id).setCall p (.insertingOnceMore nonce expiresAt))
  | .insertingOnceMore nonce expiresAt =>
    if (s.lookup nonce).isSome then some (s.setCall p (.returned nonce expiresAt false))
    else some ((s.insert p nonce expiresAt).setCall p (.returned nonce expiresAt true))
  | _ => none

def Call.underway : Call → Bool
  | .idle | .returned .. | .failed => false
  | _ => true

inductive SweepOp
  | start
  | go
  | fail
  deriving DecidableEq, Repr

/-- A sweep: read a batch, delete its rows one by one, and read the next while batches are full. -/
def sweepStep (s : Sys) (p : ℕ) : SweepOp → Sweep → Option Sys
  | .start, .idle => some (s.setSweep p (.fetching s.clock maxBatches))
  | .go, .fetching _ 0 => some (s.setSweep p .idle)
  | .go, .fetching now (left + 1) =>
    let rows := selectExpired s.rows now
    some (s.setSweep p (.deleting now left rows (rows.length = batch)))
  | .go, .deleting now left (row :: rows) full =>
    some ((s.delete row.id).setSweep p (.deleting now left rows full))
  | .go, .deleting now left [] full =>
    some (s.setSweep p (if full then .fetching now left else .idle))
  | .fail, .fetching .. => some (s.setSweep p .idle)
  | .fail, .deleting .. => some (s.setSweep p .idle)
  | _, _ => none

inductive Action
  /-- Time passes. -/
  | tick (now : Time)
  | call (p : ℕ) (op : CallOp)
  | sweep (p : ℕ) (op : SweepOp)
  deriving DecidableEq, Repr

def step (s : Sys) : Action → Option Sys
  | .tick now => if s.clock ≤ now then some { s with clock := now } else none
  | .call p (.call nonce expiresAt) =>
    if s.calls p = .idle then some (s.setCall p (.inserting nonce expiresAt)) else none
  | .call p .go => callStep s p (s.calls p)
  | .call p .lost => (callStep s p (s.calls p)).map fun t => t.setCall p .failed
  | .call p .fail => if (s.calls p).underway then some (s.setCall p .failed) else none
  | .sweep p op => sweepStep s p op (s.sweeps p)

/-! ## The history -/

/-- The row was inserted at some time. -/
def Recorded (log : List Event) (row : EnvelopeNonce) : Prop := ∃ p c, .inserted p row c ∈ log

/-- **The table and its history**: ids name one row for ever; a row that is no longer there was
removed after it expired; so was every row that another of its nonce follows. -/
structure History (s : Sys) : Prop where
  fresh : ∀ row, Recorded s.log row → row.id < s.next
  unique : ∀ p row c p' row' c', .inserted p row c ∈ s.log → .inserted p' row' c' ∈ s.log →
    row.id = row'.id → p = p' ∧ row = row' ∧ c = c'
  recorded : ∀ row ∈ s.rows, Recorded s.log row
  gone : ∀ p row c, .inserted p row c ∈ s.log → row ∈ s.rows ∨
    ∃ k, [.inserted p row c, .removed row k].Sublist s.log ∧ row.expiresAt ≤ k ∧ k ≤ s.clock
  replaced : ∀ p row c p' row' c', [.inserted p row c, .inserted p' row' c'].Sublist s.log →
    row.nonce = row'.nonce →
    ∃ k, [.inserted p row c, .removed row k, .inserted p' row' c'].Sublist s.log ∧
      row.expiresAt ≤ k ∧ k ≤ c'

/-- A row that was inserted and has expired. -/
def Expired (s : Sys) (row : EnvelopeNonce) : Prop := Recorded s.log row ∧ row.expiresAt ≤ s.clock

theorem history_init (clock : Time) : History (init clock) where
  fresh := fun _ h => by obtain ⟨_, _, h⟩ := h; cases h
  unique := fun _ _ _ _ _ _ h => by cases h
  recorded := fun _ h => by cases h
  gone := fun _ _ _ h => by cases h
  replaced := fun _ _ _ _ _ _ h => by cases h

theorem lookup_none {s : Sys} {nonce : String} (h : s.lookup nonce = none) :
    ∀ row ∈ s.rows, row.nonce ≠ nonce := by
  intro row hrow
  simpa using List.find?_eq_none.mp h row hrow

theorem mem_concat_iff {e e' : Event} {log : List Event} : e ∈ log ++ [e'] ↔ e ∈ log ∨ e = e' := by
  simp

/-- A pair of events of a history that goes on. -/
theorem pair_concat {a b e : Event} {log : List Event} (h : [a, b].Sublist (log ++ [e])) :
    [a, b].Sublist log ∨ (a ∈ log ∧ b = e) := by
  obtain ⟨l₁, l₂, hl, h₁, h₂⟩ := List.sublist_append_iff.mp h
  rcases List.eq_nil_or_concat l₂ with rfl | ⟨l, x, rfl⟩
  · rw [List.append_nil] at hl
    exact .inl (hl ▸ h₁)
  · have hx : l = [] ∧ x = e := by
      have hlen := h₂.length_le
      simp only [List.concat_eq_append, List.length_append, List.length_singleton] at hlen
      have hnil : l = [] := List.length_eq_zero_iff.mp (by omega)
      subst hnil
      simpa using h₂
    obtain ⟨rfl, rfl⟩ := hx
    have hab : [a] = l₁ ∧ b = x := by
      have : [a] ++ [b] = l₁ ++ [x] := by simpa using hl
      simpa using List.append_inj' this rfl
    obtain ⟨rfl, rfl⟩ := hab
    exact .inr ⟨List.singleton_sublist.mp h₁, rfl⟩

section history
variable {s : Sys} (hs : History s)
include hs

/-- **An insert that the unique index lets through.** -/
theorem History.insert {nonce : String} (h : s.lookup nonce = none) (p : ℕ) (expiresAt : Time) :
    History (s.insert p nonce expiresAt) := by
  set row : EnvelopeNonce := ⟨s.next, nonce, expiresAt⟩ with hrow
  have hlog : (s.insert p nonce expiresAt).log = s.log ++ [.inserted p row s.clock] := rfl
  have hgrow : s.log.Sublist (s.insert p nonce expiresAt).log := List.sublist_append_left _ _
  refine ⟨?_, ?_, ?_, ?_, ?_⟩
  · rintro row' ⟨q, c, hq⟩
    rw [hlog, mem_concat_iff] at hq
    rcases hq with hq | hq
    · exact Nat.lt_succ_of_lt (hs.fresh row' ⟨q, c, hq⟩)
    · cases hq
      exact Nat.lt_succ_self _
  · intro q row₁ c q' row₂ c' h₁ h₂ hid
    rw [hlog, mem_concat_iff] at h₁ h₂
    rcases h₁ with h₁ | h₁ <;> rcases h₂ with h₂ | h₂
    · exact hs.unique _ _ _ _ _ _ h₁ h₂ hid
    · cases h₂
      exact absurd hid (Nat.ne_of_lt (hs.fresh row₁ ⟨q, c, h₁⟩))
    · cases h₁
      exact absurd hid.symm (Nat.ne_of_lt (hs.fresh row₂ ⟨q', c', h₂⟩))
    · cases h₁
      cases h₂
      exact ⟨rfl, rfl, rfl⟩
  · intro row' hrow'
    rcases List.mem_append.mp hrow' with h' | h'
    · obtain ⟨q, c, hq⟩ := hs.recorded row' h'
      exact ⟨q, c, hgrow.subset hq⟩
    · rw [List.mem_singleton.mp h']
      exact ⟨p, s.clock, List.mem_append_right _ List.mem_cons_self⟩
  · intro q row' c hq
    rw [hlog, mem_concat_iff] at hq
    rcases hq with hq | hq
    · rcases hs.gone q row' c hq with h' | ⟨k, hk, hle⟩
      · exact .inl (List.mem_append_left _ h')
      · exact .inr ⟨k, hk.trans hgrow, hle⟩
    · cases hq
      exact .inl (List.mem_append_right _ List.mem_cons_self)
  · intro q row₁ c q' row₂ c' hpair hnonce
    rcases pair_concat hpair with hpair | ⟨h₁, h₂⟩
    · obtain ⟨k, hk, hle⟩ := hs.replaced _ _ _ _ _ _ hpair hnonce
      exact ⟨k, hk.trans hgrow, hle⟩
    · cases h₂
      -- The earlier row is not in the table: the index would have refused the insert.
      rcases hs.gone q row₁ c h₁ with h' | ⟨k, hk, hle⟩
      · exact absurd hnonce (lookup_none h row₁ h')
      · exact ⟨k, hk.append (List.Sublist.refl [Event.inserted p row s.clock]), hle⟩

/-- **A delete of a row that has expired.** -/
theorem History.delete {row : EnvelopeNonce} (h : Expired s row) : History (s.delete row.id) := by
  unfold Sys.delete
  split
  · exact hs
  · next found hfound =>
    have hmem : found ∈ s.rows := List.mem_of_find?_eq_some hfound
    have hid : found.id = row.id := by simpa using List.find?_some hfound
    -- The id names the row that was read.
    have hsame : found = row := by
      obtain ⟨p, c, hp⟩ := hs.recorded found hmem
      obtain ⟨⟨q, c', hq⟩, -⟩ := h
      exact (hs.unique _ _ _ _ _ _ hp hq hid).2.1
    subst hsame
    have hgrow : s.log.Sublist (s.log ++ [.removed found s.clock]) := List.sublist_append_left _ _
    have hins : ∀ {q row' c}, .inserted q row' c ∈ s.log ++ [.removed found s.clock] →
        .inserted q row' c ∈ s.log := by
      intro q row' c hq
      rcases mem_concat_iff.mp hq with hq | hq
      · exact hq
      · cases hq
    refine ⟨?_, ?_, ?_, ?_, ?_⟩
    · rintro row' ⟨q, c, hq⟩
      exact hs.fresh row' ⟨q, c, hins hq⟩
    · intro q row₁ c q' row₂ c' h₁ h₂ hid
      exact hs.unique _ _ _ _ _ _ (hins h₁) (hins h₂) hid
    · intro row' hrow'
      obtain ⟨q, c, hq⟩ := hs.recorded row' (List.mem_of_mem_filter hrow')
      exact ⟨q, c, hgrow.subset hq⟩
    · intro q row' c hq
      have hq' : .inserted q row' c ∈ s.log := hins hq
      rcases hs.gone q row' c hq' with h' | ⟨k, hk, hle⟩
      · by_cases hid' : row'.id = found.id
        · obtain ⟨p, c₁, hp⟩ := hs.recorded found hmem
          have hrow' := (hs.unique _ _ _ _ _ _ hq' hp hid').2.1
          subst hrow'
          have hpair := (List.singleton_sublist.mpr hq').append
            (List.Sublist.refl [Event.removed row' s.clock])
          exact .inr ⟨s.clock, hpair, h.2, le_refl _⟩
        · exact .inl (List.mem_filter.mpr ⟨h', by simpa using hid'⟩)
      · exact .inr ⟨k, hk.trans hgrow, hle⟩
    · intro q row₁ c q' row₂ c' hpair hnonce
      rcases pair_concat hpair with hpair | ⟨-, h₂⟩
      · obtain ⟨k, hk, hle⟩ := hs.replaced _ _ _ _ _ _ hpair hnonce
        exact ⟨k, hk.trans hgrow, hle⟩
      · cases h₂

theorem History.tick {now : Time} (h : s.clock ≤ now) : History { s with clock := now } := by
  refine ⟨hs.fresh, hs.unique, hs.recorded, fun p row c hp => ?_, hs.replaced⟩
  rcases hs.gone p row c hp with h' | ⟨k, hk, hle, hk'⟩
  · exact .inl h'
  · exact .inr ⟨k, hk, hle, hk'.trans h⟩

end history

/-! ## What the calls and the sweeps know -/

/-- Time has passed and the history has gone on. -/
structure Later (s t : Sys) : Prop where
  clock : s.clock ≤ t.clock
  log : s.log.Sublist t.log

theorem Later.expired {s t : Sys} (h : Later s t) {row : EnvelopeNonce} (he : Expired s row) :
    Expired t row := by
  obtain ⟨⟨p, c, hp⟩, hle⟩ := he
  exact ⟨⟨p, c, h.log.subset hp⟩, hle.trans h.clock⟩

/-- The call `p` has put its row into the table. -/
def HasRecorded (log : List Event) (p : ℕ) (nonce : String) (expiresAt : Time) : Prop :=
  ∃ row c, .inserted p row c ∈ log ∧ row.nonce = nonce ∧ row.expiresAt = expiresAt

/-- What call `p` knows where it is. -/
def CallKnows (s : Sys) (p : ℕ) : Call → Prop
  | .found _ _ existing => Recorded s.log existing
  | .deleting _ _ existing => Expired s existing
  | .returned nonce expiresAt true => HasRecorded s.log p nonce expiresAt
  | _ => True

/-- What a sweep knows where it is. -/
def SweepKnows (s : Sys) : Sweep → Prop
  | .idle => True
  | .fetching now _ => now ≤ s.clock
  | .deleting now _ rows _ => now ≤ s.clock ∧ ∀ row ∈ rows, Expired s row

theorem Later.callKnows {s t : Sys} (h : Later s t) {p : ℕ} {c : Call} (hc : CallKnows s p c) :
    CallKnows t p c := by
  match c, hc with
  | .idle, _ => trivial
  | .inserting .., _ => trivial
  | .seen .., _ => trivial
  | .found _ _ existing, ⟨q, k, hq⟩ => exact ⟨q, k, h.log.subset hq⟩
  | .deleting _ _ existing, he => exact h.expired he
  | .insertingOnceMore .., _ => trivial
  | .returned _ _ true, ⟨row, k, hr, hrest⟩ => exact ⟨row, k, h.log.subset hr, hrest⟩
  | .returned _ _ false, _ => trivial
  | .failed, _ => trivial

theorem Later.sweepKnows {s t : Sys} (h : Later s t) {w : Sweep} (hw : SweepKnows s w) :
    SweepKnows t w := by
  cases w with
  | idle => trivial
  | fetching now left => exact le_trans hw h.clock
  | deleting now left rows full =>
    exact ⟨hw.1.trans h.clock, fun row hrow => h.expired (hw.2 row hrow)⟩

def Call.finished : Call → Bool
  | .returned .. | .failed => true
  | _ => false

/-- **The invariant.** -/
structure Inv (s : Sys) : Prop where
  history : History s
  calls : ∀ p, CallKnows s p (s.calls p)
  sweeps : ∀ p, SweepKnows s (s.sweeps p)
  finished : ∀ p row c, .inserted p row c ∈ s.log → (s.calls p).finished = true
  once : ∀ p row c row' c', .inserted p row c ∈ s.log → .inserted p row' c' ∈ s.log → row = row'

theorem inv_init (clock : Time) : Inv (init clock) where
  history := history_init clock
  calls := fun _ => trivial
  sweeps := fun _ => trivial
  finished := fun _ _ _ h => by cases h
  once := fun _ _ _ _ _ h => by cases h

/-- **What a statement of call `p`, or of a sweep, does to the table**: nothing, an insert the
unique index lets through, or a delete of an expired row. -/
inductive Statement (s : Sys) : Option ℕ → Sys → Prop
  | none {who : Option ℕ} : Statement s who s
  | insert {p : ℕ} {nonce : String} (expiresAt : Time) (h : s.lookup nonce = .none) :
      Statement s (some p) (s.insert p nonce expiresAt)
  | delete {who : Option ℕ} {row : EnvelopeNonce} (h : Expired s row) :
      Statement s who (s.delete row.id)

theorem later_insert (s : Sys) (p : ℕ) (nonce : String) (expiresAt : Time) :
    Later s (s.insert p nonce expiresAt) := ⟨le_refl _, List.sublist_append_left _ _⟩

theorem later_delete (s : Sys) (id : ℕ) : Later s (s.delete id) := by
  unfold Sys.delete
  split
  · exact ⟨le_refl _, List.Sublist.refl _⟩
  · exact ⟨le_refl _, List.sublist_append_left _ _⟩

theorem delete_procs (s : Sys) (id : ℕ) :
    (s.delete id).calls = s.calls ∧ (s.delete id).sweeps = s.sweeps := by
  unfold Sys.delete
  split <;> exact ⟨rfl, rfl⟩

theorem inserted_of_delete {s : Sys} {id p : ℕ} {row : EnvelopeNonce} {c : Time}
    (h : .inserted p row c ∈ (s.delete id).log) : .inserted p row c ∈ s.log := by
  unfold Sys.delete at h
  split at h
  · exact h
  · rcases mem_concat_iff.mp h with h | h
    · exact h
    · cases h

section statement
variable {s t : Sys} {who : Option ℕ} (h : Statement s who t)
include h

theorem Statement.later : Later s t := by
  cases h with
  | none => exact ⟨le_refl _, List.Sublist.refl _⟩
  | insert => exact later_insert ..
  | delete => exact later_delete ..

theorem Statement.procs : t.calls = s.calls ∧ t.sweeps = s.sweeps := by
  cases h with
  | none => exact ⟨rfl, rfl⟩
  | insert => exact ⟨rfl, rfl⟩
  | delete => exact delete_procs ..

theorem Statement.history (hs : History s) : History t := by
  cases h with
  | none => exact hs
  | insert expiresAt hn => exact hs.insert hn _ _
  | delete he => exact hs.delete he

/-- Only the call itself inserts. -/
theorem Statement.inserted {p : ℕ} {row : EnvelopeNonce} {c : Time}
    (hr : .inserted p row c ∈ t.log) :
    .inserted p row c ∈ s.log ∨ (who = some p ∧ t = s.insert p row.nonce row.expiresAt) := by
  cases h with
  | none => exact .inl hr
  | insert expiresAt hn =>
    rcases mem_concat_iff.mp hr with hr | hr
    · exact .inl hr
    · cases hr
      exact .inr ⟨rfl, rfl⟩
  | delete he => exact .inl (inserted_of_delete hr)

/-- And it inserts one row. -/
theorem Statement.once {p : ℕ} (hnew : ∀ row k, .inserted p row k ∉ s.log)
    {row row' : EnvelopeNonce} {k k' : Time} (hr : .inserted p row k ∈ t.log)
    (hr' : .inserted p row' k' ∈ t.log) : row = row' := by
  rcases h.inserted hr with hr | ⟨-, ht⟩
  · exact absurd hr (hnew _ _)
  · subst ht
    rcases mem_concat_iff.mp hr with hr | hr
    · exact absurd hr (hnew _ _)
    · rcases mem_concat_iff.mp hr' with hr' | hr'
      · exact absurd hr' (hnew _ _)
      · injection hr with _ hrow
        injection hr' with _ hrow'
        rw [hrow, hrow']

end statement

/-- **What a step does.** A call that inserts has finished. -/
inductive Effect (s : Sys) : Sys → Prop
  | tick {now : Time} (h : s.clock ≤ now) : Effect s { s with clock := now }
  | call {p : ℕ} {t : Sys} {c : Call} (hp : (s.calls p).finished = false)
      (h : Statement s (some p) t) (hk : CallKnows t p c)
      (hc : c.finished = true ∨ ∀ row k, .inserted p row k ∈ t.log → .inserted p row k ∈ s.log) :
      Effect s (t.setCall p c)
  | sweep {p : ℕ} {t : Sys} {w : Sweep} (h : Statement s none t) (hk : SweepKnows t w) :
      Effect s (t.setSweep p w)

theorem hasRecorded_insert (s : Sys) (p : ℕ) (nonce : String) (expiresAt : Time) :
    HasRecorded (s.insert p nonce expiresAt).log p nonce expiresAt :=
  ⟨_, s.clock, List.mem_append_right _ List.mem_cons_self, rfl, rfl⟩

/-- The next statement of a call. -/
theorem callStep_effect {s s' : Sys} (hs : Inv s) {p : ℕ} (h : callStep s p (s.calls p) = some s') :
    ∃ t c, s' = t.setCall p c ∧ (s.calls p).finished = false ∧ Statement s (some p) t ∧
      CallKnows t p c ∧
      (c.finished = true ∨ ∀ row k, .inserted p row k ∈ t.log → .inserted p row k ∈ s.log) := by
  have hknows := hs.calls p
  generalize hcall : s.calls p = c at h hknows
  unfold callStep at h
  split at h
  · split_ifs at h with hv hl
    · cases h
      exact ⟨s, _, rfl, rfl, .none, trivial, .inl rfl⟩
    · cases h
      exact ⟨s, _, rfl, rfl, .none, trivial, .inr fun _ _ h => h⟩
    · cases h
      refine ⟨_, _, rfl, rfl, .insert _ ?_, hasRecorded_insert .., .inl rfl⟩
      simpa using hl
  · split at h
    · cases h
      exact ⟨s, _, rfl, rfl, .none, trivial, .inr fun _ _ h => h⟩
    · next existing hl =>
      cases h
      refine ⟨s, _, rfl, rfl, .none, ?_, .inr fun _ _ h => h⟩
      exact hs.history.recorded existing (List.mem_of_find?_eq_some hl)
  · split_ifs at h with hlt
    · cases h
      exact ⟨s, _, rfl, rfl, .none, trivial, .inl rfl⟩
    · cases h
      exact ⟨s, _, rfl, rfl, .none, ⟨hknows, not_lt.mp hlt⟩, .inr fun _ _ h => h⟩
  · cases h
    exact ⟨_, _, rfl, rfl, .delete hknows, trivial, .inr fun _ _ h => inserted_of_delete h⟩
  · split_ifs at h with hl
    · cases h
      exact ⟨s, _, rfl, rfl, .none, trivial, .inl rfl⟩
    · cases h
      refine ⟨_, _, rfl, rfl, .insert _ ?_, hasRecorded_insert .., .inl rfl⟩
      simpa using hl
  · cases h

theorem expired_of_selected {s : Sys} (hs : History s) {now : Time} (hnow : now ≤ s.clock)
    {row : EnvelopeNonce} (h : row ∈ selectExpired s.rows now) : Expired s row := by
  have hmem := (List.mem_insertionSort _).mp (List.mem_of_mem_take h)
  obtain ⟨hrow, hlt⟩ := List.mem_filter.mp hmem
  exact ⟨hs.recorded row hrow, (of_decide_eq_true hlt).le.trans hnow⟩

theorem sweepStep_effect {s s' : Sys} (hs : Inv s) {p : ℕ} {op : SweepOp}
    (h : sweepStep s p op (s.sweeps p) = some s') : Effect s s' := by
  have hknows := hs.sweeps p
  generalize s.sweeps p = w at h hknows
  unfold sweepStep at h
  split at h
  · cases h
    exact .sweep .none (le_refl s.clock)
  · cases h
    exact .sweep .none trivial
  · cases h
    exact .sweep .none ⟨hknows, fun row hrow => expired_of_selected hs.history hknows hrow⟩
  · next now left row rows full =>
    cases h
    have hrow : Expired s row := hknows.2 row List.mem_cons_self
    have hlater := later_delete s row.id
    refine .sweep (.delete hrow) ⟨hknows.1.trans hlater.clock, fun row' hrow' => ?_⟩
    exact hlater.expired (hknows.2 row' (List.mem_cons_of_mem _ hrow'))
  · next now left full =>
    cases h
    refine .sweep .none ?_
    cases full with
    | true => exact hknows.1
    | false => trivial
  · cases h
    exact .sweep .none trivial
  · cases h
    exact .sweep .none trivial
  · cases h

theorem step_effect {s s' : Sys} {a : Action} (hs : Inv s) (h : step s a = some s') :
    Effect s s' := by
  cases a with
  | tick now =>
    dsimp only [step] at h
    split_ifs at h with hle
    cases h
    exact .tick hle
  | sweep p op => exact sweepStep_effect hs h
  | call p op =>
    cases op with
    | call nonce expiresAt =>
      dsimp only [step] at h
      split_ifs at h with hidle
      cases h
      exact .call (by rw [hidle]; rfl) .none trivial (.inr fun _ _ h => h)
    | go =>
      obtain ⟨t, c, rfl, hp, ht, hk, hc⟩ := callStep_effect hs h
      exact .call hp ht hk hc
    | lost =>
      obtain ⟨t', ht', rfl⟩ := Option.map_eq_some_iff.mp h
      obtain ⟨t, c, rfl, hp, ht, -, -⟩ := callStep_effect hs ht'
      have hlost : (t.setCall p c).setCall p .failed = t.setCall p .failed := by
        simp [Sys.setCall]
      rw [hlost]
      exact .call hp ht trivial (.inl rfl)
    | fail =>
      dsimp only [step] at h
      split_ifs at h with hu
      cases h
      refine .call ?_ .none trivial (.inl rfl)
      cases hc : s.calls p <;> rw [hc] at hu <;> first | rfl | cases hu

/-- A statement, and then the state of the call or of the sweep that made it. -/
theorem Inv.call {s t : Sys} (hs : Inv s) {p : ℕ} {c : Call} (hp : (s.calls p).finished = false)
    (h : Statement s (some p) t) (hk : CallKnows t p c)
    (hc : c.finished = true ∨ ∀ row k, .inserted p row k ∈ t.log → .inserted p row k ∈ s.log) :
    Inv (t.setCall p c) := by
  have hnew : ∀ row k, .inserted p row k ∉ s.log := by
    intro row k hr
    rw [hs.finished p row k hr] at hp
    cases hp
  have hother : ∀ {q row k}, q ≠ p → .inserted q row k ∈ t.log → .inserted q row k ∈ s.log := by
    intro q row k hq hr
    rcases h.inserted hr with hr | ⟨hwho, -⟩
    · exact hr
    · exact absurd (Option.some.inj hwho).symm hq
  have hhistory := h.history hs.history
  have hcalls : ∀ q, (t.setCall p c).calls q = if q = p then c else s.calls q := by
    intro q
    unfold Sys.setCall
    dsimp only
    rw [h.procs.1, Function.update_apply]
  refine ⟨⟨hhistory.1, hhistory.2, hhistory.3, hhistory.4, hhistory.5⟩, ?_, ?_, ?_, ?_⟩
  · intro q
    rw [hcalls]
    split_ifs with hq
    · subst hq
      exact Later.callKnows (s := t) ⟨le_refl _, List.Sublist.refl _⟩ hk
    · exact Later.callKnows (s := s) ⟨h.later.clock, h.later.log⟩ (hs.calls q)
  · intro q
    have hw : (t.setCall p c).sweeps q = s.sweeps q := congrFun h.procs.2 q
    rw [hw]
    exact Later.sweepKnows (s := s) ⟨h.later.clock, h.later.log⟩ (hs.sweeps q)
  · intro q row k hr
    rw [hcalls]
    split_ifs with hq
    · subst hq
      rcases hc with hc | hc
      · exact hc
      · exact absurd (hc row k hr) (hnew row k)
    · exact hs.finished q row k (hother hq hr)
  · intro q row k row' k' hr hr'
    by_cases hq : q = p
    · subst hq
      exact h.once hnew hr hr'
    · exact hs.once q row k row' k' (hother hq hr) (hother hq hr')

theorem Inv.sweep {s t : Sys} (hs : Inv s) {p : ℕ} {w : Sweep} (h : Statement s none t)
    (hk : SweepKnows t w) : Inv (t.setSweep p w) := by
  have hhistory := h.history hs.history
  have hins : ∀ {q row k}, .inserted q row k ∈ t.log → .inserted q row k ∈ s.log := by
    intro q row k hr
    rcases h.inserted hr with hr | ⟨hwho, -⟩
    · exact hr
    · cases hwho
  have hcalls : ∀ q, (t.setSweep p w).calls q = s.calls q := fun q => congrFun h.procs.1 q
  refine ⟨⟨hhistory.1, hhistory.2, hhistory.3, hhistory.4, hhistory.5⟩, ?_, ?_, ?_, ?_⟩
  · intro q
    rw [hcalls]
    exact Later.callKnows (s := s) ⟨h.later.clock, h.later.log⟩ (hs.calls q)
  · intro q
    unfold Sys.setSweep
    dsimp only
    rw [h.procs.2, Function.update_apply]
    split_ifs
    · exact Later.sweepKnows (s := t) ⟨le_refl _, List.Sublist.refl _⟩ hk
    · exact Later.sweepKnows (s := s) ⟨h.later.clock, h.later.log⟩ (hs.sweeps q)
  · intro q row k hr
    rw [hcalls]
    exact hs.finished q row k (hins hr)
  · intro q row k row' k' hr hr'
    exact hs.once q row k row' k' (hins hr) (hins hr')

/-- **The step.** -/
theorem inv_step {s s' : Sys} {a : Action} (hs : Inv s) (h : step s a = some s') : Inv s' := by
  cases step_effect hs h with
  | tick hle =>
    have hlater : Later s { s with clock := _ } := ⟨hle, List.Sublist.refl _⟩
    exact ⟨hs.history.tick hle, fun p => hlater.callKnows (hs.calls p),
      fun p => hlater.sweepKnows (hs.sweeps p), hs.finished, hs.once⟩
  | call hp ht hk hc => exact hs.call hp ht hk hc
  | sweep ht hk => exact hs.sweep ht hk

/-! ## Replays -/

/-- `q`'s row came into the table after `p`'s, which was removed in between, expired. -/
def Replaced (log : List Event) (p q : ℕ) : Prop :=
  ∃ row row' c c' k, [.inserted p row c, .removed row k, .inserted q row' c'].Sublist log ∧
    row.expiresAt ≤ k ∧ k ≤ c'

/-- Call `q` recorded its nonce from the insert of `entry` on, and before `entry` expired. -/
def RecordsWhile (log : List Event) (entry : Event) (expiresAt : Time) (q : ℕ) : Prop :=
  ∃ row c, (.inserted q row c = entry ∨ [entry, .inserted q row c].Sublist log) ∧ c < expiresAt

/-- **The replay cache is safe.** -/
structure ReplaySafe (s : Sys) : Prop where
  /-- A call that returned `true` has inserted its row, and no other. -/
  recorded : ∀ p nonce expiresAt, s.calls p = .returned nonce expiresAt true →
    HasRecorded s.log p nonce expiresAt ∧
    ∀ row c row' c', .inserted p row c ∈ s.log → .inserted p row' c' ∈ s.log → row = row'
  /-- Of two calls that returned `true` for one nonce, the row of the earlier had expired when it
  was removed. -/
  replaced : ∀ p q nonce e e', p ≠ q → s.calls p = .returned nonce e true →
    s.calls q = .returned nonce e' true → Replaced s.log p q ∨ Replaced s.log q p
  /-- While an entry has not expired, at most one call returned `true`. -/
  atMostOne : ∀ p₀ row₀ c₀, .inserted p₀ row₀ c₀ ∈ s.log → ∀ p q e e',
    s.calls p = .returned row₀.nonce e true → s.calls q = .returned row₀.nonce e' true →
    RecordsWhile s.log (.inserted p₀ row₀ c₀) row₀.expiresAt p →
    RecordsWhile s.log (.inserted p₀ row₀ c₀) row₀.expiresAt q → p = q

/-- Two members of a list, in the order they stand in. -/
theorem pair_sublist {α : Type*} {a b : α} {l : List α} (ha : a ∈ l) (hb : b ∈ l) (hne : a ≠ b) :
    [a, b].Sublist l ∨ [b, a].Sublist l := by
  induction l with
  | nil => cases ha
  | cons x l ih =>
    rcases List.mem_cons.mp ha with rfl | ha'
    · rcases List.mem_cons.mp hb with rfl | hb
      · exact absurd rfl hne
      · exact .inl ((List.singleton_sublist.mpr hb).cons_cons _)
    · rcases List.mem_cons.mp hb with rfl | hb'
      · exact .inr ((List.singleton_sublist.mpr ha').cons_cons _)
      · exact (ih ha' hb').imp (·.cons x) (·.cons x)

theorem Inv.replaySafe {s : Sys} (hs : Inv s) : ReplaySafe s := by
  have hrecorded : ∀ p nonce e, s.calls p = .returned nonce e true →
      HasRecorded s.log p nonce e := by
    intro p nonce e hp
    have hk := hs.calls p
    rw [hp] at hk
    exact hk
  refine ⟨fun p nonce e hp => ⟨hrecorded p nonce e hp, hs.once p⟩, ?_, ?_⟩
  · intro p q nonce e e' hne hp hq
    obtain ⟨row, c, hr, hn, -⟩ := hrecorded p nonce e hp
    obtain ⟨row', c', hr', hn', -⟩ := hrecorded q nonce e' hq
    have hevent : Event.inserted p row c ≠ .inserted q row' c' := by
      intro h
      cases h
      exact hne rfl
    rcases pair_sublist hr hr' hevent with hpair | hpair
    · obtain ⟨k, hk, hle⟩ := hs.history.replaced _ _ _ _ _ _ hpair (hn.trans hn'.symm)
      exact .inl ⟨row, row', c, c', k, hk, hle⟩
    · obtain ⟨k, hk, hle⟩ := hs.history.replaced _ _ _ _ _ _ hpair (hn'.trans hn.symm)
      exact .inr ⟨row', row, c', c, k, hk, hle⟩
  · intro p₀ row₀ c₀ h₀ p q e e' hp hq hwp hwq
    have hsame : ∀ r e, s.calls r = .returned row₀.nonce e true →
        RecordsWhile s.log (.inserted p₀ row₀ c₀) row₀.expiresAt r → r = p₀ := by
      rintro r e hr ⟨row, c, heq | hpair, hlt⟩
      · cases heq
        rfl
      · -- A later row of the nonce comes after the entry expired.
        obtain ⟨row', c', hr', hn, -⟩ := hrecorded r _ e hr
        have hmem : .inserted r row c ∈ s.log := hpair.subset (by simp)
        have hrow := hs.once r row c row' c' hmem hr'
        subst hrow
        obtain ⟨k, -, hle, hk⟩ := hs.history.replaced _ _ _ _ _ _ hpair hn.symm
        exact absurd hlt (not_lt.mpr (hle.trans hk))
    rw [hsame p e hp hwp, hsame q e' hq hwq]

/-- **In every run**, from an empty table and any time on. -/
theorem replay_cache_safe (clock : Time) (as : List Action) :
    Always step ReplaySafe (init clock) as := by
  refine Along.always (I := Inv) (Q := fun _ _ _ => True) (fun _ h => h.replaySafe) ?_
    (inv_init clock) (along_true _ as)
  intro s a s' hs h _
  exact inv_step hs h

/-- A nonce recorded at 0 until 5, refused at 3, and recorded again at 7 by a call that deletes the
expired row. -/
example : (exec step (init 0) [.call 0 (.call "kid:cti" 5), .call 0 .go, .tick 3,
    .call 1 (.call "kid:cti" 9), .call 1 .go, .call 1 .go, .call 1 .go, .tick 7,
    .call 2 (.call "kid:cti" 12), .call 2 .go, .call 2 .go, .call 2 .go, .call 2 .go,
    .call 2 .go]).map (fun s => (s.calls 0, s.calls 1, s.calls 2)) =
      some (.returned "kid:cti" 5 true, .returned "kid:cti" 9 false,
        .returned "kid:cti" 12 true) := by
  decide

end Vsms.Api.Nonces
