import Vsms.Lib.Framing
import Vsms.Lib.Consumers
import Vsms.Sso.Users

/-! # Sign-ins in flight

`begin_transaction` records a sign-in that leaves for the identity provider under the hash of its
`state`. The callback reads the row with that hash, deletes it by its id, and then looks at its
clock; `reap_expired` deletes what expired. Every statement commits on its own.

A delete of a row that is gone is an error, so of all the calls for one state at most one has
deleted the row, and only that one goes on to look at the clock (`always_singleUse`). -/

namespace Vsms.Sso.Transactions

open Vsms.Lib.Runs Vsms.Lib.Indexes Vsms.Lib.Framing Vsms.Lib.Consumers
open Vsms.Schema.Types Vsms.Sso.Users

/-! ## The table -/

structure SsoTransaction where
  id : String
  stateHash : String
  nonce : String
  codeVerifier : String
  consoleRequest : String
  isRetry : Bool
  expiresAt : Time
  deriving DecidableEq, Repr

/-- What the callback gets back for a `state`. -/
structure Transaction where
  consoleRequest : String
  nonce : String
  codeVerifier : String
  isRetry : Bool
  deriving DecidableEq, Repr

def SsoTransaction.transaction (row : SsoTransaction) : Transaction :=
  ⟨row.consoleRequest, row.nonce, row.codeVerifier, row.isRetry⟩

/-- **The table**, and every row that was ever in it: `cs_cuid()` does not give an id twice, and no
two sign-ins have the same random `state`. -/
structure Store where
  rows : List SsoTransaction
  begun : List SsoTransaction
  pkey : Unique SsoTransaction.id begun
  stateHashKey : Unique SsoTransaction.stateHash begun
  recorded : rows ⊆ begun

def Store.ofRows (rows : List SsoTransaction) (pkey : Unique SsoTransaction.id rows)
    (stateHashKey : Unique SsoTransaction.stateHash rows) : Store :=
  ⟨rows, rows, pkey, stateHashKey, fun _ h => h⟩

/-- The insert of a new row. -/
def Store.insert (st : Store) (row : SsoTransaction) : Option Store :=
  if h : ∀ x ∈ st.begun, x.id ≠ row.id ∧ x.stateHash ≠ row.stateHash then
    some {
      rows := st.rows ++ [row]
      begun := st.begun ++ [row]
      pkey := st.pkey.concat fun x hx => (h x hx).1
      stateHashKey := st.stateHashKey.concat fun x hx => (h x hx).2
      recorded := List.append_subset.mpr
        ⟨List.subset_append_of_subset_left _ st.recorded, List.subset_append_right _ _⟩ }
  else none

/-- `delete(id)`; nothing where no row has the id. -/
def Store.delete (st : Store) (id : String) : Option Store :=
  if ∃ x ∈ st.rows, x.id = id then
    some { st with
      rows := st.rows.filter (·.id ≠ id)
      recorded := fun _ h => st.recorded (List.mem_of_mem_filter h) }
  else none

/-- Rows that expired before `now`, oldest first. -/
def Store.expired (st : Store) (now : Time) (limit : ℕ) : List SsoTransaction :=
  selectRows (·.expiresAt < now) (·.expiresAt ≤ ·.expiresAt) limit st.rows

/-- `@length(min: 2, max: 16384)` -/
def validConsoleRequest (consoleRequest : String) : Bool :=
  2 ≤ consoleRequest.length && consoleRequest.length ≤ 16384

/-! ## Calls -/

/-- A call of `consume_transaction(state)`. `checked` has the row it deleted and the time at which
it looked at the expiry, for the proofs. -/
inductive Call
  | idle
  | lookingUp (state : String)
  | deleting (state : String) (row : SsoTransaction)
  /-- The row is deleted. -/
  | checking (state : String) (row : SsoTransaction)
  | returned (state : String) (checked : Option (SsoTransaction × Time))
      (result : Except SsoError (Option Transaction))

/-- A run of `reap_expired`. -/
inductive Reap
  | idle
  | listing (now : Time) (limit : ℕ)
  | deleting (rows : List SsoTransaction) (reaped : ℕ)
  | returned (result : Except SsoError ℕ)

structure Sys where
  store : Store
  calls : ℕ → Call
  reaps : ℕ → Reap

def init (store : Store) : Sys := ⟨store, fun _ => .idle, fun _ => .idle⟩

def Sys.setCall (s : Sys) (p : ℕ) (c : Call) : Sys :=
  { s with calls := Function.update s.calls p c }

def Sys.setReap (s : Sys) (p : ℕ) (r : Reap) : Sys :=
  { s with reaps := Function.update s.reaps p r }

/-- How a statement goes. -/
inductive Outcome
  | answered
  /-- It is carried out, and the answer does not arrive. -/
  | lost
  | failed
  deriving DecidableEq, Repr

/-- A delete: the table, and whether it was answered without an error. -/
def Store.tryDelete (st : Store) (id : String) : Outcome → Store × Bool
  | .failed => (st, false)
  | .lost => ((st.delete id).getD st, false)
  | .answered =>
    match st.delete id with
    | none => (st, false)
    | some st' => (st', true)

def transactionTtl : Time := minutes 5

section parameters
variable (sha256 : List UInt8 → Vector UInt8 32)

/-- **`state_hash`** -/
def stateHash (state : String) : String := hexEncode (sha256 (strBytes state)).toList

/-- The row of `begin_transaction`. -/
def newTransaction (id state nonce codeVerifier consoleRequest : String) (isRetry : Bool)
    (now : Time) :
    SsoTransaction :=
  ⟨id, stateHash sha256 state, nonce, codeVerifier, consoleRequest, isRetry, now + transactionTtl⟩

/-- The next statement of a call of `consume_transaction`. -/
def consume (st : Store) (outcome : Outcome) : Call → Option (Store × Call)
  | .lookingUp state =>
    match outcome with
    | .answered =>
      match st.rows.find? (·.stateHash = stateHash sha256 state) with
      | none => some (st, .returned state none (.ok none))
      | some row =>
        -- Compared once more, in constant time.
        if row.stateHash ≠ stateHash sha256 state then some (st, .returned state none (.ok none))
        else some (st, .deleting state row)
    | _ => some (st, .returned state none
        (.error (.unavailable "looking up the SSO transaction failed")))
  | .deleting state row =>
    match st.tryDelete row.id outcome with
    | (st', false) => some (st', .returned state none (.ok none))
    | (st', true) => some (st', .checking state row)
  | _ => none

/-- The look at the clock. -/
def checkExpiry (now : Time) : Call → Option Call
  | .checking state row =>
    if row.expiresAt ≤ now then some (.returned state (some (row, now)) (.ok none))
    else some (.returned state (some (row, now)) (.ok (some row.transaction)))
  | _ => none

/-- The next statement of `reap_expired`. -/
def reap (st : Store) (outcome : Outcome) : Reap → Option (Store × Reap)
  | .listing now limit =>
    match outcome with
    | .answered => some (st, .deleting (st.expired now limit) 0)
    | _ => some (st, .returned (.error (.unavailable "listing expired SSO transactions failed")))
  | .deleting (row :: rows) reaped =>
    match st.tryDelete row.id outcome with
    | (st', false) => some (st', .deleting rows reaped)
    | (st', true) => some (st', .deleting rows (reaped + 1))
  | .deleting [] reaped => some (st, .returned (.ok reaped))
  | _ => none

inductive Action
  | begin (id state nonce codeVerifier consoleRequest : String) (isRetry : Bool) (now : Time)
  | consume (p : ℕ) (state : String)
  | next (p : ℕ) (outcome : Outcome)
  | check (p : ℕ) (now : Time)
  | reap (p : ℕ) (now : Time) (limit : ℕ)
  | nextReap (p : ℕ) (outcome : Outcome)
  deriving DecidableEq, Repr

def step (s : Sys) : Action → Option Sys
  | .begin id state nonce codeVerifier consoleRequest isRetry now =>
    if validConsoleRequest consoleRequest then
      (s.store.insert
        (newTransaction sha256 id state nonce codeVerifier consoleRequest isRetry now)).map
        fun store => { s with store }
    else none
  | .consume p state =>
    match s.calls p with
    | .idle => some (s.setCall p (.lookingUp state))
    | _ => none
  | .next p outcome =>
    (consume sha256 s.store outcome (s.calls p)).map fun (store, c) => { s with store }.setCall p c
  | .check p now => (checkExpiry now (s.calls p)).map (s.setCall p)
  | .reap p now limit =>
    match s.reaps p with
    | .idle => some (s.setReap p (.listing now limit))
    | _ => none
  | .nextReap p outcome =>
    (reap s.store outcome (s.reaps p)).map fun (store, r) => { s with store }.setReap p r

end parameters

/-! ## What the statements do -/

/-- Rows come in new, and a row that is gone does not come back. -/
structure Later (st st' : Store) : Prop where
  begun : st.begun ⊆ st'.begun
  gone : ∀ x ∈ st.begun, x ∉ st.rows → x ∉ st'.rows

theorem Later.refl (st : Store) : Later st st := ⟨fun _ h => h, fun _ _ h => h⟩

variable {st st' : Store} {row : SsoTransaction}

theorem later_insert (h : st.insert row = some st') : Later st st' := by
  unfold Store.insert at h
  split_ifs at h with hnew
  cases h
  refine ⟨List.subset_append_left _ _, fun x hx hgone hmem => ?_⟩
  rcases List.mem_append.mp hmem with hmem | hmem
  · exact hgone hmem
  · rw [List.mem_singleton.mp hmem] at hx
    exact (hnew row hx).1 rfl

theorem later_delete {id : String} (h : st.delete id = some st') : Later st st' := by
  unfold Store.delete at h
  split_ifs at h
  cases h
  exact ⟨fun _ h => h, fun x _ hgone hmem => hgone (List.mem_of_mem_filter hmem)⟩

/-- A delete that succeeds has taken the row. -/
theorem taken_of_delete (hrow : row ∈ st.begun) (h : st.delete row.id = some st') :
    row ∈ st.rows ∧ row ∉ st'.rows := by
  unfold Store.delete at h
  split_ifs at h with hex
  cases h
  obtain ⟨x, hx, hid⟩ := hex
  -- The id names the row that was read.
  have hsame : x = row := st.pkey.eq (st.recorded hx) hrow hid
  refine ⟨hsame ▸ hx, fun hmem => ?_⟩
  simpa using List.of_mem_filter hmem

theorem later_tryDelete {id : String} {outcome : Outcome} {ok : Bool}
    (h : st.tryDelete id outcome = (st', ok)) : Later st st' := by
  cases outcome with
  | failed =>
    cases h
    exact .refl st
  | lost =>
    cases h
    cases hdelete : st.delete id with
    | none => exact .refl st
    | some st' => exact later_delete hdelete
  | answered =>
    unfold Store.tryDelete at h
    cases hdelete : st.delete id with
    | none =>
      rw [hdelete] at h
      cases h
      exact .refl st
    | some st'' =>
      rw [hdelete] at h
      cases h
      exact later_delete hdelete

theorem delete_of_tryDelete {id : String} {outcome : Outcome}
    (h : st.tryDelete id outcome = (st', true)) : st.delete id = some st' := by
  cases outcome with
  | failed => cases h
  | lost => cases h
  | answered =>
    unfold Store.tryDelete at h
    cases hdelete : st.delete id with
    | none =>
      rw [hdelete] at h
      cases h
    | some st'' =>
      rw [hdelete] at h
      cases h
      rfl

/-! ## What the calls know -/

/-- The row a call has deleted. -/
def Call.took : Call → Option SsoTransaction
  | .checking _ row => some row
  | .returned _ (some (row, _)) _ => some row
  | _ => none

section knows
variable (sha256 : List UInt8 → Vector UInt8 32)

/-- The row was recorded for the state. -/
def Recorded (st : Store) (state : String) (row : SsoTransaction) : Prop :=
  row ∈ st.begun ∧ row.stateHash = stateHash sha256 state

/-- The row was recorded for the state, and is gone. -/
def Taken (st : Store) (state : String) (row : SsoTransaction) : Prop :=
  Recorded sha256 st state row ∧ row ∉ st.rows

/-- What a call knows where it is. -/
def Knows (st : Store) : Call → Prop
  | .deleting state row => Recorded sha256 st state row
  | .checking state row => Taken sha256 st state row
  | .returned state checked result =>
    (∀ row now, checked = some (row, now) → Taken sha256 st state row) ∧
    ∀ t, result = .ok (some t) → ∃ row now, checked = some (row, now) ∧ now < row.expiresAt ∧
      t = row.transaction
  | _ => True

structure Inv (s : Sys) : Prop where
  calls : ∀ p, Knows sha256 s.store (s.calls p)
  exclusive : ∀ p q row, (s.calls p).took = some row → (s.calls q).took = some row → p = q

end knows

variable {sha256 : List UInt8 → Vector UInt8 32} {s s' : Sys} {a : Action}

theorem inv_init (st : Store) : Inv sha256 (init st) :=
  ⟨fun _ => trivial, fun _ _ _ h => by cases h⟩

theorem Recorded.later {state : String} (hl : Later st st') (h : Recorded sha256 st state row) :
    Recorded sha256 st' state row := ⟨hl.begun h.1, h.2⟩

theorem Taken.later {state : String} (hl : Later st st') (h : Taken sha256 st state row) :
    Taken sha256 st' state row := ⟨h.1.later hl, hl.gone row h.1.1 h.2⟩

theorem Knows.later {c : Call} (hl : Later st st') (h : Knows sha256 st c) :
    Knows sha256 st' c := by
  cases c with
  | idle => trivial
  | lookingUp state => trivial
  | deleting state row => exact Recorded.later hl h
  | checking state row => exact Taken.later hl h
  | returned state checked result => exact ⟨fun row now hc => (h.1 row now hc).later hl, h.2⟩

theorem Knows.gone {c : Call} (h : Knows sha256 st c) (ht : c.took = some row) : row ∉ st.rows := by
  unfold Call.took at ht
  split at ht
  · cases ht
    exact h.2
  · cases ht
    exact (h.1 _ _ rfl).2
  · cases ht

/-- A call that returns without a transaction. -/
theorem knows_none (st : Store) (state : String) :
    Knows sha256 st (.returned state none (.ok none)) := by
  constructor
  · intro row now h
    cases h
  · intro t h
    cases h

/-- **The next statement**: the call that takes a row finds it in the table. -/
theorem consume_knows {outcome : Outcome} {c c' : Call} (hc : Knows sha256 st c)
    (h : consume sha256 st outcome c = some (st', c')) :
    Later st st' ∧ Knows sha256 st' c' ∧ ∀ row, c'.took = some row → row ∈ st.rows := by
  cases c with
  | lookingUp state =>
    have hfailed : Knows sha256 st (.returned state none
        (.error (.unavailable "looking up the SSO transaction failed"))) :=
      ⟨fun _ _ h => (by cases h), fun t h => (by cases h)⟩
    cases outcome with
    | lost =>
      cases h
      exact ⟨.refl st, hfailed, fun _ h => by cases h⟩
    | failed =>
      cases h
      exact ⟨.refl st, hfailed, fun _ h => by cases h⟩
    | answered =>
      dsimp only [consume] at h
      split at h
      · cases h
        exact ⟨.refl st, knows_none st state, fun _ h => by cases h⟩
      · next row hfind =>
        split_ifs at h with hhash
        · cases h
          exact ⟨.refl st, knows_none st state, fun _ h => by cases h⟩
        · cases h
          refine ⟨.refl st, ⟨st.recorded (List.mem_of_find?_eq_some hfind), ?_⟩,
            fun _ h => by cases h⟩
          exact not_not.mp hhash
  | deleting state row =>
    dsimp only [consume] at h
    split at h
    · next hdelete =>
      cases h
      exact ⟨later_tryDelete hdelete, knows_none _ state, fun _ h => by cases h⟩
    · next hdelete =>
      cases h
      have hl := later_tryDelete hdelete
      obtain ⟨hin, hout⟩ := taken_of_delete hc.1 (delete_of_tryDelete hdelete)
      refine ⟨hl, ⟨Recorded.later hl hc, hout⟩, fun row' h => ?_⟩
      cases h
      exact hin
  | idle => cases h
  | checking state row => cases h
  | returned state checked result => cases h

theorem checkExpiry_knows {now : Time} {c c' : Call} (hc : Knows sha256 st c)
    (h : checkExpiry now c = some c') : Knows sha256 st c' ∧ c'.took = c.took := by
  unfold checkExpiry at h
  split at h
  · next state row =>
    have htaken : ∀ row' now', some (row, now) = some (row', now') →
        Taken sha256 st state row' := by
      intro row' now' heq
      cases heq
      exact hc
    split_ifs at h with hle
    · cases h
      exact ⟨⟨htaken, fun t h => by cases h⟩, rfl⟩
    · cases h
      refine ⟨⟨htaken, fun t ht => ⟨row, now, rfl, not_le.mp hle, ?_⟩⟩, rfl⟩
      cases ht
      rfl
  · cases h

theorem reap_later {outcome : Outcome} {r r' : Reap} (h : reap st outcome r = some (st', r')) :
    Later st st' := by
  unfold reap at h
  split at h
  · split at h
    · cases h
      exact .refl st
    · cases h
      exact .refl st
  · split at h
    · next hdelete =>
      cases h
      exact later_tryDelete hdelete
    · next hdelete =>
      cases h
      exact later_tryDelete hdelete
  · cases h
    exact .refl st
  · cases h

/-! ## Runs -/

/-- A call goes on. -/
theorem Inv.call (hs : Inv sha256 s) {p : ℕ} {c : Call} {st : Store} (hl : Later s.store st)
    (hc : Knows sha256 st c)
    (htook : ∀ row, c.took = some row → row ∈ s.store.rows ∨ (s.calls p).took = some row) :
    Inv sha256 ({ s with store := st }.setCall p c) := by
  -- A row that is taken now was not taken by another call before.
  have hother : ∀ q row, q ≠ p → c.took = some row → (s.calls q).took = some row → False := by
    intro q row hq hrow hqrow
    rcases htook row hrow with hin | hp
    · exact (hs.calls q).gone hqrow hin
    · exact hq (hs.exclusive q p row hqrow hp)
  refine ⟨?_, fun p' q' row hp' hq' => ?_⟩
  · exact (Function.forall_update_iff s.calls fun _ => Knows sha256 st).mpr
      ⟨hc, fun q _ => (hs.calls q).later hl⟩
  · rcases update_cases Call.took hp' with ⟨hpe, hp₁⟩ | ⟨hpne, hp₁⟩
    · rcases update_cases Call.took hq' with ⟨hqe, -⟩ | ⟨hqne, hq₁⟩
      · exact hpe.trans hqe.symm
      · exact (hother q' row hqne hp₁ hq₁).elim
    · rcases update_cases Call.took hq' with ⟨-, hq₁⟩ | ⟨-, hq₁⟩
      · exact (hother p' row hpne hq₁ hp₁).elim
      · exact hs.exclusive p' q' row hp₁ hq₁

/-- Anything else. -/
theorem Inv.other (hs : Inv sha256 s) {st : Store} (hl : Later s.store st) (reaps : ℕ → Reap) :
    Inv sha256 ⟨st, s.calls, reaps⟩ :=
  ⟨fun p => (hs.calls p).later hl, hs.exclusive⟩

theorem Inv.step_inv (hs : Inv sha256 s) (h : step sha256 s a = some s') : Inv sha256 s' := by
  cases a with
  | begin id state nonce codeVerifier consoleRequest isRetry now =>
    dsimp only [step] at h
    split_ifs at h
    obtain ⟨st, hst, rfl⟩ := Option.map_eq_some_iff.mp h
    exact hs.other (later_insert hst) s.reaps
  | consume p state =>
    dsimp only [step] at h
    split at h
    · cases h
      exact hs.call (.refl _) trivial fun _ h => by cases h
    · cases h
  | next p outcome =>
    obtain ⟨⟨st, c⟩, hc, rfl⟩ := Option.map_eq_some_iff.mp h
    obtain ⟨hl, hknows, htook⟩ := consume_knows (hs.calls p) hc
    exact hs.call hl hknows fun row hrow => Or.inl (htook row hrow)
  | check p now =>
    obtain ⟨c, hc, rfl⟩ := Option.map_eq_some_iff.mp h
    obtain ⟨hknows, htook⟩ := checkExpiry_knows (hs.calls p) hc
    exact hs.call (.refl _) hknows fun row hrow => Or.inr (htook ▸ hrow)
  | reap p now limit =>
    dsimp only [step] at h
    split at h
    · cases h
      exact hs.other (.refl _) _
    · cases h
  | nextReap p outcome =>
    obtain ⟨⟨st, r⟩, hr, rfl⟩ := Option.map_eq_some_iff.mp h
    exact hs.other (reap_later hr) _

/-- **A state is used once, and not after it expired.** -/
structure SingleUse (sha256 : List UInt8 → Vector UInt8 32) (s : Sys) : Prop where
  /-- At most one call gets the transaction of a state. -/
  once : ∀ p q state c c' t t', s.calls p = .returned state c (.ok (some t)) →
    s.calls q = .returned state c' (.ok (some t')) → p = q
  /-- It is the one recorded for that state, and the call looked at the clock before it expired. -/
  fresh : ∀ p state checked t, s.calls p = .returned state checked (.ok (some t)) →
    ∃ row now, checked = some (row, now) ∧ row ∈ s.store.begun ∧
      row.stateHash = stateHash sha256 state ∧ now < row.expiresAt ∧ t = row.transaction

theorem Inv.singleUse (hs : Inv sha256 s) : SingleUse sha256 s := by
  have hfresh : ∀ p state checked t, s.calls p = .returned state checked (.ok (some t)) →
      ∃ row now, checked = some (row, now) ∧ row ∈ s.store.begun ∧
        row.stateHash = stateHash sha256 state ∧ now < row.expiresAt ∧ t = row.transaction := by
    intro p state checked t hp
    have hknows := hs.calls p
    rw [hp] at hknows
    obtain ⟨row, now, rfl, hlt, ht⟩ := hknows.2 t rfl
    obtain ⟨⟨hbegun, hhash⟩, -⟩ := hknows.1 row now rfl
    exact ⟨row, now, rfl, hbegun, hhash, hlt, ht⟩
  refine ⟨fun p q state c c' t t' hp hq => ?_, hfresh⟩
  obtain ⟨row, now, rfl, hrow, hhash, -⟩ := hfresh p state c t hp
  obtain ⟨row', now', rfl, hrow', hhash', -⟩ := hfresh q state c' t' hq
  -- One state, one hash, one row.
  have hsame : row' = row := s.store.stateHashKey.eq hrow' hrow (hhash'.trans hhash.symm)
  subst hsame
  exact hs.exclusive p q row' (by rw [hp]; rfl) (by rw [hq]; rfl)

/-- **In every run.** -/
theorem always_singleUse (st : Store) (as : List Action) :
    Always (step sha256) (SingleUse sha256) (init st) as := by
  refine (along_true _ as).always (I := Inv sha256) (fun _ hs => hs.singleUse) ?_ (inv_init st)
  intro s a s' hs h _
  exact hs.step_inv h

/-- Two callbacks with one state both read the row; the reaper lists it too. The one that deletes it
first has it. -/
example : (exec (step fun _ => Vector.replicate 32 0)
    (init (.ofRows [] .nil .nil))
      [.begin "t1" "state" "n" "v" "\x7b\x7d" false 0, .consume 0 "state",
      .consume 1 "state", .next 0 .answered, .next 1 .answered, .reap 0 (minutes 6) 10,
      .nextReap 0 .answered, .next 1 .answered, .nextReap 0 .answered, .next 0 .answered,
      .check 1 (minutes 4)]).map (fun s =>
        match s.calls 0, s.calls 1 with
        | .returned _ _ (.ok t), .returned _ _ (.ok t') => (t, t')
        | _, _ => (none, none)) =
      some (none, some ⟨"\x7b\x7d", "n", "v", false⟩) := by decide +kernel

end Vsms.Sso.Transactions
