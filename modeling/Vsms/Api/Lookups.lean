import Vsms.Lib.Runs
import Vsms.Schema.Types
import Mathlib.Data.List.Count
import Mathlib.Order.Basic

/-! # The budget of delivery lookups

A budgeted lookup inserts its own row, `pending`, then counts the caller's rows of the last hour
that were not refused, its own among them, and is admitted if they are at most
`budgetedLookupsPerHour`; otherwise it marks its row `over_budget`. There is no lock: every
statement commits on its own, and any number of calls are under way at a time.

When a call is admitted, every row admitted before is still counted: none of them is ever
`over_budget`. A window of an hour that holds the call's own row starts no earlier than its count
does, since the call took its `now` before the row was created. So no window of an hour ever holds
more admitted rows than the budget (`lookups_within_budget`). -/

namespace Vsms.Api.Lookups

open Vsms.Lib.Runs Vsms.Schema.Types

inductive Asker
  | person
  | app (appId : String)
  deriving DecidableEq, Repr

inductive Key
  | messageId (id : String)
  | clientRef (reference : String)
  | msisdn (e164 : String)
  deriving DecidableEq, Repr

inductive DeliveryLookupKey
  | messageId
  | clientRef
  | msisdn
  deriving DecidableEq, Repr

def Key.kind : Key → DeliveryLookupKey
  | .messageId _ => .messageId
  | .clientRef _ => .clientRef
  | .msisdn _ => .msisdn

inductive DeliveryLookupOutcome
  | pending
  | answered
  | overBudget
  deriving DecidableEq, Repr

/-- The parts of a lookup plan that its audit row records. -/
structure LookupPlan where
  key : Key
  appId : Option String
  deriving DecidableEq, Repr

structure Caller where
  sub : String
  role : String
  asker : Asker
  deriving DecidableEq, Repr

def Caller.kind (c : Caller) : String :=
  match c.asker with
  | .person => "user"
  | .app _ => "app"

/-- Whether the lookup is counted: a number always, a client reference only for a person, a message
id never. -/
def Caller.budgeted (c : Caller) : Key → Bool
  | .msisdn _ => true
  | .clientRef _ =>
    match c.asker with
    | .person => true
    | .app _ => false
  | .messageId _ => false

def Caller.budgetedKinds (c : Caller) : List DeliveryLookupKey :=
  match c.asker with
  | .person => [.msisdn, .clientRef]
  | .app _ => [.msisdn]

def budgetedLookupsPerHour : ℕ := 60

/-- A row of `delivery_lookups`. Ids are numbered in the order of the inserts. -/
structure DeliveryLookup where
  id : ℕ
  actorSub : String
  actorKind : String
  actorRole : String
  actorAppId : Option String
  keyKind : DeliveryLookupKey
  keyValue : String
  appIdFilter : Option String
  outcome : DeliveryLookupOutcome
  resultCount : Option ℕ
  createdAt : Time
  deriving DecidableEq, Repr

/-- What the row records as the key; `hmac` is the keyed hash of a text. -/
def auditedKey (hmac : String → String) : Key → String
  | .messageId id => id
  | .msisdn e164 => hmac e164
  | .clientRef reference => hmac ("delivery-lookup:client_ref:" ++ reference)

/-- The audit row of one lookup. -/
def account (hmac : String → String) (caller : Caller) (plan : LookupPlan)
    (outcome : DeliveryLookupOutcome) (resultCount : Option ℕ) (id : ℕ) (createdAt : Time) :
    DeliveryLookup where
  id := id
  actorSub := caller.sub
  actorKind := caller.kind
  actorRole := if caller.role.isEmpty then "none" else caller.role
  actorAppId :=
    match caller.asker with
    | .app appId => some appId
    | .person => none
  keyKind := plan.key.kind
  keyValue := auditedKey hmac plan.key
  appIdFilter := plan.appId
  outcome := outcome
  resultCount := resultCount
  createdAt := createdAt

/-- The trigger `delivery_lookups_update_guard`, and the check that a count is there exactly when
the lookup was answered. -/
def updateGuard (old new : DeliveryLookup) : Bool :=
  !(old.outcome ≠ .pending || new.outcome = .pending) &&
  new = { old with outcome := new.outcome, resultCount := new.resultCount } &&
  ((new.outcome = .answered) == new.resultCount.isSome)

/-- **`settle`**: update one row under the trigger; `none` is an exception, or no such row. -/
def settle (rows : List DeliveryLookup) (id : ℕ) (outcome : DeliveryLookupOutcome)
    (resultCount : Option ℕ) : Option (List DeliveryLookup) :=
  match rows.find? (·.id = id) with
  | none => none
  | some old =>
    let new := { old with outcome := outcome, resultCount := resultCount }
    if updateGuard old new then some (rows.map fun r => if r.id = id then new else r) else none

/-- The rows the budget counts. -/
def counted (caller : Caller) (now : Time) (r : DeliveryLookup) : Bool :=
  r.actorSub = caller.sub && r.actorKind = caller.kind &&
    decide (r.keyKind ∈ caller.budgetedKinds) &&
    decide (r.outcome ≠ .overBudget) && decide (now - hours 1 ≤ r.createdAt)

/-- A call of `lookup`. -/
inductive Call
  | idle
  /-- In `claim_budget`, before its row is there. -/
  | claiming (caller : Caller) (plan : LookupPlan) (now : Time)
  /-- Its row is there; before the count. -/
  | counting (caller : Caller) (now : Time) (own : ℕ)
  /-- Over the budget; before its row says so. -/
  | refusing (own : ℕ)
  /-- Admitted; before its row is settled. -/
  | admitted (own : ℕ)
  /-- A lookup that is not budgeted; before its row is there. -/
  | reading (caller : Caller) (plan : LookupPlan)
  | answered
  | refused
  /-- Returned another error, or the process stopped. -/
  | failed
  deriving DecidableEq, Repr

structure Sys where
  clock : Time
  /-- The id of the next row. -/
  next : ℕ
  rows : List DeliveryLookup
  calls : ℕ → Call
  /-- The rows of the calls `claim_budget` admitted. -/
  admitted : List ℕ

def init (clock : Time) : Sys := ⟨clock, 0, [], fun _ => .idle, []⟩

def Sys.setCall (s : Sys) (p : ℕ) (c : Call) : Sys :=
  { s with calls := Function.update s.calls p c }

def Sys.insert (s : Sys) (row : DeliveryLookup) : Sys :=
  { s with next := s.next + 1, rows := s.rows ++ [row] }

inductive Op
  | call (caller : Caller) (plan : LookupPlan) (now : Time)
  /-- `claim_budget` creates its row. -/
  | insert (createdAt : Time)
  | count
  | settleOverBudget
  /-- The messages were read, `count` of them; the row is settled, or written at all. -/
  | answer (count : ℕ) (createdAt : Time)
  /-- The statement fails, or the process stops before it. -/
  | fail
  deriving DecidableEq, Repr

variable (hmac : String → String)

/-- A step of call `p`. A row is created at the clock's time or before, and no earlier than the
`now` of its call. -/
def callStep (s : Sys) (p : ℕ) : Op → Call → Option Sys
  | .call caller plan now, .idle =>
    if now ≤ s.clock then
      some (s.setCall p (if caller.budgeted plan.key then .claiming caller plan now
        else .reading caller plan))
    else none
  | .insert createdAt, .claiming caller plan now =>
    if now ≤ createdAt ∧ createdAt ≤ s.clock then
      some ((s.insert (account hmac caller plan .pending none s.next createdAt)).setCall p
        (.counting caller now s.next))
    else none
  | .count, .counting caller now own =>
    if budgetedLookupsPerHour < s.rows.countP (counted caller now) then
      some (s.setCall p (.refusing own))
    else some { s.setCall p (.admitted own) with admitted := own :: s.admitted }
  | .settleOverBudget, .refusing own =>
    match settle s.rows own .overBudget none with
    | none => some (s.setCall p .failed)
    | some rows => some { s.setCall p .refused with rows := rows }
  | .answer count _, .admitted own =>
    match settle s.rows own .answered (some count) with
    | none => some (s.setCall p .failed)
    | some rows => some { s.setCall p .answered with rows := rows }
  | .answer count createdAt, .reading caller plan =>
    if createdAt ≤ s.clock then
      some ((s.insert (account hmac caller plan .answered (some count) s.next createdAt)).setCall p
        .answered)
    else none
  | .fail, .claiming .. => some (s.setCall p .failed)
  | .fail, .counting .. => some (s.setCall p .failed)
  | .fail, .refusing _ => some (s.setCall p .failed)
  | .fail, .admitted _ => some (s.setCall p .failed)
  | .fail, .reading .. => some (s.setCall p .failed)
  | _, _ => none

inductive Action
  /-- Time passes. -/
  | tick (now : Time)
  | call (p : ℕ) (op : Op)
  /-- The next statement is carried out and its answer is lost. -/
  | lost (p : ℕ) (op : Op)
  deriving DecidableEq, Repr

def step (s : Sys) : Action → Option Sys
  | .tick now => if s.clock ≤ now then some { s with clock := now } else none
  | .call p op => callStep hmac s p op (s.calls p)
  -- A call that does not learn its count is not admitted.
  | .lost p op =>
    (callStep hmac s p op (s.calls p)).map fun t =>
      { t.setCall p .failed with admitted := s.admitted }

/-! ## Settling -/

/-- The row after `settle`. -/
def settled (id : ℕ) (outcome : DeliveryLookupOutcome) (resultCount : Option ℕ)
    (r : DeliveryLookup) : DeliveryLookup :=
  if r.id = id then { r with outcome := outcome, resultCount := resultCount } else r

section settled
variable (id : ℕ) (outcome : DeliveryLookupOutcome) (resultCount : Option ℕ) (r : DeliveryLookup)

@[simp] theorem settled_id : (settled id outcome resultCount r).id = r.id := by
  unfold settled; split_ifs <;> rfl

@[simp] theorem settled_actorSub : (settled id outcome resultCount r).actorSub = r.actorSub := by
  unfold settled; split_ifs <;> rfl

@[simp] theorem settled_actorKind : (settled id outcome resultCount r).actorKind = r.actorKind := by
  unfold settled; split_ifs <;> rfl

@[simp] theorem settled_keyKind : (settled id outcome resultCount r).keyKind = r.keyKind := by
  unfold settled; split_ifs <;> rfl

@[simp] theorem settled_createdAt : (settled id outcome resultCount r).createdAt = r.createdAt := by
  unfold settled; split_ifs <;> rfl

end settled

theorem settled_of_ne {id : ℕ} {outcome : DeliveryLookupOutcome} {resultCount : Option ℕ}
    {r : DeliveryLookup} (h : r.id ≠ id) : settled id outcome resultCount r = r := if_neg h

/-- Rows are told apart by their ids. -/
def Keyed (rows : List DeliveryLookup) : Prop := ∀ r ∈ rows, ∀ r' ∈ rows, r.id = r'.id → r = r'

/-- **What `settle` does**: it changes one row, which was pending. -/
theorem settle_some {rows rows' : List DeliveryLookup} {id : ℕ} {outcome : DeliveryLookupOutcome}
    {resultCount : Option ℕ} (hrows : Keyed rows)
    (h : settle rows id outcome resultCount = some rows') :
    rows' = rows.map (settled id outcome resultCount) ∧
      ∃ old ∈ rows, old.id = id ∧ old.outcome = .pending := by
  unfold settle at h
  split at h
  · cases h
  · next old hold =>
    have hmem := List.mem_of_find?_eq_some hold
    have hid : old.id = id := by simpa using List.find?_some hold
    dsimp only at h
    split_ifs at h with hguard
    cases h
    refine ⟨List.map_congr_left fun r hr => ?_, old, hmem, hid, ?_⟩
    · unfold settled
      split_ifs with hr'
      · rw [hrows r hr old hmem (hr'.trans hid.symm)]
      · rfl
    · unfold updateGuard at hguard
      simp at hguard
      exact hguard.1.1

/-! ## The invariant -/

/-- The row a call has claimed its place with. -/
def Call.own : Call → Option ℕ
  | .counting _ _ own | .refusing own | .admitted own => some own
  | _ => none

/-- The row of a budgeted lookup of `caller`, no older than `now`. -/
structure IsClaim (caller : Caller) (now : Time) (r : DeliveryLookup) : Prop where
  sub : r.actorSub = caller.sub
  kind : r.actorKind = caller.kind
  key : r.keyKind ∈ caller.budgetedKinds
  recent : now ≤ r.createdAt

/-- What a call knows where it is. -/
def CallKnows (s : Sys) : Call → Prop
  | .counting caller now own => own ∉ s.admitted ∧
      ∃ r ∈ s.rows, r.id = own ∧ r.outcome = .pending ∧ IsClaim caller now r
  | .refusing own => own ∉ s.admitted ∧ own < s.next
  | .admitted own => own < s.next
  | .claiming caller plan _ => caller.budgeted plan.key = true
  | _ => True

/-- A row that the count of its caller's next lookup finds, if it is recent. -/
def Counted (r : DeliveryLookup) : Prop :=
  r.outcome ≠ .overBudget ∧ ∃ caller : Caller, r.actorKind = caller.kind ∧
    r.keyKind ∈ caller.budgetedKinds

/-- The row was admitted, for the caller, in the hour from `t` on. -/
def admittedIn (admitted : List ℕ) (sub kind : String) (t : Time) (r : DeliveryLookup) : Bool :=
  decide (r.id ∈ admitted) && decide (r.actorSub = sub) && decide (r.actorKind = kind) &&
    decide (t ≤ r.createdAt) && decide (r.createdAt ≤ t + hours 1)

/-- **No window of an hour holds more admitted lookups of a caller than the budget.** -/
def WithinBudget (s : Sys) : Prop :=
  ∀ sub kind t, s.rows.countP (admittedIn s.admitted sub kind t) ≤ budgetedLookupsPerHour

structure Inv (s : Sys) : Prop where
  keyed : Keyed s.rows
  fresh : ∀ r ∈ s.rows, r.id < s.next
  calls : ∀ p, CallKnows s (s.calls p)
  own : ∀ p q own, (s.calls p).own = some own → (s.calls q).own = some own → p = q
  admitted : ∀ id ∈ s.admitted, id < s.next ∧ ∀ r ∈ s.rows, r.id = id → Counted r
  budget : WithinBudget s

theorem inv_init (clock : Time) : Inv (init clock) where
  keyed := fun _ h => by cases h
  fresh := fun _ h => by cases h
  calls := fun _ => trivial
  own := fun _ _ _ h => by cases h
  admitted := fun _ h => by cases h
  budget := fun _ _ _ => Nat.zero_le _

theorem own_lt {s : Sys} (hs : Inv s) {p own : ℕ} (h : (s.calls p).own = some own) :
    own < s.next := by
  have hk := hs.calls p
  cases hc : s.calls p with
  | counting caller now own' =>
    rw [hc] at hk h
    cases h
    obtain ⟨-, r, hr, hid, -⟩ := hk
    rw [← hid]
    exact hs.fresh r hr
  | refusing own' =>
    rw [hc] at hk h
    cases h
    exact hk.2
  | admitted own' =>
    rw [hc] at hk h
    cases h
    exact hk
  | _ => rw [hc] at h; cases h

/-- The kinds counted depend on the caller's kind only. -/
theorem budgetedKinds_of_kind {c c' : Caller} (h : c.kind = c'.kind) :
    c.budgetedKinds = c'.budgetedKinds := by
  obtain ⟨sub, role, asker⟩ := c
  obtain ⟨sub', role', asker'⟩ := c'
  cases asker <;> cases asker' <;> first | rfl | simp [Caller.kind] at h

theorem kind_mem_budgetedKinds {c : Caller} {key : Key} (h : c.budgeted key = true) :
    key.kind ∈ c.budgetedKinds := by
  obtain ⟨sub, role, asker⟩ := c
  cases asker <;> cases key <;> simp_all [Caller.budgeted, Key.kind, Caller.budgetedKinds]

/-- **What a call knows lasts** while its own row stays as it is and is not admitted. -/
theorem CallKnows.mono {s s' : Sys} {c : Call} (h : CallKnows s c)
    (hadmitted : ∀ own, c.own = some own → own ∉ s.admitted → own ∉ s'.admitted)
    (hnext : s.next ≤ s'.next)
    (hrows : ∀ own, c.own = some own → ∀ r ∈ s.rows, r.id = own → r ∈ s'.rows) :
    CallKnows s' c := by
  cases c with
  | counting caller now own =>
    obtain ⟨hn, r, hr, hid, hrest⟩ := h
    exact ⟨hadmitted own rfl hn, r, hrows own rfl r hr hid, hid, hrest⟩
  | refusing own => exact ⟨hadmitted own rfl h.1, Nat.lt_of_lt_of_le h.2 hnext⟩
  | admitted own => exact Nat.lt_of_lt_of_le h hnext
  | claiming caller plan now => exact h
  | _ => trivial

/-- The rows may grow. -/
theorem CallKnows.grow {s s' : Sys} {c : Call} (h : CallKnows s c)
    (hadmitted : s'.admitted = s.admitted) (hnext : s.next ≤ s'.next)
    (hrows : ∀ r ∈ s.rows, r ∈ s'.rows) : CallKnows s' c := by
  refine h.mono (fun own _ hn => ?_) hnext fun own _ r hr _ => hrows r hr
  rwa [hadmitted]

/-- A call that lets go of its row, keeps it, or takes one that no other call has. -/
theorem Inv.setCall {s : Sys} (hs : Inv s) {p : ℕ} {c : Call} (hk : CallKnows s c)
    (hown : ∀ own, c.own = some own → ∀ q, q ≠ p → (s.calls q).own ≠ some own) :
    Inv (s.setCall p c) := by
  refine ⟨hs.keyed, hs.fresh, fun q => ?_, fun q r own hq hr => ?_, hs.admitted, hs.budget⟩
  · by_cases hq : q = p
    · subst hq
      have hcalls : (s.setCall q c).calls q = c := by simp [Sys.setCall]
      rw [hcalls]
      exact hk.grow rfl (Nat.le_refl _) fun _ hr => hr
    · have hcalls : (s.setCall p c).calls q = s.calls q := by simp [Sys.setCall, hq]
      rw [hcalls]
      exact (hs.calls q).grow rfl (Nat.le_refl _) fun _ hr => hr
  · rcases update_cases Call.own hq with ⟨hqp, hx⟩ | ⟨hqp, hq⟩ <;>
      rcases update_cases Call.own hr with ⟨hrp, hx'⟩ | ⟨hrp, hr⟩
    · rw [hqp, hrp]
    · exact absurd hr (hown own hx r hrp)
    · exact absurd hq (hown own hx' q hqp)
    · exact hs.own q r own hq hr

/-- Nobody else has the row that a call has. -/
theorem Inv.own_ne {s : Sys} (hs : Inv s) {p own : ℕ} (h : (s.calls p).own = some own) :
    ∀ q, q ≠ p → (s.calls q).own ≠ some own :=
  fun q hq hqo => hq (hs.own q p own hqo h)

/-- A new row. -/
theorem Inv.insert {s : Sys} (hs : Inv s) {row : DeliveryLookup} (hid : row.id = s.next) :
    Inv (s.insert row) := by
  have hne : ∀ r ∈ s.rows, r.id ≠ row.id := by
    intro r hr
    rw [hid]
    exact Nat.ne_of_lt (hs.fresh r hr)
  have hmem : ∀ r, r ∈ (s.insert row).rows ↔ r ∈ s.rows ∨ r = row := by simp [Sys.insert]
  refine ⟨?_, ?_, ?_, hs.own, ?_, ?_⟩
  · intro r hr r' hr' h
    rcases (hmem r).mp hr with hold | hnew <;> rcases (hmem r').mp hr' with hold' | hnew'
    · exact hs.keyed r hold r' hold' h
    · rw [hnew'] at h
      exact absurd h (hne r hold)
    · rw [hnew] at h
      exact absurd h.symm (hne r' hold')
    · rw [hnew, hnew']
  · intro r hr
    rcases (hmem r).mp hr with hr | rfl
    · exact Nat.lt_succ_of_lt (hs.fresh r hr)
    · rw [hid]
      exact Nat.lt_succ_self _
  · intro p
    exact (hs.calls p).grow rfl (Nat.le_succ _) fun r hr => (hmem r).mpr (.inl hr)
  · intro id h
    obtain ⟨hlt, hcount⟩ := hs.admitted id h
    refine ⟨Nat.lt_succ_of_lt hlt, fun r hr hrid => ?_⟩
    rcases (hmem r).mp hr with hr | rfl
    · exact hcount r hr hrid
    · omega
  · intro sub kind t
    have hnew : admittedIn s.admitted sub kind t row = false := by
      have hnot : row.id ∉ s.admitted := by
        intro h
        have := (hs.admitted _ h).1
        omega
      simp [admittedIn, hnot]
    have hcount : (s.insert row).rows.countP (admittedIn s.admitted sub kind t) =
        s.rows.countP (admittedIn s.admitted sub kind t) := by
      simp [Sys.insert, List.countP_append, hnew]
    exact hcount.trans_le (hs.budget sub kind t)

/-- **A settled row**, that no call has any more. An admitted one is not refused. -/
theorem Inv.settle {s : Sys} (hs : Inv s) {own : ℕ} {outcome : DeliveryLookupOutcome}
    {resultCount : Option ℕ} (hown : ∀ q, (s.calls q).own ≠ some own)
    (hadmitted : outcome = .overBudget → own ∉ s.admitted) :
    Inv { s with rows := s.rows.map (settled own outcome resultCount) } := by
  refine ⟨?_, ?_, ?_, hs.own, ?_, ?_⟩
  · intro r hr r' hr' h
    obtain ⟨x, hx, rfl⟩ := List.mem_map.mp hr
    obtain ⟨y, hy, rfl⟩ := List.mem_map.mp hr'
    rw [settled_id, settled_id] at h
    rw [hs.keyed x hx y hy h]
  · intro r hr
    obtain ⟨x, hx, rfl⟩ := List.mem_map.mp hr
    rw [settled_id]
    exact hs.fresh x hx
  · intro p
    refine (hs.calls p).mono (fun _ _ hn => hn) (Nat.le_refl _) fun own' hp r hr hid => ?_
    have hne : r.id ≠ own := by
      intro h
      exact hown p (hp.trans (congrArg some (hid.symm.trans h)))
    exact List.mem_map.mpr ⟨r, hr, settled_of_ne hne⟩
  · intro id h
    obtain ⟨hlt, hcount⟩ := hs.admitted id h
    refine ⟨hlt, fun r hr hrid => ?_⟩
    obtain ⟨x, hx, rfl⟩ := List.mem_map.mp hr
    rw [settled_id] at hrid
    obtain ⟨ho, caller, hkind, hkey⟩ := hcount x hx hrid
    refine ⟨?_, caller, by rw [settled_actorKind]; exact hkind, by rw [settled_keyKind]; exact hkey⟩
    unfold settled
    split_ifs with hx'
    · intro hover
      exact hadmitted hover (by rw [← hx', hrid]; exact h)
    · exact ho
  · intro sub kind t
    have hcount : (s.rows.map (settled own outcome resultCount)).countP
        (admittedIn s.admitted sub kind t) = s.rows.countP (admittedIn s.admitted sub kind t) := by
      rw [List.countP_map]
      refine List.countP_congr fun r _ => ?_
      simp [admittedIn]
    exact hcount.trans_le (hs.budget sub kind t)

theorem admittedIn_iff {admitted : List ℕ} {sub kind : String} {t : Time} {r : DeliveryLookup} :
    admittedIn admitted sub kind t r = true ↔ r.id ∈ admitted ∧ r.actorSub = sub ∧
      r.actorKind = kind ∧ t ≤ r.createdAt ∧ r.createdAt ≤ t + hours 1 := by
  simp [admittedIn, and_assoc]

/-- A claim whose row is pending counts. -/
theorem IsClaim.countedRow {caller : Caller} {now : Time} {r : DeliveryLookup}
    (h : IsClaim caller now r) (hp : r.outcome = .pending) : Counted r :=
  ⟨by rw [hp]; decide, caller, h.kind, h.key⟩

/-- **The count finds the window**: it finds every admitted row of a window that holds the row
claimed. -/
theorem IsClaim.found_of_window {caller : Caller} {now : Time} {r₀ r : DeliveryLookup}
    (h : IsClaim caller now r₀) {admitted : List ℕ} {sub kind : String} {t : Time}
    (hr₀ : admittedIn admitted sub kind t r₀ = true) (hr : admittedIn admitted sub kind t r = true)
    (hcounted : Counted r) : counted caller now r = true := by
  obtain ⟨-, hsub₀, hkind₀, -, hend⟩ := admittedIn_iff.mp hr₀
  obtain ⟨-, hsub, hkind, hstart, -⟩ := admittedIn_iff.mp hr
  obtain ⟨hout, caller', hkind', hkey'⟩ := hcounted
  have hcaller : r.actorKind = caller.kind := by rw [hkind, ← hkind₀, h.kind]
  have hkinds := budgetedKinds_of_kind (hkind'.symm.trans hcaller)
  have hrecent : now - hours 1 ≤ r.createdAt :=
    Int.le_trans (Int.sub_right_le_of_le_add (Int.le_trans h.recent hend)) hstart
  unfold counted
  simp only [Bool.and_eq_true, decide_eq_true_eq]
  refine ⟨⟨⟨⟨?_, hcaller⟩, by rw [← hkinds]; exact hkey'⟩, hout⟩, hrecent⟩
  rw [hsub, ← hsub₀, h.sub]

/-- A window that does not hold the row admitted holds what it held. -/
theorem admittedIn_of_cons {own : ℕ} {admitted : List ℕ} {sub kind : String} {t : Time}
    {r₀ r : DeliveryLookup} (hkey : r.id = own → r = r₀)
    (hw : ¬ admittedIn (own :: admitted) sub kind t r₀ = true)
    (hr : admittedIn (own :: admitted) sub kind t r = true) :
    admittedIn admitted sub kind t r = true := by
  obtain ⟨hmem, hrest⟩ := admittedIn_iff.mp hr
  rcases List.mem_cons.mp hmem with h | h
  · rw [hkey h] at hr
    exact absurd hr hw
  · exact admittedIn_iff.mpr ⟨h, hrest⟩

/-- **Admission.** The count was at most the budget, and it counted every admitted row of a window
that holds the row of the call itself. -/
theorem Inv.admitCall {s : Sys} (hs : Inv s) {p own : ℕ} {caller : Caller} {now : Time}
    (hp : s.calls p = .counting caller now own)
    (hused : s.rows.countP (counted caller now) ≤ budgetedLookupsPerHour) :
    Inv { s.setCall p (.admitted own) with admitted := own :: s.admitted } := by
  have hk := hs.calls p
  rw [hp] at hk
  obtain ⟨-, r₀, hr₀, hid₀, hout₀, hclaim⟩ := hk
  have hown : (s.calls p).own = some own := by rw [hp]; rfl
  have hlt : own < s.next := own_lt hs hown
  have hset : Inv (s.setCall p (.admitted own)) := by
    refine hs.setCall hlt fun own' h => ?_
    cases h
    exact hs.own_ne hown
  have hkey : ∀ r ∈ s.rows, r.id = own → r = r₀ :=
    fun r hr hid => hs.keyed r hr r₀ hr₀ (hid.trans hid₀.symm)
  have hadmitted : ∀ id ∈ own :: s.admitted, id < s.next ∧ ∀ r ∈ s.rows, r.id = id → Counted r := by
    intro id h
    rcases List.mem_cons.mp h with rfl | h
    · refine ⟨hlt, fun r hr hid => ?_⟩
      rw [hkey r hr hid]
      exact hclaim.countedRow hout₀
    · exact hs.admitted id h
  refine ⟨hs.keyed, hs.fresh, fun q => ?_, hset.own, hadmitted, fun sub kind t => ?_⟩
  · by_cases hq : q = p
    · subst hq
      simpa [Sys.setCall, CallKnows] using hlt
    · have hcalls : (s.setCall p (.admitted own)).calls q = s.calls q := by simp [Sys.setCall, hq]
      change CallKnows _ ((s.setCall p (.admitted own)).calls q)
      rw [hcalls]
      refine (hs.calls q).mono (fun own' hq' hn => ?_) (Nat.le_refl _) fun _ _ r hr _ => hr
      have hne : own' ≠ own := by
        rintro rfl
        exact hs.own_ne hown q hq hq'
      simpa [List.mem_cons] using ⟨hne, hn⟩
  · by_cases hw : admittedIn (own :: s.admitted) sub kind t r₀ = true
    · refine Nat.le_trans (List.countP_mono_left fun r hr hin => ?_) hused
      exact hclaim.found_of_window hw hin
        ((hadmitted r.id (admittedIn_iff.mp hin).1).2 r hr rfl)
    · refine Nat.le_trans (List.countP_mono_left fun r hr hin => ?_) (hs.budget sub kind t)
      exact admittedIn_of_cons (hkey r hr) hw hin

/-! ## Steps -/

/-- A row that is no longer pending stays as it is. -/
def SettledStay (s s' : Sys) : Prop :=
  ∀ r ∈ s.rows, r.outcome ≠ .pending → r ∈ s'.rows ∧ ∀ r' ∈ s'.rows, r'.id = r.id → r' = r

/-- Rows stay, or are settled while pending, or are added. -/
theorem settledStay_of_mem {s s' : Sys} (hs' : Inv s')
    (h : ∀ r ∈ s.rows, r.outcome ≠ .pending → r ∈ s'.rows) : SettledStay s s' := by
  intro r hr hout
  have hr' := h r hr hout
  exact ⟨hr', fun r' hmem hid => hs'.keyed r' hmem r hr' hid⟩

theorem stay_settled {s : Sys} (hs : Inv s) {id : ℕ} {outcome : DeliveryLookupOutcome}
    {resultCount : Option ℕ} {old : DeliveryLookup} (hold : old ∈ s.rows) (hid : old.id = id)
    (hpending : old.outcome = .pending) {r : DeliveryLookup} (hr : r ∈ s.rows)
    (hout : r.outcome ≠ .pending) : r ∈ s.rows.map (settled id outcome resultCount) := by
  refine List.mem_map.mpr ⟨r, hr, settled_of_ne fun h => hout ?_⟩
  rw [hs.keyed r hr old hold (h.trans hid.symm)]
  exact hpending

/-- A call that is done with its row, or has none. -/
theorem Inv.finish {s : Sys} (hs : Inv s) (p : ℕ) {c : Call} (hk : CallKnows s c)
    (hc : c.own = none) : Inv (s.setCall p c) := by
  refine hs.setCall hk fun own howned => ?_
  rw [hc] at howned
  cases howned

/-- A call settles its row and is done with it. -/
theorem Inv.settleOwn {s : Sys} (hs : Inv s) {p own : ℕ} (hown : (s.calls p).own = some own)
    {outcome : DeliveryLookupOutcome} {resultCount : Option ℕ} {rows : List DeliveryLookup}
    (hrows : Lookups.settle s.rows own outcome resultCount = some rows)
    (hadmitted : outcome = .overBudget → own ∉ s.admitted) {c : Call} (hk : CallKnows s c)
    (hc : c.own = none) :
    Inv { s.setCall p c with rows := rows } ∧
      ∀ r ∈ s.rows, r.outcome ≠ .pending → r ∈ rows := by
  obtain ⟨rfl, old, hold, hid, hpending⟩ := settle_some hs.keyed hrows
  have hothers : ∀ q, ((s.setCall p c).calls q).own ≠ some own := by
    intro q hq
    rcases update_cases Call.own hq with ⟨-, hx⟩ | ⟨hqp, hq⟩
    · rw [hc] at hx
      cases hx
    · exact hs.own_ne hown q hqp hq
  exact ⟨(hs.finish p hk hc).settle hothers hadmitted,
    fun r hr hout => stay_settled hs hold hid hpending hr hout⟩

/-- **One step of a call** keeps the invariant, and the rows that are settled. -/
theorem callStep_inv {s s' : Sys} (hs : Inv s) {p : ℕ} {op : Op}
    (h : callStep hmac s p op (s.calls p) = some s') :
    Inv s' ∧ ∀ r ∈ s.rows, r.outcome ≠ .pending → r ∈ s'.rows := by
  have hknows := hs.calls p
  generalize hcall : s.calls p = c at h hknows
  unfold callStep at h
  split at h
  · split_ifs at h with hle hb
    · cases h
      exact ⟨hs.finish p hb rfl, fun r hr _ => hr⟩
    · cases h
      exact ⟨hs.finish p trivial rfl, fun r hr _ => hr⟩
  · next createdAt caller plan now =>
    split_ifs at h with hle
    cases h
    set row := account hmac caller plan .pending none s.next createdAt with hrow
    have hins : Inv (s.insert row) := hs.insert rfl
    refine ⟨hins.setCall ?_ ?_, fun r hr _ => List.mem_append_left _ hr⟩
    · refine ⟨fun hmem => Nat.lt_irrefl _ (hs.admitted _ hmem).1, row, ?_, rfl, rfl, ?_⟩
      · exact List.mem_append_right _ List.mem_cons_self
      · exact ⟨rfl, rfl, kind_mem_budgetedKinds hknows, hle.1⟩
    · intro own howned q _ hq
      cases howned
      exact Nat.lt_irrefl _ (own_lt hs hq)
  · next caller now own =>
    have hown : (s.calls p).own = some own := by rw [hcall]; rfl
    split_ifs at h with hover
    · cases h
      refine ⟨hs.setCall ⟨hknows.1, own_lt hs hown⟩ fun own' howned => ?_, fun r hr _ => hr⟩
      cases howned
      exact hs.own_ne hown
    · cases h
      exact ⟨hs.admitCall hcall (Nat.le_of_not_lt hover), fun r hr _ => hr⟩
  · next own =>
    split at h
    · cases h
      exact ⟨hs.finish p trivial rfl, fun r hr _ => hr⟩
    · next rows hrows =>
      cases h
      exact hs.settleOwn (by rw [hcall]; rfl) hrows (fun _ => hknows.1) trivial rfl
  · next count own =>
    split at h
    · cases h
      exact ⟨hs.finish p trivial rfl, fun r hr _ => hr⟩
    · next rows hrows =>
      cases h
      exact hs.settleOwn (by rw [hcall]; rfl) hrows (fun h => absurd h (by decide)) trivial rfl
  · next count createdAt caller plan =>
    split_ifs at h with hle
    cases h
    have hins : Inv (s.insert
        (account hmac caller plan .answered (some count) s.next createdAt)) := hs.insert rfl
    exact ⟨hins.finish p trivial rfl, fun r hr _ => List.mem_append_left _ hr⟩
  all_goals cases h
  all_goals exact ⟨hs.finish p trivial rfl, fun r hr _ => hr⟩

/-- Only an admitted call changes the list of the admitted. -/
theorem callStep_admitted {s s' : Sys} {p : ℕ} {op : Op} {c : Call}
    (h : callStep hmac s p op c = some s') : s'.admitted = s.admitted ∨
      ∃ own, s' = { s.setCall p (.admitted own) with admitted := own :: s.admitted } := by
  unfold callStep at h
  split at h
  · split_ifs at h <;> cases h <;> exact .inl rfl
  · split_ifs at h
    cases h
    exact .inl rfl
  · split_ifs at h
    · cases h
      exact .inl rfl
    · cases h
      exact .inr ⟨_, rfl⟩
  · split at h <;> cases h <;> exact .inl rfl
  · split at h <;> cases h <;> exact .inl rfl
  · split_ifs at h
    cases h
    exact .inl rfl
  all_goals cases h
  all_goals exact .inl rfl

/-- **One step.** -/
theorem step_inv {s s' : Sys} {a : Action} (hs : Inv s) (h : step hmac s a = some s') :
    Inv s' ∧ SettledStay s s' := by
  cases a with
  | tick now =>
    dsimp only [step] at h
    split_ifs at h with hle
    cases h
    have hs' : Inv { s with clock := now } :=
      ⟨hs.keyed, hs.fresh, fun p => (hs.calls p).grow rfl (Nat.le_refl _) fun _ hr => hr, hs.own,
        hs.admitted, hs.budget⟩
    exact ⟨hs', settledStay_of_mem hs' fun r hr _ => hr⟩
  | call p op =>
    obtain ⟨hs', hstay⟩ := callStep_inv hmac hs h
    exact ⟨hs', settledStay_of_mem hs' hstay⟩
  | lost p op =>
    obtain ⟨t, ht, rfl⟩ := Option.map_eq_some_iff.mp h
    obtain ⟨hi, hstay⟩ := callStep_inv hmac hs ht
    rcases callStep_admitted hmac ht with hadmitted | ⟨own, rfl⟩
    · have hs' : Inv { t.setCall p .failed with admitted := s.admitted } := by
        rw [← hadmitted]
        exact hi.finish p trivial rfl
      exact ⟨hs', settledStay_of_mem hs' hstay⟩
    · -- The call was admitted, but does not know: it has only lost its row.
      have hs' := hs.finish (c := .failed) p trivial rfl
      have heq :
          { ({ s.setCall p (.admitted own) with admitted := own :: s.admitted } : Sys).setCall p
          .failed with admitted := s.admitted } = s.setCall p .failed := by
        simp [Sys.setCall]
      rw [heq]
      exact ⟨hs', settledStay_of_mem hs' fun r hr _ => hr⟩

/-- **Lookups stay within the budget**: in every state of every run no window of an hour holds more
admitted lookups of a caller than the budget, and no step changes a row that was answered or
refused. -/
theorem lookups_within_budget (clock : Time) (as : List Action) :
    Always (step hmac) WithinBudget (init clock) as ∧
      Along (step hmac) (fun s _ s' => SettledStay s s') (init clock) as := by
  constructor
  · refine Along.always (I := Inv) (Q := fun _ _ _ => True) (fun _ h => h.budget) ?_
      (inv_init clock) (along_true _ as)
    intro s a s' hs h _
    exact (step_inv hmac hs h).1
  · refine (along_iff (I := Inv) (Q := fun _ _ _ => True) ?_ ?_ (inv_init clock)).mpr
      (along_true _ as)
    · intro s a s' hs h
      exact iff_true_intro (step_inv hmac hs h).2
    · intro s a s' hs h _
      exact (step_inv hmac hs h).1

end Vsms.Api.Lookups
