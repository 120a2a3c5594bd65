import Vsms.Lib.Runs
import Vsms.Hooks.Deliver
import Mathlib.Algebra.BigOperators.Group.List.Basic
import Mathlib.Algebra.Order.Group.Int
import Mathlib.Tactic.Linarith

/-! # Leases and the work they cover

A claim stamps one lease on the whole batch, from the moment the claim started, and the batch is
delivered one request after the other. A request takes at most `requestTimeout`, the lease lasts
`hooksLease`, three times as long, and a batch has up to `hooksBudget` attempts: the lease covers
the batch exactly if its requests together take no longer than the lease.

In the system of all workers, `NotReclaimed` says of a state that no attempt a worker has leased and
not delivered yet is one an expired-lease query would select, or one another worker has too. It
holds throughout every run in which no claim, with the requests of its batch, takes longer than the
lease. -/

namespace Vsms.Hooks.Leases

open Vsms.Lib.Runs Vsms.Lib.Consumers Vsms.Schema.Types Vsms.Schema.Webhooks
open Vsms.Hooks.Claim Vsms.Hooks.Deliver

def requestTimeout : Time := seconds 10

/-- How long a request takes: the client gives up at the timeout. -/
structure RequestDuration where
  val : Time
  nonneg : 0 ≤ val
  le_timeout : val ≤ requestTimeout

/-- One attempt of a batch, and its request. -/
structure Slot where
  attempt : WebhookAttempt
  starts : Time
  ends : Time

/-- **The loop of `deliver_claimed`**, from the time `t` on: one request after the other. -/
def schedule : Time → List WebhookAttempt → List RequestDuration → List Slot
  | t, a :: batch, d :: ds => ⟨a, t, t + d.val⟩ :: schedule (t + d.val) batch ds
  | _, _, _ => []

/-- How long the requests take together. -/
def total (ds : List RequestDuration) : Time := (ds.map RequestDuration.val).sum

theorem total_cons (d : RequestDuration) (ds : List RequestDuration) :
    total (d :: ds) = d.val + total ds := by
  unfold total
  rw [List.map_cons, List.sum_cons]

theorem total_nonneg (ds : List RequestDuration) : 0 ≤ total ds := by
  induction ds with
  | nil => exact le_refl _
  | cons d ds ih =>
    rw [total_cons]
    exact add_nonneg d.nonneg ih

/-- The requests end between the start of the first and the end of the last. -/
theorem schedule_ends : ∀ (t : Time) (batch : List WebhookAttempt) (ds : List RequestDuration),
    ∀ x ∈ schedule t batch ds, t ≤ x.ends ∧ x.ends ≤ t + total ds
  | t, [], _, x, hx => by cases hx
  | t, _ :: _, [], x, hx => by cases hx
  | t, a :: batch, d :: ds, x, hx => by
    have hd := d.nonneg
    have hds := total_nonneg ds
    rw [total_cons]
    rcases List.mem_cons.mp hx with rfl | hx
    · dsimp only
      constructor <;> linarith
    · obtain ⟨h1, h2⟩ := schedule_ends (t + d.val) batch ds x hx
      constructor <;> linarith

/-- The last request ends when all have been made. -/
theorem schedule_last : ∀ (t : Time) (batch : List WebhookAttempt) (ds : List RequestDuration),
    ds.length = batch.length → batch ≠ [] → ∃ x ∈ schedule t batch ds, x.ends = t + total ds
  | _, [], _, _, h => absurd rfl h
  | _, _ :: _, [], hlen, _ => by cases hlen
  | t, a :: batch, d :: ds, hlen, _ => by
    have hlen : ds.length = batch.length := Nat.succ.inj hlen
    rw [total_cons]
    by_cases hb : batch = []
    · subst hb
      have hds : ds = [] := List.length_eq_zero_iff.mp hlen
      subst hds
      exact ⟨⟨a, t, t + d.val⟩, List.mem_cons_self, by simp [total]⟩
    · obtain ⟨x, hx, hends⟩ := schedule_last (t + d.val) batch ds hlen hb
      exact ⟨x, List.mem_cons_of_mem _ hx, by rw [hends, add_assoc]⟩

theorem mem_of_schedule : ∀ {t : Time} {batch : List WebhookAttempt} {ds : List RequestDuration}
    {x : Slot}, x ∈ schedule t batch ds → x.attempt ∈ batch
  | _, [], _, _, hx => by cases hx
  | _, _ :: _, [], _, hx => by cases hx
  | _, a :: batch, d :: ds, x, hx => by
    rcases List.mem_cons.mp hx with rfl | hx
    · exact List.mem_cons_self
    · exact List.mem_cons_of_mem _ (mem_of_schedule hx)

/-! ## One batch -/

/-- Every attempt of a batch is leased from the moment the claim started. -/
theorem leaseCandidates_leaseUntil (worker : String) (now : Time) :
    ∀ (cs : List WebhookAttempt) (db : HooksDb) (claimed : List WebhookAttempt),
      (leaseCandidates worker now db cs).2 = some claimed →
        ∀ a ∈ claimed, a.leaseUntil = some (now + hooksLease)
  | [], db, claimed, h => by
    cases h
    intro a ha
    cases ha
  | c :: cs, db, claimed, h => by
    unfold leaseCandidates at h
    split at h
    · cases h
    · next u hu =>
      split at h
      · exact leaseCandidates_leaseUntil worker now cs db claimed h
      · next row hrow =>
        split at h
        · next row' hok =>
          obtain ⟨rest, hrest, rfl⟩ := Option.map_eq_some_iff.mp h
          obtain ⟨-, -, rfl⟩ := update_ok hok
          intro a ha
          rcases List.mem_cons.mp ha with rfl | ha
          · rw [written_leaseUntil, (takeLease_lease hu).2]
            rfl
          · exact leaseCandidates_leaseUntil worker now cs _ rest hrest a ha
        · exact leaseCandidates_leaseUntil worker now cs db claimed h
        · cases h

/-- **Every delivery of the batch finishes within its lease.** -/
def Covered (slots : List Slot) : Prop := ∀ x ∈ slots, ∀ u ∈ x.attempt.leaseUntil, x.ends ≤ u

theorem covered_iff {now : Time} {batch : List WebhookAttempt} {ds : List RequestDuration}
    (hbatch : ∀ a ∈ batch, a.leaseUntil = some (now + hooksLease))
    (hlen : ds.length = batch.length) :
    Covered (schedule now batch ds) ↔ total ds ≤ hooksLease := by
  constructor
  · intro h
    by_cases hb : batch = []
    · subst hb
      have hds : ds = [] := List.length_eq_zero_iff.mp hlen
      subst hds
      decide
    · obtain ⟨x, hx, hends⟩ := schedule_last now batch ds hlen hb
      have hle := h x hx (now + hooksLease) (hbatch _ (mem_of_schedule hx))
      linarith
  · intro h x hx u hu
    rw [hbatch _ (mem_of_schedule hx)] at hu
    cases hu
    have := (schedule_ends now batch ds x hx).2
    linarith

/-! ## What a claim selects -/

/-- Rows that were read, and that the due or the expired-lease query selects at `now`. -/
def Picked (now : Time) (seen cs : List WebhookAttempt) : Prop :=
  ∀ c ∈ cs, c ∈ seen ∧ (dueAttempts now c ∨ expiredLeases now c)

theorem Picked.append {now : Time} {seen seen' cs cs' : List WebhookAttempt}
    (h : Picked now seen cs) (h' : Picked now seen' cs') (hs : seen ⊆ seen') :
    Picked now seen' (cs ++ cs') := by
  intro c hc
  rcases List.mem_append.mp hc with hc | hc
  · exact ⟨hs (h c hc).1, (h c hc).2⟩
  · exact h' c hc

/-- One query over the table. -/
theorem picked_selectRows {now : Time} {P : WebhookAttempt → Prop} [DecidablePred P]
    (hP : ∀ a, P a → dueAttempts now a ∨ expiredLeases now a)
    {r : WebhookAttempt → WebhookAttempt → Prop} [DecidableRel r] (limit : ℕ)
    {seen rows : List WebhookAttempt} (h : rows ⊆ seen) :
    Picked now seen (selectRows P r limit rows) :=
  fun _ hc => ⟨h (mem_selectRows hc).1, hP _ (mem_selectRows hc).2⟩

theorem timeOrderedCandidates_picked (now : Time) (limit : ℕ) (seen : List WebhookAttempt) :
    (timeOrderedCandidates now limit).wp (Picked now) seen := by
  refine wp_bind (wp_query fun db => ?_)
  have hready : Picked now (seen ++ db.rows)
      (selectRows (dueAttempts now) byNextAttemptAt limit db.rows) :=
    picked_selectRows (fun _ h => .inl h) _ (List.subset_append_right _ _)
  dsimp only
  split_ifs
  · refine wp_bind (wp_query fun db' => wp_pure ?_)
    exact hready.append (picked_selectRows (fun _ h => .inr h) _ (List.subset_append_right _ _))
      (List.subset_append_left _ _)
  · exact wp_pure hready

theorem dueOfEndpoints_picked (now : Time) (limit : ℕ) :
    ∀ (endpoints : List String) (ready seen : List WebhookAttempt), Picked now seen ready →
      (dueOfEndpoints now limit endpoints ready).wp (Picked now) seen
  | [], _, _, h => wp_pure h
  | _ :: endpoints, ready, seen, h => by
    refine wp_bind (wp_query fun db => dueOfEndpoints_picked now limit endpoints _ _ ?_)
    exact h.append (picked_selectRows (fun _ h => .inl h.1) _ (List.subset_append_right _ _))
      (List.subset_append_left _ _)

theorem perEndpointCandidates_picked (now : Time) (limit : ℕ) (endpoints : List String)
    (seen : List WebhookAttempt) :
    (perEndpointCandidates now limit endpoints).wp (Picked now) seen := by
  refine wp_bind (wp_mono ?_ (dueOfEndpoints_picked now limit endpoints [] seen ?_))
  · intro seen all hall
    have hready : Picked now seen ((all.insertionSort byNextAttemptAt).take limit) :=
      fun c hc => hall c ((List.mem_insertionSort _).mp (List.mem_of_mem_take hc))
    dsimp only
    split_ifs
    · refine wp_bind (wp_query fun db => wp_pure ?_)
      exact hready.append (picked_selectRows (fun _ h => .inr h.1) _ (List.subset_append_right _ _))
        (List.subset_append_left _ _)
    · exact wp_pure hready
  · intro c hc
    cases hc

theorem filterByEndpointHealth_picked (candidates : List WebhookAttempt) (now : Time) (budget : ℕ)
    (served : ServedModes) {seen : List WebhookAttempt} (h : Picked now seen candidates) :
    (filterByEndpointHealth candidates now budget served).wp (Picked now) seen := by
  unfold filterByEndpointHealth
  split_ifs
  · exact wp_pure h
  · refine wp_bind (wp_query fun db => wp_pure fun c hc => ?_)
    obtain ⟨hseen, hpick⟩ := h c (List.mem_of_mem_filter (List.mem_of_mem_take hc))
    exact ⟨List.mem_append_left _ hseen, hpick⟩

/-- **A claim selects attempts that are due or whose lease has expired.** -/
theorem webhookCandidates_picked (now : Time) (budget : ℕ) (served : ServedModes) :
    (webhookCandidates now budget served).wp (Picked now) [] := by
  refine wp_bind (wp_query fun db => wp_bind ?_)
  refine wp_mono (fun seen cs hcs => ?_) (Q := Picked now) ?_
  · exact filterByEndpointHealth_picked cs now budget served hcs
  · split_ifs
    · exact timeOrderedCandidates_picked now budget _
    · exact wp_pure fun c hc => by cases hc
    · exact perEndpointCandidates_picked now budget _ _

/-! ## All workers -/

/-- Where a poll of the hooks role is. -/
inductive Phase
  | idle
  /-- In `webhook_candidates`, started at `now`. -/
  | selecting (now : Time) (sel : Select HooksDb (List WebhookAttempt))
  /-- In `lease_candidates`: what is left, and what was leased. -/
  | leasing (now : Time) (cs claimed : List WebhookAttempt)
  /-- In `deliver_claimed`: the request under way and those to come. -/
  | delivering (slots : List Slot)
  | crashed

/-- The attempts the worker has leased and not delivered. -/
def Phase.held : Phase → List WebhookAttempt
  | .leasing _ _ claimed => claimed
  | .delivering slots => slots.map Slot.attempt
  | _ => []

/-- When the claim under way started. -/
def Phase.claimedAt : Phase → Option Time
  | .selecting now _ => some now
  | .leasing now _ _ => some now
  | _ => none

def Phase.slots : Phase → List Slot
  | .delivering slots => slots
  | _ => []

structure Sys where
  clock : Time
  db : HooksDb
  procs : List (Worker × Phase)

def Sys.go (s : Sys) (i : ℕ) (w : Worker) (x : Phase) : Sys :=
  { s with procs := s.procs.set i (w, x) }

inductive Op
  | claim
  | read
  | collect
  | lease
  /-- `deliver_claimed` starts; `ds` is how long its requests will take. -/
  | deliver (ds : List RequestDuration)
  /-- The request under way ends; `call` is what its delivery meets. -/
  | finish (call : Call)
  | done
  /-- The claim returns an error. -/
  | fail
  | crash

inductive Action
  /-- Time passes. -/
  | tick (now : Time)
  | worker (i : ℕ) (op : Op)
  /-- An event is enqueued for an endpoint. -/
  | enqueue (a : WebhookAttempt)
  /-- `replayWebhookAttempt` -/
  | replay (id : String)
  /-- The endpoint is deleted, and its attempts with it. -/
  | delete (id : String)
  | setEndpoints (endpoints : WebhookEndpoints)

/-- What `replay_attempt` writes. -/
def replayPatch (now : Time) : UpdateWebhookAttemptInput where
  state := some .pending
  attempts := some 0
  lastStatusCode := some none
  lastError := some none
  leaseOwner := some none
  leaseUntil := some none
  nextAttemptAt := some (some now)

/-- `replay_attempt`, for the attempt's row: only a failed or dead delivery. -/
def replayAttempt (db : HooksDb) (id : String) (now : Time) : Option HooksDb :=
  match db.find id with
  | none => none
  | some a =>
    if a.state = .failed ∨ a.state = .dead then
      match a.update a.version (replayPatch now) now with
      | .ok row => some (db.replace row)
      | .error _ => none
    else none

variable (parse : String → Except String Unit)

/-- The next thing worker `i` does. -/
def workerStep (s : Sys) (i : ℕ) (w : Worker) : Op → Phase → Option Sys
  | .claim, .idle =>
    some (s.go i w (.selecting s.clock (webhookCandidates s.clock hooksBudget w.served)))
  | .read, .selecting now (.read k) => some (s.go i w (.selecting now (k s.db)))
  | .collect, .selecting now (.done cs) => some (s.go i w (.leasing now cs []))
  | .lease, .leasing now (c :: cs) claimed =>
    match takeLease c w.name now with
    | none => some (s.go i w .idle)
    | some u =>
      match s.db.find c.id with
      | none => some (s.go i w (.leasing now cs claimed))
      | some row =>
        match row.update c.version u s.clock with
        | .ok row =>
            some { s.go i w (.leasing now cs (claimed ++ [row])) with db := s.db.replace row }
        | .error .preconditionFailed => some (s.go i w (.leasing now cs claimed))
        | .error (.refused _) => some (s.go i w .idle)
  | .deliver ds, .leasing _ [] claimed =>
    if ds.length = claimed.length then some (s.go i w (.delivering (schedule s.clock claimed ds)))
    else none
  | .finish call, .delivering (x :: slots) =>
    if x.ends = s.clock then
      some { s.go i w (.delivering slots) with
        db := (deliverOne parse w s.db ⟨x.attempt, call, x.starts⟩).1 }
    else none
  | .done, .delivering [] => some (s.go i w .idle)
  | .fail, .selecting .. => some (s.go i w .idle)
  | .fail, .leasing .. => some (s.go i w .idle)
  | .crash, _ => some (s.go i w .crashed)
  | _, _ => none

/-- **One step of the system.** A request does not go on after its end. -/
def step (s : Sys) : Action → Option Sys
  | .tick now =>
    if s.clock ≤ now ∧ ∀ x ∈ s.procs, ∀ slot ∈ x.2.slots, now ≤ slot.ends then
      some { s with clock := now }
    else none
  | .worker i op =>
    match s.procs[i]? with
    | none => none
    | some x => workerStep parse s i x.1 op x.2
  | .enqueue a =>
    if h : a.state = .pending ∧ a.id ∉ s.db.issued then some { s with db := s.db.insert a h.2 }
      else none
  | .replay id => (replayAttempt s.db id s.clock).map fun db => { s with db := db }
  | .delete id => some { s with db := s.db.delete id }
  | .setEndpoints endpoints => some { s with db := s.db.setRest endpoints }

/-- **No claim takes longer than the lease, the requests of its batch included.** -/
def WithinLease (s : Sys) (a : Action) (_ : Sys) : Prop :=
  match a with
  | .tick now => ∀ x ∈ s.procs, ∀ t ∈ x.2.claimedAt, now ≤ t + hooksLease
  | .worker i (.deliver ds) => ∀ x ∈ s.procs[i]?, ∀ t ∈ x.2.claimedAt,
      s.clock + total ds ≤ t + hooksLease
  | _ => True

instance (s : Sys) (a : Action) (s' : Sys) : Decidable (WithinLease s a s') := by
  unfold WithinLease
  split <;> infer_instance

/-- **What a worker has leased and not delivered** is not selected by an expired-lease query, made
now or before, and no other worker has it. -/
def NotReclaimed (s : Sys) : Prop :=
  ∀ (i : ℕ) (x : Worker × Phase), s.procs[i]? = some x → ∀ a ∈ x.2.held,
    (∀ r ∈ s.db.rows, r.id = a.id → ∀ now ≤ s.clock, ¬ expiredLeases now r) ∧
    ∀ (j : ℕ) (y : Worker × Phase), j ≠ i → s.procs[j]? = some y → ∀ b ∈ y.2.held, b.id ≠ a.id

/-! ### Changes of the table -/

/-- Every row is one that was there, or a newer version of a row with `T`, or has a new id. -/
structure Evolves (T : WebhookAttempt → Prop) (db db' : HooksDb) : Prop where
  issued : ∀ k ∈ db.issued, k ∈ db'.issued
  rows : ∀ r' ∈ db'.rows, r' ∈ db.rows ∨
    (∃ r ∈ db.rows, r.id = r'.id ∧ r.version < r'.version ∧ T r) ∨ r'.id ∉ db.issued

theorem Evolves.of_rows {T : WebhookAttempt → Prop} {db db' : HooksDb} (hr : db'.rows = db.rows)
    (hi : db'.issued = db.issued) : Evolves T db db' :=
  ⟨fun _ h => by rw [hi]; exact h, fun _ h => .inl (by rw [← hr]; exact h)⟩

theorem Evolves.trans_rows {T : WebhookAttempt → Prop} {db db' db'' : HooksDb}
    (h : Evolves T db db') (hr : db''.rows = db'.rows) (hi : db''.issued = db'.issued) :
    Evolves T db db'' :=
  ⟨fun k hk => by rw [hi]; exact h.issued k hk, fun r hr' => h.rows r (by rw [← hr]; exact hr')⟩

/-- A row is replaced by what a committed update leaves. -/
theorem evolves_replace {T : WebhookAttempt → Prop} {db : HooksDb} {row row' : WebhookAttempt}
    {v : ℕ} {u : UpdateWebhookAttemptInput} {now : Time} (hrow : row ∈ db.rows) (hT : T row)
    (hok : row.update v u now = .ok row') : Evolves T db (db.replace row') := by
  obtain ⟨-, -, rfl⟩ := update_ok hok
  refine ⟨fun _ h => h, fun r' hr' => ?_⟩
  obtain ⟨r, hr, rfl⟩ := List.mem_map.mp hr'
  unfold replaceRow
  split_ifs with hk
  · refine .inr (.inl ⟨row, hrow, (written_id u now row).symm, ?_, hT⟩)
    rw [written_version]
    exact Nat.lt_succ_self _
  · exact .inl hr

theorem evolves_delete (T : WebhookAttempt → Prop) (db : HooksDb) (id : String) :
    Evolves T db (db.delete id) :=
  ⟨fun _ h => h, fun _ h => .inl (List.mem_of_mem_filter h)⟩

theorem evolves_insert (T : WebhookAttempt → Prop) (db : HooksDb) (a : WebhookAttempt)
    (h : a.id ∉ db.issued) : Evolves T db (db.insert a h) := by
  refine ⟨fun _ hk => List.mem_cons_of_mem _ hk, fun r' hr' => ?_⟩
  rcases List.mem_cons.mp hr' with rfl | hr'
  · exact .inr (.inr h)
  · exact .inl hr'

theorem evolves_saveAttempt (db : HooksDb) (a : WebhookAttempt) (u : UpdateWebhookAttemptInput)
    (now : Time) : Evolves (fun r => r.id = a.id) db (saveAttempt db a u now) := by
  unfold saveAttempt
  split
  · exact .of_rows rfl rfl
  · next row hrow =>
    obtain ⟨hmem, hid⟩ := Db.find_some hrow
    split
    · next row' hok => exact evolves_replace hmem hid hok
    · exact .of_rows rfl rfl

/-- **A delivery** changes the row of its own attempt only. -/
theorem evolves_deliverOne (w : Worker) (db : HooksDb) (x : Turn) :
    Evolves (fun r => r.id = x.attempt.id) db (deliverOne parse w db x).1 := by
  have hwrite : ∀ e o, Evolves (fun r => r.id = x.attempt.id) db
      (writeOutcome (withSettings db x) x.attempt e o x.now x.call) := by
    intro e o
    have hsave := evolves_saveAttempt (withSettings db x) x.attempt
      (attemptPatch x.attempt e.maxAttempts o x.now) x.now
    have hfirst : Evolves (fun r => r.id = x.attempt.id) db
        (if x.call.attemptSaved then saveAttempt (withSettings db x) x.attempt
          (attemptPatch x.attempt e.maxAttempts o x.now) x.now else withSettings db x) := by
      split_ifs
      · exact ⟨hsave.issued, hsave.rows⟩
      · exact .of_rows rfl rfl
    unfold writeOutcome
    dsimp only
    generalize (if x.call.attemptSaved then saveAttempt (withSettings db x) x.attempt
      (attemptPatch x.attempt e.maxAttempts o x.now) x.now else withSettings db x) = db' at hfirst ⊢
    split
    · exact hfirst
    · split_ifs
      · exact hfirst.trans_rows rfl rfl
      · exact hfirst
  unfold deliverOne
  dsimp only
  split
  · split
    · exact .of_rows rfl rfl
    · split
      · split
        · dsimp only
          exact hwrite _ _
        · exact hwrite _ _
      · exact .of_rows rfl rfl
  · exact .of_rows rfl rfl

theorem evolves_replayAttempt {db db' : HooksDb} {id : String} {now : Time}
    (h : replayAttempt db id now = some db') : Evolves (fun r => r.state ≠ .delivering) db db' := by
  unfold replayAttempt at h
  split at h
  · cases h
  · next a ha =>
    split_ifs at h with hstate
    split at h
    · next row hok =>
      cases h
      refine evolves_replace (Db.find_some ha).1 ?_ hok
      rcases hstate with h | h <;> rw [h] <;> decide
    · cases h

/-! ### Copies and leases -/

/-- A copy of a row read now or earlier: the row is newer, or it is the copy. -/
def Fresh (db : HooksDb) (c : WebhookAttempt) : Prop :=
  c.id ∈ db.issued ∧ ∀ r ∈ db.rows, r.id = c.id → r = c ∨ c.version < r.version

/-- The row is as the worker leased it. -/
def Holds (db : HooksDb) (a : WebhookAttempt) : Prop :=
  a.state = .delivering ∧ a.id ∈ db.issued ∧ ∀ r ∈ db.rows, r.id = a.id → r = a

theorem Fresh.of_mem {db : HooksDb} {r : WebhookAttempt} (h : r ∈ db.rows) : Fresh db r :=
  ⟨db.issued_of_mem r h, fun _ hr' hid => .inl (db.eq_of_key hr' h hid)⟩

theorem Fresh.evolves {T : WebhookAttempt → Prop} {db db' : HooksDb} {c : WebhookAttempt}
    (h : Fresh db c) (hev : Evolves T db db') : Fresh db' c := by
  refine ⟨hev.issued _ h.1, fun r' hr' hid => ?_⟩
  rcases hev.rows r' hr' with hr | ⟨r, hr, hrid, hv, -⟩ | hnew
  · exact h.2 r' hr hid
  · rcases h.2 r hr (hrid.trans hid) with rfl | hlt
    · exact .inr hv
    · exact .inr (hlt.trans hv)
  · rw [hid] at hnew
    exact absurd h.1 hnew

theorem Holds.evolves {T : WebhookAttempt → Prop} {db db' : HooksDb} {a : WebhookAttempt}
    (h : Holds db a) (hT : ¬ T a) (hev : Evolves T db db') : Holds db' a := by
  refine ⟨h.1, hev.issued _ h.2.1, fun r' hr' hid => ?_⟩
  rcases hev.rows r' hr' with hr | ⟨r, hr, hrid, -, ht⟩ | hnew
  · exact h.2.2 r' hr hid
  · rw [h.2.2 r hr (hrid.trans hid)] at ht
    exact absurd ht hT
  · rw [hid] at hnew
    exact absurd h.2.1 hnew

/-- **Nobody takes a lease that runs**: a candidate whose write would commit is no attempt held
under a lease that has not expired. -/
theorem Holds.ne_candidate {db : HooksDb} {a c row : WebhookAttempt} {now clock u : Time}
    (h : Holds db a) (hu : a.leaseUntil = some u) (hclock : clock ≤ u) (hnow : now ≤ clock)
    (hc : Fresh db c) (hpick : dueAttempts now c ∨ expiredLeases now c) (hrow : row ∈ db.rows)
    (hid : row.id = c.id) (hv : row.version = c.version) : a.id ≠ c.id := by
  intro hac
  have hra : row = a := h.2.2 row hrow (hid.trans hac.symm)
  have hrc : row = c := by
    rcases hc.2 row hrow hid with h | h
    · exact h
    · exact absurd hv (Nat.ne_of_gt h)
  rw [← hrc, hra] at hpick
  rcases hpick with ⟨hstate, -⟩ | ⟨-, t, ht, hlt⟩
  · rw [h.1] at hstate
    rcases hstate with hs | hs <;> cases hs
  · rw [hu] at ht
    cases ht
    exact absurd hlt (not_lt.mpr (hnow.trans hclock))

/-! ### The invariant -/

/-- What a worker knows where it is. -/
def Knows (clock : Time) (db : HooksDb) : Phase → Prop
  | .idle => True
  | .selecting now sel => now ≤ clock ∧ clock ≤ now + hooksLease ∧
      ∃ seen, (∀ c ∈ seen, Fresh db c) ∧ sel.wp (Picked now) seen
  | .leasing now cs claimed => now ≤ clock ∧ clock ≤ now + hooksLease ∧
      (∀ c ∈ cs, Fresh db c ∧ (dueAttempts now c ∨ expiredLeases now c)) ∧
      ∀ a ∈ claimed, Holds db a ∧ a.leaseUntil = some (now + hooksLease)
  | .delivering slots => ∀ x ∈ slots, Holds db x.attempt ∧ clock ≤ x.ends ∧
      ∃ u, x.attempt.leaseUntil = some u ∧ x.ends ≤ u
  | .crashed => True

theorem Knows.evolves {T : WebhookAttempt → Prop} {clock : Time} {db db' : HooksDb} {x : Phase}
    (h : Knows clock db x) (hev : Evolves T db db') (hT : ∀ a ∈ x.held, ¬ T a) :
    Knows clock db' x := by
  cases x with
  | idle => trivial
  | crashed => trivial
  | selecting now sel =>
    obtain ⟨h1, h2, seen, hseen, hwp⟩ := h
    exact ⟨h1, h2, seen, fun c hc => (hseen c hc).evolves hev, hwp⟩
  | leasing now cs claimed =>
    obtain ⟨h1, h2, hcs, hclaimed⟩ := h
    exact ⟨h1, h2, fun c hc => ⟨(hcs c hc).1.evolves hev, (hcs c hc).2⟩,
      fun a ha => ⟨(hclaimed a ha).1.evolves (hT a ha) hev, (hclaimed a ha).2⟩⟩
  | delivering slots =>
    intro x hx
    obtain ⟨hh, hrest⟩ := h x hx
    exact ⟨hh.evolves (hT _ (List.mem_map_of_mem hx)) hev, hrest⟩

/-- What is held is held under a lease that runs. -/
theorem Knows.held {clock : Time} {db : HooksDb} {x : Phase} (h : Knows clock db x)
    {a : WebhookAttempt} (ha : a ∈ x.held) :
    Holds db a ∧ ∃ u, a.leaseUntil = some u ∧ clock ≤ u := by
  cases x with
  | idle => cases ha
  | crashed => cases ha
  | selecting now sel => cases ha
  | leasing now cs claimed =>
    obtain ⟨-, h2, -, hclaimed⟩ := h
    exact ⟨(hclaimed a ha).1, _, (hclaimed a ha).2, h2⟩
  | delivering slots =>
    obtain ⟨x, hx, rfl⟩ := List.mem_map.mp ha
    obtain ⟨hh, hends, u, hu, hle⟩ := h x hx
    exact ⟨hh, u, hu, hends.trans hle⟩

/-- **The invariant.** -/
structure Inv (s : Sys) : Prop where
  knows : ∀ x ∈ s.procs, Knows s.clock s.db x.2
  nodup : ∀ x ∈ s.procs, (x.2.held.map WebhookAttempt.id).Nodup
  apart : ∀ (i j : ℕ) (x y : Worker × Phase), i ≠ j → s.procs[i]? = some x → s.procs[j]? = some y →
    ∀ a ∈ x.2.held, ∀ b ∈ y.2.held, a.id ≠ b.id

theorem Inv.notReclaimed {s : Sys} (hs : Inv s) : NotReclaimed s := by
  intro i x hx a ha
  refine ⟨fun r hr hid now hnow => ?_, fun j y hj hy b hb => hs.apart j i y x hj hy hx b hb a ha⟩
  obtain ⟨hh, u, hu, hle⟩ := (hs.knows x (List.mem_of_getElem? hx)).held ha
  rw [hh.2.2 r hr hid]
  rintro ⟨-, t, ht, hlt⟩
  rw [hu] at ht
  cases ht
  exact absurd hlt (not_lt.mpr (hnow.trans hle))

/-- The table changes, but no row that is held. -/
theorem Inv.evolves {s : Sys} (hs : Inv s) {T : WebhookAttempt → Prop} {db : HooksDb}
    (hev : Evolves T s.db db) (hT : ∀ x ∈ s.procs, ∀ a ∈ x.2.held, ¬ T a) :
    Inv { s with db := db } :=
  ⟨fun x hx => (hs.knows x hx).evolves hev (hT x hx), hs.nodup, hs.apart⟩

/-- **A worker goes on**, and may change rows that no other worker holds. -/
theorem Inv.go {s : Sys} (hs : Inv s) {i : ℕ} {w : Worker} {x x' : Phase}
    (hi : s.procs[i]? = some (w, x)) {T : WebhookAttempt → Prop} {db : HooksDb}
    (hev : Evolves T s.db db)
    (hT : ∀ (j : ℕ) (y : Worker × Phase), j ≠ i → s.procs[j]? = some y → ∀ a ∈ y.2.held, ¬ T a)
    (hk : Knows s.clock db x') (hnodup : (x'.held.map WebhookAttempt.id).Nodup)
    (hapart : ∀ a ∈ x'.held, a ∈ x.held ∨ ∀ (j : ℕ) (y : Worker × Phase), j ≠ i →
      s.procs[j]? = some y → ∀ b ∈ y.2.held, b.id ≠ a.id) :
    Inv { s.go i w x' with db := db } := by
  have hlt : i < s.procs.length := (List.getElem?_eq_some_iff.mp hi).1
  -- A process of the new state is the worker, or one of the others as it was.
  have hprocs : ∀ (j : ℕ) (y : Worker × Phase), (s.procs.set i (w, x'))[j]? = some y →
      (j = i ∧ y = (w, x')) ∨ (j ≠ i ∧ s.procs[j]? = some y) := by
    intro j y hy
    by_cases hj : j = i
    · subst hj
      rw [List.getElem?_set_self hlt] at hy
      exact .inl ⟨rfl, (Option.some.inj hy).symm⟩
    · rw [List.getElem?_set_ne (Ne.symm hj)] at hy
      exact .inr ⟨hj, hy⟩
  have hother : ∀ (j : ℕ) (y : Worker × Phase), j ≠ i → s.procs[j]? = some y → ∀ b ∈ y.2.held,
      ∀ a ∈ x'.held, b.id ≠ a.id := by
    intro j y hj hy b hb a ha
    rcases hapart a ha with ha | ha
    · exact hs.apart j i y (w, x) hj hy hi b hb a ha
    · exact ha j y hj hy b hb
  refine ⟨fun y hy => ?_, fun y hy => ?_, fun j k y z hjk hy hz a ha b hb => ?_⟩
  · obtain ⟨j, hj⟩ := List.mem_iff_getElem?.mp hy
    rcases hprocs j y hj with ⟨-, rfl⟩ | ⟨hne, hy⟩
    · exact hk
    · exact (hs.knows y (List.mem_of_getElem? hy)).evolves hev (hT j y hne hy)
  · obtain ⟨j, hj⟩ := List.mem_iff_getElem?.mp hy
    rcases hprocs j y hj with ⟨-, rfl⟩ | ⟨hne, hy⟩
    · exact hnodup
    · exact hs.nodup y (List.mem_of_getElem? hy)
  · rcases hprocs j y hy with ⟨hj, rfl⟩ | ⟨hj, hy⟩ <;> rcases hprocs k z hz with
      ⟨hk', rfl⟩ | ⟨hk', hz⟩
    · exact absurd (hj.trans hk'.symm) hjk
    · exact (hother k z hk' hz b hb a ha).symm
    · exact hother j y hj hy a ha b hb
    · exact hs.apart j k y z hjk hy hz a ha b hb

/-- A worker goes on with what it has, or without it. -/
theorem Inv.keep {s : Sys} (hs : Inv s) {i : ℕ} {w : Worker} {x x' : Phase}
    (hi : s.procs[i]? = some (w, x)) (hk : Knows s.clock s.db x') (hheld : x'.held.Sublist x.held) :
    Inv (s.go i w x') := by
  have hev : Evolves (fun _ => False) s.db s.db := .of_rows rfl rfl
  refine hs.go hi hev (fun _ _ _ _ _ _ h => h) hk ?_ fun a ha => .inl (hheld.subset ha)
  exact (hs.nodup _ (List.mem_of_getElem? hi)).sublist (hheld.map _)

/-- **A lease is taken.** -/
theorem Inv.lease {s : Sys} (hs : Inv s) {i : ℕ} {w : Worker} {now : Time} {c : WebhookAttempt}
    {cs claimed : List WebhookAttempt} (hi : s.procs[i]? = some (w, .leasing now (c :: cs) claimed))
    {u : UpdateWebhookAttemptInput} (hu : takeLease c w.name now = some u)
    {row row' : WebhookAttempt} (hrow : s.db.find c.id = some row)
    (hok : row.update c.version u s.clock = .ok row') :
    Inv { s.go i w (.leasing now cs (claimed ++ [row'])) with db := s.db.replace row' } := by
  obtain ⟨hmem, hid⟩ := Db.find_some hrow
  obtain ⟨hv, -, hrow'⟩ := update_ok hok
  have hknows := hs.knows _ (List.mem_of_getElem? hi)
  obtain ⟨hnow, hlease, hcs, hclaimed⟩ := hknows
  obtain ⟨hfresh, hpick⟩ := hcs c List.mem_cons_self
  have hid' : row'.id = c.id := by rw [hrow', written_id]; exact hid
  -- Nobody holds the candidate, the worker itself included.
  have hfree : ∀ x ∈ s.procs, ∀ a ∈ x.2.held, a.id ≠ c.id := by
    intro x hx a ha
    obtain ⟨hh, t, ht, hle⟩ := (hs.knows x hx).held ha
    exact hh.ne_candidate ht hle hnow hfresh hpick hmem hid hv
  have hev : Evolves (fun r => r.id = c.id) s.db (s.db.replace row') := evolves_replace hmem hid hok
  have hself : Holds (s.db.replace row') row' := by
    refine ⟨?_, ?_, ?_⟩
    · rw [hrow', written_state, (takeLease_lease hu).1]
      rfl
    · rw [hid']
      exact hfresh.1
    · intro r hr hrid
      exact (s.db.replace row').eq_of_key hr
        (Db.mem_replace_self hmem (hid.trans hid'.symm)) hrid
  refine hs.go hi hev (fun j y _ hy a ha => hfree y (List.mem_of_getElem? hy) a ha) ?_ ?_ ?_
  · refine ⟨hnow, hlease, fun c' hc' => ?_, fun a ha => ?_⟩
    · obtain ⟨hf, hp⟩ := hcs c' (List.mem_cons_of_mem _ hc')
      exact ⟨hf.evolves hev, hp⟩
    · rcases List.mem_append.mp ha with ha | ha
      · exact ⟨(hclaimed a ha).1.evolves (hfree _ (List.mem_of_getElem? hi) a ha) hev,
          (hclaimed a ha).2⟩
      · rw [List.mem_singleton.mp ha]
        refine ⟨hself, ?_⟩
        rw [hrow', written_leaseUntil, (takeLease_lease hu).2]
        rfl
  · change ((claimed ++ [row']).map WebhookAttempt.id).Nodup
    rw [List.map_append, List.nodup_append]
    refine ⟨hs.nodup _ (List.mem_of_getElem? hi), List.nodup_singleton _, ?_⟩
    intro k hk k' hk'
    obtain ⟨a, ha, rfl⟩ := List.mem_map.mp hk
    rw [List.map_singleton, List.mem_singleton] at hk'
    rw [hk', hid']
    exact hfree _ (List.mem_of_getElem? hi) a ha
  · intro a ha
    rcases List.mem_append.mp ha with ha | ha
    · exact .inl ha
    · refine .inr fun j y _ hy b hb => ?_
      rw [List.mem_singleton.mp ha, hid']
      exact hfree y (List.mem_of_getElem? hy) b hb

theorem held_schedule : ∀ (t : Time) (batch : List WebhookAttempt) (ds : List RequestDuration),
    ds.length = batch.length → (schedule t batch ds).map Slot.attempt = batch
  | _, [], _, _ => rfl
  | _, _ :: _, [], h => by cases h
  | t, a :: batch, d :: ds, h => by
    have ih := held_schedule (t + d.val) batch ds (Nat.succ.inj h)
    rw [schedule, List.map_cons, ih]

/-- **The deliveries start**: those of the batch end within the lease. -/
theorem Inv.startDeliveries {s : Sys} (hs : Inv s) {i : ℕ} {w : Worker} {now : Time}
    {claimed : List WebhookAttempt} (hi : s.procs[i]? = some (w, .leasing now [] claimed))
    {ds : List RequestDuration} (hlen : ds.length = claimed.length)
    (hle : s.clock + total ds ≤ now + hooksLease) :
    Inv (s.go i w (.delivering (schedule s.clock claimed ds))) := by
  obtain ⟨-, -, -, hclaimed⟩ := hs.knows _ (List.mem_of_getElem? hi)
  refine hs.keep hi (fun slot hslot => ?_) ?_
  · obtain ⟨hstart, hend⟩ := schedule_ends s.clock claimed ds slot hslot
    obtain ⟨hh, hu⟩ := hclaimed _ (mem_of_schedule hslot)
    exact ⟨hh, hstart, _, hu, hend.trans hle⟩
  · change ((schedule s.clock claimed ds).map Slot.attempt).Sublist claimed
    rw [held_schedule s.clock claimed ds hlen]

/-- **A delivery ends**, and its worker does not hold the attempt any more. -/
theorem Inv.deliver {s : Sys} (hs : Inv s) {i : ℕ} {w : Worker} {slot : Slot} {slots : List Slot}
    (hi : s.procs[i]? = some (w, .delivering (slot :: slots))) {db : HooksDb}
    (hev : Evolves (fun r => r.id = slot.attempt.id) s.db db) :
    Inv { s.go i w (.delivering slots) with db := db } := by
  have hknows := hs.knows _ (List.mem_of_getElem? hi)
  have hnodup := hs.nodup _ (List.mem_of_getElem? hi)
  have hmine : ∀ a ∈ slots.map Slot.attempt, a.id ≠ slot.attempt.id := by
    intro a ha hid
    refine (List.nodup_cons.mp hnodup).1 ?_
    rw [← hid]
    exact List.mem_map_of_mem ha
  refine hs.go hi hev (fun j y hj hy a ha => ?_) ?_ (List.nodup_cons.mp hnodup).2
    fun a ha => .inl (List.mem_cons_of_mem _ ha)
  · exact hs.apart j i y _ hj hy hi a ha _ List.mem_cons_self
  · refine Knows.evolves (x := .delivering slots) (fun x hx => ?_) hev hmine
    exact hknows x (List.mem_cons_of_mem _ hx)

/-- **One step of a worker.** -/
theorem workerStep_inv {s s' : Sys} (hs : Inv s) {i : ℕ} {w : Worker} {x : Phase} {op : Op}
    (hi : s.procs[i]? = some (w, x)) (h : workerStep parse s i w op x = some s')
    (hq : WithinLease s (.worker i op) s') : Inv s' := by
  have hknows := hs.knows _ (List.mem_of_getElem? hi)
  unfold workerStep at h
  split at h
  · -- The claim starts.
    cases h
    refine hs.keep hi ⟨le_refl _, ?_, [], fun _ hc => absurd hc List.not_mem_nil, ?_⟩
      (List.nil_sublist _)
    · have : (0 : ℤ) ≤ hooksLease := by decide
      linarith
    · exact webhookCandidates_picked _ _ _
  · cases h
    obtain ⟨h1, h2, seen, hseen, hwp⟩ := hknows
    refine hs.keep hi ⟨h1, h2, seen ++ s.db.rows, fun c hc => ?_, hwp s.db⟩ (List.nil_sublist _)
    rcases List.mem_append.mp hc with hc | hc
    · exact hseen c hc
    · exact .of_mem hc
  · cases h
    obtain ⟨h1, h2, seen, hseen, hwp⟩ := hknows
    refine hs.keep hi ⟨h1, h2, fun c hc => ?_, fun a ha => by cases ha⟩ (List.nil_sublist _)
    exact ⟨hseen c (hwp c hc).1, (hwp c hc).2⟩
  · next now c cs claimed =>
    obtain ⟨h1, h2, hcs, hclaimed⟩ := hknows
    have hskip : Inv (s.go i w (.leasing now cs claimed)) :=
      hs.keep hi ⟨h1, h2, fun c' hc' => hcs c' (List.mem_cons_of_mem _ hc'), hclaimed⟩
        (List.Sublist.refl _)
    have hstop : Inv (s.go i w .idle) := hs.keep hi trivial (List.nil_sublist _)
    split at h
    · cases h; exact hstop
    · next u hu =>
      split at h
      · cases h; exact hskip
      · next row hrow =>
        split at h
        · next row' hok =>
          cases h
          exact hs.lease hi hu hrow hok
        · cases h; exact hskip
        · cases h; exact hstop
  · next ds now claimed =>
    split_ifs at h with hlen
    cases h
    exact hs.startDeliveries hi hlen (hq _ hi now rfl)
  · next call slot slots =>
    split_ifs at h with hends
    cases h
    exact hs.deliver hi (evolves_deliverOne parse w s.db ⟨slot.attempt, call, slot.starts⟩)
  all_goals cases h
  all_goals exact hs.keep hi trivial (List.nil_sublist _)

/-- **One step.** -/
theorem step_inv {s s' : Sys} {a : Action} (hs : Inv s) (h : step parse s a = some s')
    (hq : WithinLease s a s') : Inv s' := by
  cases a with
  | tick now =>
    dsimp only [step] at h
    split_ifs at h with hguard
    cases h
    obtain ⟨hle, hends⟩ := hguard
    refine ⟨fun x hx => ?_, hs.nodup, hs.apart⟩
    have hk := hs.knows x hx
    have hlease := hq x hx
    have hslots := hends x hx
    obtain ⟨w, x⟩ := x
    cases x with
    | idle => trivial
    | crashed => trivial
    | selecting t sel => exact ⟨hk.1.trans hle, hlease t rfl, hk.2.2⟩
    | leasing t cs claimed => exact ⟨hk.1.trans hle, hlease t rfl, hk.2.2⟩
    | delivering slots =>
      intro slot hslot
      exact ⟨(hk slot hslot).1, hslots slot hslot, (hk slot hslot).2.2⟩
  | worker i op =>
    dsimp only [step] at h
    split at h
    · cases h
    · next x hi => exact workerStep_inv parse hs hi h hq
  | enqueue a =>
    dsimp only [step] at h
    split_ifs at h with hnew
    cases h
    exact hs.evolves (evolves_insert (fun _ => False) s.db a hnew.2) fun _ _ _ _ h => h
  | replay id =>
    obtain ⟨db, hdb, rfl⟩ := Option.map_eq_some_iff.mp h
    refine hs.evolves (evolves_replayAttempt hdb) fun x hx a ha hstate => hstate ?_
    exact ((hs.knows x hx).held ha).1.1
  | delete id =>
    cases h
    exact hs.evolves (evolves_delete (fun _ => False) s.db id) fun _ _ _ _ h => h
  | setEndpoints endpoints =>
    cases h
    exact hs.evolves (T := fun _ => False) (.of_rows rfl rfl) fun _ _ _ _ h => h

/-- The workers, before any of them polls. -/
def start (clock : Time) (db : HooksDb) (workers : List Worker) : Sys :=
  ⟨clock, db, workers.map fun w => (w, .idle)⟩

theorem inv_start (clock : Time) (db : HooksDb) (workers : List Worker) :
    Inv (start clock db workers) := by
  have hidle : ∀ x ∈ (start clock db workers).procs, x.2 = .idle := by
    intro x hx
    obtain ⟨w, -, rfl⟩ := List.mem_map.mp hx
    rfl
  refine ⟨fun x hx => ?_, fun x hx => ?_, fun i j x y _ hx _ a ha => ?_⟩
  · rw [hidle x hx]
    trivial
  · rw [hidle x hx]
    exact List.nodup_nil
  · rw [hidle x (List.mem_of_getElem? hx)] at ha
    cases ha

/-- **What the lease covers.** A batch is delivered within its lease exactly if its requests
together take no longer than the lease. And in every run in which no claim takes longer than that,
the requests of its batch included, no attempt is reclaimed from a worker that has not delivered it
yet. -/
theorem lease_covers_work :
    (∀ (w : Worker) (db : HooksDb) (now : Time) (batch : List WebhookAttempt)
      (ds : List RequestDuration), (claimWebhookAttempts w db now).2 = some batch →
      ds.length = batch.length →
      (Covered (schedule now batch ds) ↔ total ds ≤ hooksLease)) ∧
    ∀ (clock : Time) (db : HooksDb) (workers : List Worker) (as : List Action),
      Along (step parse) WithinLease (start clock db workers) as →
      Always (step parse) NotReclaimed (start clock db workers) as := by
  constructor
  · intro w db now batch ds hbatch hlen
    exact covered_iff (leaseCandidates_leaseUntil w.name now _ db batch hbatch) hlen
  · intro clock db workers as h
    refine Along.always (I := Inv) (fun _ h => h.notReclaimed) ?_ (inv_start clock db workers) h
    intro s a s' hs h hq
    exact step_inv parse hs h hq

/-- An attempt that waits for its first delivery. -/
def waiting (id : String) : WebhookAttempt where
  id := id
  endpointId := "e1"
  sourceEventId := "ev1"
  eventType := "message.delivered"
  payload := "1"
  state := .pending
  attempts := 0
  leaseOwner := none
  leaseUntil := none
  nextAttemptAt := none
  lastStatusCode := none
  lastError := none
  lastAttemptAt := none
  deliveredAt := none
  version := 0

/-- Four attempts wait for one endpoint. -/
def fourWaiting : HooksDb where
  rows := [waiting "w1", waiting "w2", waiting "w3", waiting "w4"]
  issued := ["w1", "w2", "w3", "w4"]
  rest := ⟨[⟨"e1", "a1", "https://example.test/hook", .hmac, none, some "whsec", none,
    true, 8, none, 0, 0, 0⟩], by decide⟩
  nodup := by decide
  issued_of_mem := by decide

def hmacWorker : Worker := ⟨"w", false, true⟩

theorem claims_four : ∃ batch, (claimWebhookAttempts hmacWorker fourWaiting 0).2 = some batch ∧
    batch.length = 4 := by
  have h : (claimWebhookAttempts hmacWorker fourWaiting 0).2.map List.length = some 4 := by decide
  obtain ⟨batch, hbatch, hlen⟩ := Option.map_eq_some_iff.mp h
  exact ⟨batch, hbatch, hlen⟩

def tenSeconds : RequestDuration := ⟨seconds 10, by decide, by decide⟩

def fiveSeconds : RequestDuration := ⟨seconds 5, by decide, by decide⟩

/-- A poll of one worker that leases the four attempts and delivers them in twenty seconds. -/
def quickPoll : List Action :=
  [.worker 0 .claim, .worker 0 .read, .worker 0 .read, .worker 0 .read, .worker 0 .read,
    .worker 0 .collect, .worker 0 .lease, .worker 0 .lease, .worker 0 .lease, .worker 0 .lease,
    .worker 0 (.deliver (List.replicate 4 fiveSeconds)), .tick (seconds 5)]

theorem lease_covers_work_quick :
    (∃ batch, (claimWebhookAttempts hmacWorker fourWaiting 0).2 = some batch ∧
      Covered (schedule 0 batch (List.replicate 4 fiveSeconds))) ∧
    Always (step fun _ => .ok ()) NotReclaimed (start 0 fourWaiting [hmacWorker]) quickPoll := by
  obtain ⟨hone, hruns⟩ := lease_covers_work fun _ => .ok ()
  obtain ⟨batch, hbatch, hlen⟩ := claims_four
  have hds : (List.replicate 4 fiveSeconds).length = batch.length := by rw [hlen]; rfl
  refine ⟨⟨batch, hbatch, (hone _ _ _ _ _ hbatch hds).mpr (by decide)⟩, hruns _ _ _ _ ?_⟩
  decide

/-- Four requests of ten seconds each. -/
theorem lease_runs_out : ¬ ∀ (w : Worker) (db : HooksDb) (now : Time) (batch : List WebhookAttempt)
    (ds : List RequestDuration), (claimWebhookAttempts w db now).2 = some batch →
    ds.length = batch.length → Covered (schedule now batch ds) := by
  intro h
  obtain ⟨batch, hbatch, hlen⟩ := claims_four
  have hds : (List.replicate 4 tenSeconds).length = batch.length := by rw [hlen]; rfl
  have hcovered := h _ _ _ _ _ hbatch hds
  have hle := (covered_iff (leaseCandidates_leaseUntil _ _ _ _ _ hbatch) hds).mp hcovered
  exact absurd hle (by decide)

end Vsms.Hooks.Leases
