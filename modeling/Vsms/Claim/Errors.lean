import Vsms.Claim.Batch
import Vsms.Hooks.Deliver

/-! # Claims that fail

`lease_candidates` goes through the candidates, and each lease it takes is a write of its own. A
lost race and a denied write are passed over; any other error is returned at once, and the rows that
have been leased by then are not. Their attempts are counted and their leases held, and nobody works
on them until the leases expire.

So every row that was leased is handed to the caller exactly if there is no such error, or no lease
was taken before the first one (`accounted_iff`). -/

namespace Vsms.Claim.Errors

open Vsms.Lib.Consumers Vsms.Lib.Optimistic Vsms.Lib.Guarded
open Vsms.Schema.Types Vsms.Schema.Messages Vsms.Schema.Jobs Vsms.Schema.Webhooks Vsms.Claim.Batch
open Vsms.Routing.Decide (RoutingView)
open Vsms.Hooks.Claim (HooksDb)

/-! ## One lease -/

/-- What the database answers to one `take_lease`: it serves it, and `x` is what else is read; the
policy denies it; or it fails. -/
inductive Answer (χ : Type)
  | served (x : χ)
  | denied
  | failed (error : String)

/-- `refused` is the trigger's refusal, and `unwritten` a call that ends before its write. -/
inductive LeaseError (ε : Type)
  | preconditionFailed
  | forbidden
  | refused (e : ε)
  | unwritten
  | failed (error : String)
  deriving DecidableEq

/-- The errors the loop goes on after. -/
def LeaseError.skipped {ε : Type} : LeaseError ε → Bool
  | .preconditionFailed => true
  | .forbidden => true
  | _ => false

/-- A lease that was taken: the row in the table before, and after. -/
structure Lease (ρ : Type) where
  old : ρ
  new : ρ

section loop
variable {ρ κ δ ω χ ε : Type} [Keyed ρ κ] [DecidableEq κ]

/-- What a candidate meets: what the others have done to the tables by its turn, and the answer. -/
structure Met (ρ κ δ χ : Type) [Keyed ρ κ] where
  others : Db ρ κ δ → Db ρ κ δ
  answer : Answer χ

variable (C : Claims ρ κ δ ω χ ε)

/-- **`take_lease`** of the candidate `c`. A row that is gone looks like a denied one. -/
def takeLease (q : ω) (db : Db ρ κ δ) (c : ρ) : Answer χ → Except (LeaseError ε) (Lease ρ)
  | .denied => .error .forbidden
  | .failed error => .error (.failed error)
  | .served x =>
    match C.lease q c x with
    | none => .error .unwritten
    | some write =>
      match db.find (key c) with
      | none => .error .forbidden
      | some row =>
        match write row with
        | .ok new => .ok ⟨row, new⟩
        | .error .preconditionFailed => .error .preconditionFailed
        | .error (.refused e) => .error (.refused e)

/-- The tables after it. -/
def after (db : Db ρ κ δ) : Except (LeaseError ε) (Lease ρ) → Db ρ κ δ
  | .ok lease => db.replace lease.new
  | .error _ => db

/-- The loop goes on after this result. -/
def goesOn : Except (LeaseError ε) (Lease ρ) → Bool
  | .ok _ => true
  | .error e => e.skipped

/-! ## The loop -/

/-- The tables when the loop returns, the leases it has taken, and what it returns. -/
structure Returned (ρ κ δ ε : Type) [Keyed ρ κ] where
  db : Db ρ κ δ
  leases : List (Lease ρ)
  result : Except (LeaseError ε) (List ρ)

/-- One more lease before the others. -/
def Returned.add (r : Returned ρ κ δ ε) (lease : Lease ρ) : Returned ρ κ δ ε :=
  { r with leases := lease :: r.leases }

def leaseLoop (q : ω) : Db ρ κ δ → List ρ → List (ρ × Met ρ κ δ χ) → Returned ρ κ δ ε
  | db, claimed, [] => ⟨db, [], .ok claimed⟩
  | db, claimed, (c, met) :: rest =>
    let db := met.others db
    match takeLease C q db c met.answer with
    | .ok lease =>
      (leaseLoop q (db.replace lease.new) (claimed ++ [lease.new]) rest).add lease
    | .error e => if e.skipped then leaseLoop q db claimed rest else ⟨db, [], .error e⟩

/-- **`lease_candidates`** -/
def leaseCandidates (q : ω) (db : Db ρ κ δ) (turns : List (ρ × Met ρ κ δ χ)) : Returned ρ κ δ ε :=
  leaseLoop C q db [] turns

/-- What the calls of `take_lease` return, each on the tables as they are by then. -/
def results (q : ω) : Db ρ κ δ → List (ρ × Met ρ κ δ χ) → List (Except (LeaseError ε) (Lease ρ))
  | _, [] => []
  | db, (c, met) :: rest =>
    let r := takeLease C q (met.others db) c met.answer
    r :: results q (after (met.others db) r) rest

/-- The caller gets the row. -/
def HandedOver (r : Returned ρ κ δ ε) (row : ρ) : Prop :=
  ∃ batch, r.result = .ok batch ∧ row ∈ batch

/-- **Nothing is lost**: every row leased is handed over, and if nobody else writes, every row of
the table is as it was or is handed over. -/
structure Accounted (q : ω) (db : Db ρ κ δ) (turns : List (ρ × Met ρ κ δ χ)) : Prop where
  leased : ∀ lease ∈ (leaseCandidates C q db turns).leases,
    HandedOver (leaseCandidates C q db turns) lease.new
  kept : (∀ turn ∈ turns, turn.2.others = id) → ∀ row ∈ (leaseCandidates C q db turns).db.rows,
    row ∈ db.rows ∨ HandedOver (leaseCandidates C q db turns) row

/-- **The results lose nothing**: the loop goes on after all of them, or there is no lease before
the first that it does not go on after. -/
def LosesNone (rs : List (Except (LeaseError ε) (Lease ρ))) : Prop :=
  (∀ r ∈ rs, goesOn r = true) ∨ ∀ lease, .ok lease ∉ rs.takeWhile goesOn

/-! ### One turn -/

section turn
variable {C} {q : ω} {db : Db ρ κ δ} {claimed : List ρ} {c : ρ} {met : Met ρ κ δ χ}
  {rest : List (ρ × Met ρ κ δ χ)}

/-- The lease is taken, and the loop goes on. -/
theorem leaseLoop_leased {lease : Lease ρ}
    (h : takeLease C q (met.others db) c met.answer = .ok lease) :
    leaseLoop C q db claimed ((c, met) :: rest) =
      (leaseLoop C q ((met.others db).replace lease.new) (claimed ++ [lease.new]) rest).add
        lease := by
  rw [leaseLoop]
  simp only [h]

/-- The candidate is passed over. -/
theorem leaseLoop_skipped {e : LeaseError ε}
    (h : takeLease C q (met.others db) c met.answer = .error e) (hs : e.skipped = true) :
    leaseLoop C q db claimed ((c, met) :: rest) = leaseLoop C q (met.others db) claimed rest := by
  rw [leaseLoop]
  simp only [h, hs, if_true]

/-- The loop returns the error. -/
theorem leaseLoop_stopped {e : LeaseError ε}
    (h : takeLease C q (met.others db) c met.answer = .error e) (hs : e.skipped = false) :
    leaseLoop C q db claimed ((c, met) :: rest) = ⟨met.others db, [], .error e⟩ := by
  rw [leaseLoop]
  simp [h, hs]

theorem results_cons {r : Except (LeaseError ε) (Lease ρ)}
    (h : takeLease C q (met.others db) c met.answer = r) :
    results C q db ((c, met) :: rest) = r :: results C q (after (met.others db) r) rest := by
  rw [results]
  simp only [h]

end turn

/-! ### What the loop returns -/

variable {C}

/-- The leases it has taken are those before the first result it does not go on after. -/
theorem leaseLoop_leases (q : ω) (turns : List (ρ × Met ρ κ δ χ)) : ∀ (db : Db ρ κ δ)
    (claimed : List ρ), (leaseLoop C q db claimed turns).leases =
      ((results C q db turns).takeWhile goesOn).filterMap Except.toOption := by
  induction turns with
  | nil => exact fun _ _ => rfl
  | cons turn rest ih =>
    intro db claimed
    obtain ⟨c, met⟩ := turn
    cases hr : takeLease C q (met.others db) c met.answer with
    | ok lease =>
      rw [leaseLoop_leased hr, results_cons hr, List.takeWhile_cons_of_pos rfl, List.filterMap_cons]
      exact congrArg (lease :: ·) (ih _ _)
    | error e =>
      cases hs : e.skipped with
      | true =>
        have hgo : goesOn (.error e : Except (LeaseError ε) (Lease ρ)) = true := hs
        rw [leaseLoop_skipped hr hs, results_cons hr, List.takeWhile_cons_of_pos hgo,
          List.filterMap_cons]
        exact ih _ _
      | false =>
        have hstop : ¬ goesOn (.error e : Except (LeaseError ε) (Lease ρ)) = true := by
          simp [goesOn, hs]
        rw [leaseLoop_stopped hr hs, results_cons hr, List.takeWhile_cons_of_neg hstop]
        rfl

/-- It returns all of them, if it goes on after every result. -/
theorem leaseLoop_ok (q : ω) (turns : List (ρ × Met ρ κ δ χ)) : ∀ (db : Db ρ κ δ)
    (claimed : List ρ), (∀ r ∈ results C q db turns, goesOn r = true) →
      (leaseLoop C q db claimed turns).result =
        .ok (claimed ++ (leaseLoop C q db claimed turns).leases.map Lease.new) := by
  induction turns with
  | nil =>
    intro db claimed _
    simp [leaseLoop]
  | cons turn rest ih =>
    intro db claimed hall
    obtain ⟨c, met⟩ := turn
    rw [results_cons rfl] at hall
    obtain ⟨hhead, htail⟩ := List.forall_mem_cons.mp hall
    cases hr : takeLease C q (met.others db) c met.answer with
    | ok lease =>
      rw [hr] at htail
      have hrest := ih _ (claimed ++ [lease.new]) htail
      rw [leaseLoop_leased hr]
      refine hrest.trans ?_
      rw [← List.append_cons]
      rfl
    | error e =>
      rw [hr] at hhead htail
      rw [leaseLoop_skipped hr hhead]
      exact ih _ claimed htail

/-- It returns none of them otherwise. -/
theorem leaseLoop_error (q : ω) (turns : List (ρ × Met ρ κ δ χ)) : ∀ (db : Db ρ κ δ)
    (claimed : List ρ), (¬ ∀ r ∈ results C q db turns, goesOn r = true) →
      ∃ e, (leaseLoop C q db claimed turns).result = .error e := by
  induction turns with
  | nil =>
    intro db claimed hnot
    exact absurd (by simp [results]) hnot
  | cons turn rest ih =>
    intro db claimed hnot
    obtain ⟨c, met⟩ := turn
    rw [results_cons rfl, List.forall_mem_cons, not_and] at hnot
    cases hr : takeLease C q (met.others db) c met.answer with
    | ok lease =>
      rw [hr] at hnot
      rw [leaseLoop_leased hr]
      exact ih _ (claimed ++ [lease.new]) (hnot rfl)
    | error e =>
      rw [hr] at hnot
      cases hs : e.skipped with
      | true =>
        rw [leaseLoop_skipped hr hs]
        exact ih _ claimed (hnot hs)
      | false =>
        rw [leaseLoop_stopped hr hs]
        exact ⟨e, rfl⟩

/-- **What is not leased stays**, if nobody else writes. -/
theorem leaseLoop_rows (q : ω) (turns : List (ρ × Met ρ κ δ χ)) : ∀ (db : Db ρ κ δ)
    (claimed : List ρ), (∀ turn ∈ turns, turn.2.others = id) →
      ∀ row ∈ (leaseLoop C q db claimed turns).db.rows,
        row ∈ db.rows ∨ row ∈ (leaseLoop C q db claimed turns).leases.map Lease.new := by
  induction turns with
  | nil => exact fun _ _ _ row hrow => Or.inl hrow
  | cons turn rest ih =>
    intro db claimed hid row hrow
    obtain ⟨c, met⟩ := turn
    obtain ⟨hmet, hrest⟩ := List.forall_mem_cons.mp hid
    have hdb : met.others db = db := congrFun hmet db
    cases hr : takeLease C q (met.others db) c met.answer with
    | ok lease =>
      rw [leaseLoop_leased hr, hdb] at hrow ⊢
      rcases ih (db.replace lease.new) (claimed ++ [lease.new]) hrest row hrow with h | h
      · -- a row of the table after this lease: the leased one, or one that was there
        obtain ⟨row₀, hrow₀, rfl⟩ := List.mem_map.mp h
        unfold replaceRow
        split_ifs
        · exact Or.inr List.mem_cons_self
        · exact Or.inl hrow₀
      · exact Or.inr (List.mem_cons_of_mem _ h)
    | error e =>
      cases hs : e.skipped with
      | true =>
        rw [leaseLoop_skipped hr hs, hdb] at hrow ⊢
        exact ih db claimed hrest row hrow
      | false =>
        rw [leaseLoop_stopped hr hs, hdb] at hrow
        exact Or.inl hrow

/-- **Nothing is lost exactly if the results lose nothing.** -/
theorem accounted (q : ω) (db : Db ρ κ δ) (turns : List (ρ × Met ρ κ δ χ)) :
    Accounted C q db turns ↔ LosesNone (results C q db turns) := by
  have hleases := leaseLoop_leases (C := C) q turns db []
  have hrows := leaseLoop_rows (C := C) q turns db []
  constructor
  · intro h
    by_contra hlost
    obtain ⟨hstops, hlease⟩ := not_or.mp hlost
    obtain ⟨lease, hmem⟩ := not_forall_not.mp hlease
    obtain ⟨e, he⟩ := leaseLoop_error (C := C) q turns db [] hstops
    have htaken : lease ∈ (leaseCandidates C q db turns).leases := by
      unfold leaseCandidates
      rw [hleases]
      exact List.mem_filterMap.mpr ⟨_, hmem, rfl⟩
    obtain ⟨batch, hbatch, -⟩ := h.leased lease htaken
    unfold leaseCandidates at hbatch
    rw [he] at hbatch
    cases hbatch
  · rintro (hall | hnone)
    · have hok := leaseLoop_ok (C := C) q turns db [] hall
      have hhanded : ∀ row ∈ (leaseLoop C q db [] turns).leases.map Lease.new,
          HandedOver (leaseCandidates C q db turns) row := fun row hrow => ⟨_, hok, hrow⟩
      refine ⟨fun lease hlease => hhanded _ (List.mem_map_of_mem hlease), fun hid row hrow => ?_⟩
      exact (hrows hid row hrow).imp id (hhanded row)
    · have hnil : (leaseLoop C q db [] turns).leases = [] := by
        rw [hleases, List.filterMap_eq_nil_iff]
        intro r hr
        cases r with
        | ok lease => exact absurd hr (hnone lease)
        | error e => rfl
      constructor
      · intro lease hlease
        unfold leaseCandidates at hlease
        rw [hnil] at hlease
        cases hlease
      · intro hid row hrow
        rcases hrows hid row hrow with h | h
        · exact Or.inl h
        · rw [hnil] at h
          cases h

/-- The step of a worker among others is this loop's turn: a claim that fails is over. -/
theorem tryLease_eq [Versioned ρ] (s : Sys ρ κ δ ω) (p : ℕ) (q : ω) (c : ρ) (cs claimed : List ρ)
    (x : χ) : s.tryLease C p q c cs claimed x =
      match takeLease C q s.db c (.served x) with
      | .ok lease => s.leased p q cs claimed lease.old lease.new
      | .error e => if e.skipped then s.go p (.leasing q cs claimed) else s.go p .idle := by
  unfold Sys.tryLease takeLease
  dsimp only
  cases C.lease q c x with
  | none => rfl
  | some write =>
    dsimp only
    cases s.db.find (key c) with
    | none => rfl
    | some row =>
      dsimp only
      cases write row with
      | ok new => rfl
      | error e => cases e <;> rfl

end loop

/-! ### Polls of the hooks role -/

theorem deliver_cons (q : HooksRequest) (db : HooksDb) (c : WebhookAttempt)
    (cs : List WebhookAttempt) :
    Hooks.Deliver.leaseCandidates q.worker q.now db (c :: cs) =
      match takeLease attempts q db c (.served q.now) with
      | .ok lease =>
        let r := Hooks.Deliver.leaseCandidates q.worker q.now (db.replace lease.new) cs
        (r.1, r.2.map (lease.new :: ·))
      | .error e =>
        if e.skipped then Hooks.Deliver.leaseCandidates q.worker q.now db cs else (db, none) := by
  have hlease : attempts.lease q c q.now = (Hooks.Claim.takeLease c q.worker q.now).map
      fun u row => row.update c.version u q.now := rfl
  rw [Hooks.Deliver.leaseCandidates]
  unfold takeLease
  dsimp only
  rw [hlease]
  cases Hooks.Claim.takeLease c q.worker q.now with
  | none => rfl
  | some u =>
    have hkey : db.find (key c) = db.find c.id := rfl
    dsimp only [Option.map_some]
    rw [hkey]
    cases db.find c.id with
    | none => rfl
    | some row =>
      dsimp only
      cases row.update c.version u q.now with
      | ok new => rfl
      | error e => cases e <;> rfl

/-- **The claim of a poll** is this loop, if nothing interferes. -/
theorem deliver_leaseCandidates (q : HooksRequest) (cs : List WebhookAttempt) : ∀ (db : HooksDb)
    (claimed : List WebhookAttempt),
    (leaseLoop attempts q db claimed (cs.map fun c => (c, ⟨id, .served q.now⟩))).db =
        (Hooks.Deliver.leaseCandidates q.worker q.now db cs).1 ∧
      (leaseLoop attempts q db claimed (cs.map fun c => (c, ⟨id, .served q.now⟩))).result.toOption =
        (Hooks.Deliver.leaseCandidates q.worker q.now db cs).2.map (claimed ++ ·) := by
  induction cs with
  | nil =>
    intro db claimed
    simp [leaseLoop, Hooks.Deliver.leaseCandidates, Except.toOption]
  | cons c cs ih =>
    intro db claimed
    rw [deliver_cons, List.map_cons]
    cases hr : takeLease attempts q db c (.served q.now) with
    | ok lease =>
      obtain ⟨hdb, hresult⟩ := ih (db.replace lease.new) (claimed ++ [lease.new])
      rw [leaseLoop_leased hr]
      refine ⟨hdb, hresult.trans ?_⟩
      rw [Option.map_map]
      congr 1
      funext batch
      exact (List.append_cons ..).symm
    | error e =>
      cases hs : e.skipped with
      | true =>
        rw [leaseLoop_skipped hr hs]
        simp only [hs, if_true]
        exact ih db claimed
      | false =>
        rw [leaseLoop_stopped hr hs]
        simp [hs, Except.toOption]

/-! ## The three claims -/

/-- **Claims account for what they lease exactly if** no other error comes after a lease. For
messages, jobs and webhook attempts, all candidates and tables, and whatever each `take_lease`
meets: every row that was leased when `lease_candidates` returns is handed to the caller, if and
only if every `take_lease` leases its row, loses a race or is denied, or none leases one before the
first other error. -/
theorem accounted_iff (q : HooksRequest) (messageDb : Db Message String Unit)
    (messageTurns : List (Message × Met Message String Unit (Option RoutingView × Time)))
    (jobDb : Db Job String Unit) (jobTurns : List (Job × Met Job String Unit Time))
    (hooksDb : HooksDb)
    (attemptTurns : List (WebhookAttempt × Met WebhookAttempt String WebhookEndpoints Time)) :
    (Accounted messages q.toRequest messageDb messageTurns ↔
      LosesNone (results messages q.toRequest messageDb messageTurns)) ∧
    (Accounted jobs q.toRequest jobDb jobTurns ↔
      LosesNone (results jobs q.toRequest jobDb jobTurns)) ∧
    (Accounted attempts q hooksDb attemptTurns ↔
      LosesNone (results attempts q hooksDb attemptTurns)) :=
  ⟨accounted _ _ _, accounted _ _ _, accounted _ _ _⟩

def pendingJob (id : String) : Job := enqueue (recurring ⟨"purge", 0, 3⟩ id 0)

def twoJobs : Db Job String Unit where
  rows := [pendingJob "j1", pendingJob "j2"]
  issued := ["j1", "j2"]
  rest := ()
  nodup := by decide
  issued_of_mem := by decide

/-- The connection is lost after the first lease. -/
def failingTurns : List (Job × Met Job String Unit Time) :=
  [(pendingJob "j1", ⟨id, .served 1⟩), (pendingJob "j2", ⟨id, .failed "connection closed"⟩)]

/-- An attempt of the first job is counted and its lease held, and the caller gets an error. -/
example : (leaseCandidates jobs ⟨"w1", 1, 10⟩ twoJobs failingTurns).db.rows.map
      (fun j => (j.state, j.attempts, j.leaseOwner)) =
    [(.running, 1, some "w1"), (.pending, 0, none)] ∧
    (leaseCandidates jobs ⟨"w1", 1, 10⟩ twoJobs failingTurns).result.toOption = none := by
  decide

theorem leased_job_not_returned : ¬ ((∀ q db turns, Accounted messages q db turns) ∧
    (∀ q db turns, Accounted jobs q db turns) ∧ ∀ q db turns, Accounted attempts q db turns) := by
  rintro ⟨-, h, -⟩
  have hleased := (h ⟨"w1", 1, 10⟩ twoJobs failingTurns).leased
  have hnone : (leaseCandidates jobs ⟨"w1", 1, 10⟩ twoJobs failingTurns).result.toOption =
      none := by
    decide
  obtain ⟨batch, hbatch, -⟩ := hleased _ List.mem_cons_self
  rw [hbatch] at hnone
  cases hnone

end Vsms.Claim.Errors
