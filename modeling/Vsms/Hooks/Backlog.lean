import Vsms.Hooks.Candidates

/-! # How many attempts are waiting

`count_attempts_waiting` asks each endpoint for its due attempts, and then all of them together for
the leases that have run out. Every read stops at the rows that are still short of one more than the
cap, so that what was found is at any time the number of attempts asked for so far, cut off there
(`readWaiting_run`), and the loop can end as soon as it is past the cap. No attempt is of two
endpoints, and none is both due and left by a worker that stopped: each is asked for once. -/

namespace Vsms.Hooks.Backlog

open Vsms.Lib.Consumers Vsms.Lib.Selection Vsms.Schema.Types Vsms.Schema.Webhooks Vsms.Hooks.Claim
open Vsms.Hooks.Candidates

/-- `WAITING_COUNT_CAP` -/
def waitingCountCap : ℕ := 10000

/-- How many attempts were found. -/
structure Waiting where
  get : ℕ
  deriving DecidableEq, Repr

def Waiting.of (found : ℕ) : Waiting :=
  ⟨if waitingCountCap < found then waitingCountCap + 1 else found⟩

/-- **`read_waiting`**: how many attempts have `P`, reading no more than there is room for. -/
def readWaiting (P : WebhookAttempt → Prop) [DecidablePred P] (found : ℕ) : Select HooksDb ℕ :=
  let room := waitingCountCap + 1 - min found (waitingCountCap + 1)
  if room = 0 then return 0
  else do
    let rows ← query fun db : HooksDb => (db.rows.filter fun a => P a).take room
    return rows.length

/-- The loop of `count_attempts_waiting`; `error` is its early return. -/
def countDue (now : Time) : List String → ℕ → Select HooksDb (Except Waiting ℕ)
  | [], found => return .ok found
  | endpointId :: endpoints, found => do
    let more ← readWaiting (fun a => dueAttempts now a ∧ a.endpointId = endpointId) found
    if waitingCountCap < found + more then return .error ⟨found + more⟩
    else countDue now endpoints (found + more)

/-- The ids of the active endpoints of the mode. -/
def modeIds (mode : WebhookDeliveryMode) (endpoints : WebhookEndpoints) : List String :=
  (endpoints.rows.filter fun e => e.active ∧ e.deliveryMode = mode).map WebhookEndpoint.id

/-- **`count_attempts_waiting`** -/
def countAttemptsWaiting (now : Time) (mode : WebhookDeliveryMode) : Select HooksDb Waiting := do
  let endpoints ← query fun db : HooksDb => modeIds mode db.rest
  if endpoints = [] then return .of 0
  else
    match ← countDue now endpoints 0 with
    | .error waiting => return waiting
    | .ok found => do
      let more ← readWaiting (fun a => expiredLeases now a ∧ a.endpointId ∈ endpoints) found
      return ⟨found + more⟩

/-! ## What is counted -/

/-- The attempt is of an active endpoint of the mode. -/
def OfMode (mode : WebhookDeliveryMode) (endpoints : WebhookEndpoints) (a : WebhookAttempt) :
    Prop :=
  ∃ e ∈ endpoints.rows, e.id = a.endpointId ∧ e.active ∧ e.deliveryMode = mode

/-- **An attempt that is held back**: due or left by a worker that stopped, of an active endpoint of
the mode. -/
def Waits (now : Time) (mode : WebhookDeliveryMode) (endpoints : WebhookEndpoints)
    (a : WebhookAttempt) : Prop :=
  (dueAttempts now a ∨ expiredLeases now a) ∧ OfMode mode endpoints a

instance (mode : WebhookDeliveryMode) (endpoints : WebhookEndpoints) (a : WebhookAttempt) :
    Decidable (OfMode mode endpoints a) := by
  unfold OfMode
  infer_instance

instance (now : Time) (mode : WebhookDeliveryMode) (endpoints : WebhookEndpoints)
    (a : WebhookAttempt) :
    Decidable (Waits now mode endpoints a) := by
  unfold Waits
  infer_instance

theorem modeIds_nodup (mode : WebhookDeliveryMode) (endpoints : WebhookEndpoints) :
    (modeIds mode endpoints).Nodup :=
  endpoints.nodup.sublist (List.filter_sublist.map _)

theorem mem_modeIds {mode : WebhookDeliveryMode} {endpoints : WebhookEndpoints}
    {a : WebhookAttempt} :
    a.endpointId ∈ modeIds mode endpoints ↔ OfMode mode endpoints a := by
  simp only [modeIds, OfMode, List.mem_map, List.mem_filter, decide_eq_true_eq]
  constructor
  · rintro ⟨e, ⟨he, hmode⟩, hid⟩
    exact ⟨e, he, hid, hmode⟩
  · rintro ⟨e, he, hid, hmode⟩
    exact ⟨e, ⟨he, hmode⟩, hid⟩

/-- How many of the attempts have `P`. -/
def number (P : WebhookAttempt → Prop) [DecidablePred P] (db : HooksDb) : ℕ :=
  (db.rows.filter fun a => P a).length

section number
variable {P : WebhookAttempt → Prop} [DecidablePred P]

/-- The attempts of one endpoint, and those of the others. -/
theorem number_mem_cons {endpointId : String} {endpoints : List String} (h : endpointId ∉ endpoints)
    (db : HooksDb) :
    number (fun a => P a ∧ a.endpointId ∈ endpointId :: endpoints) db =
      number (fun a => P a ∧ a.endpointId = endpointId) db +
        number (fun a => P a ∧ a.endpointId ∈ endpoints) db := by
  have hdisjoint : ∀ a ∈ db.rows, P a ∧ a.endpointId = endpointId →
      ¬ (P a ∧ a.endpointId ∈ endpoints) := by
    rintro a - ⟨-, rfl⟩ ⟨-, hmem⟩
    exact h hmem
  unfold number
  rw [← length_filter_or hdisjoint]
  simp only [List.mem_cons, and_or_left]

end number

/-! ## What was found -/

section found
variable {P : WebhookAttempt → Prop} [DecidablePred P] {now : Time} {db : HooksDb} {n found : ℕ}

/-- **One read**: what was found stays the number of attempts asked for, cut off past the cap. -/
theorem readWaiting_run (h : found = min n (waitingCountCap + 1)) :
    found + (readWaiting P found).run db = min (n + number P db) (waitingCountCap + 1) := by
  unfold readWaiting number
  dsimp only
  split_ifs with hroom
  · rw [run_pure]
    omega
  · rw [run_bind, run_query, run_pure, List.length_take]
    omega

/-- **The loop**: it goes to the end with what the endpoints have, or returns where that is past the
cap. -/
theorem countDue_run {endpoints : List String} (hnodup : endpoints.Nodup)
    (hcap : found ≤ waitingCountCap) :
    (countDue now endpoints found).run db =
      if found + number (fun a => dueAttempts now a ∧ a.endpointId ∈ endpoints) db ≤
        waitingCountCap then
        .ok (found + number (fun a => dueAttempts now a ∧ a.endpointId ∈ endpoints) db)
      else .error ⟨waitingCountCap + 1⟩ := by
  induction endpoints generalizing found with
  | nil =>
    have hnone : number (fun a => dueAttempts now a ∧ a.endpointId ∈ ([] : List String)) db =
        0 := by
      simp [number]
    rw [hnone, Nat.add_zero, if_pos hcap]
    rfl
  | cons endpointId endpoints ih =>
    obtain ⟨hnotMem, hnodup⟩ := List.nodup_cons.mp hnodup
    have hread : found +
      (readWaiting (fun a => dueAttempts now a ∧ a.endpointId = endpointId) found).run db =
        min (found + number (fun a => dueAttempts now a ∧ a.endpointId = endpointId) db)
          (waitingCountCap + 1) :=
      readWaiting_run (by omega)
    rw [countDue, run_bind, number_mem_cons hnotMem, ← Nat.add_assoc]
    by_cases hpast :
      waitingCountCap < found + number (fun a => dueAttempts now a ∧ a.endpointId = endpointId) db
    · rw [hread, Nat.min_eq_right hpast, if_pos (Nat.lt_succ_self _), if_neg (by omega), run_pure]
    · rw [hread, Nat.min_eq_left (by omega), if_neg hpast, ih hnodup (by omega)]

theorem countAttemptsWaiting_run (now : Time) (mode : WebhookDeliveryMode) (db : HooksDb) :
    (countAttemptsWaiting now mode).run db =
      if modeIds mode db.rest = [] then .of 0
      else match (countDue now (modeIds mode db.rest) 0).run db with
        | .error waiting => waiting
        | .ok found => ⟨found +
            (readWaiting (fun a => expiredLeases now a ∧
              a.endpointId ∈ modeIds mode db.rest) found).run db⟩ := by
  unfold countAttemptsWaiting
  rw [run_bind, run_query]
  split_ifs with hempty
  · rfl
  · rw [run_bind]
    cases (countDue now (modeIds mode db.rest) 0).run db with
    | error waiting => rfl
    | ok found => rw [run_bind, run_pure]

end found

/-- **The count is exact up to the cap**, and one more than the cap when there are more: whatever
the endpoints and the attempts are, it is of attempts that are all different. -/
theorem attempts_waiting (now : Time) (mode : WebhookDeliveryMode) (db : HooksDb) :
    ((countAttemptsWaiting now mode).run db).get =
        min (db.rows.filter fun a => Waits now mode db.rest a).length (waitingCountCap + 1) ∧
      ((db.rows.filter fun a => Waits now mode db.rest a).map WebhookAttempt.id).Nodup := by
  refine ⟨?_, db.nodup.sublist (List.filter_sublist.map _)⟩
  have htotal : (db.rows.filter fun a => Waits now mode db.rest a).length =
      number (fun a => dueAttempts now a ∧ a.endpointId ∈ modeIds mode db.rest) db +
        number (fun a => expiredLeases now a ∧ a.endpointId ∈ modeIds mode db.rest) db := by
    unfold number
    rw [← length_filter_or fun a _ hd hx => not_due_of_expired hx.1 hd.1]
    simp only [mem_modeIds, ← or_and_right]
    rfl
  rw [htotal, countAttemptsWaiting_run, countDue_run (modeIds_nodup mode db.rest) (Nat.zero_le _),
    Nat.zero_add]
  split_ifs with hempty hcap
  · simp [hempty, number, Waiting.of]
  · dsimp only
    exact readWaiting_run (by omega)
  · dsimp only
    omega

/-- A deactivated endpoint's attempts are not counted, and a lease that has run out is. -/
example : ((countAttemptsWaiting 10 .hmac).run backlog).get = 4 := by decide

end Vsms.Hooks.Backlog
