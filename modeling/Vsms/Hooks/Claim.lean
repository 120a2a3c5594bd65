import Vsms.Lib.Consumers
import Vsms.Schema.Webhooks

/-! # Claiming webhook attempts

The `Claimable` implementation of `WebhookAttempt`: which endpoints a worker can claim from, the
reads `webhook_candidates` makes of the two tables, and the patch `take_lease` writes over a
candidate. The endpoints are read twice, before the attempts and just before the leases; the leases
do not look at them again. -/

namespace Vsms.Hooks.Claim

open Vsms.Lib.Consumers Vsms.Schema.Types Vsms.Schema.Webhooks

instance : Keyed WebhookAttempt String := ⟨WebhookAttempt.id⟩

def hooksLease : Time := seconds 30

/-! ## Endpoints a worker can claim from -/

/-- Which delivery modes the worker can deliver. -/
inductive ServedModes
  | both
  | hmacOnly
  | sealedOnly
  | neither
  deriving DecidableEq, Repr

def ServedModes.of (holdsSigningKey hmacPermitted : Bool) : ServedModes :=
  match holdsSigningKey, hmacPermitted with
  | true, true => .both
  | false, true => .hmacOnly
  | true, false => .sealedOnly
  | false, false => .neither

def ServedModes.serves (served : ServedModes) (mode : WebhookDeliveryMode) : Bool :=
  match served, mode with
  | .both, _ => true
  | .hmacOnly, .hmac => true
  | .sealedOnly, .sealed => true
  | _, _ => false

/-- The endpoint's circuit is open at `now`. -/
def CircuitOpen (e : WebhookEndpoint) (now : Time) : Prop := ∃ t ∈ e.circuitOpenUntil, now < t

instance (e : WebhookEndpoint) (now : Time) : Decidable (CircuitOpen e now) :=
  match h : e.circuitOpenUntil with
  | none => .isFalse (by simp [CircuitOpen, h])
  | some t => decidable_of_iff (now < t) (by simp [CircuitOpen, h])

/-- **`can_claim`**: the mode is served, the endpoint is active and its circuit closed. -/
def ServedModes.canClaim (served : ServedModes) (e : WebhookEndpoint) (now : Time) : Prop :=
  served.serves e.deliveryMode ∧ e.active ∧ ¬ CircuitOpen e now

instance (served : ServedModes) (e : WebhookEndpoint) (now : Time) :
    Decidable (served.canClaim e now) := by
  unfold ServedModes.canClaim
  infer_instance

/-! ## Candidates -/

/-- Attempts waiting for their turn. -/
def dueAttempts (now : Time) (a : WebhookAttempt) : Prop :=
  (a.state = .pending ∨ a.state = .failed) ∧ ∀ t ∈ a.nextAttemptAt, t ≤ now

/-- Attempts of a worker that stopped. -/
def expiredLeases (now : Time) (a : WebhookAttempt) : Prop :=
  a.state = .delivering ∧ ∃ t ∈ a.leaseUntil, t < now

instance (now : Time) (a : WebhookAttempt) : Decidable (dueAttempts now a) := by
  have : Decidable (∀ t ∈ a.nextAttemptAt, t ≤ now) :=
    match a.nextAttemptAt with
    | none => .isTrue (by simp)
    | some t => decidable_of_iff (t ≤ now) (by simp)
  unfold dueAttempts
  infer_instance

theorem expiredLeases_iff (now : Time) (a : WebhookAttempt) :
    a.state = .delivering ∧ a.leaseUntil.any (· < now) = true ↔ expiredLeases now a := by
  simp [expiredLeases, Option.any_eq_true]

instance (now : Time) (a : WebhookAttempt) : Decidable (expiredLeases now a) :=
  decidable_of_iff _ (expiredLeases_iff now a)

/-- Ascending, a missing time last. -/
def nullsLast (a b : Option Time) : Prop :=
  match a, b with
  | _, none => True
  | none, some _ => False
  | some s, some t => s ≤ t

instance : DecidableRel nullsLast := fun a b => by
  unfold nullsLast
  split <;> infer_instance

def byNextAttemptAt (a b : WebhookAttempt) : Prop := nullsLast a.nextAttemptAt b.nextAttemptAt

def byLeaseUntil (a b : WebhookAttempt) : Prop := nullsLast a.leaseUntil b.leaseUntil

instance : DecidableRel byNextAttemptAt := fun a b => by unfold byNextAttemptAt; infer_instance

instance : DecidableRel byLeaseUntil := fun a b => by unfold byLeaseUntil; infer_instance

/-- The attempts, and beside them the endpoints. -/
abbrev HooksDb := Db WebhookAttempt String WebhookEndpoints

def timeOrderedCandidates (now : Time) (limit : ℕ) : Select HooksDb (List WebhookAttempt) := do
  let ready ← query fun db => selectRows (dueAttempts now) byNextAttemptAt limit db.rows
  let remaining := limit - ready.length
  if 0 < remaining then
    let expired ← query fun db => selectRows (expiredLeases now) byLeaseUntil remaining db.rows
    return ready ++ expired
  else return ready

/-- The loop of `per_endpoint_candidates`: the due attempts of one endpoint after the other. -/
def dueOfEndpoints (now : Time) (limit : ℕ) :
    List String → List WebhookAttempt → Select HooksDb (List WebhookAttempt)
  | [], ready => return ready
  | e :: endpoints, ready => do
    let due ← query fun db => selectRows (fun a => dueAttempts now a ∧ a.endpointId = e)
      byNextAttemptAt limit db.rows
    dueOfEndpoints now limit endpoints (ready ++ due)

def perEndpointCandidates (now : Time) (limit : ℕ) (endpoints : List String) :
    Select HooksDb (List WebhookAttempt) := do
  let all ← dueOfEndpoints now limit endpoints []
  let ready := (all.insertionSort byNextAttemptAt).take limit
  let remaining := limit - ready.length
  if 0 < remaining then
    let expired ← query fun db => selectRows
      (fun a => expiredLeases now a ∧ a.endpointId ∈ endpoints) byLeaseUntil remaining db.rows
    return ready ++ expired
  else return ready

/-- **`filter_by_endpoint_health`**: the candidates whose endpoint can still be claimed from. -/
def filterByEndpointHealth (candidates : List WebhookAttempt) (now : Time) (budget : ℕ)
    (served : ServedModes) : Select HooksDb (List WebhookAttempt) :=
  if candidates = [] then return candidates
  else do
    let endpointIds := candidates.map WebhookAttempt.endpointId
    let endpoints ← query fun db => db.rest.rows.filter fun e => e.id ∈ endpointIds
    let healthy := (endpoints.filter fun e => served.canClaim e now).map WebhookEndpoint.id
    return (candidates.filter fun a => a.endpointId ∈ healthy).take budget

/-- **`webhook_candidates`**: time-ordered reads if every endpoint can be claimed from, else reads
for each endpoint that can. -/
def webhookCandidates (now : Time) (budget : ℕ) (served : ServedModes) :
    Select HooksDb (List WebhookAttempt) := do
  let endpoints ← query fun db => db.rest.rows
  let claimable := (endpoints.filter fun e => served.canClaim e now).map WebhookEndpoint.id
  let candidates ←
    (if claimable.length = endpoints.length then timeOrderedCandidates now budget
    else if claimable = [] then pure []
    else perEndpointCandidates now budget claimable)
  filterByEndpointHealth candidates now budget served

/-! ## The patches of `take_lease` -/

/-- **`take_lease`**, up to the write: a claim counts an attempt, a reclaim resumes the one counted.
The other states are those the source says are unreachable. -/
def takeLease (a : WebhookAttempt) (worker : String) (now : Time) :
    Option UpdateWebhookAttemptInput :=
  match a.state with
  | .pending | .failed => some
      { state := some .delivering
        attempts := some (a.attempts + 1)
        leaseOwner := some (some worker)
        leaseUntil := some (some (now + hooksLease)) }
  | .delivering => some
      { state := some .delivering
        leaseOwner := some (some worker)
        leaseUntil := some (some (now + hooksLease)) }
  | _ => none

theorem takeLease_leaseOwner {a : WebhookAttempt} {worker : String} {now : Time}
    {u : UpdateWebhookAttemptInput} (h : takeLease a worker now = some u) :
    u.leaseOwner = some (some worker) := by
  unfold takeLease at h
  split at h <;> cases h <;> rfl

/-- The row is leased from `now` on, whatever it was. -/
theorem takeLease_lease {a : WebhookAttempt} {worker : String} {now : Time}
    {u : UpdateWebhookAttemptInput} (h : takeLease a worker now = some u) :
    u.state = some .delivering ∧ u.leaseUntil = some (some (now + hooksLease)) := by
  unfold takeLease at h
  split at h <;> cases h <;> exact ⟨rfl, rfl⟩

/-! ## What the selections return -/

theorem timeOrderedCandidates_wp (now : Time) (limit : ℕ) (seen : List WebhookAttempt) :
    (timeOrderedCandidates now limit).wp (Selected limit) seen := by
  refine wp_bind (wp_query fun db => ?_)
  have hready : Selected limit (seen ++ db.rows)
      (selectRows (dueAttempts now) byNextAttemptAt limit db.rows) :=
    selected_selectRows limit (List.subset_append_right _ _)
  exact wp_fill hready

theorem dueOfEndpoints_wp (now : Time) (limit : ℕ) :
    ∀ (endpoints : List String) (ready seen : List WebhookAttempt), ready ⊆ seen →
      (dueOfEndpoints now limit endpoints ready).wp (fun seen all => all ⊆ seen) seen
  | [], _, _, h => wp_pure h
  | _ :: endpoints, ready, seen, h => by
    refine wp_bind (wp_query fun db => dueOfEndpoints_wp now limit endpoints _ _ ?_)
    refine List.append_subset.mpr ⟨List.subset_append_of_subset_left _ h, fun a ha => ?_⟩
    exact List.mem_append_right _ (mem_selectRows ha).1

theorem perEndpointCandidates_wp (now : Time) (limit : ℕ) (endpoints : List String)
    (seen : List WebhookAttempt) :
    (perEndpointCandidates now limit endpoints).wp (Selected limit) seen := by
  refine wp_bind (wp_mono ?_ (dueOfEndpoints_wp now limit endpoints [] seen (List.nil_subset _)))
  intro seen all hall
  have hready : Selected limit seen ((all.insertionSort byNextAttemptAt).take limit) := by
    refine ⟨fun a ha => hall ?_, List.length_take_le _ _⟩
    exact (List.mem_insertionSort _).mp (List.mem_of_mem_take ha)
  exact wp_fill hready

theorem filterByEndpointHealth_wp (candidates : List WebhookAttempt) (now : Time) (budget : ℕ)
    (served : ServedModes) {seen : List WebhookAttempt} (h : candidates ⊆ seen) :
    (filterByEndpointHealth candidates now budget served).wp (Selected budget) seen := by
  unfold filterByEndpointHealth
  split_ifs with hc
  · subst hc
    exact wp_pure ⟨by rintro c ⟨⟩, Nat.zero_le _⟩
  · refine wp_bind (wp_query fun db => wp_pure ⟨fun a ha => ?_, List.length_take_le _ _⟩)
    exact List.mem_append_left _ (h (List.mem_of_mem_filter (List.mem_of_mem_take ha)))

/-- **The candidates are attempts that were read, at most `budget`.** -/
theorem webhookCandidates_wp (now : Time) (budget : ℕ) (served : ServedModes) :
    (webhookCandidates now budget served).wp (Selected budget) [] := by
  refine wp_bind (wp_query fun db => wp_bind ?_)
  refine wp_mono (fun seen cs hcs => ?_) (Q := Selected budget) ?_
  · exact filterByEndpointHealth_wp cs now budget served fun c hc => hcs.1 c hc
  · split_ifs
    · exact timeOrderedCandidates_wp now budget _
    · exact wp_pure ⟨by rintro c ⟨⟩, Nat.zero_le _⟩
    · exact perEndpointCandidates_wp now budget _ _

end Vsms.Hooks.Claim
