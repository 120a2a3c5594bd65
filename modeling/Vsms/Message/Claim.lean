import Vsms.Lib.Consumers
import Vsms.Schema.Messages
import Vsms.Routing.Decide

/-! # Claiming messages

The `Claimable` implementation of `Message`: which rows `candidates` selects, and the patch
`take_lease` writes over a candidate, by the state it arrived in. `takeLease_cases` and
`takeLease_columns` say once what such a patch can do. -/

namespace Vsms.Message.Claim

open Vsms.Lib.Consumers Vsms.Schema.Types Vsms.Schema.Messages
open Vsms.Routing.Engine Vsms.Routing.Decide

instance : Keyed Message String := ⟨Message.id⟩

/-- The lease of a message that reaches `routed`. -/
def dispatchLease : Time := minutes 2

/-- The states `candidates` selects. -/
def claimStates : List MessageState := [.accepted, .queued, .routed, .undelivered]

/-- **The filter of `candidates`** at the clock value `now`. -/
def Claimable (now : Time) (m : Message) : Prop :=
  m.state ∈ claimStates ∧ now < m.expiresAt ∧ (∀ t, m.scheduledAt = some t → t ≤ now) ∧
    ∀ t, m.leaseUntil = some t → t < now

instance (now : Time) (m : Message) : Decidable (Claimable now m) := by
  have h (o : Option Time) (P : Time → Prop) [DecidablePred P] :
      Decidable (∀ t, o = some t → P t) :=
    match o with
    | none => .isTrue (by simp)
    | some t => decidable_of_iff (P t) (by simp)
  unfold Claimable
  infer_instance

/-- `ORDER BY priority DESC, created_at ASC`. -/
def claimOrder (a b : Message) : Prop :=
  b.priority < a.priority ∨ (a.priority = b.priority ∧ a.createdAt ≤ b.createdAt)

instance : DecidableRel claimOrder := fun a b => by unfold claimOrder; infer_instance

/-- **`candidates`**: one query. -/
def candidates (now : Time) (budget : ℕ) : Select (Db Message String Unit) (List Message) :=
  query fun db => selectRows (Claimable now) claimOrder budget db.rows

/-! ## The patches of `take_lease` -/

/-- The routing pass on an accepted message: the winner's provider and route, or `rejected`. Either
way no real lease is taken. -/
def applyRoutingDecision (decision : Decision) (worker : String) (now : Time) :
    UpdateMessageInput :=
  match decision.winner with
  | some winner =>
    { state := some .queued
      providerId := some (some winner.providerId)
      routeId := some (some winner.routeId)
      leaseOwner := some (some worker)
      leaseUntil := some (some now) }
  | none =>
    { state := some .rejected
      stateReason := some (some (explainNoRoute decision))
      leaseOwner := some (some worker)
      leaseUntil := some (some now) }

def failMaxAttempts (worker : String) (now : Time) (reason : String) : UpdateMessageInput where
  state := some .failed
  stateReason := some (some reason)
  leaseOwner := some (some worker)
  leaseUntil := some (some now)

/-- The columns of the message the routing pass reads. -/
def candidateOf (m : Message) : Candidate := ⟨m.operator, m.messageClass, m.appId⟩

/-- The decision `route` makes for an accepted message: nothing is excluded. -/
def route (m : Message) (view : RoutingView) : Decision := decide view (candidateOf m) []

/-- **`take_lease`**, up to the write: the patch for a candidate. `view` is what the routing query
of an accepted message sees; if that query fails there is no patch. The other states are those the
source says are unreachable. -/
def takeLease (m : Message) (worker : String) (now : Time) (view : Option RoutingView) :
    Option UpdateMessageInput :=
  match m.state with
  | .accepted => view.map fun v => applyRoutingDecision (route m v) worker now
  | .queued =>
    if m.maxAttempts ≤ m.attempts then
      some (failMaxAttempts worker now
        ("max attempts (" ++ toString m.maxAttempts ++ ") reached"))
    else some
      { state := some .routed
        attempts := some (m.attempts + 1)
        leaseOwner := some (some worker)
        leaseUntil := some (some (now + dispatchLease)) }
  | .routed => some
      { state := some .routed
        attempts := some m.attempts
        leaseOwner := some (some worker)
        leaseUntil := some (some (now + dispatchLease)) }
  | .undelivered =>
    if m.maxAttempts ≤ m.attempts then
      some (failMaxAttempts worker now ("max attempts (" ++ toString m.maxAttempts ++
        ") reached after a retryable delivery failure"))
    else some
      { state := some .queued
        leaseOwner := some (some worker)
        leaseUntil := some (some now) }
  | _ => none

/-- **What `take_lease` can do to the state**, with the attempts and the lease that go with it. -/
theorem takeLease_cases {m : Message} {worker : String} {now : Time} {view : Option RoutingView}
    {u : UpdateMessageInput} (h : takeLease m worker now view = some u) :
    (m.state = .accepted ∧ (u.state = some .queued ∨ u.state = some .rejected) ∧
      u.attempts = none ∧ u.leaseUntil = some (some now)) ∨
    ((m.state = .queued ∨ m.state = .undelivered) ∧ m.maxAttempts ≤ m.attempts ∧
      u.state = some .failed ∧ u.attempts = none ∧ u.leaseUntil = some (some now)) ∨
    (m.state = .queued ∧ m.attempts < m.maxAttempts ∧ u.state = some .routed ∧
      u.attempts = some (m.attempts + 1) ∧ u.leaseUntil = some (some (now + dispatchLease))) ∨
    (m.state = .routed ∧ u.state = some .routed ∧ u.attempts = some m.attempts ∧
      u.leaseUntil = some (some (now + dispatchLease))) ∨
    (m.state = .undelivered ∧ m.attempts < m.maxAttempts ∧ u.state = some .queued ∧
      u.attempts = none ∧ u.leaseUntil = some (some now)) := by
  unfold takeLease at h
  split at h
  · next hs =>
    obtain ⟨v, -, rfl⟩ := Option.map_eq_some_iff.mp h
    refine Or.inl ⟨hs, ?_⟩
    unfold applyRoutingDecision
    split
    · exact ⟨Or.inl rfl, rfl, rfl⟩
    · exact ⟨Or.inr rfl, rfl, rfl⟩
  · next hs =>
    split_ifs at h with hm
    · cases h
      exact Or.inr (Or.inl ⟨Or.inl hs, hm, rfl, rfl, rfl⟩)
    · cases h
      exact Or.inr (Or.inr (Or.inl ⟨hs, not_le.mp hm, rfl, rfl, rfl⟩))
  · next hs =>
    cases h
    exact Or.inr (Or.inr (Or.inr (Or.inl ⟨hs, rfl, rfl, rfl⟩)))
  · next hs =>
    split_ifs at h with hm
    · cases h
      exact Or.inr (Or.inl ⟨Or.inr hs, hm, rfl, rfl, rfl⟩)
    · cases h
      exact Or.inr (Or.inr (Or.inr (Or.inr ⟨hs, not_le.mp hm, rfl, rfl, rfl⟩)))
  · cases h

/-- **What reaches `routed` is leased** from the moment the claim started. -/
theorem takeLease_routed {m : Message} {worker : String} {now : Time} {view : Option RoutingView}
    {u : UpdateMessageInput} (h : takeLease m worker now view = some u) {old : MessageState}
    (hr : u.state.getD old = .routed) : u.leaseUntil = some (some (now + dispatchLease)) := by
  rcases takeLease_cases h with ⟨-, hu | hu, -⟩ | ⟨-, -, hu, -⟩ | ⟨-, -, -, -, ht⟩ | ⟨-, -, -, ht⟩ |
    ⟨-, -, hu, -⟩
  · rw [hu] at hr; cases hr
  · rw [hu] at hr; cases hr
  · rw [hu] at hr; cases hr
  · exact ht
  · exact ht
  · rw [hu] at hr; cases hr

/-- The columns no patch of `take_lease` touches, and the owner every one sets. -/
theorem takeLease_columns {m : Message} {worker : String} {now : Time} {view : Option RoutingView}
    {u : UpdateMessageInput} (h : takeLease m worker now view = some u) :
    u.finalizedAt = none ∧ u.providerMessageRef = none ∧ u.providerMessageRefAlt = none ∧
      u.purgedAt = none ∧ u.leaseOwner = some (some worker) := by
  unfold takeLease at h
  split at h
  · obtain ⟨v, -, rfl⟩ := Option.map_eq_some_iff.mp h
    unfold applyRoutingDecision
    split <;> exact ⟨rfl, rfl, rfl, rfl, rfl⟩
  · split_ifs at h <;> cases h <;> exact ⟨rfl, rfl, rfl, rfl, rfl⟩
  · cases h
    exact ⟨rfl, rfl, rfl, rfl, rfl⟩
  · split_ifs at h <;> cases h <;> exact ⟨rfl, rfl, rfl, rfl, rfl⟩
  · cases h

end Vsms.Message.Claim
