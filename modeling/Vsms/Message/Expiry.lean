import Vsms.Schema.Messages

/-! # Recurring jobs on messages

`expire_stale` moves messages whose validity or grace has run out to `expired`, by three filters;
`purge_retention` redacts terminal messages past the retention window. Both write each selected row
by a compare-and-swap on the version it was selected with. -/

namespace Vsms.Message.Expiry

open Vsms.Schema.Types Vsms.Schema.Messages

def uncertainGrace : Time := hours 6

/-- The states the filters of `expire_stale` select. -/
def staleStates : List MessageState := [.submitted, .uncertain, .undelivered]

/-- **The three filters of `expire_stale`** at the clock value `now`. -/
def Stale (now : Time) (m : Message) : Prop :=
  (m.state = .submitted ∧ m.expiresAt ≤ now) ∨
    (m.state = .uncertain ∧ m.updatedAt ≤ now - uncertainGrace) ∨
      (m.state = .undelivered ∧ m.expiresAt ≤ now)

instance (now : Time) (m : Message) : Decidable (Stale now m) := by unfold Stale; infer_instance

def expirePatch : UpdateMessageInput where
  state := some .expired

theorem Stale.state {now : Time} {m : Message} (h : Stale now m) : m.state ∈ staleStates := by
  rcases h with ⟨h, -⟩ | ⟨h, -⟩ | ⟨h, -⟩ <;> rw [h] <;> decide

def retention : Time := days 90

def purgedMsisdnPlaceholder : String := "purged-msisdn"

/-- The filter of `purge_messages`. -/
def Purgeable (now : Time) (m : Message) : Prop :=
  m.Terminal ∧ m.createdAt ≤ now - retention ∧ m.purgedAt = none

instance (now : Time) (m : Message) : Decidable (Purgeable now m) := by
  unfold Purgeable; infer_instance

def purgePatch (now : Time) : UpdateMessageInput where
  msisdn := some purgedMsisdnPlaceholder
  body := some none
  clientRef := some none
  idempotencyKey := some none
  stateReason := some none
  purgedAt := some (some now)

end Vsms.Message.Expiry
