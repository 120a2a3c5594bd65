import Vsms.Hooks.FanOut
import Vsms.Message.Lifecycle

/-! # Purged messages

`purge_retention` redacts a message by a write like any other, and every other writer of the row has
computed its own from an earlier read. Nothing of a purged message comes back because nothing writes
to a terminal message except the purge (`writes_purge`), and a purge selects only messages that are
not purged: a purged row is never written again. The event of the purge carries the redacted row,
which the webhook subscriber passes over. -/

namespace Vsms.Message.Purge

open Vsms.Lib.Runs Vsms.Lib.Optimistic Vsms.Schema.Types Vsms.Schema.Messages
open Vsms.Message.Claim Vsms.Message.Dispatch Vsms.Message.Dlr Vsms.Message.Expiry
    Vsms.Message.System

/-! ## What a purge writes -/

/-- **The row a purge leaves**: six columns, and the two that every update sets. -/
def redacted (now dbNow : Time) (m : Message) : Message :=
  { m with
    msisdn := purgedMsisdnPlaceholder
    body := none
    clientRef := none
    idempotencyKey := none
    stateReason := none
    purgedAt := some now
    version := m.version + 1
    updatedAt := dbNow }

theorem written_purgePatch (now dbNow : Time) (m : Message) :
    written (purgePatch now) dbNow m = redacted now dbNow m := by
  unfold written Lib.Guarded.writtenRow
  rw [if_pos (show ((purgePatch now).apply m).state = m.state from rfl)]
  rfl

/-- A message without personal data. -/
structure Redacted (m : Message) : Prop where
  terminal : m.Terminal
  msisdn : m.msisdn = purgedMsisdnPlaceholder
  body : m.body = none
  clientRef : m.clientRef = none
  idempotencyKey : m.idempotencyKey = none
  stateReason : m.stateReason = none

theorem redacted_redacted {m : Message} (h : m.Terminal) (now dbNow : Time) :
    Redacted (redacted now dbNow m) :=
  ⟨h, rfl, rfl, rfl, rfl, rfl⟩

/-! ## The other writers -/

theorem dlrPatch_purgedAt {found : Message} {update : DeliveryUpdate} {now : Time}
    {u : UpdateMessageInput} (h : dlrPatch found update now = some u) : u.purgedAt = none := by
  obtain ⟨target, leaseUntil, -, rfl⟩ := dlrPatch_eq h
  rfl

theorem finishSubmit_purgedAt {m : Message} {result : SubmitResult}
    {query : Option Routing.Decide.RoutingView} {now : Time} {set : UpdateMessageInput}
    (h : finishSubmit m result query now = .write set) : set.purgedAt = none := by
  rcases finishSubmit_cases h with ⟨ack, -, rfl⟩ | ⟨err, -, rfl⟩ | ⟨err, -, -, ha⟩
  · rfl
  · rfl
  · obtain ⟨winner, packed, text, rfl, -⟩ := attemptFailover_rerouted ha
    rfl

/-- **A write is a purge, or of a message that is not terminal and leaves `purged_at` alone.** -/
theorem writes_purge {x : Proc} {op : Op} {w : Plan} (h : Writes x op w) :
    (¬ w.held.Terminal ∧ w.set.purgedAt = none ∧ ∀ dbNow, op ≠ .purge dbNow) ∨
      ∃ m hm now dbNow, x = .purging m hm now ∧ op = .purge dbNow ∧ w.held = m ∧
        w.set = purgePatch now ∧ w.dbNow = dbNow := by
  unfold Message.Terminal
  cases h with
  | @takeLease m h worker now view dbNow set hset =>
    refine Or.inl ⟨?_, (takeLease_columns hset).2.2.2.1, by simp⟩
    revert h
    dsimp only
    cases m.state <;> decide
  | @noBody m h =>
    refine Or.inl ⟨?_, rfl, by simp⟩
    rw [h]
    decide
  | @finish m h n result query now dbNow set hset =>
    refine Or.inl ⟨?_, finishSubmit_purgedAt hset, by simp⟩
    rw [h]
    decide
  | @report found providerRowId update h now dbNow set hset =>
    refine Or.inl ⟨?_, dlrPatch_purgedAt hset, by simp⟩
    obtain ⟨target, hn, -⟩ := dlrPatch_some hset
    rcases nextState_from hn with hs | hs | hs <;> rw [hs] <;> decide
  | @expire m h dbNow =>
    refine Or.inl ⟨?_, rfl, by simp⟩
    revert h
    dsimp only
    cases m.state <;> decide
  | @purge m h now dbNow => exact Or.inr ⟨m, h, now, dbNow, rfl, rfl, rfl, rfl, rfl⟩

theorem writes_next {x : Proc} {op : Op} {w : Plan} (h : Writes x op w) (row m : Message)
    (hm : m.Terminal) (now : Time) : w.next row ≠ .purging m hm now := by
  intro hnext
  cases h with
  | takeLease hset =>
    dsimp only [claimedOrIdle] at hnext
    split_ifs at hnext
  | _ => cases hnext

theorem advances_next {s : Sys} {x : Proc} {op : Op} {o : Outcome} (h : Advances s x op o)
    {m : Message} {hm : m.Terminal} {now : Time} (hnext : o.next = .purging m hm now) :
    m = s.row ∧ Purgeable now s.row := by
  cases h with
  | selectPurge hsel =>
    cases hnext
    exact ⟨rfl, hsel⟩
  | _ => cases hnext

/-! ## The invariant -/

/-- **What a purge relies on**: the copies are snapshots, a message selected for a purge was
purgeable, and a purged one is redacted. -/
structure Retained (s : Sys) : Prop where
  snapshots : Snapshots Proc.held s.toShared
  selected : ∀ p m hm now, s.procs p = .purging m hm now → Purgeable now m
  redacted : s.row.purgedAt ≠ none → Redacted s.row

theorem retained_start (c : NewMessage) : Retained (start c) where
  snapshots := start_snapshots c
  selected _ _ _ _ h := by cases h
  redacted h := absurd rfl h

section steps
variable {s t : Sys} {a : Action}

/-- A process comes to purge a message only by selecting it. -/
theorem step_purging (h : step s a = some t) {p : ℕ} {m : Message} {hm : m.Terminal} {now : Time}
    (hp : t.procs p = .purging m hm now) :
    s.procs p = .purging m hm now ∨ (m = s.row ∧ Purgeable now s.row) := by
  by_cases hpa : p = a.proc
  · subst hpa
    cases step_cases h with
    | wrote w hw hv hl =>
      rw [Sys.wrote_procs, Function.update_self] at hp
      exact absurd hp (writes_next hw _ m hm now)
    | lost w hw hv =>
      rw [Sys.go_procs, Function.update_self] at hp
      cases hp
    | refused w e hw hv hl =>
      rw [Sys.go_procs, Function.update_self] at hp
      cases hp
    | moved o ho =>
      rw [Sys.go_procs, Function.update_self] at hp
      exact Or.inr (advances_next ho hp)
  · rw [step_procs h hpa] at hp
    exact Or.inl hp

/-- **What a step does to the row**: nothing; a write to a message that is not terminal; or a purge.
-/
theorem row_cases (hs : Retained s) (h : step s a = some t) :
    t.row = s.row ∨
      (¬ s.row.Terminal ∧ t.row.purgedAt = s.row.purgedAt ∧ ∀ dbNow, a.op ≠ .purge dbNow) ∨
      ∃ m hm now dbNow, s.procs a.proc = .purging m hm now ∧ a.op = .purge dbNow ∧
        Purgeable now s.row ∧
        t.row = redacted now dbNow s.row := by
  cases step_sound hs.snapshots h with
  | wrote w hw hrow =>
    rcases writes_purge hw with ⟨hterm, hset, hop⟩ | ⟨m, hm, now, dbNow, hx, hop, hheld, hset, hnow⟩
    · rw [hrow] at hterm
      refine Or.inr (Or.inl ⟨hterm, ?_, hop⟩)
      rw [Sys.wrote_row, written_apply Message.purgedAt (fun _ _ _ _ => rfl)]
      unfold UpdateMessageInput.apply
      rw [hset]
      rfl
    · refine Or.inr (Or.inr ⟨m, hm, now, dbNow, hx, hop, ?_, ?_⟩)
      · rw [← hrow, hheld]
        exact hs.selected _ m hm now hx
      · rw [Sys.wrote_row, hset, hnow, written_purgePatch]
  | lost w hw hv => exact Or.inl rfl
  | moved o ho => exact Or.inl rfl

theorem step_retained (hs : Retained s) (h : step s a = some t) : Retained t where
  snapshots := step_snapshots hs.snapshots h
  selected p m hm now hp := by
    rcases step_purging h hp with hp | ⟨rfl, hsel⟩
    · exact hs.selected p m hm now hp
    · exact hsel
  redacted hp := by
    rcases row_cases hs h with hrow | ⟨hterm, hpurged, -⟩ | ⟨m, hm, now, dbNow, -, -, hsel, hrow⟩
    · rw [hrow] at hp ⊢
      exact hs.redacted hp
    · rw [hpurged] at hp
      exact absurd (hs.redacted hp).terminal hterm
    · rw [hrow]
      exact redacted_redacted hsel.1 now dbNow

/-- **Nothing writes to a purged message.** -/
theorem step_frozen (hs : Retained s) (hp : s.row.purgedAt ≠ none) (h : step s a = some t) :
    t.row = s.row := by
  rcases row_cases hs h with hrow | ⟨hterm, -⟩ | ⟨m, hm, now, dbNow, -, -, hsel, -⟩
  · exact hrow
  · exact absurd (hs.redacted hp).terminal hterm
  · exact absurd hsel.2.2 hp

theorem exec_frozen {as : List Action} (hs : Retained s) (hp : s.row.purgedAt ≠ none)
    (h : exec step s as = some t) : t.row = s.row := by
  have hrel :=
    exec_rel (I := Retained) (R := fun s t : Sys => s.row.purgedAt ≠ none → t.row = s.row)
    (fun _ _ => rfl) (fun s t u hst htu hp => (htu (by rw [hst hp]; exact hp)).trans (hst hp))
    (fun s a t hs hstep => ⟨step_retained hs hstep, fun hp => step_frozen hs hp hstep⟩) hs h
  exact hrel hp

end steps

/-- **Purge is permanent.** In every state that purges, reports, workers and `expire_stale` reach
together, a purged message is terminal and has none of its personal data, and its row never changes
again. A step that touches `purged_at` is a purge of a message created at least 90 days before the
clock value of its run; it changes the six columns, the version and `updated_at`, and nothing else;
and its event never leads to a webhook attempt, whatever the drain does with it. A purge that does
not do so changes nothing. -/
theorem purge_permanent (c : NewMessage) (as : List Action) (s : Sys)
    (h : exec step (start c) as = some s) :
    (s.row.purgedAt ≠ none → Redacted s.row ∧ ∀ bs t, exec step s bs = some t → t.row = s.row) ∧
      ∀ a t, step s a = some t →
        (t.row.purgedAt = s.row.purgedAt ∧ ∀ dbNow, a.op = .purge dbNow → t.row = s.row) ∨
        ∃ m hm now dbNow, s.procs a.proc = .purging m hm now ∧ a.op = .purge dbNow ∧
          s.row.createdAt ≤ now - days 90 ∧ t.row = redacted now dbNow s.row ∧
          ∀ phones fs f, exec (Hooks.FanOut.step phones) Hooks.FanOut.init fs = some f →
            ∀ event ∈ f.events, event.data.toMessage = t.row → ∀ x ∈ f.attempts,
            x.sourceEventId ≠ event.id := by
  have hs : Retained s :=
    exec_invariant' (fun _ _ _ hs ht => step_retained hs ht) (retained_start c) h
  refine ⟨fun hp => ⟨hs.redacted hp, fun bs t hb => exec_frozen hs hp hb⟩, fun a t ha => ?_⟩
  rcases row_cases hs ha with hrow | ⟨-, hpurged, hop⟩ | ⟨m, hm, now, dbNow, hproc, hop, hsel, hrow⟩
  · exact Or.inl ⟨by rw [hrow], fun _ _ => hrow⟩
  · exact Or.inl ⟨hpurged, fun dbNow h => absurd h (hop dbNow)⟩
  · refine Or.inr ⟨m, hm, now, dbNow, hproc, hop, hsel.2.1, hrow, ?_⟩
    intro phones fs f hf event hevent hdata
    refine Hooks.FanOut.no_attempt_of_purged hf hevent ?_
    rw [hdata, hrow]
    exact Option.some_ne_none now

/-- A message that was delivered, 91 days later. -/
def purgeRun : List Action :=
  Lifecycle.deliveredRun ++ [⟨2, .selectPurge (days 91)⟩, ⟨2, .purge (days 91)⟩]

theorem purge_permanent_delivered : ∃ s, exec step (start sampleMessage) purgeRun = some s ∧
    s.row.purgedAt = some (days 91) ∧ s.row.msisdn = "purged-msisdn" ∧
      ∀ bs t, exec step s bs = some t → t.row = s.row := by
  have hrun : (exec step (start sampleMessage) purgeRun).map (·.row.purgedAt) =
      some (some (days 91)) := by rfl
  obtain ⟨s, hs, hpurged⟩ := exec_eval hrun
  have hperm :=
    (purge_permanent sampleMessage purgeRun s hs).1 (by rw [hpurged]; exact Option.some_ne_none _)
  exact ⟨s, hs, hpurged, hperm.1.msisdn, hperm.2⟩

/-- A purge counts the version up and touches `updated_at`, which callers read too. -/
theorem purge_touches_row : ¬ ∀ c as s a t, exec step (start c) as = some s → step s a = some t →
    t.row.purgedAt ≠ s.row.purgedAt →
    t.row.version = s.row.version ∧ t.row.updatedAt = s.row.updatedAt := by
  intro hall
  have hsame := hall sampleMessage (Lifecycle.deliveredRun ++ [⟨2, .selectPurge (days 91)⟩]) _
    ⟨2, .purge (days 91)⟩ _ rfl rfl (Option.some_ne_none _)
  exact absurd hsame.1 (by decide)

end Vsms.Message.Purge
