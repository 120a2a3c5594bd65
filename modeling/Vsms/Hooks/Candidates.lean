import Vsms.Hooks.Claim
import Vsms.Lib.Selection
import Mathlib.Data.List.Nodup

/-! # Which attempts a claim selects

`webhook_candidates` has two ways to read the attempts: in time order if every endpoint can be
claimed from, and else endpoint by endpoint, merging what it has read. Both select the oldest
eligible attempts: those that are due, by `nextAttemptAt`, and then, for what is left of the budget,
those whose lease has expired, by `leaseUntil` (`Picks`). No endpoint has more than `budget`
attempts among the oldest `budget`, so its first `budget` are enough to read. Attempts of the other
endpoints make no difference. -/

namespace Vsms.Hooks.Candidates

open Vsms.Lib.Consumers Vsms.Lib.Selection Vsms.Schema.Types Vsms.Schema.Webhooks Vsms.Hooks.Claim

/-! ## The order -/

instance : Std.Total nullsLast where
  total a b := by
    cases a with
    | none => cases b <;> simp [nullsLast]
    | some s =>
      cases b with
      | none => simp [nullsLast]
      | some t => exact Int.le_total s t

instance : IsTrans (Option Time) nullsLast where
  trans a b c hab hbc := by
    cases a <;> cases b <;> cases c <;> simp only [nullsLast] at hab hbc ⊢
    exact Int.le_trans hab hbc

instance : Std.Antisymm nullsLast where
  antisymm a b hab hba := by
    cases a <;> cases b <;> simp only [nullsLast] at hab hba
    · rfl
    · exact congrArg some (Int.le_antisymm hab hba)

instance : Std.Total byNextAttemptAt := ⟨fun _ _ => Std.Total.total (r := nullsLast) _ _⟩

instance : IsTrans WebhookAttempt byNextAttemptAt :=
  ⟨fun _ _ _ hab hbc => IsTrans.trans (r := nullsLast) _ _ _ hab hbc⟩

instance : Std.Total byLeaseUntil := ⟨fun _ _ => Std.Total.total (r := nullsLast) _ _⟩

instance : IsTrans WebhookAttempt byLeaseUntil :=
  ⟨fun _ _ _ hab hbc => IsTrans.trans (r := nullsLast) _ _ _ hab hbc⟩

theorem rows_nodup (db : HooksDb) : db.rows.Nodup := List.Nodup.of_map _ db.nodup

/-- One query: the oldest of the rows with `P`. -/
theorem firsts_selectRows {P : WebhookAttempt → Prop} [DecidablePred P]
    {r : WebhookAttempt → WebhookAttempt → Prop} [DecidableRel r] [Std.Total r]
    [IsTrans WebhookAttempt r] (n : ℕ) (db : HooksDb) :
    Firsts r n (db.rows.filter fun a => P a) (selectRows P r n db.rows) :=
  firsts_take ((rows_nodup db).filter _)

/-! ## What is selected -/

/-- **The oldest attempts among those with `C`**: the due ones, then the expired leases. -/
def Picks (now : Time) (budget : ℕ) (C : WebhookAttempt → Prop) [DecidablePred C] (db : HooksDb)
    (result : List WebhookAttempt) : Prop :=
  ∃ due expired, result = due ++ expired ∧
    Firsts byNextAttemptAt budget (db.rows.filter fun a => dueAttempts now a ∧ C a) due ∧
    Firsts byLeaseUntil (budget - due.length) (db.rows.filter fun a => expiredLeases now a ∧ C a)
      expired

theorem Picks.congr {now : Time} {budget : ℕ} {C C' : WebhookAttempt → Prop} [DecidablePred C]
    [DecidablePred C'] {db : HooksDb} {result : List WebhookAttempt}
    (h : Picks now budget C db result) (hC : ∀ a ∈ db.rows, C a ↔ C' a) :
    Picks now budget C' db result := by
  obtain ⟨due, expired, hr, hdue, hexp⟩ := h
  have hsame (P : WebhookAttempt → Prop) [DecidablePred P] :
      (db.rows.filter fun a => P a ∧ C a) = db.rows.filter fun a => P a ∧ C' a :=
    List.filter_congr fun a ha => by simp [hC a ha]
  rw [hsame] at hdue hexp
  exact ⟨due, expired, hr, hdue, hexp⟩

/-- The second query fills up what the first has left of the budget. -/
theorem run_fill {P : WebhookAttempt → Prop} [DecidablePred P]
    {r : WebhookAttempt → WebhookAttempt → Prop} [DecidableRel r] (limit : ℕ)
    (ready : List WebhookAttempt) (db : HooksDb) :
    (if 0 < limit - ready.length then do
        let more ← query fun db : HooksDb => selectRows P r (limit - ready.length) db.rows
        return ready ++ more
      else return ready : Select HooksDb (List WebhookAttempt)).run db =
      ready ++ selectRows P r (limit - ready.length) db.rows := by
  split_ifs with h
  · simp only [run_bind, run_query, run_pure]
  · have hzero : limit - ready.length = 0 := by omega
    rw [hzero, run_pure]
    simp [selectRows]

theorem timeOrderedCandidates_run (now : Time) (budget : ℕ) (db : HooksDb) :
    (timeOrderedCandidates now budget).run db =
      selectRows (dueAttempts now) byNextAttemptAt budget db.rows ++
        selectRows (expiredLeases now) byLeaseUntil
          (budget - (selectRows (dueAttempts now) byNextAttemptAt budget db.rows).length)
            db.rows := by
  unfold timeOrderedCandidates
  rw [run_bind, run_query]
  exact run_fill _ _ _

theorem timeOrderedCandidates_picks (now : Time) (budget : ℕ) (db : HooksDb) :
    Picks now budget (fun _ => True) db ((timeOrderedCandidates now budget).run db) := by
  rw [timeOrderedCandidates_run]
  refine ⟨_, _, rfl, ?_, ?_⟩
  · simpa using firsts_selectRows (P := dueAttempts now) (r := byNextAttemptAt) budget db
  · simpa using firsts_selectRows (P := expiredLeases now) (r := byLeaseUntil) _ db

/-! ### Endpoint by endpoint -/

/-- The oldest due attempts of one endpoint. -/
def dueOf (now : Time) (limit : ℕ) (db : HooksDb) (e : String) : List WebhookAttempt :=
  selectRows (fun a => dueAttempts now a ∧ a.endpointId = e) byNextAttemptAt limit db.rows

theorem dueOfEndpoints_run (now : Time) (limit : ℕ) (db : HooksDb) (endpoints : List String) :
    ∀ ready, (dueOfEndpoints now limit endpoints ready).run db =
      ready ++ endpoints.flatMap (dueOf now limit db) := by
  induction endpoints with
  | nil =>
    intro ready
    simp [dueOfEndpoints]
  | cons e endpoints ih =>
    intro ready
    unfold dueOfEndpoints
    rw [run_bind, run_query, ih, List.flatMap_cons, List.append_assoc]
    rfl

theorem perEndpointCandidates_run (now : Time) (limit : ℕ) (endpoints : List String)
    (db : HooksDb) :
    (perEndpointCandidates now limit endpoints).run db =
      ((endpoints.flatMap (dueOf now limit db)).insertionSort byNextAttemptAt).take limit ++
        selectRows (fun a => expiredLeases now a ∧ a.endpointId ∈ endpoints) byLeaseUntil
          (limit - (((endpoints.flatMap (dueOf now limit db)).insertionSort byNextAttemptAt).take
            limit).length) db.rows := by
  unfold perEndpointCandidates
  rw [run_bind, dueOfEndpoints_run, List.nil_append]
  exact run_fill _ _ _

theorem dueOf_firsts (now : Time) (limit : ℕ) (db : HooksDb) (e : String) :
    Firsts byNextAttemptAt limit (db.rows.filter fun a => dueAttempts now a ∧ a.endpointId = e)
      (dueOf now limit db e) := firsts_selectRows limit db

theorem mem_dueOf {now : Time} {limit : ℕ} {db : HooksDb} {e : String} {a : WebhookAttempt}
    (h : a ∈ dueOf now limit db e) : a ∈ db.rows ∧ dueAttempts now a ∧ a.endpointId = e :=
  mem_selectRows h

/-- **The merge**: the oldest of what the endpoints have are the oldest of all. -/
theorem merge_firsts (now : Time) (limit : ℕ) {endpoints : List String} (he : endpoints.Nodup)
    (db : HooksDb) :
    Firsts byNextAttemptAt limit
      (db.rows.filter fun a => dueAttempts now a ∧ a.endpointId ∈ endpoints)
      (((endpoints.flatMap (dueOf now limit db)).insertionSort byNextAttemptAt).take limit) := by
  have hnodup : (endpoints.flatMap (dueOf now limit db)).Nodup := by
    refine List.nodup_flatMap.mpr ⟨fun e _ => (dueOf_firsts now limit db e).nodup, ?_⟩
    refine he.imp fun {e e'} hne => ?_
    intro a ha ha'
    exact hne ((mem_dueOf ha).2.2.symm.trans (mem_dueOf ha').2.2)
  refine (firsts_take hnodup).of_dominated ((rows_nodup db).filter _) hnodup ?_ ?_
  · intro a ha
    obtain ⟨e, hmem, ha⟩ := List.mem_flatMap.mp ha
    obtain ⟨hrow, hdue, rfl⟩ := mem_dueOf ha
    exact List.mem_filter.mpr ⟨hrow, by simpa using ⟨hdue, hmem⟩⟩
  · -- An attempt that was not read has the whole budget of its endpoint before it.
    intro y hy hyn
    obtain ⟨hrow, hP⟩ := List.mem_filter.mp hy
    obtain ⟨hdue, hmem⟩ := of_decide_eq_true hP
    have hfirsts := dueOf_firsts now limit db y.endpointId
    have hin : y ∈ db.rows.filter fun a => dueAttempts now a ∧ a.endpointId = y.endpointId :=
      List.mem_filter.mpr ⟨hrow, by simpa using hdue⟩
    have hout : y ∉ dueOf now limit db y.endpointId := fun h =>
      hyn (List.mem_flatMap.mpr ⟨_, hmem, h⟩)
    refine ⟨dueOf now limit db y.endpointId, hfirsts.nodup, fun a ha => ?_, ?_, fun x hx => ?_⟩
    · exact List.mem_flatMap.mpr ⟨_, hmem, ha⟩
    · exact (hfirsts.length_eq_of_notMem hin hout).ge
    · exact hfirsts.before x hx y hin hout

theorem perEndpointCandidates_picks (now : Time) (budget : ℕ) {endpoints : List String}
    (he : endpoints.Nodup) (db : HooksDb) :
    Picks now budget (fun a => a.endpointId ∈ endpoints) db
      ((perEndpointCandidates now budget endpoints).run db) := by
  rw [perEndpointCandidates_run]
  exact ⟨_, _, rfl, merge_firsts now budget he db, firsts_selectRows _ db⟩

/-! ### The keys -/

/-- What an attempt is sorted by. -/
def sortKey (a : WebhookAttempt) : Option Time :=
  if a.state = .delivering then a.leaseUntil else a.nextAttemptAt

/-- Two selections of the oldest agree in their keys. -/
theorem Picks.map_sortKey {now : Time} {budget : ℕ} {C : WebhookAttempt → Prop} [DecidablePred C]
    {db : HooksDb} {result result' : List WebhookAttempt} (h : Picks now budget C db result)
    (h' : Picks now budget C db result') : result.map sortKey = result'.map sortKey := by
  obtain ⟨due, expired, rfl, hdue, hexp⟩ := h
  obtain ⟨due', expired', rfl, hdue', hexp'⟩ := h'
  have hdueKeys : due.map WebhookAttempt.nextAttemptAt = due'.map WebhookAttempt.nextAttemptAt :=
    hdue.map_eq (s := nullsLast) (fun _ _ hr => hr) hdue' ((rows_nodup db).filter _)
  have hlen : due.length = due'.length := by rw [hdue.length, hdue'.length]
  rw [← hlen] at hexp'
  have hexpKeys : expired.map WebhookAttempt.leaseUntil = expired'.map WebhookAttempt.leaseUntil :=
    hexp.map_eq (s := nullsLast) (fun _ _ hr => hr) hexp' ((rows_nodup db).filter _)
  have hd {l : List WebhookAttempt} (hl : l ⊆ db.rows.filter fun a => dueAttempts now a ∧ C a) :
      l.map sortKey = l.map WebhookAttempt.nextAttemptAt := by
    refine List.map_congr_left fun a ha => if_neg fun hs => ?_
    have hP := of_decide_eq_true (List.mem_filter.mp (hl ha)).2
    rcases hP.1.1 with h | h <;> rw [h] at hs <;> cases hs
  have hx {l : List WebhookAttempt} (hl : l ⊆ db.rows.filter fun a => expiredLeases now a ∧ C a) :
      l.map sortKey = l.map WebhookAttempt.leaseUntil :=
    List.map_congr_left fun a ha => if_pos (of_decide_eq_true (List.mem_filter.mp (hl ha)).2).1.1
  rw [List.map_append, List.map_append, hd hdue.subset, hd hdue'.subset, hx hexp.subset,
    hx hexp'.subset, hdueKeys, hexpKeys]

/-! ## The endpoints -/

/-- Every attempt is of an endpoint of the table: the constraint `wha_endpoint_fk`. -/
def ForeignKey (db : HooksDb) : Prop := ∀ a ∈ db.rows, ∃ e ∈ db.rest.rows, e.id = a.endpointId

instance (db : HooksDb) : Decidable (ForeignKey db) := by
  unfold ForeignKey
  infer_instance

section served
variable (served : ServedModes) (now : Time)

/-- `can_claim` accepts the endpoint of the attempt. -/
def OfClaimable (endpoints : WebhookEndpoints) (a : WebhookAttempt) : Prop :=
  ∃ e ∈ endpoints.rows, e.id = a.endpointId ∧ served.canClaim e now

instance (endpoints : WebhookEndpoints) : DecidablePred (OfClaimable served now endpoints) :=
  fun a => by
    unfold OfClaimable
    infer_instance

/-- **An attempt to claim**: due or left by a worker that stopped, of an endpoint to claim from. -/
def Eligible (endpoints : WebhookEndpoints) (a : WebhookAttempt) : Prop :=
  (dueAttempts now a ∨ expiredLeases now a) ∧ OfClaimable served now endpoints a

instance (endpoints : WebhookEndpoints) : DecidablePred (Eligible served now endpoints) :=
  fun a => by
    unfold Eligible
    infer_instance

/-- The ids of the endpoints to claim from. -/
def claimableIds (endpoints : WebhookEndpoints) : List String :=
  (endpoints.rows.filter fun e => served.canClaim e now).map WebhookEndpoint.id

end served

section candidates
variable {served : ServedModes} {now : Time} {budget : ℕ} {db : HooksDb}

theorem mem_claimableIds {endpoints : WebhookEndpoints} {a : WebhookAttempt} :
    a.endpointId ∈ claimableIds served now endpoints ↔ OfClaimable served now endpoints a := by
  simp only [claimableIds, OfClaimable, List.mem_map, List.mem_filter, decide_eq_true_eq]
  constructor
  · rintro ⟨e, ⟨he, hc⟩, hid⟩
    exact ⟨e, he, hid, hc⟩
  · rintro ⟨e, he, hid, hc⟩
    exact ⟨e, ⟨he, hc⟩, hid⟩

theorem claimableIds_nodup (served : ServedModes) (now : Time) (endpoints : WebhookEndpoints) :
    (claimableIds served now endpoints).Nodup :=
  endpoints.nodup.sublist (List.filter_sublist.map _)

/-- As many ids as endpoints: all of them. -/
theorem canClaim_of_length {endpoints : WebhookEndpoints}
    (h : (claimableIds served now endpoints).length = endpoints.rows.length) :
    ∀ e ∈ endpoints.rows, served.canClaim e now := by
  unfold claimableIds at h
  rw [List.length_map] at h
  intro e he
  simpa using List.length_filter_eq_length_iff.mp h e he

theorem ofClaimable_of_all (hfk : ForeignKey db)
    (h : ∀ e ∈ db.rest.rows, served.canClaim e now) :
    ∀ a ∈ db.rows, OfClaimable served now db.rest a := by
  intro a ha
  obtain ⟨e, he, hid⟩ := hfk a ha
  exact ⟨e, he, hid, h e he⟩

/-- The second look at the endpoints drops nothing, if they have not changed. -/
theorem filterByEndpointHealth_run {candidates : List WebhookAttempt}
    (hc : ∀ a ∈ candidates, OfClaimable served now db.rest a) (hlen : candidates.length ≤ budget) :
    (filterByEndpointHealth candidates now budget served).run db = candidates := by
  unfold filterByEndpointHealth
  split_ifs
  · rfl
  · rw [run_bind, run_query, run_pure, List.filter_eq_self.mpr, List.take_of_length_le hlen]
    intro a ha
    obtain ⟨e, he, hid, hclaim⟩ := hc a ha
    have hmem : e.id ∈ candidates.map WebhookAttempt.endpointId :=
      List.mem_map.mpr ⟨a, ha, hid.symm⟩
    refine decide_eq_true (List.mem_map.mpr ⟨e, ?_, hid⟩)
    simp only [List.mem_filter, decide_eq_true_eq]
    exact ⟨⟨he, hmem⟩, hclaim⟩

/-! ### Properties of a selection -/

variable {C : WebhookAttempt → Prop} [DecidablePred C] {result : List WebhookAttempt}

theorem Picks.mem (h : Picks now budget C db result) :
    ∀ a ∈ result, a ∈ db.rows ∧ (dueAttempts now a ∨ expiredLeases now a) ∧ C a := by
  obtain ⟨due, expired, rfl, hdue, hexp⟩ := h
  intro a ha
  rcases List.mem_append.mp ha with ha | ha
  · obtain ⟨hrow, hP⟩ := List.mem_filter.mp (hdue.subset ha)
    obtain ⟨hP, hC⟩ := of_decide_eq_true hP
    exact ⟨hrow, .inl hP, hC⟩
  · obtain ⟨hrow, hP⟩ := List.mem_filter.mp (hexp.subset ha)
    obtain ⟨hP, hC⟩ := of_decide_eq_true hP
    exact ⟨hrow, .inr hP, hC⟩

theorem not_due_of_expired {a : WebhookAttempt} (h : expiredLeases now a) :
    ¬ dueAttempts now a := by
  rintro ⟨hs | hs, -⟩ <;> rw [h.1] at hs <;> cases hs

theorem Picks.nodup (h : Picks now budget C db result) : result.Nodup := by
  obtain ⟨due, expired, rfl, hdue, hexp⟩ := h
  refine List.nodup_append.mpr ⟨hdue.nodup, hexp.nodup, ?_⟩
  rintro a ha _ ha' rfl
  have hd := of_decide_eq_true (List.mem_filter.mp (hdue.subset ha)).2
  have hx := of_decide_eq_true (List.mem_filter.mp (hexp.subset ha')).2
  exact not_due_of_expired hx.1 hd.1

theorem Picks.length (h : Picks now budget C db result) : result.length = min budget
    (db.rows.filter fun a => (dueAttempts now a ∨ expiredLeases now a) ∧ C a).length := by
  obtain ⟨due, expired, rfl, hdue, hexp⟩ := h
  have hd := hdue.length
  have hx := hexp.length
  have hsum : (db.rows.filter fun a => (dueAttempts now a ∨ expiredLeases now a) ∧ C a).length =
      (db.rows.filter fun a => dueAttempts now a ∧ C a).length +
        (db.rows.filter fun a => expiredLeases now a ∧ C a).length := by
    -- No attempt is both due and expired.
    rw [← length_filter_or fun a _ hd hx => not_due_of_expired hx.1 hd.1]
    simp only [or_and_right]
  rw [List.length_append]
  omega

theorem Picks.length_le (h : Picks now budget C db result) : result.length ≤ budget := by
  have := h.length
  omega

theorem picks_nil (h : ∀ a ∈ db.rows, ¬ C a) : Picks now budget C db [] := by
  have hnone (P : WebhookAttempt → Prop) [DecidablePred P] :
      (db.rows.filter fun a => P a ∧ C a) = [] := by
    refine List.filter_eq_nil_iff.mpr fun a ha => ?_
    simp [h a ha]
  refine ⟨[], [], rfl, ?_, ?_⟩ <;> rw [hnone] <;> constructor <;> simp

/-! ### `webhook_candidates` -/

/-- The reads of `webhook_candidates`, before the second look. -/
def readCandidates (now : Time) (budget : ℕ) (served : ServedModes) (endpoints : WebhookEndpoints) :
    Select HooksDb (List WebhookAttempt) :=
  if (claimableIds served now endpoints).length = endpoints.rows.length then
    timeOrderedCandidates now budget
  else if claimableIds served now endpoints = [] then pure []
  else perEndpointCandidates now budget (claimableIds served now endpoints)

theorem readCandidates_picks (hfk : ForeignKey db) :
    Picks now budget (OfClaimable served now db.rest) db
      ((readCandidates now budget served db.rest).run db) := by
  unfold readCandidates
  split_ifs with hall hnone
  · have hC := ofClaimable_of_all hfk (canClaim_of_length hall)
    exact (timeOrderedCandidates_picks now budget db).congr fun a ha => by simp [hC a ha]
  · refine picks_nil fun a _ hC => ?_
    have hmem := mem_claimableIds.mpr hC
    rw [hnone] at hmem
    cases hmem
  · have h := perEndpointCandidates_picks now budget
      (claimableIds_nodup served now db.rest) db
    exact h.congr fun _ _ => mem_claimableIds

theorem webhookCandidates_run (hfk : ForeignKey db) :
    (webhookCandidates now budget served).run db =
      (readCandidates now budget served db.rest).run db := by
  have h : Picks now budget (OfClaimable served now db.rest) db
      ((readCandidates now budget served db.rest).run db) := readCandidates_picks hfk
  unfold webhookCandidates
  rw [run_bind, run_query, run_bind]
  exact filterByEndpointHealth_run (fun a ha => (h.mem a ha).2.2) h.length_le

end candidates

/-! ### The other endpoints -/

theorem selectRows_filter {P C : WebhookAttempt → Prop} [DecidablePred P] [DecidablePred C]
    {r : WebhookAttempt → WebhookAttempt → Prop} [DecidableRel r] (hPC : ∀ a, P a → C a) (n : ℕ)
    (rows : List WebhookAttempt) :
    selectRows P r n (rows.filter fun a => C a) = selectRows P r n rows := by
  unfold selectRows
  rw [List.filter_filter]
  have hsame : (rows.filter fun a => decide (P a) && decide (C a)) = rows.filter fun a => P a := by
    refine List.filter_congr fun a _ => ?_
    by_cases hP : P a <;> simp [hP, hPC]
  rw [hsame]

/-- One query of one endpoint's attempts, or of some endpoints', sees no others. -/
theorem selectRows_ofClaimable {served : ServedModes} {now : Time} {db db' : HooksDb}
    {P : WebhookAttempt → Prop} [DecidablePred P]
    {r : WebhookAttempt → WebhookAttempt → Prop} [DecidableRel r]
    (hP : ∀ a, P a → a.endpointId ∈ claimableIds served now db.rest)
    (hrows : (db'.rows.filter fun a => OfClaimable served now db.rest a) =
      db.rows.filter fun a => OfClaimable served now db.rest a) (n : ℕ) :
    selectRows P r n db'.rows = selectRows P r n db.rows := by
  have hPC : ∀ a, P a → OfClaimable served now db.rest a := fun a ha =>
    mem_claimableIds.mp (hP a ha)
  rw [← selectRows_filter hPC, hrows, selectRows_filter hPC]

theorem readCandidates_congr {served : ServedModes} {now : Time} {budget : ℕ} {db db' : HooksDb}
    (hfk : ForeignKey db) (hfk' : ForeignKey db') (hrest : db'.rest = db.rest)
    (hrows : (db'.rows.filter fun a => OfClaimable served now db.rest a) =
      db.rows.filter fun a => OfClaimable served now db.rest a) :
    (readCandidates now budget served db.rest).run db' =
      (readCandidates now budget served db.rest).run db := by
  unfold readCandidates
  split_ifs with hall hnone
  · have hclaim := canClaim_of_length hall
    have hself : (db.rows.filter fun a => OfClaimable served now db.rest a) = db.rows :=
      List.filter_eq_self.mpr fun a ha => decide_eq_true (ofClaimable_of_all hfk hclaim a ha)
    have hself' : (db'.rows.filter fun a => OfClaimable served now db.rest a) = db'.rows := by
      have hclaim' : ∀ e ∈ db'.rest.rows, served.canClaim e now := by rwa [hrest]
      have h := ofClaimable_of_all hfk' hclaim'
      rw [hrest] at h
      exact List.filter_eq_self.mpr fun a ha => decide_eq_true (h a ha)
    rw [hself, hself'] at hrows
    rw [timeOrderedCandidates_run, timeOrderedCandidates_run, hrows]
  · rfl
  · have hdue : (claimableIds served now db.rest).flatMap (dueOf now budget db') =
        (claimableIds served now db.rest).flatMap (dueOf now budget db) := by
      refine List.flatMap_congr fun e he => ?_
      refine selectRows_ofClaimable (fun a ha => ?_) hrows budget
      rw [ha.2]
      exact he
    rw [perEndpointCandidates_run, perEndpointCandidates_run, hdue,
      selectRows_ofClaimable (fun a ha => ha.2) hrows]

/-! ## The selection -/

/-- **`webhook_candidates` selects the oldest eligible attempts**: no attempt twice, as many as the
budget allows, the due ones by `nextAttemptAt` and then the expired leases. Reading endpoint by
endpoint would give the same keys where all of them can be claimed from, and the attempts of those
that cannot make no difference. -/
theorem candidates_oldest_eligible (served : ServedModes) (now : Time) (budget : ℕ) (db : HooksDb)
    (hfk : ForeignKey db) :
    Picks now budget (OfClaimable served now db.rest) db
        ((webhookCandidates now budget served).run db) ∧
      ((webhookCandidates now budget served).run db).Nodup ∧
      ((webhookCandidates now budget served).run db).length =
        min budget (db.rows.filter fun a => Eligible served now db.rest a).length ∧
      ((∀ e ∈ db.rest.rows, served.canClaim e now) →
        ((perEndpointCandidates now budget (claimableIds served now db.rest)).run db).map sortKey =
          ((timeOrderedCandidates now budget).run db).map sortKey) ∧
      ∀ db' : HooksDb, ForeignKey db' → db'.rest = db.rest →
        (db'.rows.filter fun a => OfClaimable served now db.rest a) =
          (db.rows.filter fun a => OfClaimable served now db.rest a) →
        (webhookCandidates now budget served).run db' =
          (webhookCandidates now budget served).run db := by
  have hpicks : Picks now budget (OfClaimable served now db.rest) db
      ((webhookCandidates now budget served).run db) := by
    rw [webhookCandidates_run hfk]
    exact readCandidates_picks hfk
  refine ⟨hpicks, hpicks.nodup, hpicks.length, fun hall => ?_, fun db' hfk' hrest hrows => ?_⟩
  · have hper := perEndpointCandidates_picks now budget
      (claimableIds_nodup served now db.rest) db
    refine Picks.map_sortKey (C := fun _ => True) (hper.congr fun a ha => ?_)
      (timeOrderedCandidates_picks now budget db)
    exact iff_of_true (mem_claimableIds.mpr (ofClaimable_of_all hfk hall a ha)) trivial
  · rw [webhookCandidates_run hfk, webhookCandidates_run hfk', hrest]
    exact readCandidates_congr hfk hfk' hrest hrows

def attemptOf (id endpointId : String) (state : AttemptState)
    (leaseUntil nextAttemptAt : Option Time) :
    WebhookAttempt where
  id
  endpointId
  sourceEventId := "m1"
  eventType := "message.delivered"
  payload := ""
  state
  attempts := 0
  leaseOwner := none
  leaseUntil
  nextAttemptAt
  lastStatusCode := none
  lastError := none
  lastAttemptAt := none
  deliveredAt := none
  version := 0

def endpointOf (id : String) (active : Bool) : WebhookEndpoint :=
  ⟨id, "a1", "https://example.test/hook", .hmac, none, some "whsec", none, active, 8, none, 0, 0, 0⟩

/-- Two endpoints to claim from and a deactivated one with the oldest attempt. -/
def backlog : HooksDb where
  rows := [attemptOf "w1" "off" .pending none (some 1), attemptOf "w2" "e1" .failed none none,
    attemptOf "w3" "e2" .pending none (some 4), attemptOf "w4" "e1" .delivering (some 2) none,
    attemptOf "w5" "e1" .pending none (some 3)]
  issued := ["w1", "w2", "w3", "w4", "w5"]
  rest := ⟨[endpointOf "off" false, endpointOf "e1" true, endpointOf "e2" true], by decide⟩
  nodup := by decide
  issued_of_mem := by decide

theorem candidates_oldest_eligible_backlog : ForeignKey backlog ∧
    Picks 10 4 (OfClaimable .both 10 backlog.rest) backlog
      ((webhookCandidates 10 4 .both).run backlog) ∧
    ((webhookCandidates 10 4 .both).run backlog).length = 4 ∧
    ((webhookCandidates 10 4 .both).run backlog).map WebhookAttempt.id =
      ["w5", "w3", "w2", "w4"] := by
  have hfk : ForeignKey backlog := by decide
  have h := candidates_oldest_eligible .both 10 4 backlog hfk
  exact ⟨hfk, h.1, h.2.2.1.trans (by decide), by decide⟩

end Vsms.Hooks.Candidates
