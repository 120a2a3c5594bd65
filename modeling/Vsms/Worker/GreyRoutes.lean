import Mathlib.Data.List.Sort
import Mathlib.Data.Rat.Cast.Order
import Mathlib.Tactic.Linarith
import Mathlib.Tactic.NormNum
import Vsms.Lib.Upserts
import Vsms.Schema.Types

/-! # Routes whose delivery rate diverges

The messages of the last days are counted by operator, class and route. Among the routes of one
operator and class that have enough messages, the one with the best rate is the reference, and each
other one that is worse by a margin, in a way that chance does not explain, is a finding. Both steps
go through a hash map, whose order is nobody's choice. What is counted does not depend on it
(`mem_aggregateOutcomes`), but if two routes share the best rate, the one that comes first is the
reference: there is a run for each of them (`exists_run`).

So the findings do not depend on the order exactly if no route diverges from one of several that
share the best rate (`findings_iff`); otherwise a route can be flagged in one order and not in
another (`tied_references_disagree`). Rates are exact here, and the test compares squares. -/

namespace Vsms.Worker.GreyRoutes

open Vsms.Schema.Types Vsms.Lib.Upserts

/-- The number of messages below which a rate is not trusted. -/
def minSample : ℕ := 30

/-- The least difference of two rates that matters. -/
def minDelta : ℚ := 15 / 100

def zThreshold : ℚ := 3

/-! ## Counting the messages -/

/-- The outcomes of a route's messages to an operator and of a class. -/
structure RouteOutcome where
  operator : OperatorCode
  messageClass : MessageClass
  routeId : String
  delivered : ℕ
  failed : ℕ
  deriving DecidableEq, Repr

def RouteOutcome.total (o : RouteOutcome) : ℕ := o.delivered + o.failed

def RouteOutcome.rate (o : RouteOutcome) : ℚ := o.delivered / o.total

structure MessageOutcome where
  operator : OperatorCode
  messageClass : MessageClass
  routeId : String
  state : MessageState
  deriving DecidableEq, Repr

def operatorTag : OperatorCode → String
  | .mtn => "mtn"
  | .orange => "orange"
  | .camtel => "camtel"
  | .nexttel => "nexttel"
  | .unknown => "unknown"

def classTag : MessageClass → String
  | .otp => "otp"
  | .transactional => "transactional"
  | .notification => "notification"
  | .marketing => "marketing"

/-- One more message, which counts for neither side if its outcome is not known. -/
def RouteOutcome.count (o : RouteOutcome) : MessageState → RouteOutcome
  | .delivered => { o with delivered := o.delivered + 1 }
  | .undelivered | .failed | .expired => { o with failed := o.failed + 1 }
  | _ => o

/-- The map of the outcomes. -/
def totals (rows : List MessageOutcome) : List ((String × String × String) × RouteOutcome) :=
  upserts (fun row => (operatorTag row.operator, classTag row.messageClass, row.routeId))
    (fun row => ⟨row.operator, row.messageClass, row.routeId, 0, 0⟩)
    (fun o row => o.count row.state) rows

/-- The outcomes, in the order of the map. -/
def AggregateOutcomes (rows : List MessageOutcome) (outcomes : List RouteOutcome) : Prop :=
  Values (totals rows) outcomes

/-! ## Comparing the routes -/

structure DivergenceFinding where
  operator : OperatorCode
  messageClass : MessageClass
  referenceRouteId : String
  referenceRate : ℚ
  referenceN : ℕ
  routeId : String
  rate : ℚ
  n : ℕ
  delta : ℚ
  zSquared : ℚ
  deriving DecidableEq, Repr

/-- The square of the two-proportion z, with the pooled standard error. -/
def twoProportionZSquared (reference candidate : RouteOutcome) : ℚ :=
  let n1 : ℚ := reference.total
  let n2 : ℚ := candidate.total
  let pooled : ℚ := (reference.delivered + candidate.delivered : ℕ) / (n1 + n2)
  let seSquared := pooled * (1 - pooled) * (1 / n1 + 1 / n2)
  if seSquared = 0 then 0 else (reference.rate - candidate.rate) ^ 2 / seSquared

def divergence (reference candidate : RouteOutcome) : Option DivergenceFinding :=
  let delta := reference.rate - candidate.rate
  if delta < minDelta then none
  else
    let zSquared := twoProportionZSquared reference candidate
    if zSquared < zThreshold ^ 2 then none
    else some {
      operator := reference.operator
      messageClass := reference.messageClass
      referenceRouteId := reference.routeId
      referenceRate := reference.rate
      referenceN := reference.total
      routeId := candidate.routeId
      rate := candidate.rate
      n := candidate.total
      delta := delta
      zSquared := zSquared }

/-- The routes that have enough messages, the best rates first. -/
def ranked (members : List RouteOutcome) : List RouteOutcome :=
  (members.filter fun route => minSample ≤ route.total).insertionSort fun a b => b.rate ≤ a.rate

def groupFindings (members : List RouteOutcome) : List DivergenceFinding :=
  if (members.filter fun route => minSample ≤ route.total).length < 2 then []
  else
    match ranked members with
    | [] => []
    | reference :: candidates => candidates.filterMap (divergence reference)

/-- The map of the groups. -/
def groups (outcomes : List RouteOutcome) : List ((String × String) × List RouteOutcome) :=
  upserts (fun o => (operatorTag o.operator, classTag o.messageClass)) (fun _ => [])
    (fun members o => members ++ [o]) outcomes

/-- The findings, with the groups in the order of their map. -/
def DetectDivergentRoutes (outcomes : List RouteOutcome) (findings : List DivergenceFinding) :
    Prop :=
  ∃ members, Values (groups outcomes) members ∧ findings = members.flatMap groupFindings

/-- The job, with both maps in any order. -/
def Run (rows : List MessageOutcome) (findings : List DivergenceFinding) : Prop :=
  ∃ outcomes, AggregateOutcomes rows outcomes ∧ DetectDivergentRoutes outcomes findings

/-- What is flagged: the operator, the class, the reference and the route. -/
def DivergenceFinding.key (f : DivergenceFinding) : OperatorCode × MessageClass × String × String :=
  (f.operator, f.messageClass, f.referenceRouteId, f.routeId)

/-- **The findings are the same in every order** of the messages and of the maps. -/
def OrderFree (rows : List MessageOutcome) : Prop :=
  ∀ rows' findings findings', List.Perm rows' rows → Run rows findings → Run rows' findings' →
    ∀ k, k ∈ findings.map (·.key) ↔ k ∈ findings'.map (·.key)

/-! ## What the messages say about a route -/

/-- The messages of a route to an operator and of a class. -/
def routed (rows : List MessageOutcome) (operator : OperatorCode) (messageClass : MessageClass)
    (routeId : String) : List MessageOutcome :=
  rows.filter fun row => row.operator = operator ∧ row.messageClass = messageClass ∧
    row.routeId = routeId

def outcomeOf (rows : List MessageOutcome) (operator : OperatorCode) (messageClass : MessageClass)
    (routeId : String) : RouteOutcome where
  operator := operator
  messageClass := messageClass
  routeId := routeId
  delivered := (routed rows operator messageClass routeId).countP fun row => row.state = .delivered
  failed := (routed rows operator messageClass routeId).countP fun row =>
    row.state = .undelivered ∨ row.state = .failed ∨ row.state = .expired

/-- A candidate that a reference shows to be divergent. -/
def Diverges (reference candidate : RouteOutcome) : Prop :=
  minDelta ≤ reference.rate - candidate.rate ∧
    zThreshold ^ 2 ≤ twoProportionZSquared reference candidate

/-- A route with enough messages, and none that has enough has a better rate. -/
structure Best (rows : List MessageOutcome) (operator : OperatorCode) (messageClass : MessageClass)
    (a : String) : Prop where
  sample : minSample ≤ (outcomeOf rows operator messageClass a).total
  rate_le : ∀ c, minSample ≤ (outcomeOf rows operator messageClass c).total →
    (outcomeOf rows operator messageClass c).rate ≤ (outcomeOf rows operator messageClass a).rate

/-- **No route diverges from one of several best ones.** -/
def TiesAgree (rows : List MessageOutcome) : Prop :=
  ∀ operator messageClass a b c, a ≠ b → Best rows operator messageClass a →
    Best rows operator messageClass b → minSample ≤ (outcomeOf rows operator messageClass c).total →
    ¬ Diverges (outcomeOf rows operator messageClass a) (outcomeOf rows operator messageClass c)

theorem operatorTag_inj {a b : OperatorCode} : operatorTag a = operatorTag b ↔ a = b := by
  cases a <;> cases b <;> decide

theorem classTag_inj {a b : MessageClass} : classTag a = classTag b ↔ a = b := by
  cases a <;> cases b <;> decide

/-! ## The outcomes -/

theorem foldl_count (rows : List MessageOutcome) (o : RouteOutcome) :
    rows.foldl (fun o row => o.count row.state) o =
      { o with
        delivered := o.delivered + rows.countP fun row => row.state = .delivered
        failed := o.failed + rows.countP fun row =>
          row.state = .undelivered ∨ row.state = .failed ∨ row.state = .expired } := by
  induction rows generalizing o with
  | nil => rfl
  | cons row rows ih =>
    rw [List.foldl_cons, ih, List.countP_cons, List.countP_cons]
    cases h : row.state <;> simp [RouteOutcome.count] <;> omega

/-- **What is counted does not depend on the order** of the messages. -/
theorem outcomeOf_perm {rows rows' : List MessageOutcome} (h : List.Perm rows' rows)
    (operator : OperatorCode) (messageClass : MessageClass) (routeId : String) :
    outcomeOf rows' operator messageClass routeId =
      outcomeOf rows operator messageClass routeId := by
  have hrouted : List.Perm (routed rows' operator messageClass routeId)
      (routed rows operator messageClass routeId) := h.filter _
  rw [outcomeOf, outcomeOf, hrouted.countP_eq, hrouted.countP_eq]

theorem mem_routed {rows : List MessageOutcome} {operator : OperatorCode}
    {messageClass : MessageClass} {routeId : String} {row : MessageOutcome} :
    row ∈ routed rows operator messageClass routeId ↔ row ∈ rows ∧ row.operator = operator ∧
      row.messageClass = messageClass ∧ row.routeId = routeId := by
  rw [routed, List.mem_filter, decide_eq_true_iff]

/-- The rows of a key of the map. -/
theorem filter_tags (rows : List MessageOutcome) (operator : OperatorCode)
    (messageClass : MessageClass) (routeId : String) :
    (rows.filter fun row => (operatorTag row.operator, classTag row.messageClass, row.routeId) =
      (operatorTag operator, classTag messageClass, routeId)) =
      routed rows operator messageClass routeId := by
  refine List.filter_congr fun row _ => ?_
  simp only [Prod.mk.injEq, operatorTag_inj, classTag_inj]

/-- The entry of a route that has a message is its outcome. -/
theorem foldl_count_routed {rows rs : List MessageOutcome} {op : OperatorCode} {cl : MessageClass}
    {id : String} {r : MessageOutcome} (h : routed rows op cl id = r :: rs) :
    (r :: rs).foldl (fun o row => o.count row.state)
      (⟨r.operator, r.messageClass, r.routeId, 0, 0⟩ : RouteOutcome) = outcomeOf rows op cl id := by
  have hr : r ∈ routed rows op cl id := h ▸ List.mem_cons_self
  obtain ⟨-, rfl, rfl, rfl⟩ := mem_routed.mp hr
  rw [foldl_count, outcomeOf, h, Nat.zero_add, Nat.zero_add]

/-- **The outcomes with enough messages**, in whatever order the map gives them. -/
theorem mem_aggregateOutcomes {rows : List MessageOutcome} {outcomes : List RouteOutcome}
    (h : AggregateOutcomes rows outcomes) {o : RouteOutcome} (ho : minSample ≤ o.total) :
    o ∈ outcomes ↔ o = outcomeOf rows o.operator o.messageClass o.routeId := by
  rw [mem_values_upserts h]
  constructor
  · rintro ⟨k, hk⟩
    cases hrows : rows.filter fun row =>
        (operatorTag row.operator, classTag row.messageClass, row.routeId) = k with
    | nil =>
      rw [hrows] at hk
      cases hk
    | cons r rs =>
      have hmem : r ∈ rows.filter fun row =>
          (operatorTag row.operator, classTag row.messageClass, row.routeId) = k :=
        hrows ▸ List.mem_cons_self
      obtain ⟨-, hr⟩ := List.mem_filter.mp hmem
      rw [hrows, entryOf] at hk
      rw [← of_decide_eq_true hr, filter_tags] at hrows
      rw [← Option.some.inj hk, foldl_count_routed hrows]
      rfl
  · intro heq
    refine ⟨(operatorTag o.operator, classTag o.messageClass, o.routeId), ?_⟩
    rw [filter_tags]
    cases hrows : routed rows o.operator o.messageClass o.routeId with
    | nil =>
      -- A route without messages has none that count.
      rw [heq, outcomeOf, hrows] at ho
      simp [RouteOutcome.total, minSample] at ho
    | cons r rs => rw [entryOf, foldl_count_routed hrows, ← heq]

/-! ## The groups -/

theorem mem_groups {outcomes : List RouteOutcome} {gs : List (List RouteOutcome)}
    (h : Values (groups outcomes) gs) {members : List RouteOutcome} :
    members ∈ gs ↔ members ≠ [] ∧ ∃ op cl,
      members = outcomes.filter fun o => o.operator = op ∧ o.messageClass = cl := by
  have hkey : ∀ op cl, (outcomes.filter fun o =>
      (operatorTag o.operator, classTag o.messageClass) = (operatorTag op, classTag cl)) =
      outcomes.filter fun o => o.operator = op ∧ o.messageClass = cl := by
    intro op cl
    refine List.filter_congr fun o _ => ?_
    simp only [Prod.mk.injEq, operatorTag_inj, classTag_inj]
  rw [mem_values_upserts h]
  constructor
  · rintro ⟨k, hk⟩
    obtain ⟨hne, hmem⟩ := entryOf_collect.mp hk
    obtain ⟨o, ho⟩ := List.exists_mem_of_ne_nil _ hne
    rw [hmem] at ho
    obtain ⟨-, hof⟩ := List.mem_filter.mp ho
    refine ⟨hne, o.operator, o.messageClass, ?_⟩
    rw [hmem, ← of_decide_eq_true hof, hkey]
  · rintro ⟨hne, op, cl, hmem⟩
    exact ⟨(operatorTag op, classTag cl), entryOf_collect.mpr ⟨hne, by rw [hmem, hkey]⟩⟩

/-! ## One group -/

theorem divergence_eq_some {reference candidate : RouteOutcome} {f : DivergenceFinding}
    (h : divergence reference candidate = some f) :
    Diverges reference candidate ∧
      f.key = (reference.operator, reference.messageClass, reference.routeId,
        candidate.routeId) := by
  simp only [divergence] at h
  split_ifs at h with h1 h2
  cases h
  exact ⟨⟨not_lt.mp h1, not_lt.mp h2⟩, rfl⟩

theorem Diverges.exists_divergence {reference candidate : RouteOutcome}
    (h : Diverges reference candidate) :
    ∃ f, divergence reference candidate = some f := by
  unfold divergence
  rw [if_neg (not_lt.mpr h.1), if_neg (not_lt.mpr h.2)]
  exact ⟨_, rfl⟩

/-- A route does not diverge from one that has the same rate. -/
theorem not_diverges {a b : RouteOutcome} (h : a.rate = b.rate) : ¬ Diverges a b := by
  intro hd
  have hdelta := hd.1
  rw [h, sub_self, minDelta] at hdelta
  norm_num at hdelta

/-- **The findings of a group**, which are about its first route and the others. -/
theorem mem_groupFindings {members : List RouteOutcome}
    {k : OperatorCode × MessageClass × String × String} :
    k ∈ (groupFindings members).map (·.key) ↔ ∃ reference candidates,
      ranked members = reference :: candidates ∧ ∃ candidate ∈ ranked members,
        Diverges reference candidate ∧
          k = (reference.operator, reference.messageClass, reference.routeId,
            candidate.routeId) := by
  have hlen :
      (ranked members).length = (members.filter fun route => minSample ≤ route.total).length :=
    List.length_insertionSort _ _
  rw [groupFindings, ← hlen]
  constructor
  · intro hk
    obtain ⟨f, hf, rfl⟩ := List.mem_map.mp hk
    split_ifs at hf with hshort
    · cases hf
    · cases hranked : ranked members with
      | nil =>
        rw [hranked] at hf
        cases hf
      | cons reference candidates =>
        rw [hranked] at hf
        obtain ⟨candidate, hmem, hdiv⟩ := List.mem_filterMap.mp hf
        obtain ⟨hd, hkey⟩ := divergence_eq_some hdiv
        exact ⟨reference, candidates, rfl, candidate, List.mem_cons_of_mem _ hmem, hd, hkey⟩
  · rintro ⟨reference, candidates, hranked, candidate, hmem, hd, rfl⟩
    rw [hranked] at hmem ⊢
    -- The reference does not diverge from itself, so the candidate is another one.
    have hother : candidate ∈ candidates := by
      rcases List.mem_cons.mp hmem with rfl | hmem
      · exact absurd hd (not_diverges rfl)
      · exact hmem
    have hpos := List.length_pos_of_mem hother
    rw [List.length_cons, if_neg (by omega)]
    obtain ⟨f, hf⟩ := hd.exists_divergence
    exact List.mem_map.mpr ⟨f, List.mem_filterMap.mpr ⟨candidate, hother, hf⟩,
      (divergence_eq_some hf).2⟩

/-- What is flagged for an operator and a class comes from their group. -/
theorem mem_detectDivergentRoutes {outcomes : List RouteOutcome} {findings : List DivergenceFinding}
    (h : DetectDivergentRoutes outcomes findings) (op : OperatorCode) (cl : MessageClass)
    (r c : String) :
    (op, cl, r, c) ∈ findings.map (·.key) ↔ (op, cl, r, c) ∈
      (groupFindings (outcomes.filter fun o => o.operator = op ∧ o.messageClass = cl)).map
        (·.key) := by
  obtain ⟨gs, hgs, rfl⟩ := h
  rw [List.map_flatMap, List.mem_flatMap]
  constructor
  · rintro ⟨members, hmembers, hk⟩
    obtain ⟨-, op', cl', rfl⟩ := (mem_groups hgs).mp hmembers
    obtain ⟨reference, candidates, hranked, candidate, -, -, hkey⟩ := mem_groupFindings.mp hk
    have href :
        reference ∈ ranked (outcomes.filter fun o => o.operator = op' ∧ o.messageClass = cl') :=
      hranked ▸ List.mem_cons_self
    rw [ranked, List.mem_insertionSort, List.mem_filter, List.mem_filter] at href
    obtain ⟨hop, hcl⟩ := of_decide_eq_true href.1.2
    simp only [Prod.mk.injEq] at hkey
    obtain ⟨rfl, rfl, -⟩ := hkey
    rw [hop, hcl] at hk ⊢
    exact hk
  · intro hk
    refine ⟨_, (mem_groups hgs).mpr ⟨?_, op, cl, rfl⟩, hk⟩
    intro hnil
    rw [hnil] at hk
    simp [groupFindings] at hk

/-! ## Runs -/

section Runs
variable {rows : List MessageOutcome} {op : OperatorCode} {cl : MessageClass}

/-- The routes of a group that are compared. -/
theorem mem_ranked {outcomes : List RouteOutcome} (h : AggregateOutcomes rows outcomes)
    {o : RouteOutcome} :
    o ∈ ranked (outcomes.filter fun o => o.operator = op ∧ o.messageClass = cl) ↔
      ∃ c, minSample ≤ (outcomeOf rows op cl c).total ∧ o = outcomeOf rows op cl c := by
  rw [ranked, List.mem_insertionSort, List.mem_filter, List.mem_filter, decide_eq_true_iff,
    decide_eq_true_iff]
  constructor
  · rintro ⟨⟨hmem, rfl, rfl⟩, hsample⟩
    have heq := (mem_aggregateOutcomes h hsample).mp hmem
    exact ⟨o.routeId, heq ▸ hsample, heq⟩
  · rintro ⟨c, hsample, rfl⟩
    exact ⟨⟨(mem_aggregateOutcomes h hsample).mpr rfl, rfl, rfl⟩, hsample⟩

/-- The findings of a run in a group whose first route is `a`. -/
theorem keys_of_reference {outcomes : List RouteOutcome} {findings : List DivergenceFinding}
    (hagg : AggregateOutcomes rows outcomes) (hdet : DetectDivergentRoutes outcomes findings)
    {a : String} {candidates : List RouteOutcome}
    (hranked : ranked (outcomes.filter fun o => o.operator = op ∧ o.messageClass = cl) =
      outcomeOf rows op cl a :: candidates) (r c : String) :
    (op, cl, r, c) ∈ findings.map (·.key) ↔ r = a ∧ minSample ≤ (outcomeOf rows op cl c).total ∧
      Diverges (outcomeOf rows op cl a) (outcomeOf rows op cl c) := by
  rw [mem_detectDivergentRoutes hdet, mem_groupFindings]
  constructor
  · rintro ⟨reference, candidates', hranked', candidate, hmem, hd, hkey⟩
    rw [hranked] at hranked'
    cases hranked'
    obtain ⟨c', hsample, rfl⟩ := (mem_ranked hagg).mp hmem
    simp only [outcomeOf, Prod.mk.injEq] at hkey
    obtain ⟨-, -, rfl, rfl⟩ := hkey
    exact ⟨rfl, hsample, hd⟩
  · rintro ⟨rfl, hsample, hd⟩
    exact ⟨_, _, hranked, _, (mem_ranked hagg).mpr ⟨c, hsample, rfl⟩, hd, rfl⟩

/-- **Every run compares with a best route**, if there is one. -/
theorem Run.exists_reference {findings : List DivergenceFinding} (h : Run rows findings)
    (op : OperatorCode) (cl : MessageClass) :
    ∃ a, (∀ c, minSample ≤ (outcomeOf rows op cl c).total → Best rows op cl a) ∧
      ∀ r c, (op, cl, r, c) ∈ findings.map (·.key) ↔ r = a ∧
        minSample ≤ (outcomeOf rows op cl c).total ∧
          Diverges (outcomeOf rows op cl a) (outcomeOf rows op cl c) := by
  obtain ⟨outcomes, hagg, hdet⟩ := h
  cases hranked : ranked (outcomes.filter fun o => o.operator = op ∧ o.messageClass = cl) with
  | nil =>
    -- No route has enough messages.
    have hnone : ∀ c, ¬ minSample ≤ (outcomeOf rows op cl c).total := by
      intro c hc
      have hmem := (mem_ranked hagg).mpr ⟨c, hc, rfl⟩
      rw [hranked] at hmem
      cases hmem
    refine ⟨"", fun c hc => absurd hc (hnone c),
      fun r c => ⟨fun hk => ?_, fun hk => absurd hk.2.1 (hnone c)⟩⟩
    rw [mem_detectDivergentRoutes hdet, mem_groupFindings] at hk
    obtain ⟨reference, candidates, hcons, -⟩ := hk
    rw [hranked] at hcons
    cases hcons
  | cons reference candidates =>
    have href :
        reference ∈ ranked (outcomes.filter fun o => o.operator = op ∧ o.messageClass = cl) :=
      hranked ▸ List.mem_cons_self
    obtain ⟨a, hsample, rfl⟩ := (mem_ranked hagg).mp href
    refine ⟨a, fun _ _ => ⟨hsample, fun c hc => ?_⟩, keys_of_reference hagg hdet hranked⟩
    have hsorted : (ranked (outcomes.filter fun o =>
        o.operator = op ∧ o.messageClass = cl)).Pairwise fun a b => b.rate ≤ a.rate :=
      List.pairwise_insertionSort _ _
    have hmem := (mem_ranked hagg).mpr ⟨c, hc, rfl⟩
    rw [hranked] at hsorted hmem
    rcases List.mem_cons.mp hmem with heq | hmem
    · rw [heq]
    · exact (List.pairwise_cons.mp hsorted).1 _ hmem

/-- **Every best route is the reference of some run**: the map only has to give it first. -/
theorem exists_run {a : String} (h : Best rows op cl a) : ∃ findings, Run rows findings ∧
    ∀ r c, (op, cl, r, c) ∈ findings.map (·.key) ↔ r = a ∧
      minSample ≤ (outcomeOf rows op cl c).total ∧
        Diverges (outcomeOf rows op cl a) (outcomeOf rows op cl c) := by
  have hvalues : AggregateOutcomes rows ((totals rows).map Prod.snd) := List.Perm.refl _
  have hmem := (mem_aggregateOutcomes hvalues h.sample).mpr rfl
  obtain ⟨before, after, hsplit⟩ := List.append_of_mem hmem
  have hagg : AggregateOutcomes rows (outcomeOf rows op cl a :: (before ++ after)) := by
    unfold AggregateOutcomes Values
    rw [hsplit]
    exact List.perm_middle.symm
  have hdet : DetectDivergentRoutes (outcomeOf rows op cl a :: (before ++ after)) _ :=
    ⟨_, List.Perm.refl _, rfl⟩
  have hfirst : ranked ((outcomeOf rows op cl a :: (before ++ after)).filter fun o =>
      o.operator = op ∧ o.messageClass = cl) = outcomeOf rows op cl a ::
        ranked ((before ++ after).filter fun o => o.operator = op ∧ o.messageClass = cl) := by
    rw [ranked, List.filter_cons_of_pos (by simp [outcomeOf]),
      List.filter_cons_of_pos (by simpa using h.sample)]
    refine List.insertionSort_cons_of_forall_rel _ fun o ho => ?_
    obtain ⟨ho, hsample⟩ := List.mem_filter.mp ho
    -- The others with enough messages are of the group too, so `a` is no worse than they are.
    have hin : o ∈ ranked ((outcomeOf rows op cl a :: (before ++ after)).filter fun o =>
        o.operator = op ∧ o.messageClass = cl) := by
      rw [ranked, List.mem_insertionSort, List.mem_filter]
      exact ⟨((List.sublist_cons_self _ _).filter _).subset ho, hsample⟩
    obtain ⟨c, hc, rfl⟩ := (mem_ranked hagg).mp hin
    exact h.rate_le c hc
  exact ⟨_, ⟨_, hagg, hdet⟩, keys_of_reference hagg hdet hfirst⟩

theorem Best.of_perm {rows' : List MessageOutcome} {a : String} (h : Best rows' op cl a)
    (hperm : List.Perm rows' rows) : Best rows op cl a := by
  have heq : ∀ c, outcomeOf rows' op cl c = outcomeOf rows op cl c := outcomeOf_perm hperm op cl
  refine ⟨?_, fun c hc => ?_⟩
  · rw [← heq]
    exact h.sample
  · rw [← heq, ← heq]
    rw [← heq] at hc
    exact h.rate_le c hc

/-- Two references give different findings, if one of them has any. -/
theorem not_orderFree {a b c : String} (hab : a ≠ b) (ha : Best rows op cl a)
    (hb : Best rows op cl b) (hc : minSample ≤ (outcomeOf rows op cl c).total)
    (hd : Diverges (outcomeOf rows op cl a) (outcomeOf rows op cl c)) : ¬ OrderFree rows := by
  intro hfree
  obtain ⟨findings, hrun, hkeys⟩ := exists_run ha
  obtain ⟨findings', hrun', hkeys'⟩ := exists_run hb
  have hsame := hfree rows findings findings' (List.Perm.refl _) hrun hrun' (op, cl, a, c)
  rw [hkeys, hkeys'] at hsame
  exact hab (hsame.mp ⟨rfl, hc, hd⟩).1

end Runs

/-- **The findings do not depend on the order** exactly if no route diverges from one of several
that share the best rate of its group. -/
theorem findings_iff (rows : List MessageOutcome) : OrderFree rows ↔ TiesAgree rows := by
  constructor
  · intro hfree op cl a b c hab ha hb hc hd
    exact not_orderFree hab ha hb hc hd hfree
  · intro hagree rows' findings findings' hperm hrun hrun' k
    obtain ⟨op, cl, r, c⟩ := k
    obtain ⟨a, ha, hkeys⟩ := hrun.exists_reference op cl
    obtain ⟨b, hb, hkeys'⟩ := hrun'.exists_reference op cl
    rw [hkeys, hkeys']
    simp only [outcomeOf_perm hperm] at hb ⊢
    by_cases hab : a = b
    · rw [hab]
    · -- With two references nothing is flagged, by either of them.
      constructor
      · rintro ⟨-, hc, hd⟩
        exact absurd hd (hagree op cl a b c hab (ha c hc) ((hb c hc).of_perm hperm) hc)
      · rintro ⟨-, hc, hd⟩
        exact absurd hd (hagree op cl b a c (Ne.symm hab) ((hb c hc).of_perm hperm) (ha c hc) hc)

/-! ## Two routes that deliver everything -/

/-- Two routes that deliver all their messages, one of them twice as many, and one that delivers
four in five. -/
def tiedRows : List MessageOutcome :=
  List.replicate 30 ⟨.mtn, .otp, "route_a", .delivered⟩ ++
    List.replicate 60 ⟨.mtn, .otp, "route_b", .delivered⟩ ++
      (List.replicate 24 ⟨.mtn, .otp, "route_c", .delivered⟩ ++
        List.replicate 6 ⟨.mtn, .otp, "route_c", .failed⟩)

theorem outcomeOf_tiedRows :
    outcomeOf tiedRows .mtn .otp "route_a" = ⟨.mtn, .otp, "route_a", 30, 0⟩ ∧
    outcomeOf tiedRows .mtn .otp "route_b" = ⟨.mtn, .otp, "route_b", 60, 0⟩ ∧
    outcomeOf tiedRows .mtn .otp "route_c" = ⟨.mtn, .otp, "route_c", 24, 6⟩ := by
  decide +kernel

/-- **Two references disagree**: the third route is flagged only if the larger one comes first. -/
theorem tied_references_disagree : ¬ OrderFree tiedRows := by
  obtain ⟨ha, hb, hc⟩ := outcomeOf_tiedRows
  have hrate : ∀ o : RouteOutcome, o.rate ≤ 1 := by
    intro o
    refine div_le_one_of_le₀ ?_ (by positivity)
    exact_mod_cast Nat.le_add_right o.delivered o.failed
  have hbest : ∀ a n, outcomeOf tiedRows .mtn .otp a = ⟨.mtn, .otp, a, n, 0⟩ → 30 ≤ n →
      Best tiedRows .mtn .otp a := by
    intro a n heq hn
    refine ⟨by rw [heq]; exact hn, fun c _ => ?_⟩
    have hone : (outcomeOf tiedRows .mtn .otp a).rate = 1 := by
      rw [heq, RouteOutcome.rate, RouteOutcome.total, Nat.add_zero]
      exact div_self (by exact_mod_cast (by omega : n ≠ 0))
    rw [hone]
    exact hrate _
  refine not_orderFree (a := "route_b") (b := "route_a") (c := "route_c") (by decide)
    (hbest _ 60 hb (by decide)) (hbest _ 30 ha (by decide)) ?_ ?_
  · rw [hc]
    decide
  · rw [hb, hc]
    constructor <;> norm_num [RouteOutcome.rate, RouteOutcome.total, minDelta, zThreshold,
      twoProportionZSquared]

end Vsms.Worker.GreyRoutes
