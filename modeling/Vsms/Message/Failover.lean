import Vsms.Message.Leases
import Mathlib.Data.List.Dedup
import Mathlib.Data.List.Perm.Subperm

/-! # The routes of a message

A message that fails over keeps the routes it leaves in `excludedRouteIds`, packed into one text,
and the same list limits how often it may fail over. `Bookkept` says that the list is what it stands
for: no route twice, at most `maxFailoverHops`, and the current route not among them. It holds of
the row in every run, whatever the route and provider tables look like at each step, because a route
is chosen against the very list that is then written.

`Book` watches a run: the routes the message was rerouted away from, and the routes it was submitted
on. Of these there are at most `maxFailoverHops + 1`. A worker submits on the route of the row it
claimed; that is a route the message has left only if another worker has claimed it since, after the
lease ran out. -/

namespace Vsms.Message.Failover

open Vsms.Lib.Runs Vsms.Lib.Optimistic Vsms.Schema.Types Vsms.Schema.Messages
open Vsms.Routing.Engine Vsms.Routing.Decide Vsms.Core.Pack
open Vsms.Message.Claim Vsms.Message.Dispatch Vsms.Message.Dlr Vsms.Message.System
    Vsms.Message.Leases

/-! ## Route ids -/

/-- The characters of the ids the database generates: `[a-z0-9]`. -/
def isCuidChar (c : Char) : Bool :=
  (97 ≤ c.toNat && c.toNat ≤ 122) || (48 ≤ c.toNat && c.toNat ≤ 57)

def IsCuid (id : String) : Prop := id ≠ "" ∧ ∀ c ∈ id.toList, isCuidChar c = true

theorem isWhitespace_of_isCuidChar {c : Char} (h : isCuidChar c = true) :
    isWhitespace c = false := by
  unfold isCuidChar at h
  unfold isWhitespace
  simp only [Bool.or_eq_true, Bool.and_eq_true, decide_eq_true_eq] at h
  simp only [Bool.or_eq_false_iff, Bool.and_eq_false_iff, decide_eq_false_iff_not]
  omega

theorem IsCuid.unbroken {id : String} (h : IsCuid id) : Unbroken id := fun c hc =>
  isWhitespace_of_isCuidChar (h.2 c hc)

/-- The routes of a table that a step sees. -/
def CuidRoutes (view : RoutingView) : Prop := ∀ route ∈ view.routes, IsCuid route.id

/-- What the routing query of a step sees. -/
def viewOf : Op → Option RoutingView
  | .takeLease view _ => view
  | .writeBack query _ _ => query
  | _ => none

def SeesCuids (op : Op) : Prop := ∀ view, viewOf op = some view → CuidRoutes view

/-! ## The list -/

def excludedRoutes (m : Message) : List String := unpack (m.excludedRouteIds.getD "")

/-- **The exclude set is what it stands for.** -/
structure Bookkept (m : Message) : Prop where
  nodup : (excludedRoutes m).Nodup
  length : (excludedRoutes m).length ≤ maxFailoverHops
  current : ∀ r, m.routeId = some r → r ∉ excludedRoutes m

/-- The routes the message has, and has had. -/
def known (m : Message) : List String := excludedRoutes m ++ m.routeId.toList

/-- What else holds of a row: it has a route once it is routed, with an id that `pack` keeps whole.
-/
structure Routed (m : Message) : Prop extends Bookkept m where
  fresh : m.state = .accepted → m.routeId = none ∧ excludedRoutes m = []
  isSome : m.state ≠ .accepted → m.state ≠ .rejected → m.routeId ≠ none
  unbroken : ∀ r, m.routeId = some r → Unbroken r

theorem routed_accept (c : NewMessage) : Routed (accept c) where
  nodup := List.nodup_nil
  length := Nat.zero_le _
  current := fun r h => by cases h
  fresh := fun _ => ⟨rfl, rfl⟩
  isSome := fun h => absurd rfl h
  unbroken := fun r h => by cases h

theorem unbroken_of_unpack {s v : String} (h : v ∈ unpack s) : Unbroken v := by
  obtain ⟨x, hx, rfl⟩ := List.mem_map.mp h
  unfold Unbroken
  rw [String.toList_ofList]
  exact splitWhitespace_unbroken (by simp) x hx

/-- `excludedWith` adds the current route. -/
theorem excludedWith_eq {m : Message} (h : Bookkept m) : excludedWith m = known m := by
  unfold excludedWith known
  cases hr : m.routeId with
  | none => simp [excludedRoutes]
  | some r =>
    have hnot : r ∉ excludedRoutes m := h.current r hr
    unfold excludedRoutes at hnot ⊢
    simp [hnot]

theorem known_nodup {m : Message} (h : Bookkept m) : (known m).Nodup := by
  unfold known
  cases hr : m.routeId with
  | none => simpa using h.nodup
  | some r =>
    have hnot := h.current r hr
    simp [List.nodup_append, h.nodup]
    intro v hv hvr
    exact hnot (hvr ▸ hv)

theorem known_length {m : Message} (h : Bookkept m) : (known m).length ≤ maxFailoverHops + 1 := by
  have hlen := h.length
  unfold known
  rw [List.length_append]
  cases m.routeId <;> simp <;> omega

/-! ## What a write does to it -/

/-- **The three kinds of writes**: the route stays; an accepted message gets its first; or a
reroute. -/
inductive RouteWrite (op : Op) (m : Message) (set : UpdateMessageInput) : Prop
  | keep (hr : set.routeId = none) (hx : set.excludedRouteIds = none)
      (hs : m.state = .accepted → set.state = some .rejected)
  | first (r : String) (hr : set.routeId = some (some r)) (hx : set.excludedRouteIds = none)
      (hs : m.state = .accepted) (hq : set.state = some .queued) (hid : SeesCuids op → IsCuid r)
  | reroute (r packed : String) (hr : set.routeId = some (some r))
      (hx : set.excludedRouteIds = some (some packed)) (hq : set.state = some .queued)
      (hpack : pack (excludedWith m) = .ok packed)
      (hlen : (excludedWith m).length ≤ maxFailoverHops) (hnot : r ∉ excludedWith m)
      (hid : SeesCuids op → IsCuid r)

theorem takeLease_route {m : Message} {worker : String} {now : Time} {view : Option RoutingView}
    {set : UpdateMessageInput} (h : takeLease m worker now view = some set) (dbNow : Time) :
    RouteWrite (.takeLease view dbNow) m set := by
  unfold takeLease at h
  split at h
  · next hs =>
    obtain ⟨v, rfl, rfl⟩ := Option.map_eq_some_iff.mp h
    unfold applyRoutingDecision
    split
    · next winner hwinner =>
      obtain ⟨route, hmem, hid, -⟩ := decide_winner hwinner
      exact .first winner.routeId rfl rfl hs rfl fun hv => hid ▸ hv v rfl route hmem
    · exact .keep rfl rfl fun _ => rfl
  · next hs =>
    have hne : m.state ≠ .accepted := by rw [hs]; exact nofun
    split_ifs at h <;> cases h <;> exact .keep rfl rfl fun h => absurd h hne
  · next hs =>
    cases h
    exact .keep rfl rfl fun h => by rw [hs] at h; cases h
  · next hs =>
    have hne : m.state ≠ .accepted := by rw [hs]; exact nofun
    split_ifs at h <;> cases h <;> exact .keep rfl rfl fun h => absurd h hne
  · cases h

theorem finishSubmit_routeWrite {m : Message} (hm : m.state = .routed) {result : SubmitResult}
    {query : Option RoutingView} {now : Time} {set : UpdateMessageInput}
    (h : finishSubmit m result query now = .write set) (dbNow : Time) :
    RouteWrite (.writeBack query now dbNow) m set := by
  rcases finishSubmit_route h with ⟨hr, hx⟩ | ⟨reason, ha⟩
  · exact .keep hr hx fun h => by rw [hm] at h; cases h
  · obtain ⟨winner, packed, text, rfl, hlen, hpack, view, rfl, hwinner⟩ :=
      attemptFailover_rerouted ha
    obtain ⟨route, hmem, hid, hnot⟩ := decide_winner hwinner
    refine .reroute winner.routeId packed rfl rfl rfl hpack hlen (hid ▸ hnot) fun hv => ?_
    exact hid ▸ hv view rfl route hmem

theorem writes_route {x : Proc} {op : Op} {w : Plan} (hw : Writes x op w) :
    RouteWrite op w.held w.set := by
  cases hw with
  | takeLease hset => exact takeLease_route hset _
  | @noBody m h query now dbNow hb => exact .keep rfl rfl fun hs => by rw [h] at hs; cases hs
  | @finish m h n result query now dbNow set hset => exact finishSubmit_routeWrite h hset _
  | report hset =>
    obtain ⟨target, hn, -⟩ := dlrPatch_some hset
    obtain ⟨hr, hx⟩ := dlrPatch_route hset
    refine .keep hr hx fun hs => ?_
    dsimp only at hs
    rcases nextState_from hn with h | h | h <;> rw [h] at hs <;> cases hs
  | @expire m h =>
    refine .keep rfl rfl fun hs => ?_
    dsimp only at hs
    rw [hs] at h
    exact absurd h (by decide)
  | @purge m h =>
    refine .keep rfl rfl fun hs => ?_
    unfold Message.Terminal at h
    dsimp only at hs
    rw [hs] at h
    exact absurd h (by decide)

theorem legal_accepted {old : MessageState} (h : Legal old .accepted) : old = .accepted := by
  revert h
  cases old <;> decide

/-- **What a committed write leaves.** A route the message leaves is excluded from then on. -/
structure Rerouted (m m' : Message) : Prop where
  routed : Routed m'
  known : known m ⊆ known m'
  excluded : excludedRoutes m ⊆ excludedRoutes m'
  left : ∀ r, m.routeId = some r → m'.routeId ≠ some r → r ∈ excludedRoutes m'

section write
variable {m m' : Message} (h : Routed m)
include h

/-- A write that leaves both columns alone; a row that was accepted is rejected by it. -/
theorem Routed.keep (hl : Legal m.state m'.state) (hroute : m'.routeId = m.routeId)
    (hcolumn : m'.excludedRouteIds = m.excludedRouteIds)
    (hs : m.state = .accepted → m'.state = .rejected) : Rerouted m m' := by
  have hx' : excludedRoutes m' = excludedRoutes m := by
    unfold excludedRoutes
    rw [hcolumn]
  have hknown : known m' = known m := by
    unfold Failover.known
    rw [hx', hroute]
  refine ⟨⟨⟨?_, ?_, ?_⟩, fun hacc => ?_, fun hne hrej => ?_, ?_⟩, ?_, ?_, fun r hr hn => ?_⟩
  · rw [hx']; exact h.nodup
  · rw [hx']; exact h.length
  · rw [hx', hroute]; exact h.current
  · -- A row that is still accepted was, and then it has been rejected.
    rw [hacc] at hl
    rw [hs (legal_accepted hl)] at hacc
    cases hacc
  · rw [hroute]
    refine h.isSome (fun hacc => hrej (hs hacc)) fun hrej' => hrej ?_
    rw [legal_of_terminal hl (by rw [hrej']; decide)]
    exact hrej'
  · rw [hroute]; exact h.unbroken
  · rw [hknown]; exact List.Subset.refl _
  · rw [hx']; exact List.Subset.refl _
  · rw [hroute] at hn
    exact absurd hr hn

/-- The first route. -/
theorem Routed.first {r : String} (hs : m.state = .accepted) (hstate : m'.state = .queued)
    (hroute : m'.routeId = some r) (hcolumn : m'.excludedRouteIds = m.excludedRouteIds)
    (hid : IsCuid r) : Rerouted m m' := by
  obtain ⟨hnone, hnil⟩ := h.fresh hs
  have hx' : excludedRoutes m' = [] := by
    rw [← hnil]
    unfold excludedRoutes
    rw [hcolumn]
  refine ⟨⟨⟨?_, ?_, ?_⟩, fun hacc => ?_, fun _ _ => ?_, fun r' hr' => ?_⟩, ?_, ?_, fun r hr => ?_⟩
  · rw [hx']; exact List.nodup_nil
  · rw [hx']; exact Nat.zero_le _
  · rw [hx']; exact fun _ _ => List.not_mem_nil
  · rw [hstate] at hacc; cases hacc
  · rw [hroute]; exact nofun
  · rw [hroute] at hr'
    cases hr'
    exact hid.unbroken
  · unfold Failover.known
    rw [hnil, hnone]
    exact List.nil_subset _
  · rw [hnil]; exact List.nil_subset _
  · rw [hnone] at hr; cases hr

/-- Another route: the one that is left is excluded, and the packed list is read back as it was. -/
theorem Routed.reroute {r packed : String} (hstate : m'.state = .queued)
    (hroute : m'.routeId = some r) (hcolumn : m'.excludedRouteIds = some packed)
    (hpack : pack (excludedWith m) = .ok packed) (hlen : (excludedWith m).length ≤ maxFailoverHops)
    (hnot : r ∉ excludedWith m) (hid : IsCuid r) :
    Rerouted m m' := by
  rw [excludedWith_eq h.toBookkept] at hpack hlen hnot
  have hx' : excludedRoutes m' = known m := by
    unfold excludedRoutes
    rw [hcolumn]
    refine (unpack_eq_iff hpack).mpr fun v hv => ?_
    rcases List.mem_append.mp hv with hv | hv
    · exact unbroken_of_unpack hv
    · exact h.unbroken v (by simpa using hv)
  have hsub : known m ⊆ excludedRoutes m' := by
    rw [hx']
    exact List.Subset.refl _
  refine ⟨⟨⟨?_, ?_, ?_⟩, fun hacc => ?_, fun _ _ => ?_, fun r' hr' => ?_⟩, ?_, ?_,
    fun r' hr' _ => ?_⟩
  · rw [hx']; exact known_nodup h.toBookkept
  · rw [hx']; exact hlen
  · intro r' hr'
    rw [hroute] at hr'
    cases hr'
    rw [hx']
    exact hnot
  · rw [hstate] at hacc; cases hacc
  · rw [hroute]; exact nofun
  · rw [hroute] at hr'
    cases hr'
    exact hid.unbroken
  · exact fun v hv => List.mem_append_left _ (hsub hv)
  · exact fun v hv => hsub (List.mem_append_left _ hv)
  · refine hsub (List.mem_append_right _ ?_)
    rw [hr']
    exact List.mem_cons_self

theorem Routed.write {op : Op} {set : UpdateMessageInput} (hw : RouteWrite op m set)
    (hl : Legal m.state (set.state.getD m.state)) (hv : SeesCuids op) (now : Time) :
    Rerouted m (written set now m) := by
  have hstate := written_state set now m
  have hroute := written_routeId set now m
  have hcolumn := written_excludedRouteIds set now m
  rw [← hstate] at hl
  cases hw with
  | keep hr hx hs =>
    rw [hr] at hroute
    rw [hx] at hcolumn
    refine h.keep hl hroute hcolumn fun hacc => ?_
    rw [hstate, hs hacc]
    rfl
  | first r hr hx hs hq hid =>
    rw [hr] at hroute
    rw [hx] at hcolumn
    rw [hq] at hstate
    exact h.first hs hstate hroute hcolumn (hid hv)
  | reroute r packed hr hx hq hpack hlen hnot hid =>
    rw [hr] at hroute
    rw [hx] at hcolumn
    rw [hq] at hstate
    exact h.reroute hstate hroute hcolumn hpack hlen hnot (hid hv)

end write

/-! ## Runs -/

/-- **The route a step submits on**: that of the row the worker claimed. -/
def submitsOn (s : Sys) (a : Action) : Option (Option String) :=
  match s.procs a.proc, a.op with
  | .claimed m _, .submit rows adapters =>
    if m.body.isSome && (resolveProvider m rows adapters).isOk then some m.routeId else none
  | _, _ => none

/-- The route the message leaves. -/
def leaves (old new : Message) : List String :=
  old.routeId.toList.filter fun r => new.routeId ≠ some r

/-- A run, the routes the message was rerouted away from, and those it was submitted on. -/
structure Book where
  sys : Sys
  left : List String
  used : List (Option String)

def Book.start (c : NewMessage) : Book := ⟨System.start c, [], []⟩

def Book.step (b : Book) (a : Action) : Option Book :=
  (System.step b.sys a).map fun s =>
    { sys := s
      left := leaves b.sys.row s.row ++ b.left
      used := (submitsOn b.sys a).toList ++ b.used }

theorem submitsOn_some {s : Sys} {a : Action} {route : Option String}
    (h : submitsOn s a = some route) : ∃ m, claimedBy s a.proc = some m ∧ m.routeId = route := by
  unfold submitsOn at h
  unfold claimedBy
  split at h
  · next m hm rows adapters hp hop =>
    rw [hp]
    split_ifs at h
    cases h
    exact ⟨m, rfl, rfl⟩
  · cases h

/-- No claim reads the clock after the lease of a message that a worker has claimed and not
submitted yet has run out. -/
def LeaseRuns (b : Book) (a : Action) (_ : Book) : Prop :=
  ∀ worker now, a.op = .poll worker now → ∀ p m, claimedBy b.sys p = some m →
    ∀ u, m.leaseUntil = some u → now ≤ u

/-! ### The invariant -/

structure Inv (b : Book) : Prop where
  row : Routed b.sys.row
  snapshots : Snapshots Proc.held b.sys.toShared
  copies : ∀ p m, (b.sys.procs p).held = some m → Routed m ∧ known m ⊆ known b.sys.row
  left : ∀ r ∈ b.left, r ∈ excludedRoutes b.sys.row
  used : ∀ o ∈ b.used, ∃ r ∈ known b.sys.row, o = some r

theorem inv_start (c : NewMessage) : Inv (Book.start c) where
  row := routed_accept c
  snapshots := start_snapshots c
  copies := fun p m h => by cases h
  left := fun r h => by cases h
  used := fun o h => by cases h

/-- What a step does to the row. -/
theorem step_rerouted {b : Book} (hb : Inv b) {a : Action} {s : Sys}
    (h : System.step b.sys a = some s) (hv : SeesCuids a.op) : Rerouted b.sys.row s.row := by
  have hsame : Rerouted b.sys.row b.sys.row :=
    ⟨hb.row, List.Subset.refl _, List.Subset.refl _, fun r hr hn => absurd hr hn⟩
  cases step_sound hb.snapshots h with
  | wrote w hw hrow =>
    have hl := hw.legal
    have hroute := writes_route hw
    rw [hrow] at hl hroute
    exact hb.row.write hroute hl hv w.dbNow
  | lost w hw hlost => exact hsame
  | moved o ho => exact hsame

/-- A submission is on a route the message has, or has had. -/
theorem Inv.submitsOn {b : Book} (hb : Inv b) {a : Action} {route : Option String}
    (h : submitsOn b.sys a = some route) : ∃ r ∈ known b.sys.row, route = some r := by
  obtain ⟨m, hm, rfl⟩ := submitsOn_some h
  have hwork := working_of_claimedBy hm
  obtain ⟨hrouted, hknown⟩ := hb.copies _ m (held_of_contending (contending_of_working hwork))
  have hstate := routed_of_working hwork
  have hne : m.routeId ≠ none :=
    hrouted.isSome (by rw [hstate]; exact nofun) (by rw [hstate]; exact nofun)
  obtain ⟨r, hr⟩ := Option.ne_none_iff_exists'.mp hne
  refine ⟨r, hknown (List.mem_append_right _ ?_), hr⟩
  rw [hr]
  exact List.mem_cons_self

theorem Inv.step {b b' : Book} {a : Action} (hb : Inv b) (h : b.step a = some b')
    (hv : SeesCuids a.op) : Inv b' := by
  obtain ⟨s, hs, rfl⟩ := Option.map_eq_some_iff.mp h
  have hrow := step_rerouted hb hs hv
  have hcopies : ∀ p m, (s.procs p).held = some m → Routed m ∧ known m ⊆ known s.row := by
    have hold : ∀ p m, (b.sys.procs p).held = some m → Routed m ∧ known m ⊆ known s.row :=
      fun p m hm =>
      ⟨(hb.copies p m hm).1, List.Subset.trans (hb.copies p m hm).2 hrow.known⟩
    intro p m hm
    cases step_sound hb.snapshots hs with
    | wrote w hw hheld =>
      rcases update_cases Proc.held hm with ⟨-, hn⟩ | ⟨-, hn⟩
      · rw [hw.held_next hn]
        exact ⟨hrow.routed, List.Subset.refl _⟩
      · exact hold p m hn
    | lost w hw hlost =>
      rcases update_cases Proc.held hm with ⟨-, hn⟩ | ⟨-, hn⟩
      · cases hn
      · exact hold p m hn
    | moved o ho =>
      rcases update_cases Proc.held hm with ⟨-, hn⟩ | ⟨-, hn⟩
      · rcases ho.held_next hn with hn | rfl
        · exact hold _ m hn
        · exact ⟨hrow.routed, List.Subset.refl _⟩
      · exact hold p m hn
  refine ⟨hrow.routed, step_snapshots hb.snapshots hs, hcopies, fun r hr => ?_, fun o ho => ?_⟩
  · rcases List.mem_append.mp hr with hr | hr
    · obtain ⟨hr, hne⟩ := List.mem_filter.mp hr
      exact hrow.left r (by simpa using hr) (by simpa using hne)
    · exact hrow.excluded (hb.left r hr)
  · have hused : ∃ r ∈ known b.sys.row, o = some r := by
      rcases List.mem_append.mp ho with ho | ho
      · exact hb.submitsOn (by simpa using ho)
      · exact hb.used o ho
    obtain ⟨r, hr, rfl⟩ := hused
    exact ⟨r, hrow.known hr, rfl⟩

/-- At most `maxFailoverHops + 1` routes. -/
theorem Inv.used_length {b : Book} (hb : Inv b) : b.used.dedup.length ≤ maxFailoverHops + 1 := by
  have hsub : b.used.dedup ⊆ (known b.sys.row).map some := by
    intro o ho
    obtain ⟨r, hr, rfl⟩ := hb.used o (List.mem_dedup.mp ho)
    exact List.mem_map_of_mem hr
  have hle := ((List.nodup_dedup b.used).subperm hsub).length_le
  rw [List.length_map] at hle
  exact hle.trans (known_length hb.row.toBookkept)

/-- **What a worker has claimed and not submitted is the row**, while its lease runs. -/
def Held (b : Book) : Prop :=
  ∀ p m, claimedBy b.sys p = some m → Sole b.sys p m ∧ ∃ u, m.leaseUntil = some u

theorem Held.step {b b' : Book} {a : Action} (hb : Inv b) (hh : Held b) (h : b.step a = some b')
    (hl : LeaseRuns b a b') : Held b' := by
  obtain ⟨s, hs, rfl⟩ := Option.map_eq_some_iff.mp h
  intro p m hm
  by_cases hp : p = a.proc
  · subst hp
    obtain ⟨hsole, _, _, _, _, _, _, -, -, hu⟩ := step_claimed hb.snapshots hs hm
    exact ⟨hsole, _, hu⟩
  · have hold : claimedBy b.sys p = some m := by
      unfold claimedBy at hm ⊢
      rw [← step_procs hs hp]
      exact hm
    obtain ⟨hsole, u, hu⟩ := hh p m hold
    refine ⟨step_sole hb.snapshots hs hp hold hsole fun worker now hop hc => ?_, u, hu⟩
    have hle := hl worker now hop p m hold u hu
    rw [hsole.1] at hu
    exact absurd (hc.2.2.2 u hu) (not_lt.mpr hle)

/-! ### The promises -/

/-- The row's exclude set is in order, it has every route the message was rerouted away from, and
the message was submitted on at most `maxFailoverHops + 1` routes. -/
def InOrder (b : Book) : Prop :=
  Bookkept b.sys.row ∧ (∀ r ∈ b.left, r ∈ excludedRoutes b.sys.row) ∧
    b.used.dedup.length ≤ maxFailoverHops + 1

/-- A submission is not on a route the message had been rerouted away from when it was claimed. -/
def NotExcluded (b : Book) (a : Action) (_ : Book) : Prop :=
  ∀ m, claimedBy b.sys a.proc = some m → submitsOn b.sys a = some m.routeId →
    ∀ r ∈ excludedRoutes m, m.routeId ≠ some r

/-- A submission is not on a route the message has been rerouted away from. -/
def NotLeft (b : Book) (a : Action) (_ : Book) : Prop :=
  ∀ route, submitsOn b.sys a = some route → ∀ r ∈ b.left, route ≠ some r

theorem Inv.notExcluded {b b' : Book} (hb : Inv b) (a : Action) : NotExcluded b a b' := by
  intro m hm _ r hr hroute
  have hheld := held_of_contending (contending_of_working (working_of_claimedBy hm))
  exact (hb.copies _ m hheld).1.current r hroute hr

theorem Held.notLeft {b b' : Book} (hb : Inv b) (hh : Held b) (a : Action) : NotLeft b a b' := by
  intro route hroute r hr hrr
  obtain ⟨m, hm, rfl⟩ := submitsOn_some hroute
  rw [(hh _ m hm).1.1] at hrr
  exact hb.row.current r hrr (hb.left r hr)

/-- **Failover bookkeeping.** In every run the exclude set is in order, no message is submitted on
more than `maxFailoverHops + 1` routes, and none on a route it had been rerouted away from when it
was claimed. If no lease runs out before its holder submits, none is submitted on a route it has
been rerouted away from at all. -/
theorem failover_bookkeeping (c : NewMessage) (as : List Action)
    (hv : ∀ a ∈ as, SeesCuids a.op) :
    Always Book.step InOrder (Book.start c) as ∧ Along Book.step NotExcluded (Book.start c) as ∧
      (Along Book.step LeaseRuns (Book.start c) as →
        Along Book.step NotLeft (Book.start c) as) := by
  have hsees : Along Book.step (fun _ a _ => SeesCuids a.op) (Book.start c) as :=
    (along_true _ as).imp fun a ha _ _ _ => hv a ha
  refine ⟨?_, ?_, fun hl => ?_⟩
  · refine Along.always (I := Inv) (fun b hb => ?_) (fun b a b' hb h hv => hb.step h hv)
      (inv_start c) hsees
    exact ⟨hb.row.toBookkept, hb.left, hb.used_length⟩
  · exact Along.of_invariant (I := Inv) (fun b a b' hb _ _ => hb.notExcluded a)
      (fun b a b' hb h hv => hb.step h hv) (inv_start c) hsees
  · have hboth :
        Along Book.step (fun b a b' => LeaseRuns b a b' ∧ SeesCuids a.op) (Book.start c) as :=
      hl.imp fun a ha _ _ hl => ⟨hl, hv a ha⟩
    refine Along.of_invariant (I := fun b => Inv b ∧ Held b) (fun b a b' hb _ _ =>
      hb.2.notLeft hb.1 a)
      (fun b a b' hb h hq => ⟨hb.1.step h hq.2, hb.2.step hb.1 h hq.1⟩)
      ⟨inv_start c, fun p m hm => by cases hm⟩ hboth

/-! ### Two routes -/

/-- Two routes to one provider; the first is preferred. -/
def twoRoutes : RoutingView :=
  { sampleView with
    routes := [⟨"r1", "main", 10, 1, true, none, none, none, none, "p1", none⟩,
      ⟨"r2", "spare", 5, 1, true, none, none, none, none, "p1", none⟩] }

/-- Process `p` claims, submits, finds the provider unavailable and reroutes the message. -/
def rerouteRun (p : ℕ) (now : Time) : List Action :=
  [⟨p, .poll "w" now⟩, ⟨p, .takeLease none now⟩, ⟨p, .submit (.ok [sampleProvider]) ["orange"]⟩,
    ⟨p, .answer (.error (.unavailable "down"))⟩, ⟨p, .writeBack (some twoRoutes) now now⟩]

def firstRoute : List Action := [⟨0, .poll "w" 1⟩, ⟨0, .takeLease (some twoRoutes) 1⟩]

theorem cuidRoutes_twoRoutes : CuidRoutes twoRoutes := by
  have h : twoRoutes.routes.all (fun r => r.id ≠ "" && r.id.toList.all isCuidChar) = true := by
    decide
  intro route hr
  have hroute := List.all_eq_true.mp h route hr
  rw [Bool.and_eq_true, decide_eq_true_eq] at hroute
  exact ⟨hroute.1, List.all_eq_true.mp hroute.2⟩

theorem seesCuids_of_view {op : Op} (h : viewOf op = none ∨ viewOf op = some twoRoutes) :
    SeesCuids op := by
  intro view hview
  rcases h with h | h
  · rw [h] at hview
    cases hview
  · rw [h] at hview
    cases hview
    exact cuidRoutes_twoRoutes

/-- A process polls only if it has nothing in hand. -/
theorem idle_of_poll {s s' : Sys} {a : Action} {worker : String} {now : Time}
    (h : System.step s a = some s') (hop : a.op = .poll worker now) : s.procs a.proc = .idle := by
  unfold System.step at h
  rw [hop] at h
  revert h
  cases s.procs a.proc with
  | idle => exact fun _ => rfl
  | _ => exact nofun

/-- Where one process does all the work, no lease is in its way. -/
theorem leaseRuns_alone (c : NewMessage) {as : List Action} (h : ∀ a ∈ as, a.proc = 0) :
    Along Book.step LeaseRuns (Book.start c) as := by
  have halone : Along Book.step (fun _ a _ => a.proc = 0) (Book.start c) as :=
    (along_true _ as).imp fun a ha _ _ _ => h a ha
  refine Along.of_invariant (I := fun b => ∀ q, q ≠ 0 → claimedBy b.sys q = none) ?_ ?_
    (fun q _ => rfl) halone
  · intro b a b' hb h ha worker now hop p m hm
    obtain ⟨s, hs, rfl⟩ := Option.map_eq_some_iff.mp h
    have hidle := idle_of_poll hs hop
    rw [ha] at hidle
    by_cases hp : p = 0
    · obtain ⟨hr, hproc⟩ := procs_of_claimedBy hm
      rw [hp, hidle] at hproc
      cases hproc
    · rw [hb p hp] at hm
      cases hm
  · intro b a b' hb h ha q hq
    obtain ⟨s, hs, rfl⟩ := Option.map_eq_some_iff.mp h
    have hsame := step_procs hs (q := q) (by rw [ha]; exact hq)
    have hnone := hb q hq
    unfold claimedBy at hnone ⊢
    dsimp only
    rw [hsame]
    exact hnone

theorem failover_bookkeeping_two :
    Always Book.step InOrder (Book.start sampleMessage) (firstRoute ++ rerouteRun 0 2) ∧
    Along Book.step NotLeft (Book.start sampleMessage) (firstRoute ++ rerouteRun 0 2) := by
  have hviews : ∀ a ∈ firstRoute ++ rerouteRun 0 2,
      viewOf a.op = none ∨ viewOf a.op = some twoRoutes := by
    simp [firstRoute, rerouteRun, viewOf]
  obtain ⟨h1, -, h3⟩ :=
    failover_bookkeeping sampleMessage _ fun a ha => seesCuids_of_view (hviews a ha)
  refine ⟨h1, h3 (leaseRuns_alone _ ?_)⟩
  simp [firstRoute, rerouteRun]

/-- Process 0 claims the message and stalls; process 1 claims it after two minutes and reroutes it;
process 0 goes on to submit it. -/
def staleSubmit : List Action :=
  firstRoute ++ [⟨0, .poll "w" 2⟩, ⟨0, .takeLease none 2⟩] ++ rerouteRun 1 (minutes 3) ++
    [⟨0, .submit (.ok [sampleProvider]) ["orange"]⟩]

/-- The message is submitted on the route it was rerouted away from. -/
theorem submitted_on_left_route : ¬ ∀ (c : NewMessage) (as : List Action),
    (∀ a ∈ as, SeesCuids a.op) →
    Always Book.step InOrder (Book.start c) as ∧ Along Book.step NotLeft (Book.start c) as := by
  intro h
  have hviews : ∀ a ∈ staleSubmit, viewOf a.op = none ∨ viewOf a.op = some twoRoutes := by
    simp [staleSubmit, firstRoute, rerouteRun, viewOf]
  obtain ⟨-, halong⟩ := h sampleMessage staleSubmit fun a ha => seesCuids_of_view (hviews a ha)
  obtain ⟨b, hb, hleft⟩ : ∃ b, exec Book.step (Book.start sampleMessage)
      (firstRoute ++ [⟨0, .poll "w" 2⟩, ⟨0, .takeLease none 2⟩] ++ rerouteRun 1 (minutes 3)) =
        some b ∧
      (b.left, submitsOn b.sys ⟨0, .submit (.ok [sampleProvider]) ["orange"]⟩,
        (b.step ⟨0, .submit (.ok [sampleProvider]) ["orange"]⟩).isSome) =
        (["r1"], some (some "r1"), true) := exec_eval (by decide)
  simp only [Prod.mk.injEq] at hleft
  obtain ⟨hl, hsub, hsome⟩ := hleft
  obtain ⟨b', hb'⟩ := Option.isSome_iff_exists.mp hsome
  have hlast := ((along_cons hb').mp ((along_append hb).mp halong).2).1
  exact hlast (some "r1") hsub "r1" (hl ▸ List.mem_cons_self) rfl

end Vsms.Message.Failover
