import Vsms.Lib.Runs
import Vsms.Core.Pack
import Vsms.Schema.Accounts
import Mathlib.Tactic.Linarith

/-! # Standings and their cache

A person's access token stands as the `User` it names: `load_user` reads the row and its role, and
`person_standing` reads it through a `TtlCache`, which keeps a value for `ttl` from the moment it is
stored. Any number of calls of `get_or_fetch` are under way at a time; none holds the lock while it
fetches, and each stores what it fetched.

A value is stamped when it is stored, not when it was read. What a call serves was current at most
`ttl` before the call started if nothing is stored that the source no longer holds; otherwise the
cache can go on to serve it for too long (`bounded_staleness_iff`). -/

namespace Vsms.Api.Standing

open Vsms.Lib.Runs Vsms.Core.Pack Vsms.Schema.Types Vsms.Schema.Accounts

/-! ## Persons -/

structure Role where
  key : String
  permissions : String
  deriving DecidableEq, Repr

inductive ClientAuthMethod
  | privateKeyJwt
  | none
  deriving DecidableEq, Repr

/-- The columns of `oauth_clients` that are read. -/
structure OauthClient where
  clientId : String
  appClientId : Option String
  tokenEndpointAuthMethod : ClientAuthMethod
  active : Bool
  deriving DecidableEq, Repr

/-- The tables a standing is read from. -/
structure Directory where
  users : List User
  roles : List Role
  oauthClients : List OauthClient
  deriving DecidableEq, Repr

structure UserStanding where
  userId : String
  role : String
  perms : List String
  deriving DecidableEq, Repr

def unknown : CratestackError := .unauthorized "unknown signer"

def deviceRequired : String :=
  "this account's role acts only from a paired console key; a signed-in session cannot carry it"

/-- **`load_user`** -/
def loadUser (db : Directory) (userId : String) : Except CratestackError UserStanding :=
  match db.users.find? fun u => u.live && u.id = userId && u.active with
  | none => .error unknown
  | some person =>
    match db.roles.find? (·.key = person.roleKey) with
    | none => .error unknown
    | some role =>
      if role.key ∈ reservedRoleKeys then .error unknown
      else .ok ⟨person.id, role.key, unpack role.permissions⟩

/-- **`live_oauth_client`** -/
def liveOauthClient (db : Directory) (clientId : String) : Except CratestackError OauthClient :=
  match db.oauthClients.find? fun c => c.clientId = clientId && c.active with
  | none => .error unknown
  | some client => .ok client

def refuseDeviceOnlyRole (person : UserStanding) : Except CratestackError Unit :=
  if person.role ∈ deviceOnlyRoles then .error (.forbidden deviceRequired) else .ok ()

/-- **`person_standing`**: the console is read on every call; `person` is what `get_or_fetch`
returned. -/
def personStanding (console : Except CratestackError OauthClient)
    (person : Except CratestackError UserStanding) : Except CratestackError UserStanding := do
  let console ← console
  if console.appClientId.isSome || console.tokenEndpointAuthMethod ≠ .none then
    throw unknown
  let person ← person
  refuseDeviceOnlyRole person
  return person

/-! ## The cache -/

variable {K V E D : Type} [DecidableEq K]

/-- **`TtlCache`**: the value of a key, and when it was stored. -/
structure TtlCache (K V : Type) where
  ttl : Time
  entries : K → Option (V × Time)

def TtlCache.new (ttl : Time) : TtlCache K V := ⟨ttl, fun _ => none⟩

/-- `get` -/
def TtlCache.get (cache : TtlCache K V) (key : K) (now : Time) : Option V :=
  match cache.entries key with
  | none => none
  | some (value, fetchedAt) => if now - fetchedAt < cache.ttl then some value else none

def TtlCache.insert (cache : TtlCache K V) (key : K) (value : V) (now : Time) : TtlCache K V :=
  { cache with entries := Function.update cache.entries key (some (value, now)) }

/-- A call of `get_or_fetch`, with the time at which it started. -/
inductive Call (K V E : Type)
  | idle
  | getting (key : K) (start : Time)
  /-- A miss; the fetch has not read yet. -/
  | fetching (key : K) (start : Time)
  /-- The fetch has read; the value is not stored yet. -/
  | fetched (key : K) (start : Time) (value : V)
  | returned (key : K) (start : Time) (result : Except E V)

/-- What the source was from `start` to `stop`. -/
structure Period (D : Type) where
  db : D
  start : Time
  stop : Time

/-- The cache, the calls, and the source: what it is, since when, and what it was. -/
structure Sys (K V E D : Type) where
  clock : Time
  db : D
  since : Time
  past : List (Period D)
  cache : TtlCache K V
  calls : ℕ → Call K V E

def init (ttl : Time) (db : D) (clock : Time) : Sys K V E D :=
  ⟨clock, db, clock, [], .new ttl, fun _ => .idle⟩

def Sys.setCall (s : Sys K V E D) (p : ℕ) (c : Call K V E) : Sys K V E D :=
  { s with calls := Function.update s.calls p c }

inductive Action (K E D : Type)
  /-- Time passes. -/
  | tick (now : Time)
  /-- The source changes. -/
  | change (db : D)
  | call (p : ℕ) (key : K)
  | get (p : ℕ)
  | read (p : ℕ)
  | insert (p : ℕ)
  /-- The fetch fails. -/
  | fail (p : ℕ) (error : E)
  /-- The call is given up. -/
  | drop (p : ℕ)
  deriving DecidableEq

section source
variable (source : D → K → Except E V)

def step (s : Sys K V E D) : Action K E D → Option (Sys K V E D)
  | .tick now => if s.clock ≤ now then some { s with clock := now } else none
  | .change db => some
      { s with db := db, since := s.clock, past := ⟨s.db, s.since, s.clock⟩ :: s.past }
  | .call p key =>
    match s.calls p with
    | .idle | .returned .. => some (s.setCall p (.getting key s.clock))
    | _ => none
  | .get p =>
    match s.calls p with
    | .getting key start =>
      match s.cache.get key s.clock with
      | some value => some (s.setCall p (.returned key start (.ok value)))
      | none => some (s.setCall p (.fetching key start))
    | _ => none
  | .read p =>
    match s.calls p with
    | .fetching key start =>
      match source s.db key with
      | .ok value => some (s.setCall p (.fetched key start value))
      | .error e => some (s.setCall p (.returned key start (.error e)))
    | _ => none
  | .insert p =>
    match s.calls p with
    | .fetched key start value => some
        { s.setCall p
          (.returned key start (.ok value)) with cache := s.cache.insert key value s.clock }
    | _ => none
  | .fail p e =>
    match s.calls p with
    | .fetching key start | .fetched key start _ =>
        some (s.setCall p (.returned key start (.error e)))
    | _ => none
  | .drop p => some (s.setCall p .idle)

/-! ## Staleness -/

/-- **The source had the value at the instant `t`.** -/
def CurrentAt (s : Sys K V E D) (key : K) (value : V) (t : Time) : Prop :=
  (s.since ≤ t ∧ t ≤ s.clock ∧ source s.db key = .ok value) ∨
    ∃ period ∈ s.past, period.start ≤ t ∧ t ≤ period.stop ∧ source period.db key = .ok value

/-- **What the calls have returned is at most `ttl` older than the call.** -/
structure Bounded (s : Sys K V E D) : Prop where
  bounded : ∀ p key start value, s.calls p = .returned key start (.ok value) →
    ∃ t, start - s.cache.ttl ≤ t ∧ CurrentAt source s key value t
  /-- Once the source has lost a value, no call that starts more than `ttl` later returns it. -/
  gone : ∀ p key start value last, s.calls p = .returned key start (.ok value) →
    (∀ t, CurrentAt source s key value t → t ≤ last) → start ≤ last + s.cache.ttl

/-- **A value is stored no more than one tick of the clock after the source last had it.** -/
def StoresCurrent (s : Sys K V E D) : Action K E D → Sys K V E D → Prop
  | .insert p, _ => ∀ key start value, s.calls p = .fetched key start value →
      ∃ t, s.clock - 1 ≤ t ∧ CurrentAt source s key value t
  | _, _ => True

end source

/-- Anything but a store. -/
def Action.NoInsert : Action K E D → Prop
  | .insert _ => False
  | _ => True

/-! ## The invariant -/

section knows
variable (source : D → K → Except E V)

/-- What a call knows where it is. -/
def Knows (s : Sys K V E D) : Call K V E → Prop
  | .getting _ start => start ≤ s.clock
  | .fetching _ start => start ≤ s.clock
  | .fetched key start value => ∃ t, start ≤ t ∧ CurrentAt source s key value t
  | .returned key start (.ok value) => ∃ t, start - s.cache.ttl ≤ t ∧ CurrentAt source s key value t
  | _ => True

/-- A value in the cache was current when it was stored. -/
structure Inv (s : Sys K V E D) : Prop where
  ttl : 0 ≤ s.cache.ttl
  since : s.since ≤ s.clock
  entries : ∀ key value stored, s.cache.entries key = some (value, stored) →
    ∃ t, stored - 1 ≤ t ∧ CurrentAt source s key value t
  calls : ∀ p, Knows source s (s.calls p)

end knows

variable {source : D → K → Except E V} {s s' : Sys K V E D} {a : Action K E D}

omit [DecidableEq K] in
theorem inv_init {ttl : Time} (httl : 0 ≤ ttl) (db : D) (clock : Time) :
    Inv source (init ttl db clock : Sys K V E D) := by
  refine ⟨httl, le_refl clock, fun key value stored h => ?_, fun _ => trivial⟩
  simp [init, TtlCache.new] at h

omit [DecidableEq K] in
theorem Inv.bounded (hs : Inv source s) : Bounded source s := by
  have hold : ∀ p key start value, s.calls p = .returned key start (.ok value) →
      ∃ t, start - s.cache.ttl ≤ t ∧ CurrentAt source s key value t := by
    intro p key start value hp
    have hknows := hs.calls p
    rw [hp] at hknows
    exact hknows
  refine ⟨hold, fun p key start value last hp hlast => ?_⟩
  obtain ⟨t, ht, hcurrent⟩ := hold p key start value hp
  have hle := hlast t hcurrent
  linarith

omit [DecidableEq K] in
/-- What the source had, it will have had. -/
theorem Inv.world (hs : Inv source s) {clock since : Time} {db : D} {past : List (Period D)}
    (hclock : s.clock ≤ clock) (hsince : since ≤ clock)
    (hkeep : ∀ key value t, CurrentAt source s key value t →
      CurrentAt source { s with clock, since, db, past } key value t) :
    Inv source { s with clock, since, db, past } := by
  refine ⟨hs.ttl, hsince, fun key value stored h => ?_, fun p => ?_⟩
  · obtain ⟨t, ht, hcurrent⟩ := hs.entries key value stored h
    exact ⟨t, ht, hkeep key value t hcurrent⟩
  · have hknows := hs.calls p
    change Knows source _ (s.calls p)
    match hp : s.calls p with
    | .idle => trivial
    | .getting key start =>
      rw [hp] at hknows
      exact le_trans hknows hclock
    | .fetching key start =>
      rw [hp] at hknows
      exact le_trans hknows hclock
    | .fetched key start value =>
      rw [hp] at hknows
      obtain ⟨t, ht, hcurrent⟩ := hknows
      exact ⟨t, ht, hkeep key value t hcurrent⟩
    | .returned key start (.ok value) =>
      rw [hp] at hknows
      obtain ⟨t, ht, hcurrent⟩ := hknows
      exact ⟨t, ht, hkeep key value t hcurrent⟩
    | .returned key start (.error e) => trivial

omit [DecidableEq K] in
theorem currentAt_tick {now : Time} (h : s.clock ≤ now) {key : K} {value : V} {t : Time}
    (hcurrent : CurrentAt source s key value t) :
    CurrentAt source { s with clock := now } key value t := by
  rcases hcurrent with ⟨hsince, hclock, hvalue⟩ | hpast
  · exact Or.inl ⟨hsince, le_trans hclock h, hvalue⟩
  · exact Or.inr hpast

omit [DecidableEq K] in
theorem currentAt_change (db : D) {key : K} {value : V} {t : Time}
    (hcurrent : CurrentAt source s key value t) :
    CurrentAt source { s with db, since := s.clock, past := ⟨s.db, s.since, s.clock⟩ :: s.past }
      key value t := by
  rcases hcurrent with hnow | ⟨period, hperiod, hpast⟩
  · exact Or.inr ⟨_, List.mem_cons_self, hnow⟩
  · exact Or.inr ⟨period, List.mem_cons_of_mem _ hperiod, hpast⟩

omit [DecidableEq K] in
/-- A call goes on. -/
theorem Inv.setCall (hs : Inv source s) (p : ℕ) {c : Call K V E} (hc : Knows source s c) :
    Inv source (s.setCall p c) :=
  ⟨hs.ttl, hs.since, hs.entries,
    (Function.forall_update_iff s.calls fun _ => Knows source s).mpr ⟨hc, fun q _ => hs.calls q⟩⟩

omit [DecidableEq K] in
/-- A hit. -/
theorem Inv.hit (hs : Inv source s) {key : K} {value : V}
    (h : s.cache.get key s.clock = some value) :
    ∃ t, s.clock - s.cache.ttl ≤ t ∧ CurrentAt source s key value t := by
  unfold TtlCache.get at h
  split at h
  · exact absurd h (by simp)
  · next v stored hentry =>
    split_ifs at h with hyoung
    rw [Option.some.inj h] at hentry
    obtain ⟨t, ht, hcurrent⟩ := hs.entries key value stored hentry
    have hle := Int.add_one_le_of_lt hyoung
    exact ⟨t, by linarith, hcurrent⟩

/-- A store. -/
theorem Inv.insert (hs : Inv source s) {p : ℕ} {key : K} {start : Time} {value : V}
    (hp : s.calls p = .fetched key start value)
    (hstored : ∃ t, s.clock - 1 ≤ t ∧ CurrentAt source s key value t) :
    Inv source { s.setCall p (.returned key start (.ok value)) with
      cache := s.cache.insert key value s.clock } := by
  have hknows := hs.calls p
  rw [hp] at hknows
  obtain ⟨t, ht, hcurrent⟩ := hknows
  have hnonneg := hs.ttl
  have hreturned : Knows source s (.returned key start (.ok value)) := ⟨t, by linarith, hcurrent⟩
  refine ⟨hs.ttl, hs.since, fun key' value' stored h => ?_, (hs.setCall p hreturned).calls⟩
  by_cases hkey : key' = key
  · subst hkey
    rw [show (s.cache.insert key' value s.clock).entries key' = some (value, s.clock) from
      Function.update_self ..] at h
    obtain ⟨rfl, rfl⟩ := Prod.mk.inj (Option.some.inj h)
    exact hstored
  · rw [show (s.cache.insert key value s.clock).entries key' = s.cache.entries key' from
      Function.update_of_ne hkey ..] at h
    exact hs.entries key' value' stored h

theorem Inv.step_inv (hs : Inv source s) (h : step source s a = some s')
    (hstores : StoresCurrent source s a s') : Inv source s' := by
  cases a with
  | tick now =>
    dsimp only [step] at h
    split_ifs at h with hle
    rw [← Option.some.inj h]
    exact hs.world hle (le_trans hs.since hle) fun key value t => currentAt_tick hle
  | change db =>
    rw [← Option.some.inj h]
    exact hs.world (le_refl _) (le_refl _) fun key value t => currentAt_change db
  | call p key =>
    dsimp only [step] at h
    split at h
    · rw [← Option.some.inj h]
      exact hs.setCall p (le_refl _)
    · rw [← Option.some.inj h]
      exact hs.setCall p (le_refl _)
    · simp at h
  | get p =>
    dsimp only [step] at h
    split at h
    · next key start hp =>
      have hstart := hs.calls p
      rw [hp] at hstart
      split at h
      · next value hget =>
        rw [← Option.some.inj h]
        obtain ⟨t, ht, hcurrent⟩ := hs.hit hget
        have hle : start ≤ s.clock := hstart
        exact hs.setCall p ⟨t, by linarith, hcurrent⟩
      · rw [← Option.some.inj h]
        exact hs.setCall p hstart
    · simp at h
  | read p =>
    dsimp only [step] at h
    split at h
    · next key start hp =>
      have hstart := hs.calls p
      rw [hp] at hstart
      split at h
      · next value hvalue =>
        rw [← Option.some.inj h]
        exact hs.setCall p ⟨s.clock, hstart, Or.inl ⟨hs.since, le_refl _, hvalue⟩⟩
      · rw [← Option.some.inj h]
        exact hs.setCall p trivial
    · simp at h
  | insert p =>
    dsimp only [step] at h
    split at h
    · next key start value hp =>
      rw [← Option.some.inj h]
      exact hs.insert hp (hstores key start value hp)
    · simp at h
  | fail p e =>
    dsimp only [step] at h
    split at h
    · rw [← Option.some.inj h]
      exact hs.setCall p trivial
    · rw [← Option.some.inj h]
      exact hs.setCall p trivial
    · simp at h
  | drop p =>
    rw [← Option.some.inj h]
    exact hs.setCall p trivial

/-! ## What an old value leads to -/

/-- After a store the value is served for `ttl`, and the last call it is served to starts at
`clock + ttl - 1`. -/
theorem served_after_insert (httl : 0 < s.cache.ttl) {p : ℕ} {key : K} {start : Time} {value : V}
    (hp : s.calls p = .fetched key start value) (h : step source s (.insert p) = some s') :
    ∃ v, exec (step source) s' [.tick (s.clock + s.cache.ttl - 1), .call p key, .get p] = some v ∧
      v.calls p = .returned key (s.clock + s.cache.ttl - 1) (.ok value) ∧ v.db = s.db ∧
      v.past = s.past ∧ v.cache.ttl = s.cache.ttl := by
  have hle := Int.add_one_le_of_lt httl
  have hclock : s.clock ≤ s.clock + s.cache.ttl - 1 := by linarith
  have hyoung : s.clock + s.cache.ttl - 1 - s.clock < s.cache.ttl := by linarith
  dsimp only [step] at h
  rw [hp] at h
  rw [← Option.some.inj h]
  simp [exec, step, Sys.setCall, TtlCache.get, TtlCache.insert, hclock, hyoung]

omit [DecidableEq K] in
/-- A value that the source has lost stays lost while nothing changes. -/
theorem not_currentAt_later {s' : Sys K V E D} {key : K} {value : V} (hsince : s.since ≤ s.clock)
    (hnot : ∀ t, s.clock - 1 ≤ t → ¬ CurrentAt source s key value t) (hdb : s'.db = s.db)
    (hpast : s'.past = s.past) : ∀ t, s.clock - 1 ≤ t → ¬ CurrentAt source s' key value t := by
  intro t ht hcurrent
  have hlost : source s.db key ≠ .ok value := by
    intro hvalue
    exact hnot s.clock (by linarith) (Or.inl ⟨hsince, le_refl _, hvalue⟩)
  rcases hcurrent with ⟨-, -, hvalue⟩ | hold
  · rw [hdb] at hvalue
    exact hlost hvalue
  · rw [hpast] at hold
    exact hnot t ht (Or.inr hold)

/-- The clock does not run backwards, and the `ttl` is the cache's own. -/
def Timed (ttl : Time) (s : Sys K V E D) : Prop := s.since ≤ s.clock ∧ s.cache.ttl = ttl

theorem Timed.step {ttl : Time} (hs : Timed ttl s) (h : step source s a = some s') :
    Timed ttl s' := by
  unfold Standing.step at h
  split at h
  · split_ifs at h with hle
    rw [← Option.some.inj h]
    exact ⟨le_trans hs.1 hle, hs.2⟩
  · rw [← Option.some.inj h]
    exact ⟨le_refl _, hs.2⟩
  -- The steps of a call leave both alone.
  all_goals repeat' split at h
  all_goals cases h
  all_goals exact hs

/-! ## Runs -/

section runs
variable (source : D → K → Except E V) {ttl : Time}

/-- **The exact condition for bounded staleness**: what the calls return is never more than `ttl`
older than the call, in the run and however it goes on without another store, exactly if every store
is of a value that the source had within the last tick of the clock. -/
theorem bounded_staleness_iff (httl : 0 < ttl) (db : D) (clock : Time) (as : List (Action K E D)) :
    Along (step source) (StoresCurrent source) (init ttl db clock) as ↔
      AlwaysThen (step source) Action.NoInsert (Bounded source) (init ttl db clock) as := by
  refine along_iff_alwaysThen ?_ ?_ ?_
  · intro b hb s s'
    cases b with
    | insert p => exact absurd hb id
    | _ => trivial
  · intro as h
    exact h.always (I := Inv source) (fun s hs => hs.bounded) (fun s a s' hs => hs.step_inv)
      (inv_init (le_of_lt httl) db clock)
  · intro pre a t u ht hu hbad
    have htimed : Timed ttl t := exec_invariant' (I := Timed ttl) (fun s a s' hs h => hs.step h)
      ⟨le_refl clock, rfl⟩ ht
    cases a with
    | insert p =>
      simp only [StoresCurrent, not_forall, not_exists, not_and] at hbad
      obtain ⟨key, start, value, hp, hnot⟩ := hbad
      obtain ⟨v, hv, hreturned, hdb, hpast, httl'⟩ := served_after_insert (htimed.2 ▸ httl) hp hu
      refine ⟨_, v, ?_, hv, fun hbounded => ?_⟩
      · simp [Action.NoInsert]
      · obtain ⟨c, hc, hcurrent⟩ := hbounded.bounded p key _ value hreturned
        rw [httl'] at hc
        exact not_currentAt_later htimed.1 hnot hdb hpast c (by linarith) hcurrent
    | _ => exact absurd trivial hbad

end runs

/-! ### A person who is deactivated -/

/-- `STANDING_TTL` -/
def standingTtl : Time := minutes 1

/-- One person and the console they sign in through. -/
def sampleDirectory (active : Bool) : Directory where
  users := [⟨"u1", "u1", "ada@example.org", "Ada", "support", active, none⟩]
  roles := [⟨"support", " sms:read "⟩]
  oauthClients := [⟨"console1", none, .none, true⟩]

def sampleStanding : UserStanding := ⟨"u1", "support", ["sms:read"]⟩

/-- A call reads the person, who is deactivated before it stores what it read, ten seconds later. -/
def slowFetch : List (Action String CratestackError Directory) :=
  [.call 0 "u1", .get 0, .read 0, .change (sampleDirectory false), .tick (seconds 10), .insert 0]

/-- A call that stores at once, and the deactivation after it. -/
def promptFetch : List (Action String CratestackError Directory) :=
  [.call 0 "u1", .get 0, .read 0, .insert 0, .change (sampleDirectory false)]

theorem promptFetch_storesCurrent : Along (step loadUser) (StoresCurrent loadUser)
    (init standingTtl (sampleDirectory true) 0) promptFetch := by
  have hload : loadUser (sampleDirectory true) "u1" = .ok sampleStanding := by decide +kernel
  simp [promptFetch, Along, step, init, Sys.setCall, TtlCache.get, TtlCache.new, hload,
    StoresCurrent, CurrentAt]
  exact ⟨0, by decide, le_refl 0, le_refl 0⟩

theorem bounded_staleness_prompt : 0 < standingTtl ∧
    AlwaysThen (step loadUser) Action.NoInsert (Bounded loadUser)
      (init standingTtl (sampleDirectory true) 0) promptFetch :=
  ⟨by decide,
    (bounded_staleness_iff loadUser (by decide) _ 0 promptFetch).mp promptFetch_storesCurrent⟩

/-- Sixty-nine seconds after the deactivation, `person_standing` answers with the active standing.
-/
theorem deactivated_served_late :
    ∃ s, exec (step loadUser) (init standingTtl (sampleDirectory true) 0)
      (slowFetch ++ [.tick (seconds 69), .call 1 "u1", .get 1]) = some s ∧
    s.calls 1 = .returned "u1" (seconds 69) (.ok sampleStanding) ∧
    personStanding (liveOauthClient s.db "console1") (.ok sampleStanding) = .ok sampleStanding ∧
    (∀ t, CurrentAt loadUser s "u1" sampleStanding t → t ≤ 0) ∧ ¬ Bounded loadUser s := by
  have hgone : loadUser (sampleDirectory false) "u1" = .error unknown := by decide +kernel
  have hlast : ∀ s : Sys String UserStanding CratestackError Directory,
    s.db = sampleDirectory false →
      s.past = [⟨sampleDirectory true, 0, 0⟩] →
      ∀ t, CurrentAt loadUser s "u1" sampleStanding t → t ≤ 0 := by
    intro s hdb hpast t ht
    simp [CurrentAt, hdb, hgone, hpast] at ht
    exact ht.2.1
  refine ⟨_, rfl, rfl, by decide +kernel, hlast _ rfl rfl, fun hbounded => ?_⟩
  have hle := hbounded.gone 1 "u1" (seconds 69) sampleStanding 0 rfl (hlast _ rfl rfl)
  exact absurd hle (by decide)

end Vsms.Api.Standing
