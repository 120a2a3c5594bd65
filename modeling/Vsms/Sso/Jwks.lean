import Vsms.Lib.Runs
import Vsms.Schema.Types
import Mathlib.Data.List.Infix

/-! # The identity provider's keys

`find_key` gives the key that the header of a token names. It reads the cached keys and the time
they were fetched; a key younger than `jwks_ttl` is used as it is. Otherwise the keys are fetched
again, by the task that holds the flight lock: a task that holds an old key does not wait for the
lock, and one that has waited looks at the cache once more. The cache lock is taken for each read
and each write, never across the fetch. `jwks_flight` is a `tokio` mutex: it is given to the tasks
that wait for it in their order, and a task that is dropped gives it back.

A call that returns a key has read it from the cache since it started, so from the keys stored last
before that or from later ones; and the task that fetches is the one that holds the lock
(`key_cache_fresh`). -/

namespace Vsms.Sso.Jwks

open Vsms.Lib.Runs Vsms.Schema.Types

/-! ## The cache -/

structure Jwk where
  keyId : Option String
  material : String
  deriving DecidableEq, Repr

structure JwksCache where
  keys : List Jwk
  fetched : Option Time
  deriving DecidableEq, Repr

def JwksCache.find (cache : JwksCache) (kid : String) : Option Jwk :=
  cache.keys.find? (·.keyId = some kid)

/-- How `find_key` fails. -/
inductive KeyError
  | unknownKeyId
  | unavailable (what : String)
  deriving DecidableEq, Repr

/-- **`fetch_jwks`** of the `keys` array of the document: an entry that cannot be parsed is left
out, and a key without an id. -/
def fetchJwks (entries : List (Option Jwk)) : List Jwk :=
  (entries.filterMap id).filter (·.keyId.isSome)

/-! ## Calls -/

/-- A call of `find_key(kid)`; `started` is the number of key sets stored before it started, and
`known` the key it read first. -/
inductive Call
  | idle
  | reading (kid : String) (started : ℕ)
  /-- Before the look at `jwks_ttl`. -/
  | aging (kid : String) (started : ℕ) (known : Option Jwk) (fetched : Option Time)
  /-- Before the look at `jwks_min_refresh`. -/
  | limiting (kid : String) (started : ℕ) (known : Option Jwk) (fetched : Option Time)
  | locking (kid : String) (started : ℕ) (known : Option Jwk)
  /-- In the queue of the flight lock. -/
  | waiting (kid : String) (started : ℕ)
  /-- It has the flight lock; before the second look at the cache. -/
  | holding (kid : String) (started : ℕ) (known : Option Jwk)
  | fetching (kid : String) (started : ℕ) (known : Option Jwk) (since : Time)
  /-- The keys are there; before they are stored. -/
  | storing (kid : String) (started : ℕ) (known : Option Jwk) (since : Time) (keys : List Jwk)
  | returned (kid : String) (started : ℕ) (result : Except KeyError Jwk)

/-- The cache, the flight lock with its queue, and the calls. `stores` has the key sets stored and
`starts` the times at which fetches started, newest first. -/
structure Sys where
  clock : Time
  cache : JwksCache
  flight : Option ℕ
  queue : List ℕ
  calls : ℕ → Call
  stores : List (List Jwk)
  starts : List Time

def init (clock : Time) : Sys := ⟨clock, ⟨[], none⟩, none, [], fun _ => .idle, [], []⟩

def Sys.setCall (s : Sys) (p : ℕ) (c : Call) : Sys :=
  { s with calls := Function.update s.calls p c }

/-- The flight lock is given to the first of the queue. -/
def Sys.release (s : Sys) : Sys := { s with flight := s.queue.head?, queue := s.queue.tail }

/-- `ok_or(UnknownKeyId)` -/
def orUnknown : Option Jwk → Except KeyError Jwk
  | some key => .ok key
  | none => .error .unknownKeyId

inductive Action
  /-- Time passes. -/
  | tick (now : Time)
  | call (p : ℕ) (kid : String)
  /-- What the call does next, the fetch apart. -/
  | next (p : ℕ)
  | answer (p : ℕ) (entries : List (Option Jwk))
  | fail (p : ℕ) (error : KeyError)
  /-- The task is dropped. -/
  | drop (p : ℕ)
  deriving DecidableEq

section parameters
variable (jwksTtl minRefresh : Time)

/-- **The steps of `find_key`.** -/
def next (s : Sys) (p : ℕ) : Call → Option Sys
  | .reading kid started =>
    some (s.setCall p (.aging kid started (s.cache.find kid) s.cache.fetched))
  | .aging kid started known fetched =>
    match known, fetched with
    | some key, some time =>
      if s.clock - time < jwksTtl then some (s.setCall p (.returned kid started (.ok key)))
      else some (s.setCall p (.limiting kid started known fetched))
    | _, _ => some (s.setCall p (.limiting kid started known fetched))
  | .limiting kid started known fetched =>
    if fetched.any (s.clock - · < minRefresh) then
      some (s.setCall p (.returned kid started (orUnknown known)))
    else some (s.setCall p (.locking kid started known))
  | .locking kid started known =>
    if s.flight = none then
      some ({ s with flight := some p }.setCall p (.holding kid started known))
    else
      match known with
      | some key => some (s.setCall p (.returned kid started (.ok key)))
      | none => some ({ s with queue := s.queue ++ [p] }.setCall p (.waiting kid started))
  | .waiting kid started =>
    if s.flight = some p then some (s.setCall p (.holding kid started none)) else none
  | .holding kid started known =>
    if s.cache.fetched.any (s.clock - · < minRefresh) then
      some (s.release.setCall p (.returned kid started (orUnknown (s.cache.find kid))))
    else
      some ({ s with starts := s.clock :: s.starts }.setCall p
        (.fetching kid started known s.clock))
  | .storing kid started _ _ keys =>
    let cache : JwksCache := ⟨keys, some s.clock⟩
    some ({ s.release with cache, stores := keys :: s.stores }.setCall p
      (.returned kid started (orUnknown (cache.find kid))))
  | _ => none

def step (s : Sys) : Action → Option Sys
  | .tick now => if s.clock ≤ now then some { s with clock := now } else none
  | .call p kid =>
    match s.calls p with
    | .idle | .returned .. => some (s.setCall p (.reading kid s.stores.length))
    | _ => none
  | .next p => next jwksTtl minRefresh s p (s.calls p)
  | .answer p entries =>
    match s.calls p with
    | .fetching kid started known since =>
      some (s.setCall p (.storing kid started known since (fetchJwks entries)))
    | _ => none
  | .fail p error =>
    match s.calls p with
    | .fetching kid started (some key) _ =>
        some (s.release.setCall p (.returned kid started (.ok key)))
    | .fetching kid started none _ =>
        some (s.release.setCall p (.returned kid started (.error error)))
    | _ => none
  | .drop p =>
    match s.calls p with
    | .waiting .. =>
      -- The lock may just have been given to it.
      if s.flight = some p then some (s.release.setCall p .idle)
      else some ({ s with queue := s.queue.erase p }.setCall p .idle)
    | .holding .. | .fetching .. | .storing .. => some (s.release.setCall p .idle)
    | _ => some (s.setCall p .idle)

end parameters

/-! ## Freshness -/

/-- A fetch is under way. -/
def Call.Fetching : Call → Prop
  | .fetching .. => True
  | _ => False

/-- The key sets a call may use that started when `started` of them were stored: the one stored last
before that, and all later ones. -/
def Sys.since (s : Sys) (started : ℕ) : List (List Jwk) :=
  s.stores.take (s.stores.length + 1 - started)

/-- **One fetch at a time, and no key older than the call.** -/
structure Fresh (s : Sys) : Prop where
  single : ∀ p q, (s.calls p).Fetching → (s.calls q).Fetching → p = q
  fresh : ∀ p kid started key, s.calls p = .returned kid started (.ok key) →
    ∃ keys ∈ s.since started, key ∈ keys ∧ key.keyId = some kid
  /-- A key that is in none of these is not returned. -/
  withdrawn : ∀ p kid started key, (∀ keys ∈ s.since started, key ∉ keys) →
    s.calls p ≠ .returned kid started (.ok key)

/-! ## The invariant -/

/-- The call has the flight lock. -/
def Call.Holds : Call → Prop
  | .holding .. | .fetching .. | .storing .. => True
  | _ => False

/-- What a call was asked for, when it started, and the key it may return. -/
def Call.view : Call → Option (String × ℕ × Option Jwk)
  | .idle => none
  | .reading kid started => some (kid, started, none)
  | .aging kid started known _ => some (kid, started, known)
  | .limiting kid started known _ => some (kid, started, known)
  | .locking kid started known => some (kid, started, known)
  | .waiting kid started => some (kid, started, none)
  | .holding kid started known => some (kid, started, known)
  | .fetching kid started known _ => some (kid, started, known)
  | .storing kid started known _ _ => some (kid, started, known)
  | .returned kid started (.ok key) => some (kid, started, some key)
  | .returned kid started (.error _) => some (kid, started, none)

/-- A key that may be returned is in a key set stored since. -/
structure Good (s : Sys) (kid : String) (started : ℕ) (known : Option Jwk) : Prop where
  started_le : started ≤ s.stores.length
  known : ∀ key, known = some key → ∃ keys ∈ s.since started, key ∈ keys ∧ key.keyId = some kid

/-- What a call knows. -/
def Knows (s : Sys) (c : Call) : Prop :=
  ∀ kid started known, c.view = some (kid, started, known) → Good s kid started known

structure Inv (s : Sys) : Prop where
  holds : ∀ p, (s.calls p).Holds → s.flight = some p
  /-- The cache has the keys stored last. -/
  cached : s.cache.keys = s.stores.headD []
  calls : ∀ p, Knows s (s.calls p)

variable {s s' : Sys} {p : ℕ} {c c' : Call} {kid : String} {started : ℕ} {known : Option Jwk}

theorem inv_init (clock : Time) : Inv (init clock) := by
  refine ⟨fun p h => ?_, rfl, fun p kid started known h => ?_⟩
  · exact absurd h id
  · simp [init, Call.view] at h

theorem Inv.fresh (hs : Inv s) : Fresh s := by
  have hold : ∀ p kid started key, s.calls p = .returned kid started (.ok key) →
      ∃ keys ∈ s.since started, key ∈ keys ∧ key.keyId = some kid := by
    intro p kid started key hp
    have hgood := hs.calls p kid started (some key) (by rw [hp]; rfl)
    exact hgood.known key rfl
  refine ⟨fun p q hp hq => ?_, hold, fun p kid started key hnone hp => ?_⟩
  · have holds : ∀ p, (s.calls p).Fetching → s.flight = some p := by
      intro p hp
      refine hs.holds p ?_
      unfold Call.Fetching at hp
      split at hp
      · next hcall =>
        rw [hcall]
        trivial
      · exact absurd hp id
    exact Option.some.inj ((holds p hp).symm.trans (holds q hq))
  · obtain ⟨keys, hkeys, hkey, -⟩ := hold p kid started key hp
    exact hnone keys hkeys hkey

/-! ### Key sets are only added -/

theorem since_subset (h : s.stores <:+ s'.stores) : s.since started ⊆ s'.since started := by
  obtain ⟨new, hnew⟩ := h
  unfold Sys.since
  rw [← hnew, List.length_append, List.take_append]
  have hlen : new.length + s.stores.length + 1 - started - new.length =
      s.stores.length + 1 - started := by omega
  rw [hlen]
  exact List.subset_append_right _ _

theorem Good.mono (h : Good s kid started known) (hstores : s.stores <:+ s'.stores) :
    Good s' kid started known := by
  refine ⟨h.started_le.trans hstores.length_le, fun key hkey => ?_⟩
  obtain ⟨keys, hkeys, hin⟩ := h.known key hkey
  exact ⟨keys, since_subset hstores hkeys, hin⟩

theorem Good.none (h : Good s kid started known) : Good s kid started none :=
  ⟨h.started_le, fun _ hkey => absurd hkey (by simp)⟩

/-- What the cache has may be returned. -/
theorem good_find {cache : JwksCache} (hcached : cache.keys = s.stores.headD [])
    (hstarted : started ≤ s.stores.length) : Good s kid started (cache.find kid) := by
  refine ⟨hstarted, fun key hkey => ?_⟩
  have hmem : key ∈ s.stores.headD [] := hcached ▸ List.mem_of_find?_eq_some hkey
  have hkid : key.keyId = some kid := by simpa using List.find?_some hkey
  rcases hstores : s.stores with _ | ⟨keys, rest⟩
  · simp [hstores] at hmem
  · rw [hstores] at hmem hstarted
    refine ⟨keys, ?_, hmem, hkid⟩
    have hpos : rest.length + 1 + 1 - started = (rest.length + 1 - started) + 1 := by
      simp only [List.length_cons] at hstarted
      omega
    unfold Sys.since
    rw [hstores, List.length_cons, hpos, List.take_succ_cons]
    exact List.mem_cons_self

theorem view_orUnknown (known : Option Jwk) :
    (Call.returned kid started (orUnknown known)).view = some (kid, started, known) := by
  rcases known with _ | key <;> rfl

theorem knows_of_view {view : String × ℕ × Option Jwk} (hview : c.view = some view)
    (hgood : Good s view.1 view.2.1 view.2.2) : Knows s c := by
  intro kid started known h
  rw [hview] at h
  rw [Option.some.inj h] at hgood
  exact hgood

theorem Knows.mono (h : Knows s c) (hstores : s.stores <:+ s'.stores) : Knows s' c :=
  fun kid started known hview => (h kid started known hview).mono hstores

/-! ### Steps -/

/-- A call goes on, with the flight lock as `s'` has it. -/
theorem Inv.goOn (hs : Inv s) (hcalls : s'.calls = Function.update s.calls p c)
    (hstores : s.stores <:+ s'.stores) (hcached : s'.cache.keys = s'.stores.headD [])
    (hother : ∀ q, q ≠ p → s.flight = some q → s'.flight = some q)
    (hown : c.Holds → s'.flight = some p) (hknows : Knows s' c) : Inv s' := by
  refine ⟨fun q hq => ?_, hcached, fun q => ?_⟩
  · rw [hcalls] at hq
    by_cases hqp : q = p
    · subst hqp
      rw [Function.update_self] at hq
      exact hown hq
    · rw [Function.update_of_ne hqp] at hq
      exact hother q hqp (hs.holds q hq)
  · rw [hcalls]
    by_cases hqp : q = p
    · subst hqp
      rw [Function.update_self]
      exact hknows
    · rw [Function.update_of_ne hqp]
      exact (hs.calls q).mono hstores

/-- Nothing but the call changes. -/
theorem Inv.setCall (hs : Inv s) (hown : c.Holds → s.flight = some p) (hknows : Knows s c) :
    Inv (s.setCall p c) :=
  hs.goOn rfl List.suffix_rfl hs.cached (fun _ _ h => h) hown (hknows.mono List.suffix_rfl)

/-- The call that has the flight lock gives it back. -/
theorem Inv.release (hs : Inv s) (hp : s.flight = some p) (hown : ¬ c.Holds) (hknows : Knows s c) :
    Inv (s.release.setCall p c) := by
  refine hs.goOn rfl List.suffix_rfl hs.cached (fun q hq hflight => ?_) (fun h => absurd h hown)
    (hknows.mono List.suffix_rfl)
  exact absurd (Option.some.inj (hflight.symm.trans hp)) hq

variable {jwksTtl minRefresh : Time} {a : Action}

theorem Inv.next_inv (hs : Inv s) (h : next jwksTtl minRefresh s p (s.calls p) = some s') :
    Inv s' := by
  have hknows := hs.calls p
  have hholds := hs.holds p
  rcases hcall : s.calls p with _ | ⟨kid, started⟩ | ⟨kid, started, known, fetched⟩ |
    ⟨kid, started, known, fetched⟩ | ⟨kid, started, known⟩ | ⟨kid, started⟩ |
    ⟨kid, started, known⟩ |
    ⟨kid, started, known, since⟩ | ⟨kid, started, known, since, keys⟩ | ⟨kid, started, result⟩
  all_goals rw [hcall] at h hknows hholds
  · exact absurd h (by simp [next])
  · -- reading
    have hgood := hknows kid started none rfl
    rw [← Option.some.inj h]
    exact hs.setCall (fun hc => absurd hc id)
      (knows_of_view rfl (good_find hs.cached hgood.started_le))
  · -- aging
    have hgood := hknows kid started known rfl
    dsimp only [next] at h
    split at h
    · split_ifs at h
      · rw [← Option.some.inj h]
        exact hs.setCall (fun hc => absurd hc id) (knows_of_view rfl hgood)
      · rw [← Option.some.inj h]
        exact hs.setCall (fun hc => absurd hc id) (knows_of_view rfl hgood)
    · rw [← Option.some.inj h]
      exact hs.setCall (fun hc => absurd hc id) (knows_of_view rfl hgood)
  · -- limiting
    have hgood := hknows kid started known rfl
    dsimp only [next] at h
    split_ifs at h
    · rw [← Option.some.inj h]
      exact hs.setCall (fun hc => absurd hc id) (knows_of_view (view_orUnknown known) hgood)
    · rw [← Option.some.inj h]
      exact hs.setCall (fun hc => absurd hc id) (knows_of_view rfl hgood)
  · -- locking
    have hgood := hknows kid started known rfl
    dsimp only [next] at h
    split_ifs at h with hfree
    · rw [← Option.some.inj h]
      refine hs.goOn rfl List.suffix_rfl hs.cached (fun q _ hq => ?_) (fun _ => rfl)
        (knows_of_view rfl (hgood.mono List.suffix_rfl))
      exact absurd (hfree.symm.trans hq) (by simp)
    · split at h
      · rw [← Option.some.inj h]
        exact hs.setCall (fun hc => absurd hc id) (knows_of_view rfl hgood)
      · rw [← Option.some.inj h]
        exact hs.goOn rfl List.suffix_rfl hs.cached (fun _ _ hq => hq) (fun hc => absurd hc id)
          (knows_of_view rfl (hgood.mono List.suffix_rfl))
  · -- waiting
    have hgood := hknows kid started none rfl
    dsimp only [next] at h
    split_ifs at h with hgiven
    rw [← Option.some.inj h]
    exact hs.setCall (fun _ => hgiven) (knows_of_view rfl hgood)
  · -- holding
    have hgood := hknows kid started known rfl
    dsimp only [next] at h
    split_ifs at h
    · rw [← Option.some.inj h]
      exact hs.release (hholds trivial) (fun hc => by rcases hc)
        (knows_of_view (view_orUnknown _) (good_find hs.cached hgood.started_le))
    · rw [← Option.some.inj h]
      exact hs.goOn rfl List.suffix_rfl hs.cached (fun _ _ hq => hq) (fun _ => hholds trivial)
        (knows_of_view rfl (hgood.mono List.suffix_rfl))
  · exact absurd h (by simp [next])
  · -- storing
    have hgood := hknows kid started known rfl
    rw [← Option.some.inj h]
    refine hs.goOn rfl (List.suffix_cons keys s.stores) rfl (fun q hq hflight => ?_)
      (fun hc => by rcases hc) (knows_of_view (view_orUnknown _) (good_find rfl ?_))
    · exact absurd (Option.some.inj (hflight.symm.trans (hholds trivial))) hq
    · exact hgood.started_le.trans (Nat.le_succ _)
  · exact absurd h (by simp [next])

theorem Inv.step_inv (hs : Inv s) (h : step jwksTtl minRefresh s a = some s') : Inv s' := by
  cases a with
  | tick now =>
    dsimp only [step] at h
    split_ifs at h
    rw [← Option.some.inj h]
    exact ⟨hs.holds, hs.cached, fun p => (hs.calls p).mono List.suffix_rfl⟩
  | call p kid =>
    have hnew : Knows s (.reading kid s.stores.length) :=
      knows_of_view rfl ⟨le_refl _, fun key hkey => absurd hkey (by simp)⟩
    dsimp only [step] at h
    split at h
    · rw [← Option.some.inj h]
      exact hs.setCall (fun hc => absurd hc id) hnew
    · rw [← Option.some.inj h]
      exact hs.setCall (fun hc => absurd hc id) hnew
    · exact absurd h (by simp)
  | next p => exact hs.next_inv h
  | answer p entries =>
    dsimp only [step] at h
    split at h
    · next kid started known since hcall =>
      have hgood := hs.calls p kid started known (by rw [hcall]; rfl)
      rw [← Option.some.inj h]
      exact hs.setCall (fun _ => hs.holds p (by rw [hcall]; trivial)) (knows_of_view rfl hgood)
    · exact absurd h (by simp)
  | fail p error =>
    dsimp only [step] at h
    split at h
    · next kid started key since hcall =>
      have hgood := hs.calls p kid started (some key) (by rw [hcall]; rfl)
      rw [← Option.some.inj h]
      exact hs.release (hs.holds p (by rw [hcall]; trivial)) (fun hc => by rcases hc)
        (knows_of_view rfl hgood)
    · next kid started since hcall =>
      have hgood := hs.calls p kid started none (by rw [hcall]; rfl)
      rw [← Option.some.inj h]
      exact hs.release (hs.holds p (by rw [hcall]; trivial)) (fun hc => by rcases hc)
        (knows_of_view rfl hgood)
    · exact absurd h (by simp)
  | drop p =>
    have hidle : Knows s .idle := fun kid started known hview => absurd hview (by simp [Call.view])
    dsimp only [step] at h
    split at h
    · split_ifs at h with hgiven
      · rw [← Option.some.inj h]
        exact hs.release hgiven (fun hc => by rcases hc) hidle
      · rw [← Option.some.inj h]
        exact hs.goOn rfl List.suffix_rfl hs.cached (fun _ _ hq => hq) (fun hc => absurd hc id)
          (hidle.mono List.suffix_rfl)
    · next hcall =>
      rw [← Option.some.inj h]
      exact hs.release (hs.holds p (by rw [hcall]; trivial)) (fun hc => by rcases hc) hidle
    · next hcall =>
      rw [← Option.some.inj h]
      exact hs.release (hs.holds p (by rw [hcall]; trivial)) (fun hc => by rcases hc) hidle
    · next hcall =>
      rw [← Option.some.inj h]
      exact hs.release (hs.holds p (by rw [hcall]; trivial)) (fun hc => by rcases hc) hidle
    · rw [← Option.some.inj h]
      exact hs.setCall (fun hc => absurd hc id) hidle

/-- **In every run**: one fetch at a time, and no call returns a key that is in none of the key sets
stored since it started or last before it. -/
theorem key_cache_fresh (jwksTtl minRefresh clock : Time) (as : List Action) :
    Always (step jwksTtl minRefresh) Fresh (init clock) as := by
  refine (along_true _ as).always (I := Inv) (fun s hs => hs.fresh) ?_ (inv_init clock)
  intro s a s' hs h _
  exact hs.step_inv h

end Vsms.Sso.Jwks
