import Vsms.Sso.Jwks
import Mathlib.Data.Fintype.EquivFin
import Mathlib.Tactic.Linarith

/-! # How often the keys are fetched

A fetch starts only if the keys were not fetched within `jwks_min_refresh`, by the time that is
stored with them. A fetch that fails stores nothing, and neither does one whose task is dropped; so
the time of the last fetch is known only if it succeeded.

Two fetches are `jwks_min_refresh` apart if every fetch that ends without a result has taken that
long. If one ends earlier, the next task fetches again at once: the one that waits for the flight
lock, or any that asks for a key id that is not in the cache (`refetch_limited_iff`). -/

namespace Vsms.Sso.JwksLimit

open Vsms.Lib.Runs Vsms.Schema.Types Vsms.Sso.Jwks

/-! ## The limit -/

/-- Each time, newest first, is at least `distance` after the one before it. -/
def Spaced (distance : Time) : List Time → Prop
  | later :: earlier :: rest => earlier + distance ≤ later ∧ Spaced distance (earlier :: rest)
  | _ => True

/-- **The starts of two consecutive fetches are at least `minRefresh` apart.** -/
def Limited (minRefresh : Time) (s : Sys) : Prop := Spaced minRefresh s.starts

/-- When the fetch of the call started that has not ended. -/
def Call.since : Call → Option Time
  | .fetching _ _ _ since => some since
  | .storing _ _ _ since _ => some since
  | _ => none

/-- **A fetch that ends without a result has taken `minRefresh`.** -/
def SlowToFail (minRefresh : Time) (s : Sys) : Action → Sys → Prop
  | .fail p _, _ => ∀ since, Call.since (s.calls p) = some since → since + minRefresh ≤ s.clock
  | .drop p, _ => ∀ since, Call.since (s.calls p) = some since → since + minRefresh ≤ s.clock
  | _, _ => True

/-- Anything but the end of a fetch without a result. -/
def Action.NoFail : Action → Prop
  | .fail .. | .drop _ => False
  | _ => True

/-! ## What a step can do -/

def Call.Waiting : Call → Prop
  | .waiting .. => True
  | _ => False

/-- The call has the flight lock or waits for it. -/
def Call.Engaged : Call → Prop
  | .waiting .. | .holding .. | .fetching .. | .storing .. => True
  | _ => False

theorem since_of_not_engaged {c : Call} (h : ¬ Call.Engaged c) : Call.since c = none := by
  unfold Call.since
  split
  · exact absurd trivial h
  · exact absurd trivial h
  · rfl

theorem engaged_of_waiting {c : Call} (h : Call.Waiting c) : Call.Engaged c := by
  unfold Call.Waiting at h
  split at h
  · trivial
  · exact h.elim

/-- The keys are old enough to be fetched again. -/
def Due (minRefresh : Time) (s : Sys) : Prop :=
  s.cache.fetched.any (s.clock - · < minRefresh) = false

/-- **The steps, as far as fetches and the flight lock are concerned.** -/
inductive Effect (minRefresh : Time) (s : Sys) (a : Action) : Sys → Prop
  | tick {now : Time} (h : s.clock ≤ now) : Effect minRefresh s a { s with clock := now }
  | go {p : ℕ} {c : Call} (hsince : Call.since c = Call.since (s.calls p))
      (hengaged : Call.Engaged (s.calls p) → Call.Engaged c)
      (hwaiting : Call.Waiting (s.calls p) → s.flight = some p) :
        Effect minRefresh s a (s.setCall p c)
  | take {p : ℕ} {c : Call} (hfree : s.flight = none) (hbefore : ¬ Call.Engaged (s.calls p))
      (hsince : Call.since c = none) (hc : Call.Engaged c) :
      Effect minRefresh s a ({ s with flight := some p }.setCall p c)
  | enqueue {p : ℕ} {c : Call} (hbusy : s.flight ≠ none) (hbefore : ¬ Call.Engaged (s.calls p))
      (hsince : Call.since c = none) (hc : Call.Waiting c) :
      Effect minRefresh s a ({ s with queue := s.queue ++ [p] }.setCall p c)
  | dequeue {p : ℕ} (hwaiting : Call.Waiting (s.calls p)) (hother : s.flight ≠ some p) :
      Effect minRefresh s a ({ s with queue := s.queue.erase p }.setCall p .idle)
  | release {p : ℕ} {c : Call} (hp : s.flight = some p) (hc : ¬ Call.Engaged c)
      (hended : Call.since (s.calls p) = none ∨ a = .drop p ∨ ∃ error, a = .fail p error) :
      Effect minRefresh s a (s.release.setCall p c)
  | store {p : ℕ} {c : Call} {keys : List Jwk} (hp : s.flight = some p) (hc : ¬ Call.Engaged c) :
      Effect minRefresh s a ({ s.release with
        cache := ⟨keys, some s.clock⟩, stores := keys :: s.stores }.setCall p c)
  | start {p : ℕ} {kid : String} {started : ℕ} {known : Option Jwk}
      (hp : s.calls p = .holding kid started known) (hdue : Due minRefresh s) :
      Effect minRefresh s a
        ({ s with starts := s.clock :: s.starts }.setCall p (.fetching kid started known s.clock))

variable {jwksTtl minRefresh : Time} {s s' : Sys} {a : Action} {p : ℕ}

/-- A call without the flight lock goes on without it. -/
theorem Effect.quiet {c : Call} (hbefore : ¬ Call.Engaged (s.calls p)) (hc : ¬ Call.Engaged c) :
    Effect minRefresh s a (s.setCall p c) :=
  .go ((since_of_not_engaged hc).trans (since_of_not_engaged hbefore).symm)
    (fun h => absurd h hbefore) fun h => absurd (engaged_of_waiting h) hbefore

theorem next_effect (hs : Inv s) (h : next jwksTtl minRefresh s p (s.calls p) = some s') :
    Effect minRefresh s a s' := by
  have hholds := hs.holds p
  rcases hcall : s.calls p with _ | ⟨kid, started⟩ | ⟨kid, started, known, fetched⟩ |
    ⟨kid, started, known, fetched⟩ | ⟨kid, started, known⟩ | ⟨kid, started⟩ |
    ⟨kid, started, known⟩ |
    ⟨kid, started, known, since⟩ | ⟨kid, started, known, since, keys⟩ | ⟨kid, started, result⟩
  all_goals rw [hcall] at h hholds
  · exact absurd h (by simp [next])
  · -- reading
    rw [← Option.some.inj h]
    exact .quiet (by rw [hcall]; exact id) id
  · -- aging
    have hbefore : ¬ Call.Engaged (s.calls p) := by rw [hcall]; exact id
    dsimp only [next] at h
    split at h
    · split_ifs at h
      · rw [← Option.some.inj h]
        exact .quiet hbefore id
      · rw [← Option.some.inj h]
        exact .quiet hbefore id
    · rw [← Option.some.inj h]
      exact .quiet hbefore id
  · -- limiting
    have hbefore : ¬ Call.Engaged (s.calls p) := by rw [hcall]; exact id
    dsimp only [next] at h
    split_ifs at h
    · rw [← Option.some.inj h]
      exact .quiet hbefore id
    · rw [← Option.some.inj h]
      exact .quiet hbefore id
  · -- locking
    have hbefore : ¬ Call.Engaged (s.calls p) := by rw [hcall]; exact id
    dsimp only [next] at h
    split_ifs at h with hfree
    · rw [← Option.some.inj h]
      exact .take hfree hbefore rfl trivial
    · split at h
      · rw [← Option.some.inj h]
        exact .quiet hbefore id
      · rw [← Option.some.inj h]
        exact .enqueue hfree hbefore rfl trivial
  · -- waiting
    dsimp only [next] at h
    split_ifs at h with hgiven
    rw [← Option.some.inj h]
    exact .go (by rw [hcall]; rfl) (fun _ => trivial) fun _ => hgiven
  · -- holding
    dsimp only [next] at h
    split_ifs at h with hyoung
    · rw [← Option.some.inj h]
      exact .release (hholds trivial) id (Or.inl (by rw [hcall]; rfl))
    · rw [← Option.some.inj h]
      exact .start hcall (by simpa [Due] using hyoung)
  · exact absurd h (by simp [next])
  · -- storing
    rw [← Option.some.inj h]
    exact .store (hholds trivial) id
  · exact absurd h (by simp [next])

theorem step_effect (hs : Inv s) (h : step jwksTtl minRefresh s a = some s') :
    Effect minRefresh s a s' := by
  cases a with
  | tick now =>
    dsimp only [step] at h
    split_ifs at h with hle
    rw [← Option.some.inj h]
    exact .tick hle
  | call p kid =>
    dsimp only [step] at h
    split at h
    · next hcall =>
      rw [← Option.some.inj h]
      exact .quiet (by rw [hcall]; exact id) id
    · next hcall =>
      rw [← Option.some.inj h]
      exact .quiet (by rw [hcall]; exact id) id
    · exact absurd h (by simp)
  | next p => exact next_effect hs h
  | answer p entries =>
    dsimp only [step] at h
    split at h
    · next hcall =>
      rw [← Option.some.inj h]
      exact .go (by rw [hcall]; rfl) (fun _ => trivial) (by rw [hcall]; exact False.elim)
    · exact absurd h (by simp)
  | fail p error =>
    dsimp only [step] at h
    split at h
    · next hcall =>
      rw [← Option.some.inj h]
      exact .release (hs.holds p (by rw [hcall]; trivial)) id
        (Or.inr (Or.inr ⟨error, rfl⟩))
    · next hcall =>
      rw [← Option.some.inj h]
      exact .release (hs.holds p (by rw [hcall]; trivial)) id
        (Or.inr (Or.inr ⟨error, rfl⟩))
    · exact absurd h (by simp)
  | drop p =>
    have hgives : s.flight = some p → Effect minRefresh s (.drop p) (s.release.setCall p .idle) :=
      fun hp => .release hp id (Or.inr (Or.inl rfl))
    dsimp only [step] at h
    split at h
    · next hcall =>
      split_ifs at h with hgiven
      · rw [← Option.some.inj h]
        exact hgives hgiven
      · rw [← Option.some.inj h]
        exact .dequeue (by rw [hcall]; trivial) hgiven
    · next hcall =>
      rw [← Option.some.inj h]
      exact hgives (hs.holds p (by rw [hcall]; trivial))
    · next hcall =>
      rw [← Option.some.inj h]
      exact hgives (hs.holds p (by rw [hcall]; trivial))
    · next hcall =>
      rw [← Option.some.inj h]
      exact hgives (hs.holds p (by rw [hcall]; trivial))
    · next hwaiting hholding hfetching hstoring =>
      rw [← Option.some.inj h]
      refine .quiet (fun hengaged => ?_) id
      unfold Call.Engaged at hengaged
      split at hengaged
      · next hcall => exact hwaiting _ _ hcall
      · next hcall => exact hholding _ _ _ hcall
      · next hcall => exact hfetching _ _ _ _ hcall
      · next hcall => exact hstoring _ _ _ _ _ hcall
      · exact hengaged

theorem holds_of_since {c : Call} {t : Time} (h : Call.since c = some t) : c.Holds := by
  unfold Call.since at h
  split at h
  · trivial
  · trivial
  · exact absurd h (by simp)

/-- Only the call that has the flight lock fetches. -/
theorem flight_of_since (hs : Inv s) {t : Time} (h : Call.since (s.calls p) = some t) :
    s.flight = some p := hs.holds p (holds_of_since h)

/-! ## Fetches that fail slowly -/

/-- The last fetch is under way, or the time of the cache is later, or it started long enough ago.
-/
structure Settled (minRefresh : Time) (s : Sys) : Prop where
  spaced : Spaced minRefresh s.starts
  past : ∀ t, s.starts.head? = some t → t ≤ s.clock
  last : ∀ t, s.starts.head? = some t → (∃ p, Call.since (s.calls p) = some t) ∨
    (∃ fetched, s.cache.fetched = some fetched ∧ t ≤ fetched) ∨ t + minRefresh ≤ s.clock

/-- A step that starts no fetch and stores nothing. -/
theorem Settled.keep (hs : Settled minRefresh s) (hstarts : s'.starts = s.starts)
    (hclock : s.clock ≤ s'.clock) (hfetched : s'.cache.fetched = s.cache.fetched)
    (hcalls : ∀ q t, Call.since (s.calls q) = some t →
      (∃ q', Call.since (s'.calls q') = some t) ∨ t + minRefresh ≤ s'.clock) :
    Settled minRefresh s' := by
  refine ⟨hstarts ▸ hs.spaced, fun t ht => ?_, fun t ht => ?_⟩
  · rw [hstarts] at ht
    exact le_trans (hs.past t ht) hclock
  · rw [hstarts] at ht
    rcases hs.last t ht with ⟨q, hq⟩ | ⟨fetched, hcache, hle⟩ | hlong
    · rcases hcalls q t hq with hq' | hlong
      · exact Or.inl hq'
      · exact Or.inr (Or.inr hlong)
    · exact Or.inr (Or.inl ⟨fetched, hfetched.trans hcache, hle⟩)
    · exact Or.inr (Or.inr (le_trans hlong hclock))

/-- What the other calls fetch they still fetch. -/
theorem since_setCall {c : Call} {q : ℕ} {t : Time} (hq : Call.since (s.calls q) = some t)
    (hp : q = p → Call.since c = some t) :
    ∃ q', Call.since (Function.update s.calls p c q') = some t := by
  refine ⟨q, ?_⟩
  by_cases hqp : q = p
  · subst hqp
    rw [Function.update_self]
    exact hp rfl
  · rw [Function.update_of_ne hqp]
    exact hq

/-- The next fetch is late enough. -/
theorem Settled.next_start (hs : Settled minRefresh s) (hinv : Inv s) (hp : (s.calls p).Holds)
    (hnone : Call.since (s.calls p) = none) (hdue : Due minRefresh s) :
    ∀ t, s.starts.head? = some t → t + minRefresh ≤ s.clock := by
  intro t ht
  rcases hs.last t ht with ⟨q, hq⟩ | ⟨fetched, hcache, hle⟩ | hlong
  · -- Another fetch would have the flight lock.
    have hqp : q = p := Option.some.inj ((flight_of_since hinv hq).symm.trans (hinv.holds p hp))
    subst hqp
    rw [hnone] at hq
    exact absurd hq (by simp)
  · unfold Due at hdue
    rw [hcache] at hdue
    have hold : ¬ s.clock - fetched < minRefresh := by simpa using hdue
    linarith [not_lt.mp hold]
  · exact hlong

theorem Settled.effect (hs : Settled minRefresh s) (hinv : Inv s) (h : Effect minRefresh s a s')
    (hslow : SlowToFail minRefresh s a s') : Settled minRefresh s' := by
  cases h with
  | tick hle => exact hs.keep rfl hle rfl fun q t hq => Or.inl ⟨q, hq⟩
  | @go p c hsince _ hwaiting =>
    refine hs.keep rfl (le_refl _) rfl fun q t hq => Or.inl (since_setCall hq ?_)
    rintro rfl
    exact hsince.trans hq
  | @take p c hfree hbefore hsince _ =>
    refine hs.keep rfl (le_refl _) rfl fun q t hq => Or.inl (since_setCall hq ?_)
    rintro rfl
    rw [since_of_not_engaged hbefore] at hq
    exact absurd hq (by simp)
  | @enqueue p c hbusy hbefore hsince hc =>
    refine hs.keep rfl (le_refl _) rfl fun q t hq => Or.inl (since_setCall hq ?_)
    rintro rfl
    rw [since_of_not_engaged hbefore] at hq
    exact absurd hq (by simp)
  | @dequeue p hwaiting hother =>
    refine hs.keep rfl (le_refl _) rfl fun q t hq => Or.inl (since_setCall hq ?_)
    rintro rfl
    exact absurd (flight_of_since hinv hq) hother
  | @release p c hp hc hended =>
    refine hs.keep rfl (le_refl _) rfl fun q t hq => ?_
    have hqp : q = p := Option.some.inj ((flight_of_since hinv hq).symm.trans hp)
    subst hqp
    rcases hended with hnone | rfl | ⟨error, rfl⟩
    · rw [hnone] at hq
      exact absurd hq (by simp)
    · exact Or.inr (hslow t hq)
    · exact Or.inr (hslow t hq)
  | @store p c keys hp hc =>
    refine ⟨hs.spaced, hs.past, fun t ht => Or.inr (Or.inl ⟨s.clock, rfl, hs.past t ht⟩)⟩
  | @start p kid started known hp hdue =>
    have hlate := hs.next_start hinv (p := p) (by rw [hp]; trivial) (by rw [hp]; rfl) hdue
    refine ⟨?_, fun t ht => ?_, fun t ht => ?_⟩
    · change Spaced minRefresh (s.clock :: s.starts)
      rcases hstarts : s.starts with _ | ⟨t, rest⟩
      · trivial
      · have hspaced := hs.spaced
        rw [hstarts] at hspaced hlate
        exact ⟨hlate t rfl, hspaced⟩
    · rw [← Option.some.inj ht]
      exact le_refl _
    · rw [← Option.some.inj ht]
      exact Or.inl ⟨p, by simp [Sys.setCall, Call.since]⟩

/-! ## What a fetch that fails fast leads to -/

/-- The calls in the queue wait, and the last fetch started is the one under way. -/
structure Lined (minRefresh : Time) (s : Sys) : Prop where
  queued : ∀ q ∈ s.queue, Call.Waiting (s.calls q)
  nodup : s.queue.Nodup
  given : ∀ q, s.flight = some q → q ∉ s.queue ∧ Call.Engaged (s.calls q)
  free : s.flight = none → s.queue = []
  last : ∀ p t, Call.since (s.calls p) = some t → s.starts.head? = some t ∧ Due minRefresh s

theorem lined_init (clock : Time) : Lined minRefresh (init clock) := by
  refine ⟨fun q hq => absurd hq List.not_mem_nil, List.nodup_nil,
    fun q hq => absurd hq (by simp [init]), fun _ => rfl, fun p t hp =>
      absurd hp (by simp [init, Call.since])⟩

theorem Due.tick {now : Time} (h : Due minRefresh s) (hle : s.clock ≤ now) :
    Due minRefresh { s with clock := now } := by
  unfold Due at h ⊢
  rcases hfetched : s.cache.fetched with _ | fetched
  · rfl
  · rw [hfetched] at h
    have hold : ¬ s.clock - fetched < minRefresh := by simpa using h
    have hold' : ¬ now - fetched < minRefresh := by linarith
    simpa using hold'

/-- A call goes on that was not in the queue. -/
theorem queued_setCall {c : Call} (hqueued : ∀ q ∈ s.queue, Call.Waiting (s.calls q))
    (hp : p ∉ s.queue) : ∀ q ∈ s.queue, Call.Waiting (Function.update s.calls p c q) := by
  intro q hq
  have hqp : q ≠ p := fun heq => hp (heq ▸ hq)
  rw [Function.update_of_ne hqp]
  exact hqueued q hq

/-- A call goes on that starts no fetch. -/
theorem last_setCall {c : Call} {P : Time → Prop}
    (hlast : ∀ q t, Call.since (s.calls q) = some t → P t) (hc : ∀ t, Call.since c = some t → P t) :
    ∀ q t, Call.since (Function.update s.calls p c q) = some t → P t := by
  intro q t hq
  rcases update_cases Call.since hq with ⟨-, hq⟩ | ⟨-, hq⟩
  · exact hc t hq
  · exact hlast q t hq

theorem not_queued_of_not_engaged (hs : Lined minRefresh s) (h : ¬ Call.Engaged (s.calls p)) :
    p ∉ s.queue := fun hp => h (engaged_of_waiting (hs.queued p hp))

theorem engaged_setCall {c : Call} {q : ℕ} (h : Call.Engaged (s.calls q))
    (hp : q = p → Call.Engaged c) : Call.Engaged (Function.update s.calls p c q) := by
  by_cases hqp : q = p
  · subst hqp
    rw [Function.update_self]
    exact hp rfl
  · rw [Function.update_of_ne hqp]
    exact h

/-- A call that has the flight lock gives it on. -/
theorem Lined.release {c : Call} (hs : Lined minRefresh s) (hp : s.flight = some p)
    (hcalls : s'.calls = Function.update s.calls p c) (hflight : s'.flight = s.queue.head?)
    (hqueue : s'.queue = s.queue.tail) (hlast : ∀ q t, Call.since (s'.calls q) = some t →
      s'.starts.head? = some t ∧ Due minRefresh s') :
    Lined minRefresh s' := by
  have hqueued : ∀ q ∈ s.queue, Call.Waiting (s'.calls q) := by
    rw [hcalls]
    exact queued_setCall hs.queued (hs.given p hp).1
  have hnodup := hs.nodup
  rcases hline : s.queue with _ | ⟨q, rest⟩
  · rw [hline] at hflight hqueue
    refine ⟨?_, ?_, fun q hq => absurd (hflight.symm.trans hq) (by simp), fun _ => hqueue, hlast⟩
    · rw [hqueue]
      exact fun q hq => absurd hq List.not_mem_nil
    · rw [hqueue]
      exact List.nodup_nil
  · rw [hline] at hflight hqueue hqueued hnodup
    refine ⟨?_, ?_, fun q' hq' => ?_, fun hnone => absurd (hflight.symm.trans hnone) (by simp),
      hlast⟩
    · rw [hqueue]
      exact fun q' hq' => hqueued q' (List.mem_cons_of_mem q hq')
    · rw [hqueue]
      exact (List.nodup_cons.mp hnodup).2
    · have hfirst : q = q' := Option.some.inj (hflight.symm.trans hq')
      subst hfirst
      rw [hqueue]
      exact ⟨(List.nodup_cons.mp hnodup).1, engaged_of_waiting (hqueued q List.mem_cons_self)⟩

/-- A call takes the flight lock. -/
theorem Lined.take (hs : Lined minRefresh s) {c : Call} (hbefore : ¬ Call.Engaged (s.calls p))
    (hsince : Call.since c = none) (hc : Call.Engaged c) :
    Lined minRefresh ({ s with flight := some p }.setCall p c) := by
  have hp := not_queued_of_not_engaged hs hbefore
  refine ⟨queued_setCall hs.queued hp, hs.nodup, fun q hq => ?_,
    fun h => absurd h (by simp [Sys.setCall]), last_setCall hs.last ?_⟩
  · rw [← Option.some.inj hq]
    constructor
    · exact hp
    · change Call.Engaged (Function.update s.calls p c p)
      rw [Function.update_self]
      exact hc
  · intro t ht
    rw [hsince] at ht
    exact absurd ht (by simp)

/-- A call comes to wait for the flight lock. -/
theorem Lined.enqueue (hs : Lined minRefresh s) {c : Call} (hbusy : s.flight ≠ none)
    (hbefore : ¬ Call.Engaged (s.calls p)) (hsince : Call.since c = none) (hc : Call.Waiting c) :
    Lined minRefresh ({ s with queue := s.queue ++ [p] }.setCall p c) := by
  have hp := not_queued_of_not_engaged hs hbefore
  have hother : ∀ q, s.flight = some q → q ≠ p := by
    rintro q hq rfl
    exact hbefore (hs.given q hq).2
  refine ⟨fun q hq => ?_, ?_, fun q hq => ?_, fun h => absurd h hbusy, last_setCall hs.last ?_⟩
  · rcases List.mem_append.mp hq with hq | hq
    · exact queued_setCall hs.queued hp q hq
    · rw [List.mem_singleton.mp hq]
      change Call.Waiting (Function.update s.calls p c p)
      rw [Function.update_self]
      exact hc
  · change (s.queue ++ [p]).Nodup
    rw [List.nodup_append]
    refine ⟨hs.nodup, List.nodup_singleton p, fun q hq r hr => ?_⟩
    rw [List.mem_singleton.mp hr]
    exact fun heq => hp (heq ▸ hq)
  · constructor
    · change q ∉ s.queue ++ [p]
      rw [List.mem_append, List.mem_singleton, not_or]
      exact ⟨(hs.given q hq).1, hother q hq⟩
    · exact engaged_setCall (hs.given q hq).2 fun heq => absurd heq (hother q hq)
  · intro t ht
    rw [hsince] at ht
    exact absurd ht (by simp)

/-- A call is dropped while it waits. -/
theorem Lined.dequeue (hs : Lined minRefresh s) (hother : s.flight ≠ some p) :
    Lined minRefresh ({ s with queue := s.queue.erase p }.setCall p .idle) := by
  have hne : ∀ q, q ∈ s.queue.erase p → q ≠ p ∧ q ∈ s.queue := fun q hq =>
    hs.nodup.mem_erase_iff.mp hq
  refine ⟨fun q hq => ?_, hs.nodup.erase p, fun q hq => ?_, fun h => ?_, last_setCall hs.last ?_⟩
  · obtain ⟨hqp, hmem⟩ := hne q hq
    change Call.Waiting (Function.update s.calls p .idle q)
    rw [Function.update_of_ne hqp]
    exact hs.queued q hmem
  · refine ⟨fun hmem => (hs.given q hq).1 (hne q hmem).2, ?_⟩
    refine engaged_setCall (hs.given q hq).2 fun heq => ?_
    subst heq
    exact absurd hq hother
  · change s.queue.erase p = []
    rw [hs.free h]
    rfl
  · intro t ht
    exact absurd ht (by simp [Call.since])

theorem Lined.effect (hs : Lined minRefresh s) (hinv : Inv s) (h : Effect minRefresh s a s') :
    Lined minRefresh s' := by
  cases h with
  | tick hle =>
    exact ⟨hs.queued, hs.nodup, hs.given, hs.free, fun p t hp =>
      ⟨(hs.last p t hp).1, (hs.last p t hp).2.tick hle⟩⟩
  | @go p c hsince hengaged hwaiting =>
    have hp : p ∉ s.queue := fun hmem => (hs.given p (hwaiting (hs.queued p hmem))).1 hmem
    refine ⟨queued_setCall hs.queued hp, hs.nodup, fun q hq => ?_, hs.free, last_setCall hs.last ?_⟩
    · refine ⟨(hs.given q hq).1, engaged_setCall (hs.given q hq).2 fun heq => ?_⟩
      exact hengaged (heq ▸ (hs.given q hq).2)
    · intro t ht
      exact hs.last p t (hsince.symm.trans ht)
  | take hfree hbefore hsince hc => exact hs.take hbefore hsince hc
  | enqueue hbusy hbefore hsince hc => exact hs.enqueue hbusy hbefore hsince hc
  | dequeue hwaiting hother => exact hs.dequeue hother
  | @release p c hp hc hended =>
    refine hs.release hp rfl rfl rfl (last_setCall hs.last ?_)
    intro t ht
    rw [since_of_not_engaged hc] at ht
    exact absurd ht (by simp)
  | @store p c keys hp hc =>
    refine hs.release hp rfl rfl rfl fun q t hq => ?_
    -- Nobody fetches once the call that has the lock returns.
    rcases update_cases Call.since hq with ⟨-, hq⟩ | ⟨hne, hq⟩
    · rw [since_of_not_engaged hc] at hq
      exact absurd hq (by simp)
    · exact absurd (Option.some.inj ((flight_of_since hinv hq).symm.trans hp)) hne
  | @start p kid started known hp hdue =>
    have hheld : s.flight = some p := hinv.holds p (by rw [hp]; trivial)
    refine ⟨queued_setCall hs.queued (hs.given p hheld).1, hs.nodup, fun q hq => ?_, hs.free,
      fun q t hq => ?_⟩
    · exact ⟨(hs.given q hq).1, engaged_setCall (hs.given q hq).2 fun _ => trivial⟩
    · rcases update_cases Call.since hq with ⟨-, hq⟩ | ⟨hne, hq⟩
      · exact ⟨hq, hdue⟩
      · exact absurd (Option.some.inj ((flight_of_since hinv hq).symm.trans hheld)) hne

/-- A key id that is not in the cache. -/
theorem exists_unknown_kid (cache : JwksCache) : ∃ kid, cache.find kid = none := by
  obtain ⟨kid, hkid⟩ := Infinite.exists_notMem_finset (cache.keys.filterMap Jwk.keyId).toFinset
  refine ⟨kid, ?_⟩
  rw [JwksCache.find, List.find?_eq_none]
  intro key hkey heq
  refine hkid (List.mem_toFinset.mpr (List.mem_filterMap.mpr ⟨key, hkey, ?_⟩))
  simpa using heq

variable (jwksTtl) in
/-- A call for an unknown key id, with nobody at the flight lock, fetches. -/
theorem fetch_of_free (hfree : s.flight = none) (hdue : Due minRefresh s)
    (hcall : s.calls p = .idle ∨ ∃ kid started result, s.calls p = .returned kid started result)
    {kid : String} (hkid : s.cache.find kid = none) :
    ∃ v, exec (step jwksTtl minRefresh) s
        [.call p kid, .next p, .next p, .next p, .next p, .next p] = some v ∧
      v.starts = s.clock :: s.starts := by
  unfold Due at hdue
  have hstart : step jwksTtl minRefresh s (.call p kid) =
      some (s.setCall p (.reading kid s.stores.length)) := by
    dsimp only [step]
    rcases hcall with hcall | ⟨kid', started, result, hcall⟩
    · rw [hcall]
    · rw [hcall]
  have hnext (v : Sys) (c : Call) :
      step jwksTtl minRefresh (v.setCall p c) (.next p) =
        next jwksTtl minRefresh (v.setCall p c) p c := by
    have hcalls : (v.setCall p c).calls p = c := Function.update_self ..
    dsimp only [step]
    rw [hcalls]
  have hframe (v : Sys) (c : Call) : (v.setCall p c).cache = v.cache ∧
    (v.setCall p c).clock = v.clock ∧
      (v.setCall p c).flight = v.flight ∧ (v.setCall p c).starts = v.starts := ⟨rfl, rfl, rfl, rfl⟩
  simp only [exec, hstart, Option.bind_some, hnext, next, hframe, hkid, hdue, hfree, if_true,
    Bool.false_eq_true, if_false]
  exact ⟨_, rfl, rfl⟩

variable (jwksTtl) in
/-- The call that has waited for the flight lock fetches. -/
theorem fetch_of_given (hgiven : s.flight = some p) (hwaiting : Call.Waiting (s.calls p))
    (hdue : Due minRefresh s) :
    ∃ v, exec (step jwksTtl minRefresh) s [.next p, .next p] = some v ∧
      v.starts = s.clock :: s.starts := by
  unfold Due at hdue
  unfold Call.Waiting at hwaiting
  split at hwaiting
  · next hcall => simp [exec, step, next, Sys.setCall, hcall, hgiven, hdue]
  · exact hwaiting.elim

/-- **After a fetch that failed, the next one starts at once.** -/
theorem fetch_again (hs : Lined minRefresh s) {t : Time} (ht : Call.since (s.calls p) = some t)
    (hp : s.flight = some p) {c : Call}
    (hc : c = .idle ∨ ∃ kid started result, c = .returned kid started result) :
    ∃ bs v, (∀ b ∈ bs, Action.NoFail b) ∧
      exec (step jwksTtl minRefresh) (s.release.setCall p c) bs = some v ∧
      v.starts = s.clock :: s.starts := by
  obtain ⟨-, hdue⟩ := hs.last p t ht
  rcases hline : s.queue with _ | ⟨q, rest⟩
  · obtain ⟨kid, hkid⟩ := exists_unknown_kid s.cache
    obtain ⟨v, hv, hstarts⟩ := fetch_of_free jwksTtl (s := s.release.setCall p c) (p := p)
      (by simp [Sys.release, Sys.setCall, hline]) hdue
      (by simpa [Sys.setCall] using hc) hkid
    exact ⟨_, v, by simp [Action.NoFail], hv, hstarts⟩
  · have hwaiting := hs.queued q (by rw [hline]; exact List.mem_cons_self)
    have hqp : q ≠ p :=
      fun heq => (hs.given p hp).1 (heq ▸ (by rw [hline]; exact List.mem_cons_self))
    obtain ⟨v, hv, hstarts⟩ := fetch_of_given jwksTtl (s := s.release.setCall p c) (p := q)
      (by simp [Sys.release, Sys.setCall, hline])
      (by simpa [Sys.release, Sys.setCall, hqp] using hwaiting) hdue
    exact ⟨_, v, by simp [Action.NoFail], hv, hstarts⟩

/-- A fetch that ends without a result gives the flight lock on. -/
theorem ended_fail {error : KeyError} (h : step jwksTtl minRefresh s (.fail p error) = some s') :
    ∃ kid started result, s' = s.release.setCall p (.returned kid started result) := by
  dsimp only [step] at h
  split at h
  · exact ⟨_, _, _, (Option.some.inj h).symm⟩
  · exact ⟨_, _, _, (Option.some.inj h).symm⟩
  · exact absurd h (by simp)

theorem ended_drop {t : Time} (ht : Call.since (s.calls p) = some t)
    (h : step jwksTtl minRefresh s (.drop p) = some s') : s' = s.release.setCall p .idle := by
  dsimp only [step] at h
  unfold Call.since at ht
  split at ht
  · next hcall =>
    rw [hcall] at h
    exact (Option.some.inj h).symm
  · next hcall =>
    rw [hcall] at h
    exact (Option.some.inj h).symm
  · exact absurd ht (by simp)

/-! ## Runs -/

/-- **The exact condition for the limit**: the starts of consecutive fetches are `minRefresh` apart,
in the run and however it goes on without another failure, exactly if every fetch that ends without
a result has taken `minRefresh`. -/
theorem refetch_limited_iff (jwksTtl minRefresh clock : Time) (as : List Action) :
    Along (step jwksTtl minRefresh) (SlowToFail minRefresh) (init clock) as ↔
      AlwaysThen (step jwksTtl minRefresh) Action.NoFail (Limited minRefresh) (init clock) as := by
  refine along_iff_alwaysThen ?_ ?_ ?_
  · intro b hb s s'
    cases b with
    | fail p error => exact hb.elim
    | drop p => exact hb.elim
    | _ => trivial
  · intro as h
    refine h.always (I := fun s => Inv s ∧ Settled minRefresh s) (fun s hs => hs.2.spaced) ?_
      ⟨inv_init clock, trivial, fun t ht => absurd ht (by simp [init]),
        fun t ht => absurd ht (by simp [init])⟩
    intro s a s' hs h hslow
    exact ⟨hs.1.step_inv h, hs.2.effect hs.1 (step_effect hs.1 h) hslow⟩
  · intro pre a s u hpre hu hfast
    have hreach : Inv s ∧ Lined minRefresh s := by
      refine exec_invariant' (I := fun s => Inv s ∧ Lined minRefresh s) ?_
        ⟨inv_init clock, lined_init clock⟩ hpre
      intro s a s' hs h
      exact ⟨hs.1.step_inv h, hs.2.effect hs.1 (step_effect hs.1 h)⟩
    obtain ⟨hinv, hlined⟩ := hreach
    -- A start right after the last one that came too early.
    have hlate : ∀ p t, Call.since (s.calls p) = some t → ¬ t + minRefresh ≤ s.clock →
        ∀ v : Sys, v.starts = s.clock :: s.starts → ¬ Limited minRefresh v := by
      intro p t ht hearly v hstarts hlimited
      obtain ⟨hhead, -⟩ := hlined.last p t ht
      obtain ⟨rest, hrest⟩ := List.head?_eq_some_iff.mp hhead
      rw [Limited, hstarts, hrest] at hlimited
      exact hearly hlimited.1
    have hagain : ∀ p t, Call.since (s.calls p) = some t → ¬ t + minRefresh ≤ s.clock →
        (∃ c, (c = .idle ∨ ∃ kid started result, c = .returned kid started result) ∧
          u = s.release.setCall p c) →
        ∃ bs v, (∀ b ∈ bs, Action.NoFail b) ∧ exec (step jwksTtl minRefresh) u bs = some v ∧
          ¬ Limited minRefresh v := by
      rintro p t ht hearly ⟨c, hc, rfl⟩
      obtain ⟨bs, v, hbs, hv, hstarts⟩ := fetch_again hlined ht (flight_of_since hinv ht) hc
      exact ⟨bs, v, hbs, hv, hlate p t ht hearly v hstarts⟩
    cases a with
    | fail p error =>
      simp only [SlowToFail, not_forall] at hfast
      obtain ⟨t, ht, hearly⟩ := hfast
      obtain ⟨kid, started, result, hended⟩ := ended_fail hu
      exact hagain p t ht hearly ⟨_, Or.inr ⟨kid, started, result, rfl⟩, hended⟩
    | drop p =>
      simp only [SlowToFail, not_forall] at hfast
      obtain ⟨t, ht, hearly⟩ := hfast
      exact hagain p t ht hearly ⟨_, Or.inl rfl, ended_drop ht hu⟩
    | _ => exact absurd trivial hfast

/-- A call for a key id that nobody has, up to its fetch. -/
def unknownKid (p : ℕ) (kid : String) : List Action :=
  [.call p kid, .next p, .next p, .next p, .next p, .next p]

/-- The keys cannot be fetched; a second later another token is presented, and they are fetched
again. -/
theorem outage_not_limited : ¬ Always (step (hours 1) (seconds 30)) (Limited (seconds 30)) (init 0)
    (unknownKid 0 "k1" ++ [.fail 0 (.unavailable "fetching the JWKS failed"), .tick (seconds 1)] ++
      unknownKid 1 "k2") := by
  intro h
  have hlast := h.last (t := _) rfl
  exact absurd hlast.1 (by decide)

end Vsms.Sso.JwksLimit
