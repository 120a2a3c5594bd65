import Vsms.Console.Hub

/-! # How often the hub asks

The gate `nextAllowedPollAt` is moved when a fetch ends, and `start` opens it for the first
subscriber, whenever that one comes. While the timer runs, its period alone keeps two fetches
`pollMs` apart, and no tick passes before a backoff is over as long as the gate is not moved to an
earlier time. So the log of the fetches is throttled as the module documents it (`Throttled`) in
every run in which no first subscriber comes within `pollMs` of the last fetch or during a backoff,
and no fetch ends during a backoff with a gate that opens before its end, which takes two fetches at
a time (`Unhurried`). -/

namespace Vsms.Console.Throttle

open Vsms.Console.Hub Vsms.Console.Hub.MessageStreamHub Vsms.Lib.Runs

/-! ## The log -/

/-- The failures without a success since, continuing a count. -/
def streakFrom : ℕ → List FetchEvent → ℕ
  | n, [] => n
  | n, .started _ :: log => streakFrom n log
  | _, .succeeded _ _ :: log => streakFrom 0 log
  | n, .failed _ :: log => streakFrom (n + 1) log

/-- **How many fetches have failed since the last one that succeeded.** -/
def streak (log : List FetchEvent) : ℕ := streakFrom 0 log

/-- **The log of a throttled hub**: two fetches one after the other begin `pollMs` apart, and after
the `n`-th failure in a row none begins before `min 30000 (2000 * 2 ^ (n - 1))` milliseconds are
over. -/
structure Throttled (pollMs : ℕ) (log : List FetchEvent) : Prop where
  interval : ∀ pre t mid t' post, log = pre ++ .started t :: mid ++ .started t' :: post →
    (∀ e ∈ mid, ∀ u, e ≠ .started u) → t + pollMs ≤ t'
  backoff : ∀ pre t mid t' post, log = pre ++ .failed t :: mid ++ .started t' :: post →
    t + min 30000 (2000 * 2 ^ (streak (pre ++ [.failed t]) - 1)) ≤ t'

/-- When the last fetch began. -/
def lastStart (log : List FetchEvent) : Option ℕ :=
  (log.filterMap fun
    | .started now => some now
    | _ => none).getLast?

/-- When each backoff ends, continuing a count of failures. -/
def backoffEnds : ℕ → List FetchEvent → List ℕ
  | _, [] => []
  | n, .started _ :: log => backoffEnds n log
  | _, .succeeded _ _ :: log => backoffEnds 0 log
  | n, .failed now :: log => (now + MessageStreamHub.backoff (n + 1)) :: backoffEnds (n + 1) log

/-- Every backoff has ended by then. -/
def BackoffOver (log : List FetchEvent) (now : ℕ) : Prop := ∀ e ∈ backoffEnds 0 log, e ≤ now

instance (log : List FetchEvent) (now : ℕ) : Decidable (BackoffOver log now) :=
  inferInstanceAs (Decidable (∀ e ∈ backoffEnds 0 log, e ≤ now))

/-- **A first subscriber does not come within `pollMs` of the last fetch or during a backoff, and a
fetch that ends does not move the gate to before the end of one.** -/
def Unhurried (s : Net) : Action → Prop
  | .subscribe _ => s.hub.subscribers = [] →
    (∀ t ∈ lastStart s.log, t + s.hub.pollMs ≤ s.clock) ∧ BackoffOver s.log s.clock
  | .settle _ (some _) => BackoffOver s.log (s.clock + s.hub.pollMs)
  | .settle _ none =>
    BackoffOver s.log (s.clock + MessageStreamHub.backoff (s.hub.consecutiveFailures + 1))
  | _ => True

instance (s : Net) (a : Action) : Decidable (Unhurried s a) := by
  unfold Unhurried
  split <;> infer_instance

theorem streakFrom_append (n : ℕ) (log log' : List FetchEvent) :
    streakFrom n (log ++ log') = streakFrom (streakFrom n log) log' := by
  induction log generalizing n with
  | nil => rfl
  | cons e log ih =>
    cases e with
    | started now => exact ih n
    | succeeded now rows => exact ih 0
    | failed now => exact ih (n + 1)

theorem backoffEnds_append (n : ℕ) (log log' : List FetchEvent) :
    backoffEnds n (log ++ log') = backoffEnds n log ++ backoffEnds (streakFrom n log) log' := by
  induction log generalizing n with
  | nil => rfl
  | cons e log ih =>
    cases e with
    | started now => exact ih n
    | succeeded now rows => exact ih 0
    | failed now => exact congrArg _ (ih (n + 1))

theorem BackoffOver.mono {log : List FetchEvent} {now now' : ℕ} (h : BackoffOver log now)
    (hle : now ≤ now') :
    BackoffOver log now' := fun e he => (h e he).trans hle

/-- A backoff that is over. -/
theorem BackoffOver.of_append {pre mid : List FetchEvent} {t now : ℕ}
    (h : BackoffOver (pre ++ .failed t :: mid) now) :
    t + min 30000 (2000 * 2 ^ (streak (pre ++ [.failed t]) - 1)) ≤ now := by
  have hstreak : streak (pre ++ [.failed t]) = streakFrom 0 pre + 1 := by
    unfold streak
    rw [streakFrom_append]
    rfl
  rw [hstreak]
  refine h (t + MessageStreamHub.backoff (streakFrom 0 pre + 1)) ?_
  rw [backoffEnds_append]
  exact List.mem_append_right _ List.mem_cons_self

theorem lastStart_append {pre mid : List FetchEvent} {t : ℕ} (h : ∀ e ∈ mid, ∀ u, e ≠ .started u) :
    lastStart (pre ++ .started t :: mid) = some t := by
  have hmid : (mid.filterMap fun
      | .started now => some now
      | _ => none) = [] := by
    rw [List.filterMap_eq_nil_iff]
    intro e he
    cases e with
    | started now => exact absurd rfl (h _ he now)
    | succeeded now rows => rfl
    | failed now => rfl
  unfold lastStart
  rw [List.filterMap_append, List.filterMap_cons, hmid]
  exact List.getLast?_concat

theorem lastStart_started (log : List FetchEvent) (now : ℕ) :
    lastStart (log ++ [.started now]) = some now :=
  lastStart_append (by simp)

/-! ## A log that grows -/

/-- An event of a log to which one is added is the new one, or is an old one. -/
theorem cut_concat {log pre post : List FetchEvent} {e e' : FetchEvent}
    (h : log ++ [e] = pre ++ e' :: post) :
    (log = pre ∧ e = e') ∨ ∃ post', log = pre ++ e' :: post' := by
  rcases List.eq_nil_or_concat post with rfl | ⟨post', last, rfl⟩
  · obtain ⟨hlog, he⟩ := List.append_inj' h rfl
    exact Or.inl ⟨hlog, (List.cons.inj he).1⟩
  · rw [List.concat_eq_append, ← List.cons_append, ← List.append_assoc] at h
    exact Or.inr ⟨post', (List.append_inj' h rfl).1⟩

theorem Throttled.nil (pollMs : ℕ) : Throttled pollMs [] := ⟨by simp, by simp⟩

/-- The end of a fetch keeps the log throttled. -/
theorem Throttled.ended {pollMs : ℕ} {log : List FetchEvent} (h : Throttled pollMs log)
    {e : FetchEvent} (he : ∀ u, e ≠ .started u) : Throttled pollMs (log ++ [e]) := by
  constructor
  · intro pre t mid t' post heq hmid
    rcases cut_concat heq with ⟨-, rfl⟩ | ⟨post, hlog⟩
    · exact absurd rfl (he t')
    · exact h.interval pre t mid t' post hlog hmid
  · intro pre t mid t' post heq
    rcases cut_concat heq with ⟨-, rfl⟩ | ⟨post, hlog⟩
    · exact absurd rfl (he t')
    · exact h.backoff pre t mid t' post hlog

/-- So does the beginning of one that is late enough. -/
theorem Throttled.started {pollMs : ℕ} {log : List FetchEvent} (h : Throttled pollMs log) {now : ℕ}
    (hlast : ∀ t ∈ lastStart log, t + pollMs ≤ now) (hover : BackoffOver log now) :
    Throttled pollMs (log ++ [.started now]) := by
  constructor
  · intro pre t mid t' post heq hmid
    rcases cut_concat heq with ⟨rfl, hnow⟩ | ⟨post, hlog⟩
    · obtain rfl := FetchEvent.started.inj hnow
      exact hlast t (lastStart_append hmid)
    · exact h.interval pre t mid t' post hlog hmid
  · intro pre t mid t' post heq
    rcases cut_concat heq with ⟨rfl, hnow⟩ | ⟨post, hlog⟩
    · obtain rfl := FetchEvent.started.inj hnow
      exact hover.of_append
    · exact h.backoff pre t mid t' post hlog

/-! ## The hub -/

/-- **What holds throughout an unhurried run**: the timer does not fire within `pollMs` of the last
fetch, and the gate is closed until the last backoff is over. -/
structure Paced (pollMs : ℕ) (s : Net) : Prop where
  period : s.hub.pollMs = pollMs
  throttled : Throttled pollMs s.log
  failures : s.hub.consecutiveFailures = streak s.log
  timer : ∀ due ∈ s.hub.timer, ∀ t ∈ lastStart s.log, t + pollMs ≤ due
  gate : BackoffOver s.log (max s.hub.nextAllowedPollAt s.clock)

theorem Paced.init (pollMs clock : ℕ) : Paced pollMs (Net.init pollMs clock) where
  period := rfl
  throttled := .nil pollMs
  failures := rfl
  timer := by simp [Net.init, MessageStreamHub.new]
  gate := by simp [Net.init, BackoffOver, backoffEnds]

variable {pollMs : ℕ} {s s' : Net}

/-- A fetch that begins late enough, with the timer set. -/
theorem Paced.fetch (h : Paced pollMs s) (hlast : ∀ t ∈ lastStart s.log, t + pollMs ≤ s.clock)
    (hover : BackoffOver s.log s.clock) (hub : MessageStreamHub) (hperiod : hub.pollMs = pollMs)
    (hfailures : hub.consecutiveFailures = s.hub.consecutiveFailures)
    (htimer : hub.timer = some (s.clock + pollMs)) : Paced pollMs (s.call hub true) where
  period := hperiod
  throttled := h.throttled.started hlast hover
  failures := by
    refine hfailures.trans (h.failures.trans ?_)
    change streak s.log = streakFrom 0 (s.log ++ [_])
    rw [streakFrom_append]
    rfl
  timer := by
    intro due hdue t ht
    obtain rfl : s.clock + pollMs = due := by simpa [Net.call, htimer] using hdue
    obtain rfl : s.clock = t := by simpa [Net.call, lastStart_started] using ht
    exact le_rfl
  gate := by
    intro e he
    have hlog : backoffEnds 0 (s.log ++ [.started s.clock]) = backoffEnds 0 s.log := by
      rw [backoffEnds_append]
      exact List.append_nil _
    rw [show (s.call hub true).log = s.log ++ [.started s.clock] from rfl, hlog] at he
    exact (hover e he).trans (le_max_right _ _)

/-- Nothing that the throttle depends on has changed, but that the clock may have moved and the
timer may have been stopped. -/
theorem Paced.of_same (h : Paced pollMs s) (hlog : s'.log = s.log) (hclock : s.clock ≤ s'.clock)
    (hperiod : s'.hub.pollMs = s.hub.pollMs)
    (hfailures : s'.hub.consecutiveFailures = s.hub.consecutiveFailures)
    (hgate : s'.hub.nextAllowedPollAt = s.hub.nextAllowedPollAt)
    (htimer : ∀ due ∈ s'.hub.timer, due ∈ s.hub.timer) : Paced pollMs s' where
  period := hperiod.trans h.period
  throttled := by rw [hlog]; exact h.throttled
  failures := by rw [hfailures, hlog]; exact h.failures
  timer := by rw [hlog]; exact fun due hdue => h.timer due (htimer due hdue)
  gate := by
    rw [hlog, hgate]
    exact h.gate.mono (max_le_max_left _ hclock)

theorem Paced.subscribe (h : Paced pollMs s) {filter : MessageStreamFilter}
    (hq : Unhurried s (.subscribe filter)) : Paced pollMs (s.subscribe filter) := by
  unfold Net.subscribe
  by_cases hfirst : s.hub.subscribers = []
  · obtain ⟨hlast, hover⟩ := hq hfirst
    rw [h.period] at hlast
    have hfetch := h.fetch hlast hover
      { s.hub with
        subscribers := [(s.nextSubscriber, ⟨filter, [], []⟩)]
        nextAllowedPollAt := 0
        timer := some (s.clock + s.hub.pollMs) } h.period rfl (by rw [h.period])
    rw [addSubscriber_first hfirst]
    exact hfetch.of_same rfl le_rfl rfl rfl rfl fun due hdue => hdue
  · rw [addSubscriber_later hfirst]
    exact h.of_same rfl le_rfl rfl rfl rfl fun due hdue => hdue

theorem Paced.tick (h : Paced pollMs s) (hdue : s.hub.timer.any (· ≤ s.clock) = true) :
    Paced pollMs s.tick := by
  obtain ⟨due, htimer, hpast⟩ := (Option.any_eq_true _ _).mp hdue
  have hlast : ∀ t ∈ lastStart s.log, t + pollMs ≤ s.clock := fun t ht =>
    (h.timer due htimer t ht).trans (of_decide_eq_true hpast)
  unfold Net.tick
  rcases hpoll : s.hub.poll s.clock with _ | _
  · -- The gate is closed: the timer is set again, and later than it was.
    exact { h with
      timer := by
        intro due' hdue' t ht
        obtain rfl : s.clock + s.hub.pollMs = due' := by simpa [Net.call] using hdue'
        exact (hlast t ht).trans (Nat.le_add_right _ _) }
  · have hgate : s.hub.nextAllowedPollAt ≤ s.clock := of_decide_eq_true hpoll
    have hover := h.gate
    rw [max_eq_right hgate] at hover
    exact h.fetch hlast hover _ h.period rfl (by rw [h.period])

/-- The end of a fetch, and the gate it sets. -/
theorem Paced.ended (h : Paced pollMs s) {e : FetchEvent} (he : ∀ u, e ≠ .started u)
    (hlog : s'.log = s.log ++ [e]) (hperiod : s'.hub.pollMs = s.hub.pollMs)
    (hfailures : s'.hub.consecutiveFailures = streak (s.log ++ [e]))
    (htimer : s'.hub.timer = s.hub.timer)
    (hgate : BackoffOver (s.log ++ [e]) s'.hub.nextAllowedPollAt) : Paced pollMs s' where
  period := hperiod.trans h.period
  throttled := by rw [hlog]; exact h.throttled.ended he
  failures := by rw [hlog]; exact hfailures
  timer := by
    rw [htimer]
    intro due hdue t ht
    refine h.timer due hdue t ?_
    rw [hlog] at ht
    cases e with
    | started now => exact absurd rfl (he now)
    | succeeded now rows => simpa [lastStart] using ht
    | failed now => simpa [lastStart] using ht
  gate := by
    rw [hlog]
    exact hgate.mono (le_max_left _ _)

theorem Paced.settle (h : Paced pollMs s) {fetch : ℕ} {result : Option (List StreamCandidate)}
    (hq : Unhurried s (.settle fetch result)) : Paced pollMs (s.settle fetch result) := by
  cases result with
  | some rows =>
    have hframe := fetched_frame s.clock rows s.hub
    refine h.ended (e := .succeeded s.clock rows) (by simp) rfl ?_ ?_ ?_ ?_
    all_goals simp only [Net.settle, hframe]
    · unfold streak
      rw [streakFrom_append]
      rfl
    · unfold BackoffOver
      rw [backoffEnds_append, show backoffEnds _ [FetchEvent.succeeded s.clock rows] = [] from rfl,
        List.append_nil]
      exact hq
  | none =>
    have hframe := failed_frame s.clock s.hub
    refine h.ended (e := .failed s.clock) (by simp) rfl ?_ ?_ ?_ ?_
    all_goals simp only [Net.settle, hframe]
    · unfold streak
      rw [streakFrom_append, h.failures]
      rfl
    · unfold BackoffOver
      rw [backoffEnds_append]
      intro e he
      rcases List.mem_append.mp he with he | he
      · exact hq e he
      · obtain rfl : e = s.clock + MessageStreamHub.backoff (streak s.log + 1) := by
          simpa [backoffEnds, streak] using he
        rw [h.failures]

/-- **What a step keeps.** -/
theorem Paced.step (h : Paced pollMs s) {a : Action} (hstep : s.step a = some s')
    (hq : Unhurried s a) :
    Paced pollMs s' := by
  cases Net.moves hstep with
  | wait ms => exact h.of_same rfl (Nat.le_add_right _ _) rfl rfl rfl fun due hdue => hdue
  | subscribe filter => exact h.subscribe hq
  | unsubscribe k =>
    refine h.of_same rfl le_rfl ?_ ?_ ?_ ?_
    all_goals simp only [removeSubscriber_frame]
    intro due hdue
    split_ifs at hdue
    · exact absurd hdue (by simp)
    · exact hdue
  | next k => exact h.of_same rfl le_rfl rfl rfl rfl fun due hdue => hdue
  | tick hdue => exact h.tick hdue
  | settle fetch result => exact h.settle hq

/-- **In an unhurried run the fetches are throttled.** -/
theorem always_throttled (pollMs clock : ℕ) (actions : List Action)
    (h : Along Net.step (fun s a _ => Unhurried s a) (Net.init pollMs clock) actions) :
    Always Net.step (fun s => Throttled pollMs s.log) (Net.init pollMs clock) actions :=
  h.always (I := Paced pollMs) (fun _ hs => hs.throttled) (fun _ _ _ hs hstep hq =>
    hs.step hstep hq)
    (.init pollMs clock)

/-- A subscriber that stays, a fetch that fails twice, and one that succeeds when the second backoff
is over. -/
def patient : List Action :=
  [.subscribe ⟨none⟩, .wait 50, .settle 0 none, .wait 2000, .tick, .wait 50, .settle 1 none,
    .wait 4000, .tick,
   .settle 2 (some [])]

theorem always_throttled_patient :
    (exec Net.step (Net.init 2000 0) patient).isSome = true ∧
      Always Net.step (fun s => Throttled 2000 s.log) (Net.init 2000 0) patient :=
  ⟨by decide, always_throttled 2000 0 patient (by decide)⟩

/-- One tab, whose calls take `pollMs` each, while the gateway is down: each call finds no other
subscriber, opens the gate and fetches. -/
def impatient : List Action :=
  [.subscribe ⟨none⟩, .wait 50, .settle 0 none, .wait 1950, .unsubscribe 0, .wait 1,
   .subscribe ⟨none⟩, .wait 50, .settle 1 none, .wait 1950, .unsubscribe 1, .wait 1,
   .subscribe ⟨none⟩]

/-- **The third fetch begins 1951 ms after the second failure, and not 4000.** -/
theorem impatient_not_throttled :
    ∃ s, exec Net.step (Net.init 2000 0) impatient = some s ∧ ¬ Throttled 2000 s.log := by
  have hrun : (exec Net.step (Net.init 2000 0) impatient).map Net.log =
      some [.started 0, .failed 50, .started 2001, .failed 2051, .started 4002] := by decide
  obtain ⟨s, hs, hlog⟩ := exec_eval hrun
  refine ⟨s, hs, fun h => ?_⟩
  have hlate := h.backoff [.started 0, .failed 50, .started 2001] 2051 [] 4002 [] hlog
  exact absurd hlate (by decide)

end Vsms.Console.Throttle
