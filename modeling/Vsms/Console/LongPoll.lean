import Vsms.Console.Hub

/-! # `messages.onStateChange`

A call of `onStateChange` subscribes to the hub, collects the frames that come until its deadline,
`pollMs` later, or until it has `maxFramesPerLongPoll`, and returns them. A tab makes one call after
the other; between two calls it has no subscriber. A call that ends while its generator waits ends
the generator, which leaves the hub; one that ends at the head of its loop leaves the generator
where it is, and its subscriber with the hub.

The hub broadcasts a pair once, to those that are subscribed then. So the tab gets every pair that
is fetched (`Delivered`) in a run in which each fetch that brings one for the first time ends during
a call, after the call has subscribed, and no call ends with an update still in its queue (`Kept`).
-/

namespace Vsms.Console.LongPoll

open Vsms.Console.Hub Vsms.Console.Hub.MessageStreamHub Vsms.Lib.Runs

def maxFramesPerLongPoll : ℕ := 200

/-- Where the call of the tab is. -/
inductive Call
  | idle
  /-- At the head of the loop; the subscriber is there once `iterator.next()` has been called. -/
  | head (deadline : ℕ) (frames : List MessageStreamFrame) (subscriber : Option ℕ)
  /-- In the race of `iterator.next()`, whose generator waits for a frame, with the deadline. -/
  | racing (deadline : ℕ) (frames : List MessageStreamFrame) (subscriber : ℕ)
  deriving DecidableEq, Repr

def Call.frames : Call → List MessageStreamFrame
  | .idle => []
  | .head _ frames _ => frames
  | .racing _ frames _ => frames

def Call.subscriber : Call → Option ℕ
  | .idle => none
  | .head _ _ subscriber => subscriber
  | .racing _ _ subscriber => some subscriber

structure Tab where
  net : Net
  call : Call
  /-- The frames of the calls that have returned. -/
  answers : List (List MessageStreamFrame)
  /-- Whether there has been a call. -/
  called : Bool
  /-- The pairs that a fetch has returned for the first time since the first call, and those of them
  from before the last call returned. -/
  fresh : List (String × ℕ)
  due : List (String × ℕ)
  deriving DecidableEq, Repr

/-- The pairs of the rows that no fetch has returned before. -/
def firstOf (log : List FetchEvent) : Option (List StreamCandidate) → List (String × ℕ)
  | some rows => (rows.map StreamCandidate.pair).filter (· ∉ returned log)
  | none => []

inductive TabAction
  /-- The clock, the timer, a fetch, or another subscriber. -/
  | hub (a : Action)
  | call
  /-- The loop goes on by one frame. -/
  | run
  /-- The deadline wins the race. -/
  | timeout
  deriving DecidableEq, Repr

/-- The rows of a fetch that succeeds. -/
def TabAction.rows : TabAction → List StreamCandidate
  | .hub a => a.rows
  | _ => []

namespace Tab

def init (pollMs clock : ℕ) : Tab := ⟨.init pollMs clock, .idle, [], false, [], []⟩

/-- The call returns. -/
def finish (s : Tab) (net : Net) : Tab :=
  { s with
    net := net
    call := .idle
    answers := s.answers ++ [s.call.frames]
    due := s.fresh }

/-- The first frame of the queue is collected. -/
def take (s : Tab) (deadline k : ℕ) : Tab :=
  { s with
    net := { s.net with hub := s.net.hub.shift k }
    call := .head deadline (s.call.frames ++ (s.net.hub.queue k).take 1) (some k) }

/-- `iterator.next()`: the generator begins, yields a frame, or waits for one. -/
def next (s : Tab) (deadline : ℕ) : Option ℕ → Tab
  | none =>
    { s with
      net := s.net.subscribe ⟨none⟩
      call := .racing deadline s.call.frames s.net.nextSubscriber }
  | some k =>
    if s.net.hub.queue k = [] then { s with call := .racing deadline s.call.frames k }
    else s.take deadline k

/-- What others do. -/
def others (s : Tab) (a : Action) (net : Net) : Tab :=
  { s with
    net := net
    fresh := match a with
      | .settle _ result => if s.called then s.fresh ++ firstOf s.net.log result else s.fresh
      | _ => s.fresh }

/-- The call is at its end when it comes to the head of its loop. -/
def isOver (s : Tab) (deadline : ℕ) (frames : List MessageStreamFrame) : Bool :=
  maxFramesPerLongPoll ≤ frames.length || deadline ≤ s.net.clock

def step (s : Tab) : TabAction → Option Tab
  | .hub a =>
    if a.actor.isSome ∧ a.actor = s.call.subscriber then none else (s.net.step a).map (s.others a)
  | .call =>
    match s.call with
    | .idle =>
        some { s with call := .head (s.net.clock + s.net.hub.pollMs) [] none, called := true }
    | _ => none
  | .run =>
    match s.call with
    | .head deadline frames subscriber =>
      if s.isOver deadline frames then some (s.finish s.net) else some (s.next deadline subscriber)
    | .racing deadline _ k => if s.net.hub.queue k = [] then none else some (s.take deadline k)
    | .idle => none
  | .timeout =>
    match s.call with
    | .racing deadline _ k =>
      if deadline ≤ s.net.clock ∧ s.net.hub.queue k = [] then
        some (s.finish { s.net with hub := s.net.hub.removeSubscriber k })
      else none
    | _ => none

end Tab

/-- **No update is lost**: between two calls the tab has all pairs that a fetch returned for the
first time after its first call began and before its last call returned. -/
def Delivered (s : Tab) : Prop := s.call = .idle → ∀ p ∈ s.due, p ∈ framePairs s.answers.flatten

/-- **A fetch that returns a pair for the first time ends while the tab is subscribed, and the loop
of a call is not left with an update in the queue.** -/
def Kept (s : Tab) : TabAction → Prop
  | .hub (.settle _ result) => s.called = true → firstOf s.net.log result ≠ [] →
      s.call.subscriber ≠ none
  | .run =>
    match s.call with
    | .head deadline frames (some k) => s.isOver deadline frames = true →
        framePairs (s.net.hub.queue k) = []
    | _ => True
  | _ => True

instance (s : Tab) : Decidable (Delivered s) := by unfold Delivered; infer_instance

instance (s : Tab) (a : TabAction) : Decidable (Kept s a) := by
  unfold Kept
  split
  · infer_instance
  · split <;> infer_instance
  · infer_instance

/-! ## Frames -/

/-- A subscriber without a filter gets every frame. -/
theorem deliver_queue {sub : Subscriber} (hsub : sub.filter = ⟨none⟩)
    (frames : List MessageStreamFrame) :
    (deliver frames sub).queue = sub.queue ++ frames := by
  have hall : frames.filter (passes · sub.filter) = frames := by
    rw [List.filter_eq_self]
    intro frame _
    rw [hsub]
    cases frame <;> rfl
  unfold deliver
  rw [hall]

/-! ## What the tab has got -/

namespace Tab

/-- What is in the queue of the tab's subscriber. -/
def waiting (s : Tab) : List MessageStreamFrame :=
  s.call.subscriber.elim [] fun k => s.net.hub.queue k

/-- **The frames that the tab has got, or will get**: of the calls that have returned, of the call
that has not, and those that wait for it. -/
def got (s : Tab) : List MessageStreamFrame := s.answers.flatten ++ s.call.frames ++ s.waiting

/-- The frames that an action adds. -/
def added (s : Tab) : TabAction → List MessageStreamFrame
  | .hub a => if s.call.subscriber = none then [] else s.net.sent a
  | _ => []

/-- The frames that still wait when the call returns. -/
def abandoned (s : Tab) : TabAction → List MessageStreamFrame
  | .run =>
    match s.call with
    | .head deadline frames _ => if s.isOver deadline frames then s.waiting else []
    | _ => []
  | _ => []

end Tab

/-! ## The steps of the tab -/

/-- **What can happen.** -/
inductive Moves (s : Tab) : TabAction → Tab → Prop
  | others {a : Action} {net : Net} (hstep : s.net.step a = some net)
      (hactor : ¬ (a.actor.isSome = true ∧ a.actor = s.call.subscriber)) :
        Moves s (.hub a) (s.others a net)
  | call (hidle : s.call = .idle) :
      Moves s .call
        { s with call := .head (s.net.clock + s.net.hub.pollMs) [] none, called := true }
  | leave {deadline : ℕ} {frames : List MessageStreamFrame} {subscriber : Option ℕ}
      (hcall : s.call = .head deadline frames subscriber)
        (hover : s.isOver deadline frames = true) :
      Moves s .run (s.finish s.net)
  | begin {deadline : ℕ} {frames : List MessageStreamFrame}
      (hcall : s.call = .head deadline frames none)
      (hover : s.isOver deadline frames = false) : Moves s .run (s.next deadline none)
  | wait {deadline k : ℕ} {frames : List MessageStreamFrame}
      (hcall : s.call = .head deadline frames (some k))
      (hover : s.isOver deadline frames = false) :
      Moves s .run { s with call := .racing deadline s.call.frames k }
  | take {deadline k : ℕ} (hk : s.call.subscriber = some k) (hover : s.abandoned .run = []) :
      Moves s .run (s.take deadline k)
  | timeout {k : ℕ} (hk : s.call.subscriber = some k) (hqueue : s.net.hub.queue k = []) :
      Moves s .timeout (s.finish { s.net with hub := s.net.hub.removeSubscriber k })

theorem abandoned_of_not_over {s : Tab} {deadline : ℕ} {frames : List MessageStreamFrame}
    {subscriber : Option ℕ} (hcall : s.call = .head deadline frames subscriber)
    (hover : s.isOver deadline frames = false) :
    s.abandoned .run = [] := by simp [Tab.abandoned, hcall, hover]

/-- **Nothing else can.** -/
theorem moves {s s' : Tab} {a : TabAction} (hstep : s.step a = some s') : Moves s a s' := by
  cases a with
  | hub a =>
    dsimp only [Tab.step] at hstep
    split_ifs at hstep with hactor
    obtain ⟨net, hnet, rfl⟩ := Option.map_eq_some_iff.mp hstep
    exact .others hnet hactor
  | call =>
    dsimp only [Tab.step] at hstep
    split at hstep
    · next hidle =>
      obtain rfl := Option.some.inj hstep
      exact .call hidle
    · exact absurd hstep (by simp)
  | run =>
    dsimp only [Tab.step] at hstep
    split at hstep
    · next deadline frames subscriber hcall =>
      split_ifs at hstep with hover
      · obtain rfl := Option.some.inj hstep
        exact .leave hcall hover
      · rw [Bool.not_eq_true] at hover
        obtain rfl := Option.some.inj hstep
        cases subscriber with
        | none => exact .begin hcall hover
        | some k =>
          unfold Tab.next
          dsimp only
          split_ifs with hempty
          · exact .wait hcall hover
          · exact .take (by rw [hcall]; rfl) (abandoned_of_not_over hcall hover)
    · next deadline frames k hcall =>
      split_ifs at hstep
      obtain rfl := Option.some.inj hstep
      exact .take (by rw [hcall]; rfl) (by simp [Tab.abandoned, hcall])
    · exact absurd hstep (by simp)
  | timeout =>
    dsimp only [Tab.step] at hstep
    split at hstep
    · next deadline frames k hcall =>
      split_ifs at hstep with hend
      obtain rfl := Option.some.inj hstep
      exact .timeout (by rw [hcall]; rfl) hend.2
    · exact absurd hstep (by simp)

/-- The subscriber of the tab is there, and has no filter. -/
structure Seated (s : Tab) : Prop where
  net : s.net.Wf
  own : ∀ k, s.call.subscriber = some k →
    ∃ sub, subscriber k s.net.hub.subscribers = some sub ∧ sub.filter = ⟨none⟩

theorem Seated.init (pollMs clock : ℕ) : Seated (Tab.init pollMs clock) :=
  ⟨.init pollMs clock, by simp [Tab.init, Call.subscriber]⟩

variable {s s' : Tab}

theorem waiting_eq {k : ℕ} (hk : s.call.subscriber = some k) : s.waiting = s.net.hub.queue k := by
  unfold Tab.waiting
  rw [hk]
  rfl

theorem Seated.take (h : Seated s) (deadline : ℕ) {k : ℕ} (hk : s.call.subscriber = some k) :
    Seated (s.take deadline k) ∧ (s.take deadline k).got = s.got := by
  obtain ⟨sub, hsub, hfilter⟩ := h.own k hk
  have hshift : subscriber k (s.net.hub.shift k).subscribers = some sub.shift := by
    rw [subscriber_shift, hsub]
    simp
  have hqueue : s.net.hub.queue k = sub.queue := queue_of_subscriber hsub
  have hqueue' : (s.net.hub.shift k).queue k = sub.shift.queue := queue_of_subscriber hshift
  have hcut : sub.queue.take 1 ++ sub.shift.queue = sub.queue := by
    unfold Hub.Subscriber.shift
    split
    · next hnil => simp [hnil]
    · next hcons => simp [hcons]
  refine ⟨⟨h.net.shift k, ?_⟩, ?_⟩
  · intro k' hk'
    obtain rfl : k = k' := Option.some.inj hk'
    refine ⟨_, hshift, ?_⟩
    unfold Hub.Subscriber.shift
    split <;> exact hfilter
  · have hwaiting : (s.take deadline k).waiting = sub.shift.queue := (waiting_eq rfl).trans hqueue'
    unfold Tab.got
    rw [hwaiting, waiting_eq hk, hqueue]
    change s.answers.flatten ++ (s.call.frames ++ (s.net.hub.queue k).take 1) ++ _ = _
    rw [hqueue]
    simp only [List.append_assoc, hcut]

theorem Seated.begin (h : Seated s) (deadline : ℕ) (hnone : s.call.subscriber = none) :
    Seated (s.next deadline none) ∧ (s.next deadline none).got = s.got := by
  have hnew : subscriber s.net.nextSubscriber (s.net.subscribe ⟨none⟩).hub.subscribers =
      some ⟨⟨none⟩, [], []⟩ := by
    rw [Net.subscribe_subscribers]
    exact subscriber_new (fun entry hentry => (h.net.ids entry hentry).ne) _
  refine ⟨⟨h.net.subscribe _, ?_⟩, ?_⟩
  · intro k hk
    obtain rfl : s.net.nextSubscriber = k := Option.some.inj hk
    exact ⟨_, hnew, rfl⟩
  · have hwaiting : (s.next deadline none).waiting = [] :=
      (waiting_eq rfl).trans (queue_of_subscriber hnew)
    have hwaiting' : s.waiting = [] := by
      unfold Tab.waiting
      rw [hnone]
      rfl
    unfold Tab.got
    rw [hwaiting, hwaiting']
    rfl

/-- The call returns: what waits is left behind. -/
theorem got_finish (s : Tab) (net : Net) : s.got = (s.finish net).got ++ s.waiting := by
  simp [Tab.got, Tab.finish, Tab.waiting, Call.frames, Call.subscriber]

/-- **What an action of others adds**: all that is broadcast, if the tab is subscribed. -/
theorem Seated.others (h : Seated s) {a : Action} {net : Net} (hstep : s.net.step a = some net)
    (hactor : ¬ (a.actor.isSome = true ∧ a.actor = s.call.subscriber)) :
    Seated (s.others a net) ∧
      (s.others a net).got = s.got ++ (if s.call.subscriber = none then [] else s.net.sent a) := by
  have hafter : ∀ k, s.call.subscriber = some k → ∀ sub,
    subscriber k s.net.hub.subscribers = some sub →
      subscriber k net.hub.subscribers = some (deliver (s.net.sent a) sub) := by
    intro k hk sub hsub
    exact Net.step_subscriber hstep hsub fun ha => hactor ⟨by rw [ha]; rfl, ha.trans hk.symm⟩
  refine ⟨⟨h.net.step hstep, ?_⟩, ?_⟩
  · intro k hk
    obtain ⟨sub, hsub, hfilter⟩ := h.own k hk
    exact ⟨_, hafter k hk sub hsub, hfilter⟩
  · unfold Tab.got
    rcases hcall : s.call.subscriber with _ | k
    · simp [Tab.others, Tab.waiting, hcall]
    · obtain ⟨sub, hsub, hfilter⟩ := h.own k hcall
      have hwaiting : (s.others a net).waiting = (deliver (s.net.sent a) sub).queue :=
        (@waiting_eq (s.others a net) k hcall).trans (queue_of_subscriber (hafter k hcall sub hsub))
      rw [hwaiting, deliver_queue hfilter, waiting_eq hcall, queue_of_subscriber hsub]
      simp [Tab.others]

/-- **What a step does with the frames.** -/
theorem Seated.step (h : Seated s) {a : TabAction} (hstep : s.step a = some s') :
    Seated s' ∧ s'.got ++ s.abandoned a = s.got ++ s.added a := by
  cases moves hstep with
  | others hnet hactor =>
    obtain ⟨hseated, hgot⟩ := h.others hnet hactor
    exact ⟨hseated, (List.append_nil _).trans hgot⟩
  | call hidle =>
    refine ⟨⟨h.net, by simp [Call.subscriber]⟩, ?_⟩
    simp [Tab.got, Tab.waiting, Tab.abandoned, Tab.added, hidle, Call.frames, Call.subscriber]
  | leave hcall hover =>
    refine ⟨⟨h.net, by simp [Tab.finish, Call.subscriber]⟩, ?_⟩
    have hwaiting : s.abandoned .run = s.waiting := by simp [Tab.abandoned, hcall, hover]
    rw [hwaiting, ← got_finish]
    exact (List.append_nil _).symm
  | begin hcall hover =>
    obtain ⟨hseated, hgot⟩ := h.begin _ (by rw [hcall]; rfl)
    refine ⟨hseated, ?_⟩
    rw [abandoned_of_not_over hcall hover, hgot]
    rfl
  | @wait deadline k frames hcall hover =>
    have hk : s.call.subscriber = some k := by rw [hcall]; rfl
    refine ⟨⟨h.net, fun k' hk' => h.own k' (hk.trans hk')⟩, ?_⟩
    rw [abandoned_of_not_over hcall hover]
    simp [Tab.got, Tab.waiting, Tab.added, hcall, Call.frames, Call.subscriber]
  | take hk hover =>
    obtain ⟨hseated, hgot⟩ := h.take _ hk
    refine ⟨hseated, ?_⟩
    rw [hover, hgot]
    rfl
  | @timeout k hk hqueue =>
    refine ⟨⟨h.net.unsubscribe k, by simp [Tab.finish, Call.subscriber]⟩, ?_⟩
    have hgot := got_finish s { s.net with hub := s.net.hub.removeSubscriber k }
    rw [waiting_eq hk, hqueue, List.append_nil] at hgot
    rw [hgot]
    rfl

/-! ## What a step hands on -/

/-- What an action broadcasts. -/
def Tab.sent (s : Tab) : TabAction → List MessageStreamFrame
  | .hub a => s.net.sent a
  | _ => []

theorem receives_step {a : TabAction} (hstep : s.step a = some s') :
    Net.Receives (s.sent a) s.net.hub.subscribers s'.net.hub.subscribers := by
  cases moves hstep with
  | others hnet hactor => exact Net.step_receives hnet
  | call hidle => exact Net.receives_of_subset (fun _ h => h) _
  | leave hcall hover => exact Net.receives_of_subset (fun _ h => h) _
  | begin hcall hover => exact Net.receives_subscribe s.net _
  | wait hcall hover => exact Net.receives_of_subset (fun _ h => h) _
  | take hk hover => exact Net.receives_shift _ s.net.hub
  | timeout hk hqueue => exact Net.receives_remove _ s.net.hub

theorem returned_step {a : TabAction} (hstep : s.step a = some s') :
    returned s'.net.log = returned s.net.log ++ a.rows.map StreamCandidate.pair := by
  cases moves hstep with
  | others hnet hactor => exact Net.step_returned hnet
  | begin hcall hover => exact (Net.returned_subscribe s.net _).trans (List.append_nil _).symm
  | _ => exact (List.append_nil _).symm

theorem framePairs_sent (s : Tab) (a : TabAction) :
    framePairs (s.sent a) = (emitted s.net.hub.seen a.rows).map StreamCandidate.pair := by
  cases a with
  | hub a => exact Net.framePairs_sent s.net a
  | _ => rfl

theorem added_sublist (s : Tab) (a : TabAction) : (s.added a).Sublist (s.sent a) := by
  cases a with
  | hub a =>
    unfold Tab.added
    split_ifs
    · exact List.nil_sublist _
    · exact List.Sublist.refl _
  | _ => exact List.Sublist.refl _

/-! ## No update is lost -/

/-- **What holds in a run that keeps its updates.** -/
structure Tracked (s : Tab) : Prop extends Seated s where
  kept : ∀ p ∈ s.fresh, p ∈ framePairs s.got
  due : ∀ p ∈ s.due, p ∈ s.fresh

theorem Tracked.init (pollMs clock : ℕ) : Tracked (Tab.init pollMs clock) where
  toSeated := .init pollMs clock
  kept := by simp [Tab.init]
  due := by simp [Tab.init]

theorem Tracked.delivered (h : Tracked s) : Delivered s := by
  intro hidle p hp
  have hgot := h.kept p (h.due p hp)
  simpa [Tab.got, Tab.waiting, hidle, Call.frames, Call.subscriber] using hgot

/-- **A pair that no fetch has returned before is not remembered.** -/
theorem key_notMem_seen {net : Net} (h : net.Wf) {row : StreamCandidate}
    (hrow : row.pair ∉ returned net.log) :
    key row.id row.version ∉ net.hub.seen := by
  intro hseen
  obtain ⟨p, hp, hkey⟩ := h.seen _ hseen
  obtain ⟨hid, hversion⟩ := key_inj hkey
  have hpair : p = row.pair := Prod.ext hid hversion
  exact hrow (hpair ▸ hp)

/-- What a fetch returns for the first time is broadcast. -/
theorem mem_sent_of_first {net : Net} (h : net.Wf) {fetch : ℕ}
    {result : Option (List StreamCandidate)} {p : String × ℕ} (hp : p ∈ firstOf net.log result) :
    p ∈ framePairs (net.sent (.settle fetch result)) := by
  cases result with
  | none => exact absurd hp (by simp [firstOf])
  | some rows =>
    obtain ⟨hmem, hfirst⟩ := List.mem_filter.mp hp
    obtain ⟨row, hrow, rfl⟩ := List.mem_map.mp hmem
    obtain ⟨row', hrow', hpair⟩ :=
      exists_emitted hrow (key_notMem_seen h (of_decide_eq_true hfirst))
    rw [Net.framePairs_sent]
    exact List.mem_map.mpr ⟨row', hrow', hpair⟩

/-- What becomes of the pairs that the tab should get. -/
theorem fresh_step {a : TabAction} (hstep : s.step a = some s') :
    (s'.fresh = s.fresh ∧ (s'.due = s.due ∨ s'.due = s.fresh)) ∨
      ∃ fetch result, a = .hub (.settle fetch result) ∧ s.called = true ∧ s'.due = s.due ∧
        s'.fresh = s.fresh ++ firstOf s.net.log result := by
  cases moves hstep with
  | @others a net hnet hactor =>
    cases a with
    | settle fetch result =>
      by_cases hcalled : s.called = true
      · exact Or.inr ⟨fetch, result, rfl, hcalled, rfl, by simp [Tab.others, hcalled]⟩
      · exact Or.inl ⟨by simp [Tab.others, hcalled], Or.inl rfl⟩
    | _ => exact Or.inl ⟨rfl, Or.inl rfl⟩
  | call hidle => exact Or.inl ⟨rfl, Or.inl rfl⟩
  | leave hcall hover => exact Or.inl ⟨rfl, Or.inr rfl⟩
  | begin hcall hover => exact Or.inl ⟨rfl, Or.inl rfl⟩
  | wait hcall hover => exact Or.inl ⟨rfl, Or.inl rfl⟩
  | take hk hover => exact Or.inl ⟨rfl, Or.inl rfl⟩
  | timeout hk hqueue => exact Or.inl ⟨rfl, Or.inr rfl⟩

/-- The condition on a call that returns. -/
theorem framePairs_abandoned {a : TabAction} (hq : Kept s a) : framePairs (s.abandoned a) = [] := by
  cases a with
  | run =>
    unfold Tab.abandoned
    dsimp only [Kept] at hq ⊢
    split
    · next deadline frames subscriber hcall =>
      rw [hcall] at hq
      split_ifs with hover
      · cases subscriber with
        | none => simp [Tab.waiting, hcall, Call.subscriber, framePairs]
        | some k =>
          rw [waiting_eq (k := k) (by rw [hcall]; rfl)]
          exact hq hover
      · rfl
    · rfl
  | _ => rfl

/-- **What a step keeps.** -/
theorem Tracked.step (h : Tracked s) {a : TabAction} (hstep : s.step a = some s') (hq : Kept s a) :
    Tracked s' := by
  obtain ⟨hseated, hgot⟩ := h.toSeated.step hstep
  have hpairs : framePairs s'.got = framePairs s.got ++ framePairs (s.added a) := by
    rw [← framePairs_append, ← hgot, framePairs_append, framePairs_abandoned hq, List.append_nil]
  have hold : ∀ p ∈ framePairs s.got, p ∈ framePairs s'.got := by
    intro p hp
    rw [hpairs]
    exact List.mem_append_left _ hp
  rcases fresh_step hstep with ⟨hfresh, hdue⟩ | ⟨fetch, result, rfl, hcalled, hdue, hfresh⟩
  · refine ⟨hseated, ?_, ?_⟩
    · rw [hfresh]
      exact fun p hp => hold p (h.kept p hp)
    · rw [hfresh]
      rcases hdue with hdue | hdue
      · rw [hdue]
        exact h.due
      · rw [hdue]
        exact fun p hp => hp
  · refine ⟨hseated, ?_, ?_⟩
    · rw [hfresh]
      intro p hp
      rcases List.mem_append.mp hp with hp | hp
      · exact hold p (h.kept p hp)
      · have hsubscribed := hq hcalled (List.ne_nil_of_mem hp)
        rw [hpairs]
        dsimp only [Tab.added]
        rw [if_neg hsubscribed]
        exact List.mem_append_right _ (mem_sent_of_first h.net hp)
    · rw [hfresh, hdue]
      exact fun p hp => List.mem_append_left _ (h.due p hp)

/-- **No update is lost in a run that keeps them.** -/
theorem always_delivered (pollMs clock : ℕ) (actions : List TabAction)
    (h : Along Tab.step (fun s a _ => Kept s a) (Tab.init pollMs clock) actions) :
    Always Tab.step Delivered (Tab.init pollMs clock) actions :=
  h.always (I := Tracked) (fun _ hs => hs.delivered) (fun _ _ _ hs hstep hq => hs.step hstep hq)
    (.init pollMs clock)

/-- A message of the second version. -/
def sampleRow : StreamCandidate :=
  ⟨"m1", "app1", .submitted, none, .mtn, 1, 2, "2026-08-08T00:00:00.000Z", none⟩

/-- The fetch that the call begins ends while the call waits. -/
def keeping : List TabAction :=
  [.call, .run, .hub (.wait 100), .hub (.settle 0 (some [sampleRow])), .run, .run,
    .hub (.wait 2000), .timeout]

theorem always_delivered_keeping :
    (exec Tab.step (Tab.init 2000 0) keeping).map (fun s => (s.due, framePairs s.answers.flatten)) =
        some ([("m1", 2)], [("m1", 2)]) ∧
      Always Tab.step Delivered (Tab.init 2000 0) keeping :=
  ⟨by decide, always_delivered 2000 0 keeping (by decide)⟩

/-! ## A lost update -/

/-- The row is remembered, and the tab has not got it. -/
structure Gone (row : StreamCandidate) (s : Tab) : Prop extends Seated s where
  seen : key row.id row.version ∈ s.net.hub.seen
  absent : row.pair ∉ framePairs s.got

theorem seen_step {a : TabAction} (hstep : s.step a = some s') :
    s'.net.hub.seen = seenAfter s.net.hub.seen a.rows := by
  cases moves hstep with
  | others hnet hactor => exact Net.step_seen hnet
  | call hidle => rfl
  | leave hcall hover => rfl
  | begin hcall hover => exact Net.subscribe_seen s.net _
  | wait hcall hover => rfl
  | take hk hover => rfl
  | timeout hk hqueue =>
    simp only [Tab.finish, removeSubscriber_frame]
    rfl

/-- What is remembered is not broadcast. -/
theorem framePairs_added {a : TabAction}
    (h : ∀ row ∈ a.rows, key row.id row.version ∈ s.net.hub.seen) :
    framePairs (s.added a) = [] := by
  have hnone : framePairs (s.sent a) = [] := by
    rw [framePairs_sent, (emitted_eq_nil h).1]
    rfl
  refine List.sublist_nil.mp ?_
  rw [← hnone]
  exact (added_sublist s a).filterMap _

theorem Gone.step {row : StreamCandidate} (h : Gone row s) {a : TabAction}
    (hstep : s.step a = some s') (honly : ∀ row' ∈ a.rows, row' = row) : Gone row s' := by
  obtain ⟨hseated, hgot⟩ := h.toSeated.step hstep
  have hseen : ∀ row' ∈ a.rows, key row'.id row'.version ∈ s.net.hub.seen := by
    intro row' hrow'
    rw [honly row' hrow']
    exact h.seen
  refine ⟨hseated, ?_, ?_⟩
  · rw [seen_step hstep, (emitted_eq_nil hseen).2]
    exact h.seen
  · intro hp
    have hpairs : framePairs s'.got ++ framePairs (s.abandoned a) = framePairs s.got := by
      rw [← framePairs_append, hgot, framePairs_append, framePairs_added hseen, List.append_nil]
    refine h.absent ?_
    rw [← hpairs]
    exact List.mem_append_left _ hp

/-- **An update that is lost stays lost** as long as the gateway has nothing else to say. -/
theorem Gone.after {row : StreamCandidate} (h : Gone row s) {later : List TabAction}
    (hrun : exec Tab.step s later = some s') (hlater : ∀ a ∈ later, ∀ row' ∈ a.rows, row' = row) :
    Gone row s' := by
  refine exec_invariant (P := fun _ a _ => ∀ row' ∈ a.rows, row' = row)
    (fun t a t' ht hstep hq => ht.step hstep hq) h hrun ?_
  exact (along_true s later).imp fun a ha t t' _ => hlater a ha

/-- Another tab is subscribed all the time. The fetch of the second tick ends between two calls; the
next one returns the same row during a call. -/
def losing : List TabAction :=
  [.hub (.subscribe ⟨none⟩), .hub (.settle 0 (some [])), .call, .run, .hub (.wait 2000), .timeout,
   .hub .tick, .hub (.wait 1), .hub (.settle 1 (some [sampleRow])), .call, .run,
     .hub (.wait 2000), .hub .tick,
   .hub (.settle 2 (some [sampleRow])), .timeout]

/-- **The tab never gets the second version**: not from the calls that it has made, nor from any
later one as long as fetches return what they returned. -/
theorem losing_not_delivered :
    ∃ s, exec Tab.step (Tab.init 2000 0) losing = some s ∧ ¬ Delivered s ∧ s.due = [("m1", 2)] ∧
      ∀ later s', exec Tab.step s later = some s' → (∀ a ∈ later, ∀ row ∈ a.rows, row = sampleRow) →
        ("m1", 2) ∉ framePairs s'.answers.flatten := by
  have hrun : (exec Tab.step (Tab.init 2000 0) losing).map
      (fun s => (s.call, s.answers, s.due, s.net.hub.seen)) =
      some (.idle, [[], []], [("m1", 2)], ["m1:2"]) := by rfl
  obtain ⟨s, hs, hstate⟩ := exec_eval hrun
  simp only [Prod.mk.injEq] at hstate
  obtain ⟨hcall, hanswers, hdue, hseen⟩ := hstate
  have hseated : Seated s :=
    exec_invariant' (fun t a t' ht hstep => (ht.step hstep).1) (.init 2000 0) hs
  refine ⟨s, hs, ?_, hdue, ?_⟩
  · intro hdelivered
    have hlost := hdelivered hcall ("m1", 2) (by rw [hdue]; exact List.mem_singleton_self _)
    rw [hanswers] at hlost
    exact absurd hlost (by decide)
  · intro later s' hlater honly hgot
    have hgone : Gone sampleRow s := by
      refine ⟨hseated, ?_, ?_⟩
      · rw [hseen]
        decide
      · simp [Tab.got, Tab.waiting, hcall, hanswers, Call.frames, Call.subscriber, framePairs]
    refine (hgone.after hlater honly).absent ?_
    unfold Tab.got
    rw [List.append_assoc, framePairs_append]
    exact List.mem_append_left _ hgot

end Vsms.Console.LongPoll
