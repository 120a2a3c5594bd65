import Vsms.Lib.Json
import Vsms.Lib.Runs
import Vsms.Schema.Types
import Mathlib.Data.List.Basic

/-! # The stream hub of the console

`MessageStreamHub`: any number of subscribers share one poll loop against the gateway. A timer runs
while there is a subscriber; a tick before `nextAllowedPollAt` does nothing; a fetch that has ended
moves that gate and hands to every subscriber the pairs of a message and a version that are not in
`seen`, which forgets its oldest entry at `seenCap`.

What the hub is given are its subscribers, the ticks of its timer and the ends of its fetches, in
any order (`Action`); a fetch that has begun ends whenever it ends, subscribers or not. `Net` is the
hub with the clock, the fetches that are in flight and the `log` of all of them. Times are
milliseconds. -/

namespace Vsms.Console.Hub

open Vsms.Schema.Types Vsms.Lib.Runs

/-! ## Frames -/

/-- The columns a poll asks for. -/
structure StreamCandidate where
  id : String
  appId : String
  state : MessageState
  stateReason : Option String
  operator : OperatorCode
  segments : ℕ
  version : ℕ
  updatedAt : String
  providerMessageRef : Option String
  deriving DecidableEq, Repr

structure MessageStateEvent where
  id : String
  appId : String
  state : MessageState
  stateReason : Option String
  operator : OperatorCode
  segments : ℕ
  version : ℕ
  occurredAt : String
  providerMessageRef : Option String
  deriving DecidableEq, Repr

inductive MessageStreamFrame
  | message (event : MessageStateEvent)
  | degraded (retryInMs : ℕ)
  | recovered
  deriving DecidableEq, Repr

structure MessageStreamFilter where
  /-- `none` for all. -/
  states : Option (List MessageState)
  deriving DecidableEq, Repr

def seenCap : ℕ := 2000

def baseBackoffMs : ℕ := 2000

def maxBackoffMs : ℕ := 30000

/-- A running generator: what waits in its queue, and what it has yielded before. -/
structure Subscriber where
  filter : MessageStreamFilter
  queue : List MessageStreamFrame
  yielded : List MessageStreamFrame
  deriving DecidableEq, Repr

/-- What a subscriber has received. -/
def Subscriber.received (sub : Subscriber) : List MessageStreamFrame := sub.yielded ++ sub.queue

/-- `queue.shift()`, and the `yield` of what it gives. -/
def Subscriber.shift (sub : Subscriber) : Subscriber :=
  match sub.queue with
  | [] => sub
  | frame :: rest => { sub with queue := rest, yielded := sub.yielded ++ [frame] }

def toEvent (row : StreamCandidate) : MessageStateEvent where
  id := row.id
  appId := row.appId
  state := row.state
  stateReason := row.stateReason
  operator := row.operator
  segments := row.segments
  version := row.version
  occurredAt := row.updatedAt
  providerMessageRef := row.providerMessageRef

def matchesFilter (event : MessageStateEvent) (filter : MessageStreamFilter) : Bool :=
  match filter.states with
  | none => true
  | some states => event.state ∈ states

/-- The key under which a pair is remembered. -/
def key (id : String) (version : ℕ) : String := id ++ ":" ++ toString version

def StreamCandidate.pair (row : StreamCandidate) : String × ℕ := (row.id, row.version)

def MessageStateEvent.pair (event : MessageStateEvent) : String × ℕ := (event.id, event.version)

/-- The pairs of the `message` frames. -/
def framePairs (frames : List MessageStreamFrame) : List (String × ℕ) :=
  frames.filterMap fun
    | .message event => some event.pair
    | _ => none

/-! ## The hub -/

structure MessageStreamHub where
  pollMs : ℕ
  /-- In the order of a `Set`; the first component stands for the object. -/
  subscribers : List (ℕ × Subscriber)
  /-- The keys of the `Map`, the oldest first. -/
  seen : List String
  /-- When the timer may next fire. -/
  timer : Option ℕ
  nextAllowedPollAt : ℕ
  consecutiveFailures : ℕ
  degraded : Bool
  deriving DecidableEq, Repr

namespace MessageStreamHub

/-- The constructor. -/
def new (pollMs : ℕ) : MessageStreamHub := ⟨pollMs, [], [], none, 0, 0, false⟩

/-- Whether the filter of a subscriber lets a frame through. -/
def passes (frame : MessageStreamFrame) (filter : MessageStreamFilter) : Bool :=
  match frame with
  | .message event => matchesFilter event filter
  | _ => true

/-- What `broadcast` does to one subscriber. -/
def push (frame : MessageStreamFrame) (sub : Subscriber) : Subscriber :=
  if passes frame sub.filter then { sub with queue := sub.queue ++ [frame] } else sub

/-- **`broadcast`** -/
def broadcast (frame : MessageStreamFrame) (hub : MessageStreamHub) : MessageStreamHub :=
  { hub with subscribers := hub.subscribers.map fun entry => (entry.1, push frame entry.2) }

/-- The keys after one more, which was not there. -/
def remembered (seen : List String) (k : String) : List String :=
  if seenCap < (seen ++ [k]).length then (seen ++ [k]).tail else seen ++ [k]

/-- **`remember`** -/
def remember (k : String) (hub : MessageStreamHub) : MessageStreamHub :=
  { hub with seen := remembered hub.seen k }

/-- One row of a fetch. -/
def emit (hub : MessageStreamHub) (row : StreamCandidate) : MessageStreamHub :=
  if key row.id row.version ∈ hub.seen then hub
  else broadcast (.message (toEvent row)) (remember (key row.id row.version) hub)

/-- `poll`, when its fetch has succeeded: the gate and the state of the connection. -/
def recover (now : ℕ) (hub : MessageStreamHub) : MessageStreamHub :=
  let settled :=
    { hub with nextAllowedPollAt := now + hub.pollMs, consecutiveFailures := 0, degraded := false }
  if hub.degraded then broadcast .recovered settled else settled

/-- **`poll`, when its fetch has succeeded.** -/
def fetched (now : ℕ) (rows : List StreamCandidate) (hub : MessageStreamHub) : MessageStreamHub :=
  rows.foldl emit (recover now hub)

/-- `BASE_BACKOFF_MS * 2 ** (failures - 1)`, at most `MAX_BACKOFF_MS`. -/
def backoff (failures : ℕ) : ℕ := min maxBackoffMs (baseBackoffMs * 2 ^ (failures - 1))

/-- **`poll`, when its fetch has failed.** -/
def failed (now : ℕ) (hub : MessageStreamHub) : MessageStreamHub :=
  let failures := hub.consecutiveFailures + 1
  let settled :=
    { hub with
      consecutiveFailures := failures
      nextAllowedPollAt := now + backoff failures
      degraded := true }
  if hub.degraded then settled else broadcast (.degraded (backoff failures)) settled

/-- **`poll`, up to its fetch**: whether there is one. -/
def poll (now : ℕ) (hub : MessageStreamHub) : Bool := hub.nextAllowedPollAt ≤ now

/-- **`start`**, and whether it fetches. -/
def start (now : ℕ) (hub : MessageStreamHub) : MessageStreamHub × Bool :=
  let opened := { hub with nextAllowedPollAt := 0 }
  ({ opened with timer := some (now + hub.pollMs) }, poll now opened)

def stop (hub : MessageStreamHub) : MessageStreamHub := { hub with timer := none }

/-- **`addSubscriber`**, and whether it fetches. -/
def addSubscriber (now k : ℕ) (filter : MessageStreamFilter) (hub : MessageStreamHub) :
    MessageStreamHub × Bool :=
  let added := { hub with subscribers := hub.subscribers ++ [(k, ⟨filter, [], []⟩)] }
  if added.subscribers.length = 1 then start now added else (added, false)

/-- **`removeSubscriber`** -/
def removeSubscriber (k : ℕ) (hub : MessageStreamHub) : MessageStreamHub :=
  let removed := { hub with subscribers := hub.subscribers.filter (·.1 ≠ k) }
  if removed.subscribers.length = 0 then stop removed else removed

/-- The subscriber of a number. -/
def subscriber (k : ℕ) (subscribers : List (ℕ × Subscriber)) : Option Subscriber :=
  (subscribers.find? (·.1 = k)).map (·.2)

def queue (k : ℕ) (hub : MessageStreamHub) : List MessageStreamFrame :=
  ((subscriber k hub.subscribers).map (·.queue)).getD []

def shift (k : ℕ) (hub : MessageStreamHub) : MessageStreamHub :=
  { hub with
    subscribers := hub.subscribers.map fun entry =>
      if entry.1 = k then (entry.1, entry.2.shift) else entry }

end MessageStreamHub

/-! ## The hub and what happens to it -/

/-- What becomes of fetches, in the order of time. -/
inductive FetchEvent
  | started (now : ℕ)
  | succeeded (now : ℕ) (rows : List StreamCandidate)
  | failed (now : ℕ)
  deriving DecidableEq, Repr

structure Net where
  hub : MessageStreamHub
  clock : ℕ
  inFlight : List ℕ
  log : List FetchEvent
  /-- The fetches and the subscribers so far: the next one of each gets this number. -/
  nextFetch : ℕ
  nextSubscriber : ℕ
  deriving DecidableEq, Repr

inductive Action
  | wait (ms : ℕ)
  | subscribe (filter : MessageStreamFilter)
  | unsubscribe (k : ℕ)
  /-- A subscriber asks for its next frame, and there is one. -/
  | next (k : ℕ)
  | tick
  /-- A fetch ends, with rows or in an error. -/
  | settle (fetch : ℕ) (result : Option (List StreamCandidate))
  deriving DecidableEq, Repr

namespace Net

def init (pollMs clock : ℕ) : Net := ⟨.new pollMs, clock, [], [], 0, 0⟩

/-- The hub has called `fetchWindow`, or has not. -/
def call (s : Net) (hub : MessageStreamHub) (fetches : Bool) : Net :=
  if fetches then
    { s with
      hub := hub
      inFlight := s.inFlight ++ [s.nextFetch]
      log := s.log ++ [.started s.clock]
      nextFetch := s.nextFetch + 1 }
  else { s with hub := hub }

/-- A new generator is first asked for a frame. -/
def subscribe (s : Net) (filter : MessageStreamFilter) : Net :=
  let (hub, fetches) := s.hub.addSubscriber s.clock s.nextSubscriber filter
  { call s hub fetches with nextSubscriber := s.nextSubscriber + 1 }

/-- The timer fires. -/
def tick (s : Net) : Net :=
  call s { s.hub with timer := some (s.clock + s.hub.pollMs) } (s.hub.poll s.clock)

/-- A fetch ends. -/
def settle (s : Net) (fetch : ℕ) : Option (List StreamCandidate) → Net
  | some rows =>
    { s with
      hub := s.hub.fetched s.clock rows
      inFlight := s.inFlight.filter (· ≠ fetch)
      log := s.log ++ [.succeeded s.clock rows] }
  | none =>
    { s with
      hub := s.hub.failed s.clock
      inFlight := s.inFlight.filter (· ≠ fetch)
      log := s.log ++ [.failed s.clock] }

/-- The numbers of the subscribers. -/
def subscriberIds (s : Net) : List ℕ := s.hub.subscribers.map (·.1)

def step (s : Net) : Action → Option Net
  | .wait ms => some { s with clock := s.clock + ms }
  | .subscribe filter => some (s.subscribe filter)
  | .unsubscribe k =>
    if k ∈ s.subscriberIds then some { s with hub := s.hub.removeSubscriber k } else none
  | .next k => if s.hub.queue k = [] then none else some { s with hub := s.hub.shift k }
  | .tick => if s.hub.timer.any (· ≤ s.clock) then some s.tick else none
  | .settle fetch result => if fetch ∈ s.inFlight then some (s.settle fetch result) else none

/-- **What can happen.** -/
inductive Moves (s : Net) : Action → Net → Prop
  | wait (ms : ℕ) : Moves s (.wait ms) { s with clock := s.clock + ms }
  | subscribe (filter : MessageStreamFilter) : Moves s (.subscribe filter) (s.subscribe filter)
  | unsubscribe (k : ℕ) : Moves s (.unsubscribe k) { s with hub := s.hub.removeSubscriber k }
  | next (k : ℕ) : Moves s (.next k) { s with hub := s.hub.shift k }
  | tick (hdue : s.hub.timer.any (· ≤ s.clock) = true) : Moves s .tick s.tick
  | settle (fetch : ℕ) (result : Option (List StreamCandidate)) :
      Moves s (.settle fetch result) (s.settle fetch result)

theorem moves {s s' : Net} {a : Action} (hstep : s.step a = some s') : Moves s a s' := by
  cases a with
  | wait ms =>
    obtain rfl := Option.some.inj hstep
    exact .wait ms
  | subscribe filter =>
    obtain rfl := Option.some.inj hstep
    exact .subscribe filter
  | unsubscribe k =>
    dsimp only [Net.step] at hstep
    split_ifs at hstep
    obtain rfl := Option.some.inj hstep
    exact .unsubscribe k
  | next k =>
    dsimp only [Net.step] at hstep
    split_ifs at hstep
    obtain rfl := Option.some.inj hstep
    exact .next k
  | tick =>
    dsimp only [Net.step] at hstep
    split_ifs at hstep with hdue
    obtain rfl := Option.some.inj hstep
    exact .tick hdue
  | settle fetch result =>
    dsimp only [Net.step] at hstep
    split_ifs at hstep
    obtain rfl := Option.some.inj hstep
    exact .settle fetch result

end Net

theorem framePairs_append (frames frames' : List MessageStreamFrame) :
    framePairs (frames ++ frames') = framePairs frames ++ framePairs frames' :=
  List.filterMap_append

/-! ## Keys -/

theorem toList_key (id : String) (version : ℕ) :
    (key id version).toList = id.toList ++ ':' :: version.repr.toList := by
  simp [key, String.toList_append]

/-- **Keys tell pairs apart**: the last colon is the one before the version. -/
theorem key_inj {id id' : String} {version version' : ℕ} (h : key id version = key id' version') :
    id = id' ∧ version = version' := by
  have hlist : id.toList ++ ':' :: version.repr.toList =
      id'.toList ++ ':' :: version'.repr.toList := by
    rw [← toList_key, ← toList_key, h]
  have hdigits (n : ℕ) (c : Char) (hc : c ∈ n.repr.toList) : ¬ c = ':' := by
    rintro rfl
    exact Lib.Framing.notMem_repr rfl n hc
  obtain ⟨hid, -, hversion⟩ := last_unique (K := (· = ':')) hlist rfl rfl (hdigits version)
    (hdigits version')
  exact ⟨String.toList_inj.mp hid, Lib.Json.repr_toList_inj hversion⟩

theorem key_pair_inj {row row' : StreamCandidate}
    (h : key row.id row.version = key row'.id row'.version) : row.pair = row'.pair := by
  obtain ⟨hid, hversion⟩ := key_inj h
  exact Prod.ext hid hversion

/-! ## What the end of a fetch changes -/

namespace MessageStreamHub

/-- The rows of a fetch that are new to `seen` when it is their turn. -/
def emitted : List String → List StreamCandidate → List StreamCandidate
  | _, [] => []
  | seen, row :: rows =>
    if key row.id row.version ∈ seen then emitted seen rows
    else row :: emitted (remembered seen (key row.id row.version)) rows

/-- `seen` after the rows of a fetch. -/
def seenAfter : List String → List StreamCandidate → List String
  | seen, [] => seen
  | seen, row :: rows =>
    if key row.id row.version ∈ seen then seenAfter seen rows
    else seenAfter (remembered seen (key row.id row.version)) rows

/-- A subscriber after some frames have been broadcast. -/
def deliver (frames : List MessageStreamFrame) (sub : Subscriber) : Subscriber :=
  { sub with queue := sub.queue ++ frames.filter (passes · sub.filter) }

def deliverAll (frames : List MessageStreamFrame) (subscribers : List (ℕ × Subscriber)) :
    List (ℕ × Subscriber) := subscribers.map fun entry => (entry.1, deliver frames entry.2)

@[simp] theorem deliver_filter (frames : List MessageStreamFrame) (sub : Subscriber) :
    (deliver frames sub).filter = sub.filter := rfl

@[simp] theorem deliver_nil (sub : Subscriber) : deliver [] sub = sub := by simp [deliver]

theorem push_eq (frame : MessageStreamFrame) : push frame = deliver [frame] := by
  funext sub
  unfold push deliver
  split_ifs with hpasses <;> simp [hpasses]

theorem deliver_deliver (frames frames' : List MessageStreamFrame) (sub : Subscriber) :
    deliver frames' (deliver frames sub) = deliver (frames ++ frames') sub := by simp [deliver]

theorem deliverAll_nil (subscribers : List (ℕ × Subscriber)) :
    deliverAll [] subscribers = subscribers := by
  simp [deliverAll]

theorem deliverAll_deliverAll (frames frames' : List MessageStreamFrame)
    (subscribers : List (ℕ × Subscriber)) :
    deliverAll frames' (deliverAll frames subscribers) =
      deliverAll (frames ++ frames') subscribers := by
  simp [deliverAll, deliver_deliver]

theorem mem_deliverAll {frames : List MessageStreamFrame} {subscribers : List (ℕ × Subscriber)}
    {entry : ℕ × Subscriber} (h : entry ∈ deliverAll frames subscribers) :
    ∃ sub, (entry.1, sub) ∈ subscribers ∧ entry.2 = deliver frames sub := by
  obtain ⟨⟨k, sub⟩, hmem, rfl⟩ := List.mem_map.mp h
  exact ⟨sub, hmem, rfl⟩

theorem broadcast_eq (frame : MessageStreamFrame) (hub : MessageStreamHub) :
    broadcast frame hub = { hub with subscribers := deliverAll [frame] hub.subscribers } := by
  unfold broadcast deliverAll
  rw [push_eq]

/-- The rows of a fetch reach the queues and `seen`, and nothing else. -/
theorem foldl_emit (rows : List StreamCandidate) (hub : MessageStreamHub) :
    rows.foldl emit hub =
      { hub with
        subscribers := deliverAll ((emitted hub.seen rows).map (.message ∘ toEvent)) hub.subscribers
        seen := seenAfter hub.seen rows } := by
  induction rows generalizing hub with
  | nil => simp [emitted, seenAfter, deliverAll_nil]
  | cons row rows ih =>
    rw [List.foldl_cons, ih]
    by_cases hseen : key row.id row.version ∈ hub.seen
    · simp [emit, emitted, seenAfter, hseen]
    · simp [emit, emitted, seenAfter, hseen, broadcast_eq, remember, deliverAll_deliverAll]

/-- The frames of a fetch that has succeeded. -/
def newFrames (hub : MessageStreamHub) (rows : List StreamCandidate) : List MessageStreamFrame :=
  (if hub.degraded then [.recovered] else []) ++ (emitted hub.seen rows).map (.message ∘ toEvent)

theorem fetched_frame (now : ℕ) (rows : List StreamCandidate) (hub : MessageStreamHub) :
    fetched now rows hub =
      { hub with
        subscribers := deliverAll (newFrames hub rows) hub.subscribers
        seen := seenAfter hub.seen rows
        nextAllowedPollAt := now + hub.pollMs
        consecutiveFailures := 0
        degraded := false } := by
  unfold fetched recover newFrames
  rw [foldl_emit]
  split_ifs with hdegraded
  · simp [broadcast_eq, deliverAll_deliverAll]
  · rfl

theorem failed_frame (now : ℕ) (hub : MessageStreamHub) :
    failed now hub =
      { hub with
        subscribers := deliverAll
          (if hub.degraded then []
            else [.degraded (backoff (hub.consecutiveFailures + 1))]) hub.subscribers
        nextAllowedPollAt := now + backoff (hub.consecutiveFailures + 1)
        consecutiveFailures := hub.consecutiveFailures + 1
        degraded := true } := by
  unfold failed
  split_ifs with hdegraded
  · rw [deliverAll_nil]
  · rw [broadcast_eq]

theorem mem_remembered {seen : List String} {k x : String} (h : x ∈ remembered seen k) :
    x ∈ seen ∨ x = k := by
  unfold remembered at h
  split_ifs at h
  · simpa using List.mem_of_mem_tail h
  · simpa using h

/-- What is remembered was there before, or is of a row of the fetch. -/
theorem mem_seenAfter {seen : List String} {rows : List StreamCandidate} {x : String}
    (h : x ∈ seenAfter seen rows) : x ∈ seen ∨ ∃ row ∈ rows, key row.id row.version = x := by
  induction rows generalizing seen with
  | nil => exact Or.inl h
  | cons row rows ih =>
    unfold seenAfter at h
    split_ifs at h
    · rcases ih h with hx | ⟨row', hrow', hx⟩
      · exact Or.inl hx
      · exact Or.inr ⟨row', List.mem_cons_of_mem row hrow', hx⟩
    · rcases ih h with hx | ⟨row', hrow', hx⟩
      · rcases mem_remembered hx with hx | rfl
        · exact Or.inl hx
        · exact Or.inr ⟨row, List.mem_cons_self, rfl⟩
      · exact Or.inr ⟨row', List.mem_cons_of_mem row hrow', hx⟩

/-- A fetch that brings nothing new. -/
theorem emitted_eq_nil {seen : List String} {rows : List StreamCandidate}
    (h : ∀ row ∈ rows, key row.id row.version ∈ seen) :
    emitted seen rows = [] ∧ seenAfter seen rows = seen := by
  induction rows with
  | nil => exact ⟨rfl, rfl⟩
  | cons row rows ih =>
    unfold emitted seenAfter
    rw [if_pos (h row List.mem_cons_self), if_pos (h row List.mem_cons_self)]
    exact ih fun row' hrow' => h row' (List.mem_cons_of_mem row hrow')

/-- **A key that stays remembered is not emitted.** -/
theorem key_ne_of_emitted {seen : List String} {rows : List StreamCandidate} {k : String}
    (h : k ∈ seen.drop (seen.length + rows.length - seenCap)) :
    ∀ row ∈ emitted seen rows, key row.id row.version ≠ k := by
  induction rows generalizing seen with
  | nil => simp [emitted]
  | cons row rows ih =>
    rw [List.length_cons] at h
    unfold emitted
    split_ifs with hseen
    · exact ih (List.drop_subset_drop_left seen (by omega) h)
    · have hk : k ∈ seen := List.mem_of_mem_drop h
      intro row' hrow'
      rcases List.mem_cons.mp hrow' with rfl | hrow'
      · exact fun heq => hseen (heq ▸ hk)
      · refine ih ?_ row' hrow'
        -- One key more, and with it the oldest one less if there are too many.
        have hmore : k ∈ (seen ++ [key row.id row.version]).drop
            (seen.length + (rows.length + 1) - seenCap) := by
          rw [List.drop_append]
          exact List.mem_append_left _ h
        unfold remembered
        rw [List.length_append, List.length_singleton]
        split_ifs with hfull
        · rw [← List.drop_one, List.drop_drop, List.length_drop, List.length_append,
            List.length_singleton]
          exact List.drop_subset_drop_left _ (by omega) hmore
        · rw [List.length_append, List.length_singleton]
          exact List.drop_subset_drop_left _ (by omega) hmore

theorem emitted_sublist (seen : List String) (rows : List StreamCandidate) :
    (emitted seen rows).Sublist rows := by
  induction rows generalizing seen with
  | nil => exact List.Sublist.refl _
  | cons row rows ih =>
    unfold emitted
    split_ifs
    · exact (ih seen).cons row
    · exact (ih _).cons_cons row

/-- **A pair that is not remembered is broadcast.** -/
theorem exists_emitted {seen : List String} {rows : List StreamCandidate} {row : StreamCandidate}
    (hrow : row ∈ rows) (hseen : key row.id row.version ∉ seen) :
    ∃ row' ∈ emitted seen rows, row'.pair = row.pair := by
  induction rows generalizing seen with
  | nil => exact absurd hrow (by simp)
  | cons head rows ih =>
    unfold emitted
    by_cases hsame : key head.id head.version = key row.id row.version
    · rw [if_neg (hsame ▸ hseen)]
      exact ⟨head, List.mem_cons_self, key_pair_inj hsame⟩
    · have htail : row ∈ rows := (List.mem_cons.mp hrow).resolve_left fun h => hsame (h ▸ rfl)
      split_ifs with hhead
      · exact ih htail hseen
      · have hseen' : key row.id row.version ∉ remembered seen (key head.id head.version) :=
          fun h =>
          (mem_remembered h).elim hseen fun h => hsame h.symm
        obtain ⟨row', hrow', hpair⟩ := ih htail hseen'
        exact ⟨row', List.mem_cons_of_mem head hrow', hpair⟩

/-! ## Subscribers -/

theorem subscriber_deliverAll (k : ℕ) (frames : List MessageStreamFrame)
    (subscribers : List (ℕ × Subscriber)) :
    subscriber k (deliverAll frames subscribers) =
      (subscriber k subscribers).map (deliver frames) := by
  induction subscribers with
  | nil => rfl
  | cons entry subscribers ih =>
    unfold subscriber deliverAll at ih ⊢
    by_cases hk : entry.1 = k
    · simp [hk]
    · simpa [hk] using ih

theorem subscriber_filter {k k' : ℕ} (h : k ≠ k') (subscribers : List (ℕ × Subscriber)) :
    subscriber k (subscribers.filter (·.1 ≠ k')) = subscriber k subscribers := by
  induction subscribers with
  | nil => rfl
  | cons entry subscribers ih =>
    unfold subscriber at ih ⊢
    by_cases hk : entry.1 = k
    · have hk' : entry.1 ≠ k' := hk ▸ h
      simp [hk, h]
    · by_cases hk' : entry.1 = k'
      · simpa [hk, hk', Ne.symm h] using ih
      · simpa [hk, hk'] using ih

/-- A new subscriber leaves the others as they are. -/
theorem subscriber_append {k : ℕ} {subscribers : List (ℕ × Subscriber)} {sub : Subscriber}
    (h : subscriber k subscribers = some sub) (entry : ℕ × Subscriber) :
    subscriber k (subscribers ++ [entry]) = some sub := by
  obtain ⟨found, hfound, rfl⟩ := Option.map_eq_some_iff.mp h
  unfold subscriber
  rw [List.find?_append, hfound]
  rfl

theorem subscriber_new {k : ℕ} {subscribers : List (ℕ × Subscriber)}
    (h : ∀ entry ∈ subscribers, entry.1 ≠ k) (sub : Subscriber) :
    subscriber k (subscribers ++ [(k, sub)]) = some sub := by
  have hnone : subscribers.find? (·.1 = k) = none := by simpa using h
  unfold subscriber
  rw [List.find?_append, hnone]
  simp

theorem received_deliver (frames : List MessageStreamFrame) (sub : Subscriber) :
    (deliver frames sub).received = sub.received ++ frames.filter (passes · sub.filter) := by
  simp [deliver, Subscriber.received]

theorem received_shift (sub : Subscriber) : sub.shift.received = sub.received := by
  unfold Subscriber.shift
  split
  · rfl
  · next hqueue => simp [Subscriber.received, hqueue]

theorem subscriber_shift (k k' : ℕ) (hub : MessageStreamHub) :
    subscriber k (hub.shift k').subscribers =
      (subscriber k hub.subscribers).map fun sub => if k = k' then sub.shift else sub := by
  unfold MessageStreamHub.shift
  induction hub.subscribers with
  | nil => rfl
  | cons entry subscribers ih =>
    unfold subscriber at ih ⊢
    by_cases hk : entry.1 = k
    · subst hk
      by_cases hk' : entry.1 = k' <;> simp [hk']
    · by_cases hk' : entry.1 = k'
      · have hne : ¬ k' = k := hk' ▸ hk
        simpa [hk, hk', hne] using ih
      · simpa [hk, hk'] using ih

theorem queue_of_subscriber {k : ℕ} {hub : MessageStreamHub} {sub : Subscriber}
    (h : subscriber k hub.subscribers = some sub) : hub.queue k = sub.queue := by
  unfold queue
  rw [h]
  rfl

theorem addSubscriber_first {hub : MessageStreamHub} (h : hub.subscribers = []) (now k : ℕ)
    (filter : MessageStreamFilter) : addSubscriber now k filter hub =
      ({ hub with
          subscribers := [(k, ⟨filter, [], []⟩)]
          nextAllowedPollAt := 0
          timer := some (now + hub.pollMs) }, true) := by
  simp [addSubscriber, start, poll, h]

theorem addSubscriber_later {hub : MessageStreamHub} (h : hub.subscribers ≠ []) (now k : ℕ)
    (filter : MessageStreamFilter) : addSubscriber now k filter hub =
      ({ hub with subscribers := hub.subscribers ++ [(k, ⟨filter, [], []⟩)] }, false) := by
  simp [addSubscriber, h]

theorem removeSubscriber_frame (k : ℕ) (hub : MessageStreamHub) :
    removeSubscriber k hub =
      { hub with
        subscribers := hub.subscribers.filter (·.1 ≠ k)
        timer := if hub.subscribers.filter (·.1 ≠ k) = [] then none else hub.timer } := by
  unfold removeSubscriber
  simp only [List.length_eq_zero_iff]
  split_ifs with hempty <;> rfl

end MessageStreamHub

/-! ## The steps of the hub -/

/-- The pairs that fetches have returned. -/
def returned (log : List FetchEvent) : List (String × ℕ) :=
  log.flatMap fun
    | .succeeded _ rows => rows.map StreamCandidate.pair
    | _ => []

theorem returned_concat (log : List FetchEvent) (e : FetchEvent) :
    returned (log ++ [e]) = returned log ++ returned [e] := List.flatMap_append

/-- The subscriber that an action is about. -/
def Action.actor : Action → Option ℕ
  | .unsubscribe k => some k
  | .next k => some k
  | _ => none

/-- The rows of a fetch that succeeds. -/
def Action.rows : Action → List StreamCandidate
  | .settle _ (some rows) => rows
  | _ => []

namespace Net

open MessageStreamHub

variable {s s' : Net} {a : Action}

/-- What an action broadcasts. -/
def sent (s : Net) : Action → List MessageStreamFrame
  | .settle _ (some rows) => newFrames s.hub rows
  | .settle _ none => if s.hub.degraded then []
      else [.degraded (backoff (s.hub.consecutiveFailures + 1))]
  | _ => []

theorem subscribe_subscribers (s : Net) (filter : MessageStreamFilter) :
    (s.subscribe filter).hub.subscribers =
      s.hub.subscribers ++ [(s.nextSubscriber, ⟨filter, [], []⟩)] := by
  unfold subscribe
  by_cases h : s.hub.subscribers = []
  · rw [addSubscriber_first h, h]
    rfl
  · rw [addSubscriber_later h]
    rfl

theorem subscribe_seen (s : Net) (filter : MessageStreamFilter) :
    (s.subscribe filter).hub.seen = s.hub.seen := by
  unfold subscribe
  by_cases h : s.hub.subscribers = []
  · rw [addSubscriber_first h]
    rfl
  · rw [addSubscriber_later h]
    rfl

theorem returned_call (s : Net) (hub : MessageStreamHub) (fetches : Bool) :
    returned (s.call hub fetches).log = returned s.log := by
  cases fetches with
  | false => rfl
  | true =>
    change returned (s.log ++ [_]) = _
    rw [returned_concat]
    exact List.append_nil _

theorem returned_subscribe (s : Net) (filter : MessageStreamFilter) :
    returned (s.subscribe filter).log = returned s.log := returned_call s _ _

/-- The numbers of subscribers are not used again, and what is remembered has been returned by a
fetch. -/
structure Wf (s : Net) : Prop where
  ids : ∀ entry ∈ s.hub.subscribers, entry.1 < s.nextSubscriber
  seen : ∀ x ∈ s.hub.seen, ∃ p ∈ returned s.log, key p.1 p.2 = x

theorem Wf.init (pollMs clock : ℕ) : Wf (init pollMs clock) :=
  ⟨by simp [Net.init, new], by simp [Net.init, new]⟩

theorem Wf.subscribe (h : s.Wf) (filter : MessageStreamFilter) : (s.subscribe filter).Wf where
  ids := by
    rw [subscribe_subscribers]
    intro entry hentry
    change entry.1 < s.nextSubscriber + 1
    rcases List.mem_append.mp hentry with hentry | hentry
    · exact (h.ids entry hentry).trans (Nat.lt_succ_self _)
    · rw [List.mem_singleton.mp hentry]
      exact Nat.lt_succ_self _
  seen := by
    rw [subscribe_seen, returned_subscribe]
    exact h.seen

theorem Wf.settle (h : s.Wf) (fetch : ℕ) (result : Option (List StreamCandidate)) :
    (s.settle fetch result).Wf := by
  cases result with
  | some rows =>
    refine ⟨?_, ?_⟩
    all_goals simp only [Net.settle, fetched_frame]
    · intro entry hentry
      obtain ⟨sub, hmem, -⟩ := mem_deliverAll hentry
      exact h.ids (entry.1, sub) hmem
    · intro x hx
      rw [returned_concat]
      rcases mem_seenAfter hx with hx | ⟨row, hrow, rfl⟩
      · obtain ⟨p, hp, hkey⟩ := h.seen x hx
        exact ⟨p, List.mem_append_left _ hp, hkey⟩
      · refine ⟨row.pair, List.mem_append_right _ ?_, rfl⟩
        simpa [returned] using ⟨row, hrow, rfl⟩
  | none =>
    refine ⟨?_, ?_⟩
    all_goals simp only [Net.settle, failed_frame]
    · intro entry hentry
      obtain ⟨sub, hmem, -⟩ := mem_deliverAll hentry
      exact h.ids (entry.1, sub) hmem
    · intro x hx
      rw [returned_concat]
      obtain ⟨p, hp, hkey⟩ := h.seen x hx
      exact ⟨p, List.mem_append_left _ hp, hkey⟩

theorem Wf.unsubscribe (h : s.Wf) (k : ℕ) : Wf { s with hub := s.hub.removeSubscriber k } := by
  rw [removeSubscriber_frame]
  exact ⟨fun entry hentry => h.ids entry (List.mem_of_mem_filter hentry), h.seen⟩

theorem Wf.shift (h : s.Wf) (k : ℕ) : Wf { s with hub := s.hub.shift k } := by
  refine ⟨?_, h.seen⟩
  intro entry hentry
  obtain ⟨before, hbefore, rfl⟩ := List.mem_map.mp hentry
  have hid := h.ids before hbefore
  split_ifs with hk
  · exact hid
  · exact hid

theorem call_hub (s : Net) (hub : MessageStreamHub) (fetches : Bool) :
    (s.call hub fetches).hub = hub := by
  unfold call
  split_ifs <;> rfl

theorem Wf.step (h : s.Wf) (hstep : s.step a = some s') : s'.Wf := by
  cases moves hstep with
  | wait ms => exact ⟨h.ids, h.seen⟩
  | subscribe filter => exact h.subscribe filter
  | unsubscribe k => exact h.unsubscribe k
  | next k => exact h.shift k
  | tick hdue =>
    refine ⟨?_, ?_⟩
    · unfold tick call
      split_ifs <;> exact h.ids
    · unfold tick
      rw [call_hub, returned_call]
      exact h.seen
  | settle fetch result => exact h.settle fetch result

/-- What an action does to `seen`. -/
theorem step_seen (hstep : s.step a = some s') : s'.hub.seen = seenAfter s.hub.seen a.rows := by
  cases moves hstep with
  | wait ms => rfl
  | subscribe filter => exact subscribe_seen s filter
  | unsubscribe k =>
    rw [removeSubscriber_frame]
    rfl
  | next k => rfl
  | tick hdue =>
    unfold tick
    rw [call_hub]
    rfl
  | settle fetch result =>
    cases result with
    | some rows => simp only [Net.settle, fetched_frame, Action.rows]
    | none =>
      simp only [Net.settle, failed_frame]
      rfl

/-- **What an action of others does to a subscriber**: it adds to its queue what is broadcast. -/
theorem step_subscriber (hstep : s.step a = some s') {k : ℕ} {sub : Subscriber}
    (hsub : subscriber k s.hub.subscribers = some sub) (hactor : a.actor ≠ some k) :
    subscriber k s'.hub.subscribers = some (deliver (s.sent a) sub) := by
  have hsilent : subscriber k s.hub.subscribers = some (deliver [] sub) := by rw [deliver_nil, hsub]
  cases moves hstep with
  | wait ms => exact hsilent
  | subscribe filter =>
    rw [subscribe_subscribers]
    exact subscriber_append hsilent _
  | unsubscribe k' =>
    have hne : k ≠ k' := fun h => hactor (by rw [h]; rfl)
    rw [removeSubscriber_frame, subscriber_filter hne]
    exact hsilent
  | next k' =>
    have hne : k ≠ k' := fun h => hactor (by rw [h]; rfl)
    rw [subscriber_shift, hsilent]
    simp [hne, sent]
  | tick hdue =>
    unfold tick
    rw [call_hub]
    exact hsilent
  | settle fetch result =>
    cases result with
    | some rows =>
      simp only [Net.settle, fetched_frame]
      rw [subscriber_deliverAll, hsub]
      rfl
    | none =>
      simp only [Net.settle, failed_frame]
      rw [subscriber_deliverAll, hsub]
      rfl

theorem step_returned (hstep : s.step a = some s') :
    returned s'.log = returned s.log ++ a.rows.map StreamCandidate.pair := by
  cases moves hstep with
  | wait ms => exact (List.append_nil _).symm
  | subscribe filter => exact (returned_subscribe s filter).trans (List.append_nil _).symm
  | unsubscribe k => exact (List.append_nil _).symm
  | next k => exact (List.append_nil _).symm
  | tick hdue => exact (returned_call s _ _).trans (List.append_nil _).symm
  | settle fetch result =>
    cases result with
    | some rows =>
      refine (returned_concat s.log _).trans ?_
      simp [returned, Action.rows]
    | none => exact returned_concat s.log _

/-- What an entry of the hub has received: nothing, or what it had received before, and some of what
is broadcast. -/
def Receives (frames : List MessageStreamFrame) (before after : List (ℕ × Subscriber)) : Prop :=
  ∀ entry ∈ after, entry.2.received = [] ∨ ∃ entry' ∈ before, ∃ frames', frames'.Sublist frames ∧
    entry.2.received = entry'.2.received ++ frames'

theorem receives_of_subset {before after : List (ℕ × Subscriber)}
    (h : ∀ entry ∈ after, entry ∈ before) (frames : List MessageStreamFrame) :
    Receives frames before after :=
  fun entry hentry =>
    Or.inr ⟨entry, h entry hentry, [], List.nil_sublist _, (List.append_nil _).symm⟩

theorem receives_subscribe (s : Net) (filter : MessageStreamFilter) :
    Receives [] s.hub.subscribers (s.subscribe filter).hub.subscribers := by
  intro entry hentry
  rw [subscribe_subscribers] at hentry
  rcases List.mem_append.mp hentry with hentry | hentry
  · exact receives_of_subset (fun _ h => h) [] entry hentry
  · rw [List.mem_singleton.mp hentry]
    exact Or.inl rfl

theorem receives_deliverAll (frames : List MessageStreamFrame)
    (subscribers : List (ℕ × Subscriber)) :
    Receives frames subscribers (deliverAll frames subscribers) := by
  intro entry hentry
  obtain ⟨sub, hsub, heq⟩ := mem_deliverAll hentry
  refine Or.inr ⟨_, hsub, frames.filter (passes · sub.filter), List.filter_sublist, ?_⟩
  rw [heq]
  exact received_deliver frames sub

theorem receives_shift (k : ℕ) (hub : MessageStreamHub) :
    Receives [] hub.subscribers (hub.shift k).subscribers := by
  intro entry hentry
  obtain ⟨before, hbefore, rfl⟩ := List.mem_map.mp hentry
  refine Or.inr ⟨before, hbefore, [], List.nil_sublist _, ?_⟩
  rw [List.append_nil]
  split_ifs
  · exact received_shift before.2
  · rfl

theorem receives_remove (k : ℕ) (hub : MessageStreamHub) :
    Receives [] hub.subscribers (hub.removeSubscriber k).subscribers := by
  rw [removeSubscriber_frame]
  exact receives_of_subset (fun _ h => List.mem_of_mem_filter h) []

/-- **What a step hands to the subscribers.** -/
theorem step_receives (hstep : s.step a = some s') :
    Receives (s.sent a) s.hub.subscribers s'.hub.subscribers := by
  cases moves hstep with
  | wait ms => exact receives_of_subset (fun _ h => h) _
  | subscribe filter => exact receives_subscribe s filter
  | unsubscribe k => exact receives_remove k s.hub
  | next k => exact receives_shift k s.hub
  | tick hdue =>
    unfold tick
    rw [call_hub]
    exact receives_of_subset (fun _ h => h) _
  | settle fetch result =>
    cases result with
    | some rows =>
      simp only [Net.settle, fetched_frame]
      exact receives_deliverAll _ _
    | none =>
      simp only [Net.settle, failed_frame]
      exact receives_deliverAll _ _

/-- The pairs of what is broadcast are those of the rows that are emitted. -/
theorem framePairs_sent (s : Net) (a : Action) :
    framePairs (s.sent a) = (emitted s.hub.seen a.rows).map StreamCandidate.pair := by
  cases a with
  | settle fetch result =>
    cases result with
    | some rows =>
      have hmessages : ∀ emitted : List StreamCandidate,
          framePairs (emitted.map (.message ∘ toEvent)) = emitted.map StreamCandidate.pair := by
        intro emitted
        unfold framePairs
        rw [List.filterMap_map, ← List.filterMap_eq_map]
        rfl
      dsimp only [sent, newFrames]
      rw [framePairs_append, hmessages]
      split_ifs <;> rfl
    | none =>
      dsimp only [sent]
      split_ifs <;> rfl
  | _ => rfl

end Net

end Vsms.Console.Hub
