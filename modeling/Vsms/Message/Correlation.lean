import Vsms.Message.Leases

/-! # Which submission a delivery report is about

A report is matched to a message by the references stored in the row. They are written with the
acknowledgement of a submission and never cleared, so they survive `undelivered`, the requeue and
the next claim; if the next submission is indeterminate the row waits in `uncertain` with the
references of an earlier one. `Tracked` excludes that write, and submissions by a worker whose claim
has been taken over. Along tracked runs the references stored in a row that a report can move are
those of the latest submission (`Tracks`). -/

namespace Vsms.Message.Correlation

open Vsms.Lib.Runs Vsms.Lib.Optimistic Vsms.Schema.Types Vsms.Schema.Messages
open Vsms.Message.Claim Vsms.Message.Dispatch Vsms.Message.Dlr Vsms.Message.Expiry
open Vsms.Message.System Vsms.Message.Leases

/-! ## References -/

/-- The references stored in the row. -/
def storedRefs (m : Message) : List String :=
  m.providerMessageRef.toList ++ m.providerMessageRefAlt.toList

theorem mem_storedRefs_of_correlates {providerRowId : String} {update : DeliveryUpdate}
    {m : Message} (h : Correlates providerRowId update m) : update.providerRef ∈ storedRefs m := by
  unfold storedRefs
  rcases h.2 with h | h <;> simp [h]

/-- The references an event returns for submission `n`. -/
def refsOfEvent (n : ℕ) : Event → List String
  | .answer k (.ok ack) => if k = n then ack.refs else []
  | _ => []

/-- The references submission `n` returned. -/
def refsOf (n : ℕ) (log : List Event) : List String := log.flatMap (refsOfEvent n)

/-- **The references the latest submission returned.** -/
def latestRefs (log : List Event) : List String := refsOf (submits log) log

theorem refs_subset_refsOf {n : ℕ} {ack : SubmitAck} {log : List Event}
    (h : Event.answer n (.ok ack) ∈ log) : ack.refs ⊆ refsOf n log := by
  intro r hr
  exact List.mem_flatMap.mpr ⟨_, h, by simpa [refsOfEvent] using hr⟩

/-! ## Numbers of submissions -/

/-- The number of the submission a process made. -/
def number : Proc → Option ℕ
  | .submitting _ _ n => some n
  | .answered _ _ n _ => n
  | _ => none

/-- **The invariant of the numbers**: a submission is made by one process and answered once, and an
acknowledgement a process holds is in the log. -/
structure Numbered (s : Sys) : Prop where
  le : ∀ p n, number (s.procs p) = some n → n ≤ submits s.log
  inj : ∀ p q n, number (s.procs p) = some n → number (s.procs q) = some n → p = q
  unanswered : ∀ p m h n, s.procs p = .submitting m h n → ∀ r, Event.answer n r ∉ s.log
  acknowledged : ∀ p m h n ack, s.procs p = .answered m h n (.ok ack) →
    ∃ k, n = some k ∧ Event.answer k (.ok ack) ∈ s.log
  answers_le : ∀ n r, Event.answer n r ∈ s.log → n ≤ submits s.log
  unique : ∀ n r r', Event.answer n r ∈ s.log → Event.answer n r' ∈ s.log → r = r'

theorem numbered_start (c : NewMessage) : Numbered (start c) where
  le := fun _ _ h => nomatch h
  inj := fun _ _ _ h => nomatch h
  unanswered := fun _ _ _ _ h => nomatch h
  acknowledged := fun _ _ _ _ _ h => nomatch h
  answers_le := fun _ _ h => nomatch h
  unique := fun _ _ _ h => nomatch h

/-- The event is a submission or the answer to one. -/
def isCall : Event → Bool
  | .submit _ => true
  | .answer _ _ => true
  | _ => false

theorem submits_append {es log : List Event} (h : ∀ e ∈ es, isCall e = false) :
    submits (es ++ log) = submits log := by
  unfold submits
  rw [List.countP_append, List.countP_eq_zero.mpr, Nat.zero_add]
  intro e he
  have := h e he
  cases e <;> simp_all [isCall, Event.isSubmit]

theorem mem_answer_append {es log : List Event} (h : ∀ e ∈ es, isCall e = false) {n : ℕ}
    {r : SubmitResult} : Event.answer n r ∈ es ++ log ↔ Event.answer n r ∈ log := by
  rw [List.mem_append, or_iff_right]
  intro he
  cases h _ he

/-- **What a step does to the submissions**: it makes one, answers one, or does neither, and then
its process has no submission left. -/
inductive Calls (s : Sys) (p : ℕ) (s' : Sys) : Prop
  | submit (m : Message) (h : m.state = .routed) (request : SubmitRequest)
      (hp : s.procs p = .claimed m h)
      (hprocs : s'.procs = Function.update s.procs p (.submitting m h (submits s.log + 1)))
      (hlog : s'.log = .submit request :: s.log)
  | answer (m : Message) (h : m.state = .routed) (n : ℕ) (result : SubmitResult)
      (hp : s.procs p = .submitting m h n)
      (hprocs : s'.procs = Function.update s.procs p (.answered m h (some n) result))
      (hlog : s'.log = .answer n result :: s.log)
  | other (x : Proc) (es : List Event) (hx : number x = none)
      (hack : ∀ m h ack, x ≠ .answered m h none (.ok ack))
      (hprocs : s'.procs = Function.update s.procs p x) (hes : ∀ e ∈ es, isCall e = false)
      (hlog : s'.log = es ++ s.log)

theorem claimedOrIdle_cases (m : Message) :
    (∃ h, claimedOrIdle m = .claimed m h) ∨ claimedOrIdle m = .idle := by
  unfold claimedOrIdle
  split_ifs with h
  · exact Or.inl ⟨h, rfl⟩
  · exact Or.inr rfl

theorem step_calls {s s' : Sys} {a : Action} (h : step s a = some s') : Calls s a.proc s' := by
  obtain ⟨p, op⟩ := a
  cases step_cases h with
  | wrote w hw hv hl =>
    dsimp only at hw
    generalize s.procs p = x at hw
    cases hw with
    | @takeLease m hm worker now view dbNow set hset =>
      refine .other (claimedOrIdle (written set dbNow s.row)) [] ?_ ?_ rfl (by simp) rfl
      · rcases claimedOrIdle_cases (written set dbNow s.row) with ⟨h, he⟩ | he <;> rw [he] <;> rfl
      · intro m' h' ack he'
        rcases claimedOrIdle_cases (written set dbNow s.row) with ⟨h, he⟩ | he <;>
          rw [he] at he' <;> cases he'
    | report hset =>
      exact .other .idle [.reported _ _ _] rfl (fun _ _ _ h => nomatch h) rfl (by simp [isCall]) rfl
    | _ => exact .other .idle [] rfl (fun _ _ _ h => nomatch h) rfl (by simp) rfl
  | lost w hw hv => exact .other .idle [] rfl (fun _ _ _ h => nomatch h) rfl (by simp) rfl
  | refused w e hw hv hl =>
    exact .other .idle [.refused e] rfl (fun _ _ _ h => nomatch h) rfl (by simp [isCall]) rfl
  | moved o ho =>
    dsimp only at ho
    generalize hx : s.procs p = x at ho
    cases ho with
    | submit body => exact .submit _ _ _ hx rfl rfl
    | answer => exact .answer _ _ _ _ hx rfl rfl
    | leave hf =>
      exact .other .idle [.failoverFailed] rfl (fun _ _ _ h => nomatch h) rfl (by simp [isCall]) rfl
    | _ => exact .other _ [] rfl (by rintro _ _ _ ⟨⟩) rfl (by simp) rfl

section numbered
variable {s s' : Sys} {p : ℕ} (hn : Numbered s)
include hn

theorem numbered_submit {m : Message} {h : m.state = .routed} {request : SubmitRequest}
    (hprocs : s'.procs = Function.update s.procs p (.submitting m h (submits s.log + 1)))
    (hlog : s'.log = .submit request :: s.log) : Numbered s' := by
  have hsub : submits s'.log = submits s.log + 1 := by rw [hlog, submits_submit]
  have hans {n r} : Event.answer n r ∈ s'.log ↔ Event.answer n r ∈ s.log := by simp [hlog]
  -- The new number is above all that occur.
  have hnum {q n} (hq : number (s'.procs q) = some n) :
      (q = p ∧ n = submits s.log + 1) ∨
        (q ≠ p ∧ number (s.procs q) = some n ∧ n ≤ submits s.log) := by
    rw [hprocs] at hq
    rcases update_cases number hq with ⟨rfl, hx⟩ | ⟨hqp, hx⟩
    · exact Or.inl ⟨rfl, (Option.some.inj hx).symm⟩
    · exact Or.inr ⟨hqp, hx, hn.le q n hx⟩
  refine ⟨fun q n hq => ?_, fun q q' n hq hq' => ?_, fun q m' h' n hq r => ?_,
    fun q m' h' n ack hq => ?_, fun n r hr => ?_, fun n r r' hr hr' => ?_⟩
  · rcases hnum hq with ⟨-, rfl⟩ | ⟨-, -, hle⟩ <;> omega
  · rcases hnum hq with ⟨rfl, rfl⟩ | ⟨-, h1, h2⟩ <;> rcases hnum hq' with ⟨rfl, h3⟩ | ⟨-, h3, h4⟩
    · rfl
    · omega
    · omega
    · exact hn.inj q q' n h1 h3
  · rw [hans]
    rw [hprocs] at hq
    rcases update_cases id hq with ⟨-, hx⟩ | ⟨-, hx⟩
    · cases hx
      intro hr
      have := hn.answers_le _ _ hr
      omega
    · exact hn.unanswered q m' h' n hx r
  · rw [hprocs] at hq
    rcases update_cases id hq with ⟨-, hx⟩ | ⟨-, hx⟩
    · cases hx
    · obtain ⟨k, hk, hmem⟩ := hn.acknowledged q m' h' n ack hx
      exact ⟨k, hk, hans.mpr hmem⟩
  · have := hn.answers_le n r (hans.mp hr)
    omega
  · exact hn.unique n r r' (hans.mp hr) (hans.mp hr')

theorem numbered_answer {m : Message} {h : m.state = .routed} {n : ℕ} {result : SubmitResult}
    (hp : s.procs p = .submitting m h n)
    (hprocs : s'.procs = Function.update s.procs p (.answered m h (some n) result))
    (hlog : s'.log = .answer n result :: s.log) : Numbered s' := by
  have hsub : submits s'.log = submits s.log := by rw [hlog, submits_answer]
  have hans {k r} : Event.answer k r ∈ s'.log ↔
      (k = n ∧ r = result) ∨ Event.answer k r ∈ s.log := by
    simp [hlog]
  have hp' : number (s.procs p) = some n := by rw [hp]; rfl
  -- The process keeps its number, and it is answered for the first time.
  have hnum {q k} (hq : number (s'.procs q) = some k) : number (s.procs q) = some k := by
    rw [hprocs] at hq
    rcases update_cases number hq with ⟨rfl, hx⟩ | ⟨-, hx⟩
    · exact hp'.trans hx
    · exact hx
  have hfirst (r : SubmitResult) : Event.answer n r ∉ s.log := hn.unanswered p m h n hp r
  refine ⟨fun q k hq => hsub ▸ hn.le q k (hnum hq),
    fun q q' k hq hq' => hn.inj q q' k (hnum hq) (hnum hq'), fun q m' h' k hq r => ?_,
    fun q m' h' k ack hq => ?_, fun k r hr => ?_, fun k r r' hr hr' => ?_⟩
  · rw [hprocs] at hq
    rcases update_cases id hq with ⟨-, hx⟩ | ⟨hqp, hx⟩
    · cases hx
    · rw [hans, not_or]
      refine ⟨fun hk => hqp (hn.inj q p n ?_ hp'), hn.unanswered q m' h' k hx r⟩
      rw [show s.procs q = _ from hx]
      exact congrArg some hk.1
  · rw [hprocs] at hq
    rcases update_cases id hq with ⟨-, hx⟩ | ⟨-, hx⟩
    · cases hx
      exact ⟨n, rfl, hans.mpr (Or.inl ⟨rfl, rfl⟩)⟩
    · obtain ⟨j, hj, hmem⟩ := hn.acknowledged q m' h' k ack hx
      exact ⟨j, hj, hans.mpr (Or.inr hmem)⟩
  · rw [hsub]
    rcases hans.mp hr with ⟨rfl, -⟩ | hr
    · exact hn.le p _ hp'
    · exact hn.answers_le k r hr
  · rcases hans.mp hr with ⟨rfl, rfl⟩ | hr <;> rcases hans.mp hr' with ⟨hk, rfl⟩ | hr'
    · rfl
    · exact absurd hr' (hfirst r')
    · exact absurd (hk ▸ hr) (hfirst r)
    · exact hn.unique k r r' hr hr'

theorem numbered_other {x : Proc} {es : List Event} (hx : number x = none)
    (hack : ∀ m h ack, x ≠ .answered m h none (.ok ack))
    (hprocs : s'.procs = Function.update s.procs p x) (hes : ∀ e ∈ es, isCall e = false)
    (hlog : s'.log = es ++ s.log) : Numbered s' := by
  have hsub : submits s'.log = submits s.log := by rw [hlog, submits_append hes]
  have hans {k r} : Event.answer k r ∈ s'.log ↔ Event.answer k r ∈ s.log := by
    rw [hlog, mem_answer_append hes]
  have hnum {q k} (hq : number (s'.procs q) = some k) : number (s.procs q) = some k := by
    rw [hprocs] at hq
    rcases update_cases number hq with ⟨-, hk⟩ | ⟨-, hk⟩
    · rw [hx] at hk
      cases hk
    · exact hk
  refine ⟨fun q k hq => hsub ▸ hn.le q k (hnum hq),
    fun q q' k hq hq' => hn.inj q q' k (hnum hq) (hnum hq'), fun q m' h' k hq r => ?_,
    fun q m' h' k ack hq => ?_, fun k r hr => hsub ▸ hn.answers_le k r (hans.mp hr),
    fun k r r' hr hr' => hn.unique k r r' (hans.mp hr) (hans.mp hr')⟩
  · rw [hprocs] at hq
    rcases update_cases id hq with ⟨-, he⟩ | ⟨-, he⟩
    · cases he
      cases hx
    · rw [hans]
      exact hn.unanswered q m' h' k he r
  · rw [hprocs] at hq
    rcases update_cases id hq with ⟨-, he⟩ | ⟨-, he⟩
    · cases he
      cases hx
      exact absurd rfl (hack m' h' ack)
    · obtain ⟨j, hj, hmem⟩ := hn.acknowledged q m' h' k ack he
      exact ⟨j, hj, hans.mpr hmem⟩

end numbered

theorem step_numbered {s s' : Sys} {a : Action} (hn : Numbered s) (h : step s a = some s') :
    Numbered s' := by
  cases step_calls h with
  | submit m hm request hp hprocs hlog => exact numbered_submit hn hprocs hlog
  | answer m hm n result hp hprocs hlog => exact numbered_answer hn hp hprocs hlog
  | other x es hx hack hprocs hes hlog => exact numbered_other hn hx hack hprocs hes hlog

/-! ## Tracked runs -/

/-- **The condition on a step.** An indeterminate outcome is written back only to a row without
stored references, and a worker starts a submission only while the row has the version it claimed.
-/
def Tracked (s : Sys) (a : Action) (_ : Sys) : Prop :=
  match s.procs a.proc, a.op with
  | .answered m _ _ (.error (.indeterminate _)), .writeBack _ _ _ =>
    m.version = s.row.version → storedRefs s.row = []
  | .claimed m _, .submit _ _ => m.version = s.row.version
  | _, _ => True

instance (s : Sys) (a : Action) (s' : Sys) : Decidable (Tracked s a s') := by
  unfold Tracked
  split <;> infer_instance

/-- The states a report can move a message out of. -/
def reportable : List MessageState := [.submitted, .uncertain, .undelivered]

theorem not_reportable_of_terminal {st : MessageState} (h : st ∈ terminalStates) :
    st ∉ reportable := by
  revert h
  cases st <;> decide

/-- **The invariant of tracked runs**: at most one worker has the row's version, its submission is
the latest, and the references in a row that a report can move are the latest submission's. -/
structure Tracks (s : Sys) : Prop where
  alone : ∀ p q m m', working (s.procs p) = some m → m.version = s.row.version →
    working (s.procs q) = some m' → m'.version = s.row.version → q = p
  latest : ∀ p m n, working (s.procs p) = some m → m.version = s.row.version →
    number (s.procs p) = some n → n = submits s.log
  refs : s.row.state ∈ reportable → storedRefs s.row ⊆ latestRefs s.log

theorem tracks_start (c : NewMessage) : Tracks (start c) where
  alone := fun _ _ _ _ h => nomatch h
  latest := fun _ _ _ h => nomatch h
  refs := fun h => absurd (show MessageState.accepted ∈ reportable from h) (by decide)

theorem latestRefs_append {es log : List Event} (h : submits (es ++ log) = submits log) :
    latestRefs log ⊆ latestRefs (es ++ log) := by
  unfold latestRefs refsOf
  rw [h, List.flatMap_append]
  exact List.subset_append_right _ _

theorem storedRefs_written {u : UpdateMessageInput} {now : Time} {m : Message}
    (hr : u.providerMessageRef = none) (ha : u.providerMessageRefAlt = none) :
    storedRefs (written u now m) = storedRefs m := by
  unfold storedRefs
  rw [written_providerMessageRef, written_providerMessageRefAlt, hr, ha]
  rfl

theorem storedRefs_writeSubmitted (ack : SubmitAck) (now : Time) (m : Message) :
    storedRefs (written (writeSubmitted ack) now m) = ack.refs := by
  unfold storedRefs
  rw [written_providerMessageRef, written_providerMessageRefAlt]
  rfl

section steps
variable {s : Sys} {p : ℕ} {op : Op} (hs : Snapshots Proc.held s.toShared) (hn : Numbered s)
  (ht : Tracks s)
include hs hn ht

omit hs in
/-- A committed write leaves the stored references those of the latest submission. -/
theorem wrote_refs {s' : Sys} {w : Plan} (hw : Writes (s.procs p) op w) (hrow : w.held = s.row)
    (hq : Tracked s ⟨p, op⟩ s')
    (hst : (written w.set w.dbNow s.row).state ∈ reportable) :
    storedRefs (written w.set w.dbNow s.row) ⊆
      latestRefs (w.events (written w.set w.dbNow s.row) ++ s.log) := by
  rw [written_state] at hst
  have hlatest := ht.latest p
  have hack := hn.acknowledged p
  unfold Tracked at hq
  generalize s.procs p = x at hw hq hlatest hack
  cases hw with
  | takeLease hset =>
    rcases takeLease_cases hset with ⟨-, hu | hu, -⟩ | ⟨-, -, hu, -⟩ | ⟨-, -, hu, -⟩ |
      ⟨-, hu, -⟩ | ⟨-, -, hu, -⟩ <;>
    · dsimp only at hst
      rw [hu, Option.getD_some] at hst
      exact absurd hst (by decide)
  | noBody hb => exact absurd (show MessageState.failed ∈ reportable from hst) (by decide)
  | @finish m hm n result query now dbNow set hset =>
    rcases finishSubmit_write hset with
      ⟨ack, rfl, rfl⟩ | ⟨err, rfl, -, -, hr, ha, ⟨hc, -⟩ | ⟨-, hu | hu⟩⟩
    · -- The worker has the row's version, so the acknowledgement it holds is the latest answer.
      obtain ⟨k, rfl, hk⟩ := hack m hm n ack rfl
      have hlast : k = submits s.log := hlatest m k rfl (congrArg Message.version hrow) rfl
      rw [storedRefs_writeSubmitted]
      subst hlast
      exact refs_subset_refsOf hk
    · rw [storedRefs_written hr ha]
      cases err with
      | indeterminate msg =>
        rw [show storedRefs s.row = [] from hq (congrArg Message.version hrow)]
        exact List.nil_subset _
      | _ => cases hc
    all_goals
      dsimp only at hst
      rw [hu, Option.getD_some] at hst
      exact absurd hst (by decide)
  | report hset =>
    obtain ⟨target, hnext, -, -, -, hr, ha, -⟩ := dlrPatch_some hset
    rw [storedRefs_written hr ha]
    have hrep : s.row.state ∈ reportable := by
      rw [← hrow]
      rcases nextState_from hnext with h | h | h <;> dsimp only <;> rw [h] <;> decide
    exact List.Subset.trans (ht.refs hrep) (latestRefs_append (submits_append (by simp [isCall])))
  | expire => exact absurd (show MessageState.expired ∈ reportable from hst) (by decide)
  | @purge m hm =>
    change s.row.state ∈ reportable at hst
    rw [← hrow] at hst
    exact absurd hst (not_reportable_of_terminal hm)

theorem wrote_tracks {s' : Sys} {w : Plan} (hw : Writes (s.procs p) op w) (hrow : w.held = s.row)
    (hq : Tracked s ⟨p, op⟩ s') : Tracks (s.wrote p w (written w.set w.dbNow s.row)) := by
  -- Every other copy is older than the row just written.
  have hlast {q : ℕ} {m : Message}
      (hm : working ((s.wrote p w (written w.set w.dbNow s.row)).procs q) = some m)
      (hv : m.version = (written w.set w.dbNow s.row).version) : q = p := by
    rcases update_cases working hm with ⟨hqp, -⟩ | ⟨-, hm⟩
    · exact hqp
    · have hle := (hs q m (held_of_contending (contending_of_working hm))).le
      rw [written_version] at hv
      simp only [version_eq] at hle
      omega
  refine ⟨fun q q' m m' hm hv hm' hv' => ?_, fun q m n hm hv hnum => ?_,
    wrote_refs hn ht hw hrow hq⟩
  · rw [hlast hm hv, hlast hm' hv']
  · -- A worker that has just claimed has made no submission.
    obtain rfl := hlast hm hv
    rw [Sys.wrote_procs, Function.update_self] at hnum
    generalize s.procs q = x at hw
    cases hw with
    | @takeLease m' hm' worker now view dbNow set hset =>
      rcases claimedOrIdle_cases (written set dbNow s.row) with ⟨h, he⟩ | he <;>
        simp only [he] at hnum <;> cases hnum
    | _ => cases hnum

omit hs hn in
/-- A step that writes nothing and makes no submission. -/
theorem go_tracks {o : Outcome}
    (hwork : ∀ m, working o.next = some m → working (s.procs p) = some m)
    (hnum : ∀ n, number o.next = some n → number (s.procs p) = some n)
    (hsub : submits (o.events ++ s.log) = submits s.log) : Tracks (s.go p o) := by
  have hw {q : ℕ} {m : Message} (hm : working ((s.go p o).procs q) = some m) :
      working (s.procs q) = some m := by
    rcases update_cases working hm with ⟨rfl, hx⟩ | ⟨-, hx⟩
    · exact hwork m hx
    · exact hx
  refine ⟨fun q q' m m' hm hv hm' hv' => ht.alone q q' m m' (hw hm) hv (hw hm') hv',
    fun q m n hm hv hn => ?_,
    fun hst => List.Subset.trans (ht.refs hst) (latestRefs_append hsub)⟩
  rw [Sys.go_log, hsub]
  refine ht.latest q m n (hw hm) hv ?_
  rcases update_cases number hn with ⟨rfl, hx⟩ | ⟨-, hx⟩
  · exact hnum n hx
  · exact hx

omit hn in
theorem submit_tracks {m : Message} {h : m.state = .routed} {request : SubmitRequest} {o : Outcome}
    (hp : s.procs p = .claimed m h) (hv : m.version = s.row.version)
    (hnext : o.next = .submitting m h (submits s.log + 1)) (hev : o.events = [.submit request]) :
    Tracks (s.go p o) := by
  have hm : working (s.procs p) = some m := by rw [hp]; rfl
  have hrow : m = s.row := (hs p m (by rw [hp]; rfl)).eq hv
  have hw {q : ℕ} {m' : Message} (hm' : working ((s.go p o).procs q) = some m') :
      working (s.procs q) = some m' := by
    rcases update_cases working hm' with ⟨rfl, hx⟩ | ⟨-, hx⟩
    · rw [hnext] at hx
      exact hm.trans hx
    · exact hx
  refine ⟨fun q q' m m' hm hv hm' hv' => ht.alone q q' m m' (hw hm) hv (hw hm') hv',
    fun q m' n hm' hv' hnum => ?_, fun hst => ?_⟩
  · -- The worker that submits is the only one with the row's version.
    obtain rfl := ht.alone p q m m' hm hv (hw hm') hv'
    rw [Sys.go_procs, Function.update_self, hnext] at hnum
    rw [Sys.go_log, hev, List.singleton_append, submits_submit]
    exact (Option.some.inj hnum).symm
  · rw [Sys.go_row, ← hrow, h] at hst
    exact absurd hst (by decide)

omit hn in
theorem moved_tracks {s' : Sys} {o : Outcome} (hq : Tracked s ⟨p, op⟩ s')
    (ho : Advances s (s.procs p) op o) : Tracks (s.go p o) := by
  generalize hx : s.procs p = x at ho
  have hgo := go_tracks (p := p) (o := o) ht
  rw [hx] at hgo
  unfold Tracked at hq
  dsimp only at hq
  rw [hx] at hq
  cases ho with
  | submit body => exact submit_tracks hs ht hx hq rfl rfl
  | answer => exact hgo (fun m hm => hm) (fun n hn => hn) rfl
  | unresolved => exact hgo (fun m hm => hm) (fun n hn => hn) rfl
  | _ => exact hgo (by rintro _ ⟨⟩) (by rintro _ ⟨⟩) rfl

end steps

theorem step_tracks {s s' : Sys} {a : Action} (hs : Snapshots Proc.held s.toShared)
    (hn : Numbered s) (ht : Tracks s) (h : step s a = some s') (hq : Tracked s a s') :
    Tracks s' := by
  cases step_sound hs h with
  | wrote w hw hrow => exact wrote_tracks hs hn ht hw hrow hq
  | lost w hw hv => exact go_tracks ht (by rintro _ ⟨⟩) (by rintro _ ⟨⟩) rfl
  | moved o ho => exact moved_tracks hs ht hq ho

/-! ### Reports -/

/-- A report that changes the state was matched by a reference stored in the row. -/
theorem ref_of_report {s s' : Sys} {p : ℕ} {found : Message} {providerRowId : String}
    {update : DeliveryUpdate} {hc : Correlates providerRowId update found} {now dbNow : Time}
    (hs : Snapshots Proc.held s.toShared)
    (hp : s.procs p = .receipted found providerRowId update hc)
    (h : step s ⟨p, .applyDlr now dbNow⟩ = some s') (hne : s'.row.state ≠ s.row.state) :
    s.row.state ∈ reportable ∧ update.providerRef ∈ storedRefs s.row := by
  cases step_sound hs h with
  | wrote w hw hrow =>
    simp only [hp] at hw
    cases hw with
    | report hset =>
      obtain ⟨target, hnext, -⟩ := dlrPatch_some hset
      rw [← hrow]
      refine ⟨?_, mem_storedRefs_of_correlates hc⟩
      rcases nextState_from hnext with h | h | h <;> dsimp only <;> rw [h] <;> decide
  | lost w hw hv => exact absurd rfl hne
  | moved o ho => exact absurd rfl hne

/-- A submission that ended in an error returned no reference. -/
theorem refsOf_eq_nil {s : Sys} (hn : Numbered s) {n : ℕ} {err : ProviderError}
    (h : Event.answer n (.error err) ∈ s.log) : refsOf n s.log = [] := by
  refine List.flatMap_eq_nil_iff.mpr fun e he => ?_
  cases e with
  | answer k result =>
    cases result with
    | error e => rfl
    | ok ack =>
      refine if_neg ?_
      rintro rfl
      cases hn.unique k _ _ h he
  | _ => rfl

/-- **Reports along tracked runs.** In every state a tracked run reaches, a report that changes the
state carries a reference the latest submission returned. So a message whose latest submission was
indeterminate is moved by no report. -/
theorem reports_match_latest (c : NewMessage) (as : List Action) (s : Sys)
    (h : exec step (start c) as = some s) (hq : Along step Tracked (start c) as) :
    (∀ p found providerRowId update hc now dbNow s',
      s.procs p = .receipted found providerRowId update hc →
      step s ⟨p, .applyDlr now dbNow⟩ = some s' → s'.row.state ≠ s.row.state →
      update.providerRef ∈ latestRefs s.log) ∧
    (∀ msg, Event.answer (submits s.log) (.error (.indeterminate msg)) ∈ s.log →
      ∀ p found providerRowId update hc now dbNow s',
        s.procs p = .receipted found providerRowId update hc →
        step s ⟨p, .applyDlr now dbNow⟩ = some s' → s'.row.state = s.row.state) := by
  obtain ⟨hs, hn, ht⟩ := exec_invariant
    (I := fun s => Snapshots Proc.held s.toShared ∧ Numbered s ∧ Tracks s)
    (fun s a s' ⟨hs, hn, ht⟩ hstep hq => ⟨step_snapshots hs hstep, step_numbered hn hstep,
      step_tracks hs hn ht hstep hq⟩)
    ⟨start_snapshots c, numbered_start c, tracks_start c⟩ h hq
  have hmain {p found providerRowId update hc now dbNow s'}
      (hp : s.procs p = .receipted found providerRowId update hc)
      (hstep : step s ⟨p, .applyDlr now dbNow⟩ = some s') (hne : s'.row.state ≠ s.row.state) :
      update.providerRef ∈ latestRefs s.log := by
    obtain ⟨hrep, hmem⟩ := ref_of_report hs hp hstep hne
    exact ht.refs hrep hmem
  refine ⟨fun p found providerRowId update hc now dbNow s' hp hstep hne => hmain hp hstep hne,
    fun msg hmsg p found providerRowId update hc now dbNow s' hp hstep => ?_⟩
  by_contra hne
  have hmem := hmain hp hstep hne
  unfold latestRefs at hmem
  rw [refsOf_eq_nil hn hmsg] at hmem
  cases hmem

/-! ### A report for an earlier submission -/

def failedUpdate : DeliveryUpdate := ⟨"x1", .failed, none, "DeliveryImpossible", none, none⟩

def deliveredUpdate : DeliveryUpdate := ⟨"x1", .delivered, none, "DeliveredToTerminal", none, none⟩

/-- A sent message, with a report of its delivery about to be written. -/
def reportedRun : List Action :=
  sentRun ++ [⟨1, .correlate "p1" "" deliveredUpdate⟩, ⟨1, .createReceipt⟩]

/-- The update process 1 is about to write. -/
def pendingUpdate (s : Sys) : Option DeliveryUpdate :=
  match s.procs 1 with
  | .receipted _ _ update _ => some update
  | _ => none

theorem reports_match_latest_sent : ∃ s s', exec step (start sampleMessage) reportedRun = some s ∧
    step s ⟨1, .applyDlr 3 3⟩ = some s' ∧ s'.row.state = .delivered ∧
    deliveredUpdate.providerRef ∈ latestRefs s.log := by
  obtain ⟨s, hs, hf⟩ : ∃ s, exec step (start sampleMessage) reportedRun = some s ∧
      (s.row.state, pendingUpdate s, (step s ⟨1, .applyDlr 3 3⟩).map fun s' => s'.row.state) =
        (.submitted, some deliveredUpdate, some .delivered) := exec_eval rfl
  simp only [Prod.mk.injEq] at hf
  obtain ⟨hst, hu, hstep⟩ := hf
  obtain ⟨s', hs', hst'⟩ := Option.map_eq_some_iff.mp hstep
  refine ⟨s, s', hs, hs', hst', ?_⟩
  unfold pendingUpdate at hu
  split at hu
  · next found providerRowId update hc hp =>
    cases hu
    refine (reports_match_latest sampleMessage reportedRun s hs (by decide)).1 1 found providerRowId
      deliveredUpdate hc 3 3 s' hp hs' ?_
    rw [hst, hst']
    decide
  · cases hu

/-- The first submission is reported failed, the second is indeterminate, and then a report of
delivery comes for the first. -/
def lateReportRun : List Action :=
  sentRun ++ ingestRun 1 "p1" "" failedUpdate 3 3 ++
    [⟨0, .poll "w" (seconds 6)⟩, ⟨0, .takeLease none (seconds 6)⟩] ++
    dispatchRun (seconds 7) (.error (.indeterminate "read timeout")) ++
    [⟨1, .correlate "p1" "" deliveredUpdate⟩, ⟨1, .createReceipt⟩]

/-- A message whose latest submission was indeterminate is moved out of `uncertain` by a report for
an earlier one. -/
theorem uncertain_moved_by_old_report : ∃ s s',
    exec step (start sampleMessage) lateReportRun = some s ∧ s.row.state = .uncertain ∧
    Event.answer (submits s.log) (.error (.indeterminate "read timeout")) ∈ s.log ∧
    pendingUpdate s = some deliveredUpdate ∧ deliveredUpdate.providerRef ∉ latestRefs s.log ∧
    step s ⟨1, .applyDlr (seconds 8) (seconds 8)⟩ = some s' ∧ s'.row.state = .delivered := by
  obtain ⟨s, hs, hf⟩ : ∃ s, exec step (start sampleMessage) lateReportRun = some s ∧
      (s.row.state,
        decide (Event.answer (submits s.log) (.error (.indeterminate "read timeout")) ∈ s.log),
        pendingUpdate s, decide (deliveredUpdate.providerRef ∉ latestRefs s.log),
        (step s ⟨1, .applyDlr (seconds 8) (seconds 8)⟩).map fun s' => s'.row.state) =
        (.uncertain, true, some deliveredUpdate, true, some .delivered) := exec_eval rfl
  simp only [Prod.mk.injEq, decide_eq_true_eq] at hf
  obtain ⟨hst, hans, hu, hrefs, hstep⟩ := hf
  obtain ⟨s', hs', hst'⟩ := Option.map_eq_some_iff.mp hstep
  exact ⟨s, s', hs, hst, hans, hu, hrefs, hs', hst'⟩

end Vsms.Message.Correlation
