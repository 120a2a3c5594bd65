import Mathlib.Data.List.Basic
import Mathlib.Data.List.Induction
import Mathlib.Logic.Function.Basic

/-! # Runs of a partial step function

A system is given by an executable step `step : σ → α → Option σ`: what action `a` does in the state
`s`, and `none` where `a` is not possible there. A run is a list of actions; `exec` carries it out.
`Along P` says that every step taken by a run meets `P`, a condition on the state before, the action
and the state after. `exec_invariant` is the rule all safety results go through: what a step meeting
`P` preserves, a run all of whose steps meet `P` preserves. `Always P` says that every state of a
run meets `P`; `always_iff` finds the steps that a run must avoid for it, and `along_iff_alwaysThen`
those after which the system can go on to break it.

`Interleave as bs cs` says that `cs` is a merge of `as` and `bs` keeping the order of each. -/

namespace Vsms.Lib.Runs

variable {σ α : Type*} (step : σ → α → Option σ)

/-- Carry out a list of actions. -/
def exec : σ → List α → Option σ
  | s, [] => some s
  | s, a :: as => (step s a).bind fun s' => exec s' as

/-- **Every step of the run meets `P`.** The run stops at the first action that is not possible. -/
def Along (P : σ → α → σ → Prop) : σ → List α → Prop
  | _, [] => True
  | s, a :: as =>
    match step s a with
    | none => True
    | some s' => P s a s' ∧ Along P s' as

variable {step}

@[simp] theorem exec_nil (s : σ) : exec step s [] = some s := rfl

theorem exec_cons {s s' : σ} {a : α} {as : List α} :
    exec step s (a :: as) = some s' ↔ ∃ t, step s a = some t ∧ exec step t as = some s' := by
  simp [exec, Option.bind_eq_some_iff]

theorem exec_append_bind (s : σ) (as bs : List α) :
    exec step s (as ++ bs) = (exec step s as).bind fun t => exec step t bs := by
  induction as generalizing s with
  | nil => rfl
  | cons a as ih =>
    simp only [List.cons_append, exec, Option.bind_assoc]
    exact congrArg _ (funext fun t => ih t)

theorem exec_append {s s' : σ} {as bs : List α} :
    exec step s (as ++ bs) = some s' ↔ ∃ t, exec step s as = some t ∧ exec step t bs = some s' := by
  rw [exec_append_bind, Option.bind_eq_some_iff]

theorem exec_concat {s t u : σ} {a : α} {as : List α} (h : exec step s as = some t)
    (ha : step t a = some u) : exec step s (as ++ [a]) = some u :=
  exec_append.mpr ⟨t, h, exec_cons.mpr ⟨u, ha, rfl⟩⟩

/-- A run cut after one of its actions. -/
theorem exec_cut {s t : σ} {pre post : List α} {a : α} :
    exec step s (pre ++ a :: post) = some t ↔
      ∃ u, exec step s (pre ++ [a]) = some u ∧ exec step u post = some t := by
  rw [← List.singleton_append, ← List.append_assoc, exec_append]

/-- A run that can be carried out, from what `f` computes of its last state. -/
theorem exec_eval {β : Type*} {f : σ → β} {b : β} {s : σ} {as : List α}
    (h : (exec step s as).map f = some b) : ∃ t, exec step s as = some t ∧ f t = b :=
  Option.map_eq_some_iff.mp h

theorem along_cons {P : σ → α → σ → Prop} {s t : σ} {a : α} {as : List α}
    (ht : step s a = some t) : Along step P s (a :: as) ↔ P s a t ∧ Along step P t as := by
  simp [Along, ht]

theorem along_append {P : σ → α → σ → Prop} {s t : σ} {as bs : List α}
    (ht : exec step s as = some t) :
    Along step P s (as ++ bs) ↔ Along step P s as ∧ Along step P t bs := by
  induction as generalizing s with
  | nil => cases ht; simp [Along]
  | cons a as ih =>
    obtain ⟨u, hu, ht⟩ := exec_cons.mp ht
    rw [List.cons_append, along_cons hu, along_cons hu, ih ht, and_assoc]

theorem Along.imp {P Q : σ → α → σ → Prop} {s : σ} {as : List α} (h : Along step P s as)
    (hPQ : ∀ a ∈ as, ∀ s s', P s a s' → Q s a s') : Along step Q s as := by
  induction as generalizing s with
  | nil => trivial
  | cons a as ih =>
    cases ht : step s a with
    | none => simp [Along, ht]
    | some t =>
      rw [along_cons ht] at h ⊢
      exact ⟨hPQ a List.mem_cons_self s t h.1,
        ih h.2 fun b hb => hPQ b (List.mem_cons_of_mem a hb)⟩

/-- Whether a given run meets `P` is decided by carrying it out. -/
instance decidableAlong {P : σ → α → σ → Prop} [∀ s a s', Decidable (P s a s')] :
    (s : σ) → (as : List α) → Decidable (Along step P s as)
  | _, [] => .isTrue trivial
  | s, a :: as =>
    match h : step s a with
    | none => .isTrue (by unfold Along; rw [h]; trivial)
    | some t =>
      have := decidableAlong (P := P) t as
      decidable_of_iff _ (along_cons h).symm

theorem along_true (s : σ) (as : List α) : Along step (fun _ _ _ => True) s as := by
  induction as generalizing s with
  | nil => trivial
  | cons a as ih =>
    unfold Along
    split
    · trivial
    · exact ⟨trivial, ih _⟩

/-- A condition on the actions, where every action is possible. -/
theorem along_iff_forall {next : σ → α → σ} (h : ∀ s a, step s a = some (next s a)) {P : α → Prop}
    {s : σ} {as : List α} : Along step (fun _ a _ => P a) s as ↔ ∀ a ∈ as, P a := by
  induction as generalizing s with
  | nil => simp [Along]
  | cons a as ih => rw [along_cons (h s a), ih, List.forall_mem_cons]

/-- **Invariants.** What every step meeting `P` preserves holds after a run of such steps. -/
theorem exec_invariant {I : σ → Prop} {P : σ → α → σ → Prop}
    (hstep : ∀ s a s', I s → step s a = some s' → P s a s' → I s') {s s' : σ} {as : List α}
    (hs : I s) (h : exec step s as = some s') (hP : Along step P s as) : I s' := by
  induction as generalizing s with
  | nil => cases h; exact hs
  | cons a as ih =>
    obtain ⟨t, ht, h⟩ := exec_cons.mp h
    obtain ⟨hp, hP⟩ := (along_cons ht).mp hP
    exact ih (hstep s a t hs ht hp) h hP

/-- The same for a step that preserves `I` whatever it is. -/
theorem exec_invariant' {I : σ → Prop} (hstep : ∀ s a s', I s → step s a = some s' → I s')
    {s s' : σ} {as : List α} (hs : I s) (h : exec step s as = some s') : I s' :=
  exec_invariant (fun s a s' hs ht _ => hstep s a s' hs ht) hs h (along_true s as)

/-- A relation between the state before and after that is reflexive, transitive and holds for every
step from a state with the invariant `I` holds for every run from such a state. -/
theorem exec_rel {I : σ → Prop} {R : σ → σ → Prop} (hrefl : ∀ s, R s s)
    (htrans : ∀ s t u, R s t → R t u → R s u)
    (hstep : ∀ s a s', I s → step s a = some s' → I s' ∧ R s s') {s s' : σ} {as : List α}
    (hs : I s) (h : exec step s as = some s') : R s s' := by
  induction as generalizing s with
  | nil => cases h; exact hrefl _
  | cons a as ih =>
    obtain ⟨t, ht, h⟩ := exec_cons.mp h
    obtain ⟨hI, hR⟩ := hstep s a t hs ht
    exact htrans _ _ _ hR (ih hI h)

/-- Two conditions that agree on every step from a state with the invariant `I`, which the steps
meeting the second preserve, agree on every run from such a state. -/
theorem along_iff {I : σ → Prop} {P Q : σ → α → σ → Prop}
    (hiff : ∀ s a s', I s → step s a = some s' → (P s a s' ↔ Q s a s'))
    (hstep : ∀ s a s', I s → step s a = some s' → Q s a s' → I s') {s : σ} {as : List α}
    (hs : I s) : Along step P s as ↔ Along step Q s as := by
  induction as generalizing s with
  | nil => exact Iff.rfl
  | cons a as ih =>
    cases ht : step s a with
    | none => simp [Along, ht]
    | some t =>
      rw [along_cons ht, along_cons ht, hiff s a t hs ht]
      exact and_congr_right fun hq => ih (hstep s a t hs ht hq)

/-- **Invariants, at every step of a run**: a step from a state with the invariant meets `P`. -/
theorem Along.of_invariant {I : σ → Prop} {P Q : σ → α → σ → Prop}
    (hP : ∀ s a s', I s → step s a = some s' → Q s a s' → P s a s')
    (hstep : ∀ s a s', I s → step s a = some s' → Q s a s' → I s') {s : σ} {as : List α}
    (hs : I s) (hQ : Along step Q s as) : Along step P s as := by
  induction as generalizing s with
  | nil => trivial
  | cons a as ih =>
    cases ht : step s a with
    | none => simp [Along, ht]
    | some t =>
      rw [along_cons ht] at hQ ⊢
      exact ⟨hP s a t hs ht hQ.1, ih (hstep s a t hs ht hQ.1) hQ.2⟩

variable (step) in
/-- **Every state of the run meets `P`**, the first and the last included. -/
def Always (P : σ → Prop) (s : σ) (as : List α) : Prop :=
  P s ∧ Along step (fun _ _ s' => P s') s as

/-- **Invariants, in every state of a run.** -/
theorem Along.always {I P : σ → Prop} {Q : σ → α → σ → Prop} (hI : ∀ s, I s → P s)
    (hstep : ∀ s a s', I s → step s a = some s' → Q s a s' → I s') {s : σ} {as : List α}
    (hs : I s) (hQ : Along step Q s as) : Always step P s as := by
  have hP : ∀ s a s', I s → step s a = some s' → Q s a s' → P s' := fun s a s' hs h hq =>
    hI s' (hstep s a s' hs h hq)
  exact ⟨hI s hs, Along.of_invariant (P := fun _ _ s' => P s') hP hstep hs hQ⟩

theorem Always.last {P : σ → Prop} {s t : σ} {as : List α} (hP : Always step P s as)
    (h : exec step s as = some t) : P t :=
  exec_invariant (I := P) (P := fun _ _ s' => P s') (fun _ _ _ _ _ hp => hp) hP.1 h hP.2

/-- **The exact condition for an invariant**: `Q` is what a step must meet for `P` to hold after
it. -/
theorem always_iff {I P : σ → Prop} {Q : σ → α → σ → Prop} (hI : ∀ s, I s → P s)
    (hiff : ∀ s a s', I s → step s a = some s' → (P s' ↔ Q s a s'))
    (hstep : ∀ s a s', I s → step s a = some s' → Q s a s' → I s') {s : σ} {as : List α}
    (hs : I s) : Always step P s as ↔ Along step Q s as := by
  unfold Always
  rw [along_iff (P := fun _ _ s' => P s') hiff hstep hs]
  exact and_iff_right (hI s hs)

/-! ### Runs that may go on -/

/-- A run that breaks a condition does so at one of its steps. -/
theorem exists_of_not_along {P : σ → α → σ → Prop} {s : σ} {as : List α} (h : ¬ Along step P s as) :
    ∃ pre a post t u, as = pre ++ a :: post ∧ exec step s pre = some t ∧ step t a = some u ∧
      ¬ P t a u := by
  induction as generalizing s with
  | nil => exact absurd trivial h
  | cons a as ih =>
    cases ht : step s a with
    | none => exact absurd (by simp [Along, ht]) h
    | some t =>
      rw [along_cons ht] at h
      by_cases hp : P s a t
      · obtain ⟨pre, b, post, u, v, rfl, hpre, hv, hn⟩ := ih fun hP => h ⟨hp, hP⟩
        exact ⟨a :: pre, b, post, u, v, rfl, exec_cons.mpr ⟨t, ht, hpre⟩, hv, hn⟩
      · exact ⟨[], a, as, s, t, rfl, rfl, ht, hp⟩

variable (step) in
/-- **`P` holds throughout the run, and however it could have gone on** from any point by actions of
`C`. -/
def AlwaysThen (C : α → Prop) (P : σ → Prop) (s : σ) (as : List α) : Prop :=
  ∀ pre bs, pre <+: as → (∀ b ∈ bs, C b) → Always step P s (pre ++ bs)

/-- A prefix of a run that meets a condition meets it. -/
theorem Along.initial {P : σ → α → σ → Prop} {s : σ} {as pre : List α} (h : Along step P s as)
    (hpre : pre <+: as) : Along step P s pre := by
  by_contra hn
  obtain ⟨pre', a, post, t, u, rfl, ht, hu, hp⟩ := exists_of_not_along hn
  obtain ⟨rest, rfl⟩ := hpre
  rw [List.append_assoc, along_append ht, List.cons_append, along_cons hu] at h
  exact hp h.2.1

/-- A state on the way. -/
theorem Always.initial {P : σ → Prop} {s t : σ} {as pre : List α} (h : Always step P s as)
    (hpre : pre <+: as) (ht : exec step s pre = some t) : P t :=
  Always.last ⟨h.1, h.2.initial hpre⟩ ht

/-- A run that meets a condition goes on to meet it. -/
theorem Along.append {P : σ → α → σ → Prop} {s : σ} {as bs : List α} (h : Along step P s as)
    (hbs : ∀ b ∈ bs, ∀ s s', P s b s') : Along step P s (as ++ bs) := by
  by_contra hn
  obtain ⟨pre, a, post, t, u, heq, ht, hu, hp⟩ := exists_of_not_along hn
  rcases List.append_eq_append_iff.mp heq with ⟨mid, rfl, hmid⟩ | ⟨mid, rfl, hmid⟩
  · -- The step is one of `bs`.
    exact hp (hbs a (by rw [hmid]; exact List.mem_append_right _ List.mem_cons_self) t u)
  · cases mid with
    | nil =>
      rw [List.nil_append] at hmid
      exact hp (hbs a (by rw [← hmid]; exact List.mem_cons_self) t u)
    | cons b mid =>
      obtain ⟨rfl, -⟩ := List.cons.inj hmid
      rw [along_append ht, along_cons hu] at h
      exact hp h.2.1

/-- **The exact condition for an invariant, with what the system can still do**: a run meets `Q`
exactly if `P` holds throughout and stays true by the actions of `C`, which `Q` does not restrict,
provided that after a step that breaks `Q` such actions lead to a state without `P`. -/
theorem along_iff_alwaysThen {P : σ → Prop} {Q : σ → α → σ → Prop} {C : α → Prop} {s : σ}
    (hfree : ∀ b, C b → ∀ s s', Q s b s') (hsafe : ∀ as, Along step Q s as → Always step P s as)
    (hbreak : ∀ pre a t u, exec step s pre = some t → step t a = some u → ¬ Q t a u →
      ∃ bs v, (∀ b ∈ bs, C b) ∧ exec step u bs = some v ∧ ¬ P v) {as : List α} :
    Along step Q s as ↔ AlwaysThen step C P s as := by
  constructor
  · intro h pre bs hpre hbs
    exact hsafe _ ((h.initial hpre).append fun b hb => hfree b (hbs b hb))
  · intro h
    by_contra hn
    obtain ⟨pre, a, post, t, u, rfl, ht, hu, hq⟩ := exists_of_not_along hn
    obtain ⟨bs, v, hbs, hv, hP⟩ := hbreak pre a t u ht hu hq
    have hpre : pre ++ [a] <+: pre ++ a :: post := ⟨post, by rw [List.append_assoc]; rfl⟩
    exact hP ((h (pre ++ [a]) bs hpre hbs).last (exec_append.mpr ⟨u, exec_concat ht hu, hv⟩))

/-! ### The history of a run -/

/-- **Invariants of a state and the run that led to it.** -/
theorem exec_history {H : List α → σ → Prop} {s₀ s : σ} {as : List α} (hnil : H [] s₀)
    (hstep : ∀ as s a s', exec step s₀ as = some s → H as s → step s a = some s' → H (as ++ [a]) s')
    (h : exec step s₀ as = some s) : H as s := by
  induction as using List.reverseRecOn generalizing s with
  | nil =>
    cases h
    exact hnil
  | append_singleton as a ih =>
    obtain ⟨t, ht, hs⟩ := exec_append.mp h
    obtain ⟨u, hu, hs⟩ := exec_cons.mp hs
    cases hs
    exact hstep as t a _ ht (ih ht) hu

theorem last_unique_of_append {K : α → Prop} {mid post post' : List α} {a b : α}
    (h : a :: post = mid ++ b :: post') (hb : K b) (hpost : ∀ c ∈ post, ¬ K c) :
    mid = [] ∧ a = b ∧ post = post' := by
  cases mid with
  | nil =>
    obtain ⟨rfl, rfl⟩ := List.cons.inj h
    exact ⟨rfl, rfl, rfl⟩
  | cons c mid =>
    obtain ⟨-, rfl⟩ := List.cons.inj h
    exact absurd hb (hpost b (by simp))

/-- A run is cut in one way only at the last of its actions of a kind. -/
theorem last_unique {K : α → Prop} {pre pre' post post' : List α} {a b : α}
    (h : pre ++ a :: post = pre' ++ b :: post') (ha : K a) (hb : K b) (hpost : ∀ c ∈ post, ¬ K c)
    (hpost' : ∀ c ∈ post', ¬ K c) : pre = pre' ∧ a = b ∧ post = post' := by
  rcases List.append_eq_append_iff.mp h with ⟨mid, rfl, hmid⟩ | ⟨mid, rfl, hmid⟩
  · obtain ⟨rfl, rfl, rfl⟩ := last_unique_of_append hmid hb hpost
    exact ⟨by simp, rfl, rfl⟩
  · obtain ⟨rfl, rfl, rfl⟩ := last_unique_of_append hmid ha hpost'
    exact ⟨by simp, rfl, rfl⟩

/-! ### Systems of processes -/

/-- What is read off a process after a step, for the process that moved and for the others. -/
theorem update_cases {ι π β : Type*} [DecidableEq ι] {f : ι → π} {p q : ι} {x : π}
    (g : π → β) {b : β} (h : g (Function.update f p x q) = b) :
    (q = p ∧ g x = b) ∨ (q ≠ p ∧ g (f q) = b) := by
  by_cases hq : q = p
  · subst hq
    exact Or.inl ⟨rfl, by rwa [Function.update_self] at h⟩
  · exact Or.inr ⟨hq, by rwa [Function.update_of_ne hq] at h⟩

/-! ### Interleavings of two runs -/

/-- `cs` merges `as` and `bs`, keeping the order of each. -/
inductive Interleave : List α → List α → List α → Prop
  | nil : Interleave [] [] []
  | left {a : α} {as bs cs : List α} : Interleave as bs cs → Interleave (a :: as) bs (a :: cs)
  | right {b : α} {as bs cs : List α} : Interleave as bs cs → Interleave as (b :: bs) (b :: cs)

end Vsms.Lib.Runs
