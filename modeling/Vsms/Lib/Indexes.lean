import Mathlib.Data.List.Nodup

/-! # Unique indexes

A table is a list of rows, and a unique index on it is a key that no two of its rows share. `Unique`
says so of a list. It is kept by an insert of a row with a new key, by a delete, and by an update
that leaves the key alone; the key then finds at most one row. A transaction is a sequence of
statements, each of which may fail (`bind_ok`). -/

namespace Vsms.Lib.Indexes

variable {ρ κ : Type*}

/-- **No two rows share the key.** -/
def Unique (key : ρ → κ) (rows : List ρ) : Prop := (rows.map key).Nodup

instance [DecidableEq κ] (key : ρ → κ) (rows : List ρ) : Decidable (Unique key rows) :=
  inferInstanceAs (Decidable (rows.map key).Nodup)

variable {key : ρ → κ} {rows : List ρ} {x y : ρ} {k : κ}

theorem Unique.nil : Unique key [] := List.nodup_nil

theorem Unique.nodup (h : Unique key rows) : rows.Nodup := List.Nodup.of_map key h

theorem Unique.eq (h : Unique key rows) (hx : x ∈ rows) (hy : y ∈ rows) (hk : key x = key y) :
    x = y :=
  List.inj_on_of_nodup_map h hx hy hk

/-- An insert. -/
theorem Unique.concat (h : Unique key rows) (hnew : ∀ y ∈ rows, key y ≠ key x) :
    Unique key (rows ++ [x]) := by
  unfold Unique
  rw [List.map_append, List.nodup_append]
  refine ⟨h, List.nodup_singleton _, fun a ha b hb => ?_⟩
  obtain ⟨y, hy, rfl⟩ := List.mem_map.mp ha
  rw [List.map_singleton, List.mem_singleton] at hb
  rw [hb]
  exact hnew y hy

theorem Unique.of_concat (h : Unique key (rows ++ [x])) : ∀ y ∈ rows, key y ≠ key x := by
  intro y hy
  unfold Unique at h
  rw [List.map_append, List.nodup_append] at h
  exact h.2.2 _ (List.mem_map_of_mem hy) _ (List.mem_map_of_mem List.mem_cons_self)

/-- A delete. -/
theorem Unique.filter (h : Unique key rows) (p : ρ → Bool) : Unique key (rows.filter p) :=
  h.sublist (List.filter_sublist.map key)

/-- An update of other columns. -/
theorem Unique.map (h : Unique key rows) {f : ρ → ρ} (hkey : ∀ x, key (f x) = key x) :
    Unique key (rows.map f) := by
  unfold Unique
  rw [List.map_map]
  have hcomp : key ∘ f = key := funext hkey
  rw [hcomp]
  exact h

/-- An update of the key in one row, the one that another index has at `k`. -/
theorem Unique.write {κ' : Type*} [DecidableEq κ'] {other : ρ → κ'} (h : Unique key rows)
    (hother : Unique other rows) {k : κ'} {f : ρ → ρ}
    (hnew : ∀ x ∈ rows, ∀ y ∈ rows, other x = k → other y ≠ k → key (f x) ≠ key y) :
    Unique key (rows.map fun x => if other x = k then f x else x) := by
  have hnodup := h.nodup
  have hpair : rows.Pairwise fun x y => x ∈ rows ∧ y ∈ rows ∧ x ≠ y :=
    List.Pairwise.and_mem.mp hnodup
  unfold Unique
  rw [List.map_map, List.Nodup, List.pairwise_map]
  refine hpair.imp fun {x y} ⟨hx, hy, hne⟩ => ?_
  dsimp only [Function.comp]
  by_cases hxk : other x = k
  · by_cases hyk : other y = k
    · exact absurd (hother.eq hx hy (hxk.trans hyk.symm)) hne
    · rw [if_pos hxk, if_neg hyk]
      exact hnew x hx y hy hxk hyk
  · by_cases hyk : other y = k
    · rw [if_neg hxk, if_pos hyk]
      exact (hnew y hy x hx hyk hxk).symm
    · rw [if_neg hxk, if_neg hyk]
      intro hk
      exact hne (h.eq hx hy hk)

/-! ## Looking up -/

variable [DecidableEq κ]

theorem find_none : rows.find? (key · = k) = none ↔ ∀ x ∈ rows, key x ≠ k := by
  simp

theorem mem_of_find (h : rows.find? (key · = k) = some x) : x ∈ rows ∧ key x = k :=
  ⟨List.mem_of_find?_eq_some h, by simpa using List.find?_some h⟩

/-- **The index finds the row.** -/
theorem Unique.find (h : Unique key rows) : rows.find? (key · = k) = some x ↔
    x ∈ rows ∧ key x = k := by
  refine ⟨mem_of_find, fun ⟨hx, hk⟩ => ?_⟩
  cases hfind : rows.find? (key · = k) with
  | none => exact absurd hk (find_none.mp hfind x hx)
  | some y =>
    obtain ⟨hy, hyk⟩ := mem_of_find hfind
    rw [h.eq hy hx (hyk.trans hk.symm)]

/-! ## Transactions -/

/-- A transaction that succeeds: all of its statements have. -/
theorem bind_ok {ε : Type*} {α β : Type} {x : Except ε α} {f : α → Except ε β} {b : β} :
    x >>= f = .ok b ↔ ∃ a, x = .ok a ∧ f a = .ok b := by
  cases x with
  | error e => simp [Bind.bind, Except.bind]
  | ok a => simp [Bind.bind, Except.bind]

/-- One that fails: a statement has, after others that have not. -/
theorem bind_error {ε : Type*} {α β : Type} {x : Except ε α} {f : α → Except ε β} {e : ε} :
    x >>= f = .error e ↔ x = .error e ∨ ∃ a, x = .ok a ∧ f a = .error e := by
  cases x with
  | error e' => simp [Bind.bind, Except.bind]
  | ok a => simp [Bind.bind, Except.bind]

end Vsms.Lib.Indexes
