import Mathlib.Data.List.Nodup
import Mathlib.Data.List.Perm.Basic
import Mathlib.Tactic.SplitIfs

/-! # Folding rows into a map

A map that rows are folded into: a row makes the entry of its key if there is none, and then changes
it. No key is there twice, and the entry of a key is what the rows with this key make of it, in
their order; the other rows do not matter (`lookup_upserts`, `mem_values_upserts`). The map has no
order of its own: `Values m vs` says that `vs` are its values, in the order in which they happen to
come. -/

namespace Vsms.Lib.Upserts

variable {κ ν ρ : Type*} [DecidableEq κ]

/-- The entry of `key`, which is `made` if there is none, is changed by `f`. -/
def upsert (key : κ) (made : ν) (f : ν → ν) : List (κ × ν) → List (κ × ν)
  | [] => [(key, f made)]
  | (k, v) :: m => if k = key then (k, f v) :: m else (k, v) :: upsert key made f m

/-- **The map that rows are folded into.** -/
def upserts (key : ρ → κ) (make : ρ → ν) (step : ν → ρ → ν) (rows : List ρ) : List (κ × ν) :=
  rows.foldl (fun m r => upsert (key r) (make r) (fun v => step v r) m) []

/-- The values of a map, in some order. -/
def Values (m : List (κ × ν)) (vs : List ν) : Prop := List.Perm vs (m.map Prod.snd)

/-! ### One row -/

theorem lookup_cons (k k' : κ) (v : ν) (m : List (κ × ν)) :
    ((k', v) :: m).lookup k = if k = k' then some v else m.lookup k := by
  rw [List.lookup_cons]
  by_cases h : k = k'
  · rw [if_pos h, beq_iff_eq.mpr h]
  · rw [if_neg h, beq_eq_false_iff_ne.mpr h]

section upsert
variable {key : κ} {made : ν} {f : ν → ν}

theorem lookup_upsert (m : List (κ × ν)) (k : κ) :
    (upsert key made f m).lookup k =
      if k = key then some (f ((m.lookup key).getD made)) else m.lookup k := by
  induction m with
  | nil =>
    rw [upsert, lookup_cons]
    rfl
  | cons e m ih =>
    obtain ⟨k', v⟩ := e
    by_cases hk' : k' = key
    · subst hk'
      rw [upsert, if_pos rfl, lookup_cons, lookup_cons, lookup_cons, if_pos rfl]
      split_ifs <;> rfl
    · have hkey : ¬ key = k' := fun h => hk' h.symm
      rw [upsert, if_neg hk', lookup_cons, lookup_cons, lookup_cons, if_neg hkey, ih]
      by_cases h : k = k'
      · subst h
        rw [if_pos rfl, if_pos rfl, if_neg hk']
      · rw [if_neg h, if_neg h]

theorem keys_upsert (m : List (κ × ν)) :
    (upsert key made f m).map Prod.fst =
      if key ∈ m.map Prod.fst then m.map Prod.fst else m.map Prod.fst ++ [key] := by
  induction m with
  | nil => rfl
  | cons e m ih =>
    obtain ⟨k', v⟩ := e
    by_cases hk' : k' = key
    · simp [upsert, hk']
    · have hkey : ¬ key = k' := fun h => hk' h.symm
      rw [upsert, if_neg hk', List.map_cons, ih]
      by_cases h : key ∈ m.map Prod.fst
      · have hcons : key ∈ ((k', v) :: m).map Prod.fst := List.mem_cons_of_mem _ h
        rw [if_pos h, if_pos hcons]
        rfl
      · have hcons : key ∉ ((k', v) :: m).map Prod.fst := by simpa [hkey] using h
        rw [if_neg h, if_neg hcons]
        rfl

theorem nodup_upsert {m : List (κ × ν)} (h : (m.map Prod.fst).Nodup) :
    ((upsert key made f m).map Prod.fst).Nodup := by
  rw [keys_upsert]
  split_ifs with hk
  · exact h
  · exact List.nodup_append_comm.mp (List.nodup_cons.mpr ⟨hk, h⟩)

end upsert

theorem mem_iff_lookup {m : List (κ × ν)} (h : (m.map Prod.fst).Nodup) {k : κ} {v : ν} :
    (k, v) ∈ m ↔ m.lookup k = some v := by
  induction m with
  | nil => simp
  | cons e m ih =>
    obtain ⟨k', v'⟩ := e
    obtain ⟨hk', hm⟩ := List.nodup_cons.mp h
    by_cases hk : k = k'
    · subst hk
      have hnot : (k, v) ∉ m := fun hv => hk' (List.mem_map.mpr ⟨(k, v), hv, rfl⟩)
      simp [hnot, eq_comm]
    · simp [lookup_cons, hk, ih hm]

/-! ### All rows -/

section upserts
variable {key : ρ → κ} {make : ρ → ν} {step : ν → ρ → ν}

theorem nodup_upserts (rows : List ρ) : ((upserts key make step rows).map Prod.fst).Nodup := by
  have hfold : ∀ (rows : List ρ) (m : List (κ × ν)), (m.map Prod.fst).Nodup →
      ((rows.foldl (fun m r => upsert (key r) (make r) (fun v => step v r) m) m).map
        Prod.fst).Nodup := by
    intro rows
    induction rows with
    | nil => exact fun m hm => hm
    | cons r rows ih => exact fun m hm => ih _ (nodup_upsert hm)
  exact hfold rows [] List.nodup_nil

/-- What rows make of an entry, if there is none before. -/
def entryOf (make : ρ → ν) (step : ν → ρ → ν) : List ρ → Option ν
  | [] => none
  | r :: rs => some ((r :: rs).foldl step (make r))

/-- An entry that collects its rows has all of them. -/
theorem entryOf_collect {rows collected : List ρ} :
    entryOf (fun _ => []) (fun rs r => rs ++ [r]) rows = some collected ↔
    collected ≠ [] ∧ collected = rows := by
  have hfold : ∀ rows before : List ρ,
      rows.foldl (fun rs r => rs ++ [r]) before = before ++ rows := by
    intro rows
    induction rows with
    | nil => simp
    | cons r rows ih => simp [ih]
  cases rows with
  | nil => simp [entryOf]
  | cons r rows =>
    rw [entryOf, hfold, List.nil_append, Option.some.injEq]
    constructor
    · rintro rfl
      exact ⟨List.cons_ne_nil _ _, rfl⟩
    · exact fun h => h.2.symm

/-- **The entry of a key** is what the rows with this key make of it. -/
theorem lookup_upserts (rows : List ρ) (k : κ) :
    (upserts key make step rows).lookup k = entryOf make step (rows.filter fun r => key r = k) := by
  -- With the map so far, a row that is not of the key leaves its entry as it is.
  have hfold : ∀ (rows : List ρ) (m : List (κ × ν)),
      (rows.foldl (fun m r => upsert (key r) (make r) (fun v => step v r) m) m).lookup k =
        (rows.filter fun r => key r = k).foldl (fun o r => some (step (o.getD (make r)) r))
          (m.lookup k) := by
    intro rows
    induction rows with
    | nil => exact fun m => rfl
    | cons r rows ih =>
      intro m
      rw [List.foldl_cons, ih, lookup_upsert]
      by_cases h : key r = k
      · simp [h]
      · have hk : ¬ k = key r := fun h' => h h'.symm
        simp [h, hk]
  have hsome : ∀ (rows : List ρ) (v : ν),
      rows.foldl (fun o r => some (step (o.getD (make r)) r)) (some v) =
        some (rows.foldl step v) := by
    intro rows
    induction rows with
    | nil => exact fun v => rfl
    | cons r rows ih => exact fun v => ih (step v r)
  rw [upserts, hfold]
  cases rows.filter fun r => key r = k with
  | nil => rfl
  | cons r rs => exact hsome rs (step (make r) r)

/-- **The values of the map**, whatever their order. -/
theorem mem_values_upserts {rows : List ρ} {vs : List ν}
    (h : Values (upserts key make step rows) vs) {v : ν} :
    v ∈ vs ↔ ∃ k, entryOf make step (rows.filter fun r => key r = k) = some v := by
  rw [h.mem_iff, List.mem_map]
  constructor
  · rintro ⟨⟨k, v⟩, hkv, rfl⟩
    refine ⟨k, ?_⟩
    rw [← lookup_upserts]
    exact (mem_iff_lookup (nodup_upserts rows)).mp hkv
  · rintro ⟨k, hk⟩
    rw [← lookup_upserts] at hk
    exact ⟨(k, v), (mem_iff_lookup (nodup_upserts rows)).mpr hk, rfl⟩

end upserts

end Vsms.Lib.Upserts
