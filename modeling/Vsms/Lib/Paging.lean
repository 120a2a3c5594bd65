import Mathlib.Data.List.Sort
import Mathlib.Data.List.Perm.Subperm
import Mathlib.Order.Basic

/-! # Reading a table page by page

A table is read in the order of a key, a page of `size` rows at a time, each page by its number.
Between two pages rows may be added, anywhere in the order. That moves a row to a later place, never
to an earlier one, so a row that is in the table when the first page is read is in one of the pages
by the time one comes back short. `Scanned` says this of the pages read so far. -/

namespace Vsms.Lib.Paging

variable {ρ κ : Type*} [LinearOrder κ] (key : ρ → κ)

/-- `ORDER BY key LIMIT size OFFSET n * size` -/
def page (size n : ℕ) (rows : List ρ) : List ρ :=
  ((rows.insertionSort fun x y => key x ≤ key y).drop (n * size)).take size

/-- The place of a row in the order: how many come before it. -/
def rank (rows : List ρ) (x : ρ) : ℕ := rows.countP fun y => key y < key x

variable {key} {size n : ℕ} {rows rows' seen : List ρ} {x : ρ}

instance keyTotal : Std.Total fun x y : ρ => key x ≤ key y := ⟨fun _ _ => le_total _ _⟩

instance keyTrans : IsTrans ρ fun x y => key x ≤ key y := ⟨fun _ _ _ => le_trans⟩

theorem rank_lt_length (key : ρ → κ) (hx : x ∈ rows) : rank key rows x < rows.length := by
  refine lt_of_le_of_ne List.countP_le_length fun h => ?_
  have hself := List.countP_eq_length.mp h x hx
  simp at hself

/-- Rows that are added move a row to a later place. -/
theorem rank_mono (hnodup : rows.Nodup) (hsub : rows ⊆ rows') (x : ρ) :
    rank key rows x ≤ rank key rows' x :=
  (hnodup.subperm hsub).countP_le _

/-- A row stands in the sorted list at its rank. -/
theorem exists_split (hkeys : (rows.map key).Nodup) (hx : x ∈ rows) :
    ∃ before after, rows.insertionSort (fun x y => key x ≤ key y) = before ++ x :: after ∧
      before.length = rank key rows x := by
  have hperm := List.perm_insertionSort (fun x y => key x ≤ key y) rows
  have hsorted := List.pairwise_insertionSort (fun x y => key x ≤ key y) rows
  have hnodup : ((rows.insertionSort fun x y => key x ≤ key y).map key).Nodup :=
    (hperm.map key).nodup_iff.mpr hkeys
  obtain ⟨before, after, hsplit⟩ := List.append_of_mem (hperm.mem_iff.mpr hx)
  refine ⟨before, after, hsplit, ?_⟩
  have hrank : rank key rows x = (before ++ x :: after).countP fun y => key y < key x := by
    rw [← hsplit]
    exact (hperm.countP_eq _).symm
  rw [hsplit] at hsorted hnodup
  rw [List.map_append, List.map_cons] at hnodup
  have hbefore : ∀ y ∈ before, key y < key x := by
    intro y hy
    have hle := (List.pairwise_append.mp hsorted).2.2 y hy x List.mem_cons_self
    refine lt_of_le_of_ne hle ?_
    exact (List.nodup_append.mp hnodup).2.2 _ (List.mem_map_of_mem hy) _ List.mem_cons_self
  have hafter : ∀ y ∈ after, ¬ key y < key x := by
    intro y hy
    have hrest := (List.pairwise_append.mp hsorted).2.1
    exact not_lt.mpr ((List.pairwise_cons.mp hrest).1 y hy)
  have hall : before.countP (fun y => key y < key x) = before.length :=
    List.countP_eq_length.mpr fun y hy => decide_eq_true (hbefore y hy)
  have hnone : after.countP (fun y => key y < key x) = 0 :=
    List.countP_eq_zero.mpr fun y hy => by simpa using hafter y hy
  rw [hrank, List.countP_append, List.countP_cons, hall, hnone]
  simp

/-- **A row is on the page its rank says.** -/
theorem mem_page (hkeys : (rows.map key).Nodup) (hx : x ∈ rows) (hle : n * size ≤ rank key rows x)
    (hlt : rank key rows x < (n + 1) * size) : x ∈ page key size n rows := by
  obtain ⟨before, after, hsplit, hlen⟩ := exists_split hkeys hx
  rw [Nat.succ_mul] at hlt
  unfold page
  rw [hsplit, List.drop_append_of_le_length (by omega)]
  have hdrop : (before.drop (n * size)).length < size := by
    rw [List.length_drop]
    omega
  refine List.mem_take_iff_getElem.mpr ⟨(before.drop (n * size)).length, ?_, ?_⟩
  · simp only [List.length_append, List.length_cons]
    omega
  · simp

/-! ## Scans -/

/-- **No row with `P` among the pages before the `n`-th**, of the rows `seen` that were there when
the scan began. -/
def Scanned (key : ρ → κ) (P : ρ → Prop) (size n : ℕ) (seen rows : List ρ) : Prop :=
  ∀ x ∈ seen, rank key rows x < n * size → ¬ P x

variable {P : ρ → Prop}

theorem Scanned.zero (key : ρ → κ) (P : ρ → Prop) (size : ℕ) (seen rows : List ρ) :
    Scanned key P size 0 seen rows := by
  intro x _ hlt
  omega

/-- Rows may be added. -/
theorem Scanned.grow (h : Scanned key P size n seen rows) (hnodup : rows.Nodup)
    (hsub : rows ⊆ rows') : Scanned key P size n seen rows' := by
  intro x hx hlt
  exact h x hx (lt_of_le_of_lt (rank_mono hnodup hsub x) hlt)

/-- The next page. -/
theorem Scanned.next (h : Scanned key P size n seen rows) (hkeys : (rows.map key).Nodup)
    (hseen : seen ⊆ rows) (hpage : ∀ x ∈ page key size n rows, ¬ P x) :
    Scanned key P size (n + 1) seen rows := by
  intro x hx hlt
  by_cases hbefore : rank key rows x < n * size
  · exact h x hx hbefore
  · exact hpage x (mem_page hkeys (hseen hx) (by omega) hlt)

/-- **A short page is the last.** -/
theorem Scanned.last (h : Scanned key P size n seen rows) (hkeys : (rows.map key).Nodup)
    (hseen : seen ⊆ rows) (hpage : ∀ x ∈ page key size n rows, ¬ P x)
    (hshort : (page key size n rows).length < size) : ∀ x ∈ seen, ¬ P x := by
  intro x hx
  refine h.next hkeys hseen hpage x hx ?_
  have hlt := rank_lt_length key (hseen hx)
  unfold page at hshort
  rw [List.length_take, List.length_drop, List.length_insertionSort] at hshort
  rw [Nat.succ_mul]
  omega

end Vsms.Lib.Paging
