import Mathlib.Data.List.Induction
import Mathlib.Logic.Function.Basic

/-! # Routing by a tree of segments

A route is a list of segments, of which some are literal and the others stand for any segment. A
router keeps its routes in a tree and walks it with the segments of a path: at each step the literal
child comes before the child for a parameter, and where a child leads nowhere the next is tried.

What the walk finds is, of all routes in the tree that match the path, the one that is literal where
another is not, at the first segment at which they differ (`walk_spec`). There is one such route, as
two routes that match a path and do not differ in this way are the same (`literalFirst_eq`). -/

namespace Vsms.Lib.SegmentTree

variable {σ τ : Type*}

/-! ### Routes -/

inductive Seg (σ : Type*)
  | literal (s : σ)
  | param
  deriving DecidableEq

/-- The segments of the path are those of the route, where it is literal. -/
inductive Matches : List (Seg σ) → List σ → Prop
  | nil : Matches [] []
  | literal {s : σ} {route : List (Seg σ)} {path : List σ} :
    Matches route path → Matches (.literal s :: route) (s :: path)
  | param {s : σ} {route : List (Seg σ)} {path : List σ} :
    Matches route path → Matches (.param :: route) (s :: path)

theorem Matches.length_eq {route : List (Seg σ)} {path : List σ} (h : Matches route path) :
    route.length = path.length := by
  induction h with
  | nil => rfl
  | literal _ ih => rw [List.length_cons, List.length_cons, ih]
  | param _ ih => rw [List.length_cons, List.length_cons, ih]

@[simp] theorem matches_literal {s s' : σ} {route : List (Seg σ)} {path : List σ} :
    Matches (.literal s :: route) (s' :: path) ↔ s = s' ∧ Matches route path := by
  constructor
  · rintro (_ | h | _)
    exact ⟨rfl, h⟩
  · rintro ⟨rfl, h⟩
    exact .literal h

@[simp] theorem matches_param {s : σ} {route : List (Seg σ)} {path : List σ} :
    Matches (.param :: route) (s :: path) ↔ Matches route path := by
  constructor
  · rintro (_ | _ | h)
    exact h
  · exact .param

/-- Which of two routes is literal where the other is not, at the first such segment. -/
def literalFirst : List (Seg σ) → List (Seg σ) → Ordering
  | .literal _ :: _, .param :: _ => .lt
  | .param :: _, .literal _ :: _ => .gt
  | .literal _ :: route, .literal _ :: route' => literalFirst route route'
  | .param :: route, .param :: route' => literalFirst route route'
  | [], _ => .eq
  | _ :: _, [] => .eq

theorem literalFirst_swap (route route' : List (Seg σ)) :
    literalFirst route' route = (literalFirst route route').swap := by
  induction route generalizing route' with
  | nil => cases route' <;> simp [literalFirst]
  | cons seg route ih =>
    cases route' with
    | nil => cases seg <;> simp [literalFirst]
    | cons seg' route' => cases seg <;> cases seg' <;> simp [literalFirst, ih]

/-- **Two routes that match a path and do not differ in kind** are the same. -/
theorem literalFirst_eq {route route' : List (Seg σ)} {path : List σ} (h : Matches route path)
    (h' : Matches route' path) (heq : literalFirst route route' = .eq) : route = route' := by
  induction h generalizing route' with
  | nil => cases h'; rfl
  | literal h ih =>
    cases h' with
    | literal h' => rw [ih h' heq]
    | param h' => cases heq
  | param h ih =>
    cases h' with
    | literal h' => cases heq
    | param h' => rw [ih h' heq]

/-- The segments of a path where the route has parameters. -/
def params : List (Seg σ) → List σ → List σ
  | .literal _ :: route, _ :: path => params route path
  | .param :: route, s :: path => s :: params route path
  | _, _ => []

/-- Where one of two routes that match a path has a parameter, the other has one or is literal. -/
theorem mem_params {route route' : List (Seg σ)} {path : List σ} (h : Matches route path)
    (h' : Matches route' path) {s : σ} (hs : s ∈ params route path) :
    s ∈ params route' path ∨ .literal s ∈ route' := by
  induction h generalizing route' with
  | nil => cases hs
  | literal h ih =>
    cases h' with
    | literal h' => exact (ih h' hs).imp id (List.mem_cons_of_mem _)
    | param h' => exact (ih h' hs).imp (List.mem_cons_of_mem _) (List.mem_cons_of_mem _)
  | param h ih =>
    rcases List.mem_cons.mp hs with rfl | hs
    · cases h' with
      | literal h' => exact .inr List.mem_cons_self
      | param h' => exact .inl List.mem_cons_self
    · cases h' with
      | literal h' => exact (ih h' hs).imp id (List.mem_cons_of_mem _)
      | param h' => exact (ih h' hs).imp (List.mem_cons_of_mem _) (List.mem_cons_of_mem _)

/-! ### The tree -/

/-- A node has the route that ends there, a child for each literal segment and one for a parameter.
-/
inductive Tree (σ τ : Type*)
  | empty
  | node (leaf : Option τ) (literals : σ → Tree σ τ) (param : Tree σ τ)

namespace Tree

def leaf : Tree σ τ → Option τ
  | empty => none
  | node leaf _ _ => leaf

def literal : Tree σ τ → σ → Tree σ τ
  | empty, _ => empty
  | node _ literals _, s => literals s

def param : Tree σ τ → Tree σ τ
  | empty => empty
  | node _ _ param => param

/-- What is kept at a route. -/
def get (t : Tree σ τ) : List (Seg σ) → Option τ
  | [] => t.leaf
  | .literal s :: route => (t.literal s).get route
  | .param :: route => t.param.get route

/-- **The walk**: the literal child first, then the child for a parameter. -/
def walk (t : Tree σ τ) : List σ → Option τ
  | [] => t.leaf
  | s :: path => ((t.literal s).walk path).or (t.param.walk path)

theorem get_empty (route : List (Seg σ)) : (empty : Tree σ τ).get route = none := by
  induction route with
  | nil => rfl
  | cons seg route ih => cases seg <;> exact ih

/-- **Where the walk finds nothing**, no route of the tree matches. -/
theorem walk_eq_none {t : Tree σ τ} {path : List σ} (h : t.walk path = none) {route : List (Seg σ)}
    (hmatches : Matches route path) : t.get route = none := by
  induction hmatches generalizing t with
  | nil => exact h
  | literal _ ih =>
    rw [walk, Option.or_eq_none_iff] at h
    exact ih h.1
  | param _ ih =>
    rw [walk, Option.or_eq_none_iff] at h
    exact ih h.2

/-- **What the walk finds** is kept at a route that matches the path, and no route of the tree that
matches it is literal before that one. -/
theorem walk_spec {t : Tree σ τ} {path : List σ} {value : τ} (h : t.walk path = some value) :
    ∃ route, t.get route = some value ∧ Matches route path ∧
      ∀ route' value', t.get route' = some value' → Matches route' path →
        literalFirst route route' ≠ .gt := by
  induction path generalizing t with
  | nil =>
    refine ⟨[], h, .nil, fun route' value' _ hmatches => ?_⟩
    cases hmatches
    simp [literalFirst]
  | cons s path ih =>
    rw [walk, Option.or_eq_some_iff] at h
    rcases h with h | ⟨hnone, h⟩
    · obtain ⟨route, hget, hmatches, hfirst⟩ := ih h
      refine ⟨.literal s :: route, hget, .literal hmatches, fun route' value' hget' hmatches' => ?_⟩
      cases hmatches' with
      | literal hmatches' => exact hfirst _ value' hget' hmatches'
      | param hmatches' => simp [literalFirst]
    · obtain ⟨route, hget, hmatches, hfirst⟩ := ih h
      refine ⟨.param :: route, hget, .param hmatches, fun route' value' hget' hmatches' => ?_⟩
      cases hmatches' with
      | literal hmatches' =>
        -- The literal child would have been taken.
        have hempty := walk_eq_none hnone hmatches'
        rw [get, hempty] at hget'
        cases hget'
      | param hmatches' => exact hfirst _ value' hget' hmatches'

variable [DecidableEq σ]

/-- Keep a value at a route. -/
def insert (t : Tree σ τ) : List (Seg σ) → τ → Tree σ τ
  | [], value => node (some value) t.literal t.param
  | .literal s :: route, value =>
    node t.leaf (Function.update t.literal s ((t.literal s).insert route value)) t.param
  | .param :: route, value => node t.leaf t.literal (t.param.insert route value)

theorem get_insert (t : Tree σ τ) (route route' : List (Seg σ)) (value : τ) :
    (t.insert route value).get route' = if route' = route then some value else t.get route' := by
  induction route generalizing t route' with
  | nil =>
    cases route' with
    | nil => rfl
    | cons seg route' => cases seg <;> simp [insert, get, literal, param]
  | cons seg route ih =>
    cases route' with
    | nil => cases seg <;> simp [insert, get, leaf]
    | cons seg' route' =>
      cases seg with
      | param => cases seg' <;> simp [insert, get, literal, param, ih]
      | literal s =>
        cases seg' with
        | param => simp [insert, get, param]
        | literal s' =>
          by_cases hs : s' = s
          · subst hs
            simp [insert, get, literal, ih]
          · simp [insert, get, literal, hs]

/-- The tree of a table of routes, inserted from the left. -/
def ofTable (table : List (List (Seg σ) × τ)) : Tree σ τ :=
  table.foldl (fun t entry => t.insert entry.1 entry.2) empty

/-- **The tree keeps the table** if its routes are different. -/
theorem get_ofTable {table : List (List (Seg σ) × τ)} (h : (table.map (·.1)).Nodup)
    {route : List (Seg σ)} {value : τ} : (ofTable table).get route = some value ↔
    (route, value) ∈ table := by
  unfold ofTable
  induction table using List.reverseRecOn with
  | nil => simp [get_empty]
  | append_singleton table entry ih =>
    obtain ⟨route', value'⟩ := entry
    rw [List.map_append, List.map_singleton, List.nodup_append] at h
    rw [List.foldl_append, List.foldl_cons, List.foldl_nil, get_insert]
    split_ifs with heq
    · subst heq
      have hnot : (route, value) ∉ table := fun hmem =>
        h.2.2 _ (List.mem_map_of_mem hmem) _ (List.mem_singleton_self _) rfl
      simp [hnot, eq_comm]
    · rw [ih h.1]
      simp [heq]

end Tree

end Vsms.Lib.SegmentTree
