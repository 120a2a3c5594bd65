import Vsms.Lib.Percent
import Vsms.Lib.SegmentTree
import Vsms.Lib.Selection

/-! # Which route a path is

The client finds the template of a path before it signs a request, and the gateway's router finds it
again to run it. The client compares the path with every template of the schema, drops those that do
not match or have a parameter that cannot be read, and takes of the others the one that is literal
at the first segment where two differ. The router walks a tree of segments, a literal child before
the child for a parameter.

Both find the same template, in whatever order the client has its table, and a parameter that cannot
be read leaves the client with none: no other template takes its place (`resolve_eq_walk`). -/

namespace Vsms.Sdk.Routes

open Vsms.Lib.Framing Vsms.Lib.Percent Vsms.Lib.Selection
open Vsms.Lib.SegmentTree (Seg Tree Matches matches_literal matches_param)

/-! ## The client -/

/-- `split('/')` -/
def segments (path : String) : List (List Char) := path.toList.splitOn '/'

/-- **`is_parameter`** -/
def isParameter (segment : List Char) : Bool :=
  segment.head? = some '\x7b' && segment.getLast? = some '\x7d'

/-- The value of a parameter: no text that is empty or that a URL parser would resolve away. -/
def decodeParameter (segment : List Char) : Option String :=
  match decodeUtf8 (percentDecode (strBytes (String.ofList segment))) with
  | none => none
  | some decoded => if decoded = "" ∨ decoded = "." ∨ decoded = ".." then none else some decoded

/-- The loop over the parts of a template and the segments of a path. -/
def matchParts : List (List Char) → List (List Char) → Option (List String)
  | part :: parts, segment :: segments =>
    if isParameter part then do
      let decoded ← decodeParameter segment
      let params ← matchParts parts segments
      some (decoded :: params)
    else if part ≠ segment then none
    else matchParts parts segments
  | _, _ => some []

/-- The template with the parameters that the path has for it. -/
def candidate (path template : String) : Option (String × List String) :=
  if (segments template).length ≠ (segments path).length then none
  else (matchParts (segments template) (segments path)).map (template, ·)

/-- The loop of `literal_first`. -/
def literalFirstParts : List (List Char) → List (List Char) → Ordering
  | x :: xs, y :: ys =>
    match isParameter x, isParameter y with
    | false, true => .lt
    | true, false => .gt
    | _, _ => literalFirstParts xs ys
  | _, _ => .eq

/-- **`literal_first`** -/
def literalFirst (a b : String) : Ordering := literalFirstParts (segments a) (segments b)

/-- **`resolve`** -/
def resolve (templates : List String) (path : String) : Option (String × List String) :=
  minBy (fun a b => literalFirst a.1 b.1) (templates.filterMap (candidate path))

/-- **`route_of`**, of the operations that the schema serves. -/
def routeOf (operations : List (String × String)) (method path : String) :
    Option (String × List String) :=
  resolve ((operations.filter (·.1 = method)).map (·.2)) path

/-! ## The router -/

def segOf (part : List Char) : Seg (List Char) := if isParameter part then .param else .literal part

/-- A template without the names of its parameters. -/
def shape (template : String) : List (Seg (List Char)) := (segments template).map segOf

/-- The tree of the templates. -/
def routeTree (templates : List String) : Tree (List Char) String :=
  Tree.ofTable (templates.map fun template => (shape template, template))

/-- The segments of the path that the template has parameters for. -/
def parameterSegments (template path : String) : List (List Char) :=
  Vsms.Lib.SegmentTree.params (shape template) (segments path)

/-! ## What the client compares -/

theorem literalFirstParts_eq (xs ys : List (List Char)) : literalFirstParts xs ys =
    Vsms.Lib.SegmentTree.literalFirst (xs.map segOf) (ys.map segOf) := by
  induction xs generalizing ys with
  | nil => simp [literalFirstParts, Vsms.Lib.SegmentTree.literalFirst]
  | cons x xs ih =>
    cases ys with
    | nil => simp [literalFirstParts, Vsms.Lib.SegmentTree.literalFirst]
    | cons y ys =>
      cases hx : isParameter x <;> cases hy : isParameter y <;>
        simp [literalFirstParts, Vsms.Lib.SegmentTree.literalFirst, segOf, hx, hy, ih]

theorem literalFirst_eq (a b : String) :
    literalFirst a b = Vsms.Lib.SegmentTree.literalFirst (shape a) (shape b) :=
  literalFirstParts_eq _ _

theorem matchParts_eq_some {parts path : List (List Char)} (hlen : parts.length = path.length)
    {params : List String} : matchParts parts path = some params ↔ Matches (parts.map segOf) path ∧
      (Vsms.Lib.SegmentTree.params (parts.map segOf) path).mapM decodeParameter = some params := by
  induction parts generalizing path params with
  | nil =>
    obtain rfl := List.eq_nil_of_length_eq_zero hlen.symm
    simp [matchParts, Vsms.Lib.SegmentTree.params, Matches.nil]
  | cons part parts ih =>
    obtain ⟨segment, path, rfl⟩ := List.exists_cons_of_length_eq_add_one hlen.symm
    have ih := fun params => @ih path (Nat.succ_injective hlen) params
    cases hpart : isParameter part with
    | true =>
      have hseg : segOf part = .param := by simp [segOf, hpart]
      rw [List.map_cons, hseg, matches_param, Vsms.Lib.SegmentTree.params, List.mapM_cons,
        matchParts, if_pos hpart]
      simp only [Option.bind_eq_bind, Option.bind_eq_some_iff, Option.pure_def, ih]
      constructor
      · rintro ⟨decoded, hdecoded, rest, ⟨hmatches, hrest⟩, hparams⟩
        exact ⟨hmatches, decoded, hdecoded, rest, hrest, hparams⟩
      · rintro ⟨hmatches, decoded, hdecoded, rest, hrest, hparams⟩
        exact ⟨decoded, hdecoded, rest, ⟨hmatches, hrest⟩, hparams⟩
    | false =>
      have hseg : segOf part = .literal part := by simp [segOf, hpart]
      rw [List.map_cons, hseg, matches_literal, Vsms.Lib.SegmentTree.params, matchParts,
        if_neg (by simp [hpart])]
      by_cases heq : part = segment
      · rw [if_neg (not_not_intro heq), ih, and_assoc, and_iff_right heq]
      · rw [if_pos heq]
        simp [heq]

/-- **A template is a candidate** if its segments match and its parameters can be read. -/
theorem candidate_eq_some {path template : String} {result : String × List String} :
    candidate path template = some result ↔ Matches (shape template) (segments path) ∧
      ∃ params, (parameterSegments template path).mapM decodeParameter = some params ∧
        result = (template, params) := by
  unfold candidate
  split_ifs with hlen
  · simp only [false_iff, not_and]
    intro h
    exact absurd (by simpa [shape] using h.length_eq) hlen
  · rw [not_ne_iff] at hlen
    rw [Option.map_eq_some_iff]
    constructor
    · rintro ⟨params, hparams, rfl⟩
      obtain ⟨hmatches, hread⟩ := (matchParts_eq_some hlen).mp hparams
      exact ⟨hmatches, params, hread, rfl⟩
    · rintro ⟨hmatches, params, hread, rfl⟩
      exact ⟨params, (matchParts_eq_some hlen).mpr ⟨hmatches, hread⟩, rfl⟩

/-! ## The conditions on a table -/

/-- The client has no value for the segment: it is no UTF-8, or a text that is refused. -/
def Undecodable (segment : List Char) : Prop :=
  decodeUtf8 (percentDecode (strBytes (String.ofList segment))) = none ∨
    ∃ text ∈ ["", ".", ".."],
      decodeUtf8 (percentDecode (strBytes (String.ofList segment))) = some text

theorem decodeParameter_eq_none {segment : List Char} : decodeParameter segment = none ↔
    Undecodable segment := by
  unfold decodeParameter Undecodable
  cases decodeUtf8 (percentDecode (strBytes (String.ofList segment))) with
  | none => simp
  | some text =>
    simp only [ite_eq_left_iff, reduceCtorEq, imp_false, not_not, List.mem_cons,
      List.not_mem_nil, or_false, false_or, Option.some.injEq, exists_eq_right']

/-- A literal part can be told from what is refused in a parameter. -/
def PlainPart (part : List Char) : Prop := part ≠ [] ∧ '%' ∉ part ∧ part ≠ ['.'] ∧ part ≠ ['.', '.']

instance (part : List Char) : Decidable (PlainPart part) :=
  inferInstanceAs (Decidable (_ ∧ _ ∧ _ ∧ _))

/-- **A template of the schema**: a slash, and then parts of which the literal ones are plain. -/
def WellFormed (template : String) : Prop :=
  ∃ parts, segments template = [] :: parts ∧ ∀ part ∈ parts, isParameter part = false →
    PlainPart part

/-- A plain part is its own value. -/
theorem PlainPart.decodable {part : List Char} (h : PlainPart part) : ¬ Undecodable part := by
  obtain ⟨hne, hpercent, hdot, hdots⟩ := h
  unfold Undecodable
  rw [percentDecode_strBytes (by rwa [String.toList_ofList]), decodeUtf8_strBytes]
  rintro (h | ⟨text, htext, heq⟩)
  · cases h
  rw [← Option.some.inj heq] at htext
  simp only [List.mem_cons, List.not_mem_nil, or_false] at htext
  rcases htext with htext | htext | htext <;> rw [← String.toList_inj, String.toList_ofList]
    at htext
  · exact hne htext
  · exact hdot htext
  · exact hdots htext

/-- **A parameter that cannot be read** is a parameter of every template that matches. -/
theorem undecodable_parameter {template template' path : String} (hok : WellFormed template)
    (hok' : WellFormed template') (h : Matches (shape template) (segments path))
    (h' : Matches (shape template') (segments path)) {segment : List Char}
    (hsegment : segment ∈ parameterSegments template path) (hbad : Undecodable segment) :
    segment ∈ parameterSegments template' path := by
  obtain ⟨parts, hparts, -⟩ := hok
  obtain ⟨parts', hparts', hplain⟩ := hok'
  unfold parameterSegments at hsegment ⊢
  unfold shape at h h' hsegment ⊢
  rw [hparts] at h hsegment
  rw [hparts'] at h' ⊢
  -- The slash at the start is a literal of both, so the segment is behind it.
  have hroot : segOf [] = .literal [] := rfl
  rw [List.map_cons, hroot] at h h' hsegment ⊢
  cases hpath : segments path with
  | nil =>
    rw [hpath] at h
    cases h
  | cons first rest =>
    rw [hpath, matches_literal] at h h'
    rw [hpath] at hsegment
    rw [Vsms.Lib.SegmentTree.params] at hsegment ⊢
    rcases Vsms.Lib.SegmentTree.mem_params h.2 h'.2 hsegment with hin | hliteral
    · exact hin
    · obtain ⟨part, hpart, hseg⟩ := List.mem_map.mp hliteral
      unfold segOf at hseg
      split_ifs at hseg with hparam
      obtain rfl := Seg.literal.inj hseg
      exact absurd hbad (hplain part hpart (by simpa using hparam)).decodable

/-! ## The client and the router -/

section table
variable {templates table : List String} {path : String}

/-- What the tree keeps at a route. -/
theorem get_routeTree (hshape : (templates.map shape).Nodup) {route : List (Seg (List Char))}
    {template : String} :
    (routeTree templates).get route = some template ↔
    template ∈ templates ∧ shape template = route := by
  have hnodup : ((templates.map fun template => (shape template, template)).map (·.1)).Nodup := by
    rwa [List.map_map]
  unfold routeTree
  rw [Tree.get_ofTable hnodup, List.mem_map]
  constructor
  · rintro ⟨t, ht, heq⟩
    obtain ⟨hroute, rfl⟩ := Prod.mk.inj heq
    exact ⟨ht, hroute⟩
  · rintro ⟨ht, rfl⟩
    exact ⟨template, ht, rfl⟩

/-- What the walk finds matches, and of the templates that do none is literal before it. -/
theorem walk_routeTree (hshape : (templates.map shape).Nodup) {template : String}
    (h : (routeTree templates).walk (segments path) = some template) :
    template ∈ templates ∧ Matches (shape template) (segments path) ∧
      ∀ t ∈ templates, Matches (shape t) (segments path) → literalFirst template t ≠ .gt := by
  obtain ⟨route, hget, hmatches, hfirst⟩ := Tree.walk_spec h
  obtain ⟨hmem, rfl⟩ := (get_routeTree hshape).mp hget
  refine ⟨hmem, hmatches, fun t ht ht' => ?_⟩
  rw [literalFirst_eq]
  exact hfirst (shape t) t ((get_routeTree hshape).mpr ⟨ht, rfl⟩) ht'

/-- Every other template that matches comes after the one that is found. -/
theorem literalFirst_of_walk (hshape : (templates.map shape).Nodup) {template : String}
    (h : (routeTree templates).walk (segments path) = some template) {t : String}
    (ht : t ∈ templates) (ht' : Matches (shape t) (segments path)) (hne : t ≠ template) :
    literalFirst t template = .gt := by
  obtain ⟨hmem, hmatches, hfirst⟩ := walk_routeTree hshape h
  -- Two templates that match and do not differ in kind are the same.
  have hdiffer : literalFirst template t ≠ .eq := by
    intro heq
    rw [literalFirst_eq] at heq
    have hsame := Vsms.Lib.SegmentTree.literalFirst_eq hmatches ht' heq
    exact hne (List.inj_on_of_nodup_map hshape hmem ht hsame).symm
  rw [literalFirst_eq, Vsms.Lib.SegmentTree.literalFirst_swap, ← literalFirst_eq]
  have hnot := hfirst t ht ht'
  cases hcmp : literalFirst template t with
  | lt => rfl
  | eq => exact absurd hcmp hdiffer
  | gt => exact absurd hcmp hnot

theorem mapM_eq_none {α β : Type} {f : α → Option β} {l : List α} :
    l.mapM f = none ↔ ∃ x ∈ l, f x = none := by
  induction l with
  | nil => simp
  | cons x l ih =>
    simp only [List.mapM_cons, List.mem_cons, exists_eq_or_imp, ← ih]
    cases f x with
    | none => simp
    | some y => cases l.mapM f <;> simp

theorem resolve_eq_none : resolve table path = none ↔ ∀ t ∈ table, candidate path t = none := by
  rw [← List.filterMap_eq_nil_iff]
  unfold resolve
  cases table.filterMap (candidate path) <;> simp [minBy]

/-- **The client finds what the walk finds**, with its parameters if they can be read. -/
theorem resolve_of_walk (hperm : table.Perm templates) (hshape : (templates.map shape).Nodup)
    (hok : ∀ template ∈ templates, WellFormed template) {template : String}
    (h : (routeTree templates).walk (segments path) = some template) :
    resolve table path = ((parameterSegments template path).mapM decodeParameter).map
      (template, ·) := by
  obtain ⟨hmem, hmatches, hfirst⟩ := walk_routeTree hshape h
  cases hread : (parameterSegments template path).mapM decodeParameter with
  | none =>
    obtain ⟨segment, hsegment, hbad⟩ := mapM_eq_none.mp hread
    rw [Option.map_none, resolve_eq_none]
    intro t ht
    refine Option.eq_none_iff_forall_ne_some.mpr fun result hresult => ?_
    obtain ⟨ht', params, hparams, -⟩ := candidate_eq_some.mp hresult
    have hin :=
      undecodable_parameter (hok template hmem) (hok t (hperm.subset ht)) hmatches ht' hsegment
      (decodeParameter_eq_none.mp hbad)
    rw [mapM_eq_none.mpr ⟨segment, hin, hbad⟩] at hparams
    cases hparams
  | some params =>
    refine minBy_eq_some ?_ ?_ ?_
    · exact List.mem_filterMap.mpr ⟨template, hperm.symm.subset hmem,
        candidate_eq_some.mpr ⟨hmatches, params, hread, rfl⟩⟩
    · intro y hy
      obtain ⟨t, ht, hcandidate⟩ := List.mem_filterMap.mp hy
      obtain ⟨ht', params', -, rfl⟩ := candidate_eq_some.mp hcandidate
      exact hfirst t (hperm.subset ht) ht'
    · intro y hy hne
      obtain ⟨t, ht, hcandidate⟩ := List.mem_filterMap.mp hy
      obtain ⟨ht', params', hread', rfl⟩ := candidate_eq_some.mp hcandidate
      refine literalFirst_of_walk hshape h (hperm.subset ht) ht' ?_
      rintro rfl
      rw [hread] at hread'
      exact hne (by rw [Option.some.inj hread'])

/-- Where the walk finds nothing, neither does the client. -/
theorem resolve_of_walk_eq_none (hperm : table.Perm templates)
    (hshape : (templates.map shape).Nodup) (h : (routeTree templates).walk (segments path) = none) :
    resolve table path = none := by
  rw [resolve_eq_none]
  intro t ht
  refine Option.eq_none_iff_forall_ne_some.mpr fun result hresult => ?_
  have hget := Tree.walk_eq_none h (candidate_eq_some.mp hresult).1
  rw [(get_routeTree hshape).mpr ⟨hperm.subset ht, rfl⟩] at hget
  cases hget

end table

/-- **The client resolves a path as the router does.** For every set of well-formed templates of
which no two are the same but for the names of parameters, every order of it and every path: the
client finds the template that the walk finds, with the values of its parameters, and it finds none
exactly if the walk finds none or a parameter of what it finds cannot be read. -/
theorem resolve_eq_walk (templates table : List String) (hperm : table.Perm templates)
    (hshape : (templates.map shape).Nodup) (hok : ∀ template ∈ templates, WellFormed template)
    (path : String) :
    resolve table path = ((routeTree templates).walk (segments path)).bind (fun template =>
      ((parameterSegments template path).mapM decodeParameter).map (template, ·)) ∧
    (resolve table path = none ↔ (routeTree templates).walk (segments path) = none ∨
      ∃ template, (routeTree templates).walk (segments path) = some template ∧
        ∃ segment ∈ parameterSegments template path, Undecodable segment) := by
  cases hwalk : (routeTree templates).walk (segments path) with
  | none =>
    have hnone := resolve_of_walk_eq_none hperm hshape hwalk
    exact ⟨hnone, iff_of_true hnone (.inl rfl)⟩
  | some template =>
    have hsome := resolve_of_walk hperm hshape hok hwalk
    refine ⟨hsome, ?_⟩
    rw [hsome, Option.map_eq_none_iff, mapM_eq_none]
    constructor
    · rintro ⟨segment, hsegment, hbad⟩
      exact .inr ⟨template, rfl, segment, hsegment, decodeParameter_eq_none.mp hbad⟩
    · rintro (h | ⟨t, ht, segment, hsegment, hbad⟩)
      · cases h
      · obtain rfl := Option.some.inj ht
        exact ⟨segment, hsegment, decodeParameter_eq_none.mpr hbad⟩

/-! ### A literal sibling -/

def sampleTemplates : List String := ["/messages/\x7bid\x7d", "/messages/export"]

theorem resolve_eq_walk_messages :
    resolve ["/messages/export", "/messages/\x7bid\x7d"] "/messages/export" =
      some ("/messages/export", []) ∧
      resolve sampleTemplates "/messages/m%2F1" = some ("/messages/\x7bid\x7d", ["m/1"]) ∧
      resolve sampleTemplates "/messages/%2e" = none := by
  have hshape : (sampleTemplates.map shape).Nodup := by decide +kernel
  have hok : ∀ template ∈ sampleTemplates, WellFormed template := by
    intro template htemplate
    rcases List.mem_pair.mp htemplate with rfl | rfl
    · exact ⟨["messages".toList, "\x7bid\x7d".toList], by decide +kernel, by decide +kernel⟩
    · exact ⟨["messages".toList, "export".toList], by decide +kernel, by decide +kernel⟩
  refine ⟨?_, ?_, ?_⟩
  · rw [(resolve_eq_walk sampleTemplates _ (.swap _ _ _) hshape hok "/messages/export").1]
    decide +kernel
  · rw [(resolve_eq_walk sampleTemplates _ (.refl _) hshape hok "/messages/m%2F1").1]
    decide +kernel
  · rw [(resolve_eq_walk sampleTemplates _ (.refl _) hshape hok "/messages/%2e").1]
    decide +kernel

end Vsms.Sdk.Routes
