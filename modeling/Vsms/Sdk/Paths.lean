import Vsms.Lib.Indexes
import Vsms.Lib.Words
import Vsms.Sdk.Routes

/-! # The path of a route

What is signed is a template and the values of its parameters; what is requested is a path that has
the values in the place of the parameters, percent-encoded. `concrete_path` makes the one of the
other, and refuses a value that would not come back: an empty one, and one that a URL parser would
resolve away.

If no path is that of two templates, the path of a template and its values resolves to these, and
what a path resolves to has a path that does (`path_round_trip`). -/

namespace Vsms.Sdk.Paths

open Vsms.Lib.Framing Vsms.Lib.Percent Vsms.Lib.Selection Vsms.Lib.Words Vsms.Sdk.Routes

inductive SealError
  | unbound (message : String)
  | sealFailed (message : String)
  deriving DecidableEq, Repr

/-- The characters that stand for themselves in a URL: letters, digits and four signs. -/
def unreserved (b : UInt8) : Bool :=
  let n := b.toNat
  (48 ≤ n && n ≤ 57) || (65 ≤ n && n ≤ 90) || (97 ≤ n && n ≤ 122) || n = 45 || n = 46 ||
    n = 95 || n = 126

/-- **`encode_path_segment`** -/
def encodePathSegment (value : String) : String := percentEncode unreserved (strBytes value)

/-- The loop of `concrete_path` over the parts of the template: the segments of the path, and the
values that remain. -/
def concreteSegments (template : String) (given : ℕ) :
    List (List Char) → List String → Except SealError (List (List Char) × List String)
  | [], remaining => .ok ([], remaining)
  | part :: parts, remaining =>
    if isParameter part then
      match remaining with
      | [] =>
        .error (.unbound ("the route `" ++ template ++ "` takes more parameters than the " ++
          toString given ++ " given"))
      | value :: remaining =>
        if value = "" then .error (.unbound ("a parameter of `" ++ template ++ "` is empty"))
        else if value = "." ∨ value = ".." then
          .error (.unbound ("a parameter of `" ++ template ++
            "` is a dot segment, which a URL parser would resolve away"))
        else do
          let (path, remaining) ← concreteSegments template given parts remaining
          .ok ((encodePathSegment value).toList :: path, remaining)
    else do
      let (path, remaining) ← concreteSegments template given parts remaining
      .ok (part :: path, remaining)

/-- **`concrete_path`** -/
def concretePath (template : String) (params : List String) : Except SealError String := do
  let (path, remaining) ← concreteSegments template params.length (segments template) params
  if remaining ≠ [] then
    .error (.unbound ("the route `" ++ template ++ "` takes fewer parameters than the " ++
      toString params.length ++ " given"))
  else .ok (String.ofList (['/'].intercalate path))

/-! ## A value and its segment -/

theorem unreserved_ascii : ∀ b, unreserved b = true → b < 128 ∧ b ≠ 37 :=
  forall_byte (by decide +kernel)

/-- **A value is read from its segment**, if it is one that is taken. -/
theorem decodeParameter_encode {value : String} (hne : value ≠ "")
    (hdot : ¬ (value = "." ∨ value = "..")) :
    decodeParameter (encodePathSegment value).toList = some value := by
  unfold decodeParameter encodePathSegment
  rw [String.ofList_toList, percentDecode_percentEncode unreserved_ascii, decodeUtf8_strBytes]
  exact if_neg (by simpa [hne] using hdot)

/-- A segment has no slash in it. -/
theorem slash_notMem_encode (value : String) : '/' ∉ (encodePathSegment value).toList := by
  unfold encodePathSegment percentEncode
  rw [String.toList_ofList]
  intro h
  obtain ⟨b, -, h⟩ := List.mem_flatMap.mp h
  have hall : ∀ b, '/' ∉ percentEncodeByte unreserved b := forall_byte (by decide +kernel)
  exact hall b h

theorem slash_notMem_segments {path : String} : ∀ segment ∈ segments path, '/' ∉ segment := by
  intro segment hsegment hslash
  unfold segments at hsegment
  rw [List.splitOn_eq_splitOnP] at hsegment
  exact absurd (forall_of_mem_splitOnP hsegment '/' hslash) (by decide)

/-! ## The loop -/

/-- **The segments that the loop makes** match the parts, with the values that it used, and have no
slash in them if the parts have none. -/
theorem concreteSegments_ok {template : String} {given : ℕ} {parts path : List (List Char)}
    {params remaining : List String} (hparts : ∀ part ∈ parts, '/' ∉ part)
    (h : concreteSegments template given parts params = .ok (path, remaining)) :
    path.length = parts.length ∧ (∀ segment ∈ path, '/' ∉ segment) ∧
      ∃ used, params = used ++ remaining ∧ matchParts parts path = some used := by
  induction parts generalizing path params with
  | nil =>
    obtain ⟨rfl, rfl⟩ := Prod.mk.inj (Except.ok.inj h)
    exact ⟨rfl, by simp, [], rfl, rfl⟩
  | cons part parts ih =>
    obtain ⟨hpart, hparts⟩ := List.forall_mem_cons.mp hparts
    unfold concreteSegments at h
    split at h
    · rename_i hparam
      cases params with
      | nil => cases h
      | cons value params =>
        dsimp only at h
        split_ifs at h with hne hdot
        obtain ⟨⟨path', remaining'⟩, hrest, hpath⟩ := Vsms.Lib.Indexes.bind_ok.mp h
        obtain ⟨rfl, rfl⟩ := Prod.mk.inj (Except.ok.inj hpath)
        obtain ⟨hlen, hslash, used, rfl, hused⟩ := ih hparts hrest
        refine ⟨by simp [hlen], List.forall_mem_cons.mpr ⟨slash_notMem_encode value, hslash⟩,
          value :: used, rfl, ?_⟩
        rw [matchParts, if_pos hparam, decodeParameter_encode hne hdot, hused]
        rfl
    · rename_i hparam
      obtain ⟨⟨path', remaining'⟩, hrest, hpath⟩ := Vsms.Lib.Indexes.bind_ok.mp h
      obtain ⟨rfl, rfl⟩ := Prod.mk.inj (Except.ok.inj hpath)
      obtain ⟨hlen, hslash, used, rfl, hused⟩ := ih hparts hrest
      refine ⟨by simp [hlen], List.forall_mem_cons.mpr ⟨hpart, hslash⟩, used, rfl, ?_⟩
      rw [matchParts, if_neg hparam, if_neg (not_not_intro rfl), hused]

/-- **The template is a candidate for its own path**, with the values it was given. -/
theorem candidate_concretePath {template path : String} {params : List String}
    (h : concretePath template params = .ok path) :
    candidate path template = some (template, params) := by
  obtain ⟨⟨segs, remaining⟩, hsegs, hpath⟩ := Vsms.Lib.Indexes.bind_ok.mp h
  obtain ⟨hlen, hslash, used, hused, hmatch⟩ := concreteSegments_ok slash_notMem_segments hsegs
  dsimp only at hpath
  split_ifs at hpath with hremaining
  obtain rfl := Except.ok.inj hpath
  rw [not_ne_iff] at hremaining
  rw [hremaining, List.append_nil] at hused
  have hne : segs ≠ [] := by
    intro hnil
    rw [hnil] at hlen
    exact List.splitOn_ne_nil _ _ (List.eq_nil_of_length_eq_zero hlen.symm)
  have hsplit : segments (String.ofList (['/'].intercalate segs)) = segs := by
    unfold segments
    rw [String.toList_ofList, List.splitOn_intercalate '/' hslash hne]
  unfold candidate
  rw [hsplit, if_neg (by simp [hlen]), hmatch, hused]
  rfl

/-- A value that was read is one that is taken. -/
theorem ne_of_decodeParameter {segment : List Char} {value : String}
    (h : decodeParameter segment = some value) : value ≠ "" ∧ ¬ (value = "." ∨ value = "..") := by
  unfold decodeParameter at h
  split at h
  · cases h
  · split_ifs at h with hrefused
    obtain rfl := Option.some.inj h
    exact ⟨fun hne => hrefused (.inl hne), fun hdot => hrefused (.inr hdot)⟩

/-- **What was read from a path can be put into one.** -/
theorem concreteSegments_of_matchParts (template : String) (given : ℕ)
    {parts path : List (List Char)} {params : List String} (hlen : parts.length = path.length)
    (h : matchParts parts path = some params) :
    ∃ path', concreteSegments template given parts params = .ok (path', []) := by
  induction parts generalizing path params with
  | nil =>
    obtain rfl := Option.some.inj h
    exact ⟨[], rfl⟩
  | cons part parts ih =>
    obtain ⟨segment, path, rfl⟩ := List.exists_cons_of_length_eq_add_one hlen.symm
    unfold matchParts at h
    split_ifs at h with hparam hsegment
    · obtain ⟨value, hvalue, h⟩ := Option.bind_eq_some_iff.mp h
      obtain ⟨rest, hrest, h⟩ := Option.bind_eq_some_iff.mp h
      obtain rfl := Option.some.inj h
      obtain ⟨hne, hdot⟩ := ne_of_decodeParameter hvalue
      obtain ⟨path', hpath'⟩ := ih (Nat.succ_injective hlen) hrest
      refine ⟨(encodePathSegment value).toList :: path', ?_⟩
      rw [concreteSegments, if_pos hparam]
      dsimp only
      rw [if_neg hne, if_neg hdot, hpath']
      rfl
    · obtain ⟨path', hpath'⟩ := ih (Nat.succ_injective hlen) h
      refine ⟨part :: path', ?_⟩
      unfold concreteSegments
      rw [if_neg hparam, hpath']
      rfl

theorem concretePath_of_candidate {template path : String} {result : String × List String}
    (h : candidate path template = some result) :
    result.1 = template ∧ ∃ path', concretePath template result.2 = .ok path' := by
  unfold candidate at h
  split_ifs at h with hlen
  obtain ⟨params, hparams, rfl⟩ := Option.map_eq_some_iff.mp h
  obtain ⟨segs, hsegs⟩ :=
    concreteSegments_of_matchParts template params.length (not_ne_iff.mp hlen) hparams
  refine ⟨rfl, String.ofList (['/'].intercalate segs), ?_⟩
  unfold concretePath
  rw [hsegs]
  rfl

/-! ## The table -/

/-- **No path is that of two templates.** -/
def Unambiguous (templates : List String) : Prop :=
  ∀ path, ∀ t ∈ templates, ∀ t' ∈ templates, (candidate path t).isSome →
    (candidate path t').isSome → t = t'

/-- The only candidate is what is found. -/
theorem resolve_of_candidate {templates : List String} (hone : Unambiguous templates)
    {path template : String} (ht : template ∈ templates) {result : String × List String}
    (h : candidate path template = some result) :
    resolve templates path = some result := by
  have hall : ∀ y ∈ templates.filterMap (candidate path), y = result := by
    intro y hy
    obtain ⟨t, ht', hy⟩ := List.mem_filterMap.mp hy
    have hsame := hone path template ht t ht' (by rw [h]; rfl) (by rw [hy]; rfl)
    rw [hsame, hy] at h
    exact Option.some.inj h
  refine minBy_eq_some (List.mem_filterMap.mpr ⟨template, ht, h⟩) ?_ fun y hy hne =>
    absurd (hall y hy) hne
  intro y hy
  rw [hall y hy, literalFirst_eq]
  -- A template is not literal before itself.
  have hswap := Vsms.Lib.SegmentTree.literalFirst_swap (shape result.1) (shape result.1)
  cases hcmp : Vsms.Lib.SegmentTree.literalFirst (shape result.1) (shape result.1) <;> simp_all

/-- What is found is a candidate. -/
theorem candidate_of_resolve {templates : List String} {path : String}
    {result : String × List String} (h : resolve templates path = some result) :
    ∃ t ∈ templates, candidate path t = some result :=
  List.mem_filterMap.mp (minBy_mem h)

/-- **The round trip.** For every set of templates of which no path is that of two: a template and
the values that `concrete_path` takes for it are what its path resolves to, and for what a path
resolves to there is a path that resolves to the same. -/
theorem path_round_trip (templates : List String) (hone : Unambiguous templates) :
    (∀ template ∈ templates, ∀ params path, concretePath template params = .ok path →
      resolve templates path = some (template, params)) ∧
    ∀ path template params, resolve templates path = some (template, params) →
      ∃ path', concretePath template params = .ok path' ∧
        resolve templates path' = some (template, params) := by
  have hforward : ∀ template ∈ templates, ∀ params path, concretePath template params = .ok path →
      resolve templates path = some (template, params) := fun template ht params path h =>
    resolve_of_candidate hone ht (candidate_concretePath h)
  refine ⟨hforward, fun path template params h => ?_⟩
  obtain ⟨t, ht, hcandidate⟩ := candidate_of_resolve h
  obtain ⟨heq, path', hpath'⟩ := concretePath_of_candidate hcandidate
  dsimp only at heq hpath'
  subst heq
  exact ⟨path', hpath', hforward template ht params path' hpath'⟩

/-! ### A value with a slash -/

def sampleTemplates : List String := ["/messages/\x7bid\x7d", "/$procs/sendMessage"]

theorem unambiguous_sampleTemplates : Unambiguous sampleTemplates := by
  -- Their second segments are different literals.
  have hapart : ∀ path, (candidate path "/messages/\x7bid\x7d").isSome →
      (candidate path "/$procs/sendMessage").isSome → False := by
    intro path h h'
    obtain ⟨_, h⟩ := Option.isSome_iff_exists.mp h
    obtain ⟨_, h'⟩ := Option.isSome_iff_exists.mp h'
    have hshape : shape "/messages/\x7bid\x7d" =
        [.literal [], .literal "messages".toList, .param] := by decide +kernel
    have hshape' : shape "/$procs/sendMessage" =
        [.literal [], .literal "$procs".toList, .literal "sendMessage".toList] := by decide +kernel
    have hmatches := (candidate_eq_some.mp h).1
    have hmatches' := (candidate_eq_some.mp h').1
    rw [hshape] at hmatches
    rw [hshape'] at hmatches'
    generalize segments path = segs at hmatches hmatches'
    rcases hmatches with _ | ⟨_ | hmessages | _⟩ | _
    rcases hmatches' with _ | ⟨_ | hprocs | _⟩ | _
  intro path t ht t' ht' h h'
  rcases List.mem_pair.mp ht with rfl | rfl <;> rcases List.mem_pair.mp ht' with rfl | rfl
  · rfl
  · exact (hapart path h h').elim
  · exact (hapart path h' h).elim
  · rfl

theorem path_round_trip_messages :
    concretePath "/messages/\x7bid\x7d" ["m/1"] = .ok "/messages/m%2F1" ∧
      resolve sampleTemplates "/messages/m%2F1" = some ("/messages/\x7bid\x7d", ["m/1"]) ∧
      ∃ path', concretePath "/messages/\x7bid\x7d" ["m/1"] = .ok path' ∧
        resolve sampleTemplates path' = some ("/messages/\x7bid\x7d", ["m/1"]) := by
  have hpath : concretePath "/messages/\x7bid\x7d" ["m/1"] = .ok "/messages/m%2F1" := by
    decide +kernel
  obtain ⟨hforward, hback⟩ := path_round_trip sampleTemplates unambiguous_sampleTemplates
  have hresolve := hforward "/messages/\x7bid\x7d" (by decide) ["m/1"] "/messages/m%2F1" hpath
  exact ⟨hpath, hresolve, hback "/messages/m%2F1" _ _ hresolve⟩

end Vsms.Sdk.Paths
