import Vsms.Core.Encoding
import Vsms.Lib.Packing
import Mathlib.Algebra.Order.Floor.Div

/-! # The parts of a body

`pack` lays the characters of a body end to end, and cuts between them: it is next-fit. Two of the
crate's statements about the parts are compared with that here.

* `remaining_in_segment` is the capacity of the parts less the units of the body. It says how many
  units are left exactly if no unit is lost where a character of two did not fit at the end of a
  part (`remaining_iff`).
* `normalise` makes a body take more parts only if it writes more in it than it saves, and the parts
  have no room for that: composing does not lengthen a body as a rule, and of the replacements only
  that of an ellipsis is longer than what it replaces. Whether there is room is said by what is
  written for each character (`HasRoom`), and where no character takes two units that is exact
  (`normalise_keeps_parts`). -/

namespace Vsms.Core.Segments

open Vsms.Schema.Types Vsms.Core.Encoding Vsms.Lib.Packing

/-! ## Units -/

/-- The units a character takes in an encoding, if the encoding has it. -/
def units : Encoding → Char → Option ℕ
  | .gsm7, c => (classify c).map Gsm7Char.septets
  | .ucs2, c => some (lenUtf16 c)

/-- The encoding that a body requires. -/
def encodingOf (body : List Char) : Encoding := if isGsm7Str body then .gsm7 else .ucs2

theorem encodingOf_gsm7 {body : List Char} (h : ∀ c ∈ body, isGsm7 c = true) :
    encodingOf body = .gsm7 :=
  if_pos (List.all_eq_true.mpr h)

theorem encodingOf_ucs2 {body : List Char} {c : Char} (hc : c ∈ body) (h : isGsm7 c = false) :
    encodingOf body = .ucs2 := by
  refine if_neg fun hall => ?_
  rw [List.all_eq_true.mp hall c hc] at h
  exact absurd h (by simp)

def single : Encoding → ℕ
  | .gsm7 => gsm7Single
  | .ucs2 => ucs2Single

def concatenated : Encoding → ℕ
  | .gsm7 => gsm7Concatenated
  | .ucs2 => ucs2Concatenated

/-- The units of the characters of a body. -/
def costs (encoding : Encoding) (body : List Char) : List ℕ := body.filterMap (units encoding)

/-- The parts of a body in the encoding that it requires. -/
def packing (body : List Char) : Packing :=
  pack (costs (encodingOf body) body) (single (encodingOf body)) (concatenated (encodingOf body))

theorem costs_append (encoding : Encoding) (xs ys : List Char) :
    costs encoding (xs ++ ys) = costs encoding xs ++ costs encoding ys := List.filterMap_append

theorem costs_ucs2 (body : List Char) : costs .ucs2 body = body.map lenUtf16 :=
  congrFun List.filterMap_eq_map body

theorem lenUtf16_cases (c : Char) : lenUtf16 c = 1 ∨ lenUtf16 c = 2 := by
  unfold lenUtf16
  split_ifs
  · exact Or.inl rfl
  · exact Or.inr rfl

/-- A character takes one unit, or two. -/
theorem units_cases {encoding : Encoding} {c : Char} {n : ℕ} (h : units encoding c = some n) :
    n = 1 ∨ n = 2 := by
  cases encoding with
  | gsm7 =>
    obtain ⟨g, -, rfl⟩ := Option.map_eq_some_iff.mp h
    cases g with
    | basic septet => exact Or.inl rfl
    | extended septet => exact Or.inr rfl
  | ucs2 =>
    rw [← Option.some.inj h]
    exact lenUtf16_cases c

theorem costs_cases (encoding : Encoding) (body : List Char) :
    ∀ n ∈ costs encoding body, n = 1 ∨ n = 2 := by
  intro n hn
  obtain ⟨c, -, hc⟩ := List.mem_filterMap.mp hn
  exact units_cases hc

theorem costs_le (encoding : Encoding) (body : List Char) :
    ∀ n ∈ costs encoding body, n ≤ concatenated encoding := by
  intro n hn
  have hunits := costs_cases encoding body n hn
  have htwo : 2 ≤ concatenated encoding := by cases encoding <;> decide
  omega

theorem lenUtf16_le (body : List Char) : ∀ n ∈ body.map lenUtf16, n ≤ ucs2Concatenated := by
  rw [← costs_ucs2]
  exact costs_le .ucs2 body

theorem concatenated_le_single (encoding : Encoding) : concatenated encoding ≤ single encoding := by
  cases encoding <;> decide

section analyse
variable (lib : UnicodeLib)

theorem scan_costs (offset : ℕ) (body : List Char) :
    (scan lib offset body).costs = costs .gsm7 body := by
  induction body generalizing offset with
  | nil => rfl
  | cons c cs ih =>
    unfold costs at ih ⊢
    cases hc : classify c with
    | none => simp [scan, units, hc, ih]
    | some g => simp [scan, units, hc, ih]

/-- **What `analyse` says of the parts.** -/
theorem analyse_eq (body : List Char) :
    (analyse lib body).encoding = encodingOf body ∧
    (analyse lib body).length = (packing body).length ∧
      (analyse lib body).segments = (packing body).segments ∧
      (analyse lib body).perSegment = (packing body).perSegment := by
  have hoffending := @scan_offending lib 0 body
  have hencoding : (analyse lib body).encoding = encodingOf body := analyse_encoding body
  refine ⟨hencoding, ?_⟩
  unfold packing encodingOf analyse
  by_cases hgsm : isGsm7Str body = true
  · rw [if_pos (hoffending.mpr hgsm), if_pos hgsm, scan_costs]
    exact ⟨rfl, rfl, rfl⟩
  · rw [if_neg fun h => hgsm (hoffending.mp h), if_neg hgsm, costs_ucs2]
    exact ⟨rfl, rfl, rfl⟩

end analyse

/-! ## Packing -/

section pack
variable {sizes : List ℕ} {one limit : ℕ}

theorem packLoop_eq (sizes : List ℕ) (segments used : ℕ) :
    packLoop limit sizes segments used = (nextFit limit (segments, used) sizes).1 := by
  induction sizes generalizing segments used with
  | nil => rfl
  | cons size sizes ih =>
    rw [nextFit_cons, packLoop, fill]
    split_ifs
    · exact ih (segments + 1) size
    · exact ih segments (used + size)

theorem pack_of_le (h : sizes.sum ≤ one) : pack sizes one limit = ⟨sizes.sum, 1, one⟩ := if_pos h

theorem pack_of_lt (h : one < sizes.sum) :
    pack sizes one limit = ⟨sizes.sum, min (nextFit limit (1, 0) sizes).1 255, limit⟩ := by
  rw [← packLoop_eq]
  exact if_neg (not_le.mpr h)

/-- **Fewer and smaller characters never take more parts.** -/
theorem pack_mono {k : ℕ} {xs ys : List ℕ} {one' limit' : ℕ} (hone : k * one' ≤ one)
    (hlimit : k * limit' ≤ limit) (h : List.SublistForall₂ (fun x y => x ≤ k * y) xs ys) :
    (pack xs one limit).segments ≤ (pack ys one' limit').segments := by
  have hsum := sum_le_mul_sum h
  have hstart : Before k (1, 0) (1, 0) := Or.inr ⟨rfl, Nat.zero_le _⟩
  have hloop := (nextFit_mono hlimit h hstart).fst_le
  have hpos := one_le_nextFit limit' ys
  by_cases hys : ys.sum ≤ one'
  · have hxs : xs.sum ≤ one := hsum.trans ((Nat.mul_le_mul_left k hys).trans hone)
    rw [pack_of_le hys, pack_of_le hxs]
  · rw [pack_of_lt (not_le.mp hys)]
    by_cases hxs : xs.sum ≤ one
    · rw [pack_of_le hxs]
      dsimp only
      omega
    · rw [pack_of_lt (not_le.mp hxs)]
      dsimp only
      omega

/-! ## The units that are left -/

/-- The capacity of the parts, less what they hold. -/
def room (p : Packing) : ℕ := p.perSegment * p.segments - p.length

theorem nextFit_ones_of_le {k : ℕ} (h : (nextFit limit (1, 0) sizes).2 + k ≤ limit) :
    (nextFit limit (1, 0) (sizes ++ List.replicate k 1)).1 = (nextFit limit (1, 0) sizes).1 := by
  rw [nextFit_append, nextFit_of_fits (by simpa using h)]

theorem lt_nextFit_ones {k : ℕ} (hsizes : ∀ x ∈ sizes, x ≤ limit)
    (h : limit < (nextFit limit (1, 0) sizes).2 + k) :
    (nextFit limit (1, 0) sizes).1 < (nextFit limit (1, 0) (sizes ++ List.replicate k 1)).1 := by
  rw [nextFit_append]
  exact lt_nextFit_fst (nextFit_snd_le (b := (1, 0)) (Nat.zero_le limit) hsizes) (by simpa using h)

/-- With `k` more units. -/
def withOnes (sizes : List ℕ) (one limit k : ℕ) : ℕ :=
  (pack (sizes ++ List.replicate k 1) one limit).segments

/-- The units that are left, and those in the last part, are as many as a part holds and as are
lost. -/
theorem room_add_used (h : one < sizes.sum) (hsizes : ∀ x ∈ sizes, x ≤ limit)
    (hcap : (nextFit limit (1, 0) sizes).1 ≤ 255) :
    room (pack sizes one limit) + (nextFit limit (1, 0) sizes).2 + sizes.sum =
      limit + total limit (nextFit limit (1, 0) sizes) := by
  have hle := sum_le_total hsizes
  have hused := nextFit_snd_le (b := (1, 0)) (Nat.zero_le limit) hsizes
  rw [pack_of_lt h, room]
  dsimp only
  rw [Nat.min_eq_left hcap, Nat.mul_comm limit, parts_mul (one_le_nextFit limit sizes)]
  unfold total at *
  omega

/-- **The units that are left are as many as can be added exactly if none is lost**, or there is one
part, or as many as there can be. -/
theorem room_iff (hone : limit ≤ one) (hsizes : ∀ x ∈ sizes, x ≤ limit) :
    (∀ k, (k ≤ room (pack sizes one limit) →
      withOnes sizes one limit k = (pack sizes one limit).segments) ∧
        ((pack sizes one limit).segments < 255 → k = room (pack sizes one limit) + 1 →
          (pack sizes one limit).segments < withOnes sizes one limit k)) ↔
      (sizes.sum ≤ one ∨ Aligned limit sizes ∨ ¬ Cuts limit sizes 254) := by
  have hsum (k : ℕ) : (sizes ++ List.replicate k 1).sum = sizes.sum + k := by simp
  by_cases hle : sizes.sum ≤ one
  · -- One part: up to its capacity, and then more than one.
    refine iff_of_true (fun k => ?_) (Or.inl hle)
    unfold withOnes room
    rw [pack_of_le hle]
    dsimp only
    constructor
    · intro hk
      rw [pack_of_le (by rw [hsum]; omega)]
    · rintro - rfl
      rw [pack_of_lt (by rw [hsum]; omega)]
      have hmany :
          1 < (nextFit limit (1, 0) (sizes ++ List.replicate (one * 1 - sizes.sum + 1) 1)).1 :=
        lt_nextFit_fst (b := (1, 0)) (Nat.zero_le limit) (by rw [hsum]; dsimp only; omega)
      exact lt_min hmany (by decide)
  · have hlt : one < sizes.sum := not_le.mp hle
    have hsegments (k : ℕ) : withOnes sizes one limit k =
        min (nextFit limit (1, 0) (sizes ++ List.replicate k 1)).1 255 := by
      unfold withOnes
      rw [pack_of_lt (by rw [hsum]; omega)]
    have hmono (k : ℕ) : (nextFit limit (1, 0) sizes).1 ≤
        (nextFit limit (1, 0) (sizes ++ List.replicate k 1)).1 := by
      rw [nextFit_append]
      exact le_nextFit_fst _ _
    have hparts : (pack sizes one limit).segments = min (nextFit limit (1, 0) sizes).1 255 := by
      rw [pack_of_lt hlt]
    by_cases hcut : Cuts limit sizes 254
    · have hcap : (nextFit limit (1, 0) sizes).1 ≤ 254 :=
        (nextFit_le_iff hsizes (by decide)).mpr hcut
      have hroom := room_add_used hlt hsizes (by omega)
      have hbound := sum_le_total hsizes
      simp only [hle, hcut, not_true_eq_false, false_or, or_false, ← total_eq_iff hsizes]
      constructor
      · intro h
        by_contra hlost
        -- As many as there are said to be do not fit in the last part.
        have hmore := lt_nextFit_ones (k := room (pack sizes one limit)) hsizes (by omega)
        have hsame := (h (room (pack sizes one limit))).1 (le_refl _)
        rw [hsegments, hparts] at hsame
        omega
      · intro htotal k
        rw [hsegments, hparts]
        constructor
        · intro hk
          rw [nextFit_ones_of_le (by omega)]
        · rintro - rfl
          have hmore := lt_nextFit_ones (k := room (pack sizes one limit) + 1) hsizes (by omega)
          omega
    · -- As many parts as there can be.
      have hcap : ¬ (nextFit limit (1, 0) sizes).1 ≤ 254 :=
        fun hcap => hcut ((nextFit_le_iff hsizes (by decide)).mp hcap)
      refine iff_of_true (fun k => ?_) (Or.inr (Or.inr hcut))
      have hk := hmono k
      rw [hsegments, hparts]
      omega

end pack

/-- **`remaining_in_segment`** -/
def remainingInSegment (report : EncodingReport) : ℕ :=
  report.perSegment * report.segments - report.length

section analyse
variable (lib : UnicodeLib)

/-- So many characters of one unit each leave the parts as they are, and one more makes another
part, if there can be one. -/
def CountsDown (body : List Char) : Prop :=
  ∀ suffix : List Char, (∀ c ∈ suffix, units (analyse lib body).encoding c = some 1) →
    (suffix.length ≤ remainingInSegment (analyse lib body) →
      (analyse lib (body ++ suffix)).segments = (analyse lib body).segments) ∧
    ((analyse lib body).segments < 255 → suffix.length = remainingInSegment (analyse lib body) + 1 →
      (analyse lib body).segments < (analyse lib (body ++ suffix)).segments)

/-- A suffix in the encoding of the body does not change it. -/
theorem encodingOf_append {body suffix : List Char}
    (h : ∀ c ∈ suffix, units (encodingOf body) c = some 1) :
    encodingOf (body ++ suffix) = encodingOf body := by
  unfold encodingOf isGsm7Str at *
  rw [List.all_append]
  rcases hbody : body.all isGsm7 with _ | _
  · rfl
  · rw [hbody] at h
    have hsuffix : suffix.all isGsm7 = true := by
      rw [List.all_eq_true]
      intro c hc
      obtain ⟨g, hg, -⟩ := Option.map_eq_some_iff.mp (h c hc)
      simp [isGsm7, hg]
    rw [hsuffix]
    rfl

theorem costs_ones {encoding : Encoding} {suffix : List Char}
    (h : ∀ c ∈ suffix, units encoding c = some 1) :
    costs encoding suffix = List.replicate suffix.length 1 := by
  induction suffix with
  | nil => rfl
  | cons c cs ih =>
    have hc := h c List.mem_cons_self
    have hcs := ih fun d hd => h d (List.mem_cons_of_mem c hd)
    unfold costs at hcs ⊢
    rw [List.filterMap_cons_some hc, hcs]
    rfl

theorem analyse_append {body suffix : List Char}
    (h : ∀ c ∈ suffix, units (encodingOf body) c = some 1) :
    (analyse lib (body ++ suffix)).segments =
      withOnes (costs (encodingOf body) body) (single (encodingOf body))
      (concatenated (encodingOf body))
        suffix.length := by
  obtain ⟨-, -, hsegments, -⟩ := analyse_eq lib (body ++ suffix)
  rw [hsegments, packing, encodingOf_append h, costs_append, costs_ones h]
  rfl

/-- **`remaining_in_segment` says how many units are left exactly if the body has one part, or none
of its characters would straddle the end of a part, or it has as many parts as there can be.** -/
theorem remaining_iff (body : List Char) :
    CountsDown lib body ↔
      ((costs (encodingOf body) body).sum ≤ single (encodingOf body) ∨
        Aligned (concatenated (encodingOf body)) (costs (encodingOf body) body) ∨
        ¬ Cuts (concatenated (encodingOf body)) (costs (encodingOf body) body) 254) := by
  obtain ⟨hencoding, hlength, hsegments, hper⟩ := analyse_eq lib body
  have hremaining : remainingInSegment (analyse lib body) = room (packing body) := by
    unfold remainingInSegment room
    rw [hlength, hsegments, hper]
  rw [← room_iff (concatenated_le_single _) (costs_le _ body)]
  unfold CountsDown
  rw [hencoding, hsegments, hremaining]
  constructor
  · intro h k
    have hunit : ∀ c ∈ List.replicate k 'a', units (encodingOf body) c = some 1 := by
      intro c hc
      rw [List.eq_of_mem_replicate hc]
      cases encodingOf body <;> rfl
    have hk := h (List.replicate k 'a') hunit
    rw [analyse_append lib hunit, List.length_replicate] at hk
    exact hk
  · intro h suffix hsuffix
    rw [analyse_append lib hsuffix]
    exact h suffix.length

end analyse

/-! ## Room in the parts of a body in UTF-16 -/

section hasRoom
variable {encoding : Encoding} {sizes body : List ℕ}

/-- **So many units in an encoding have room in the parts of a body of so many UTF-16 units**:
in one part, or in as many as those units fill, where each but the last may lose one to a character
of two. -/
def HasRoom (encoding : Encoding) (body written doubles : ℕ) : Prop :=
  if body ≤ ucs2Single then written ≤ single encoding
  else
    255 ≤ body ⌈/⌉ ucs2Concatenated ∨
      written + min doubles (body ⌈/⌉ ucs2Concatenated - 1) ≤
        concatenated encoding * (body ⌈/⌉ ucs2Concatenated)

instance (encoding : Encoding) (body written doubles : ℕ) :
    Decidable (HasRoom encoding body written doubles) := by
  unfold HasRoom
  infer_instance

theorem excess_eq_count (h : ∀ x ∈ sizes, x = 1 ∨ x = 2) : excess sizes = sizes.count 2 := by
  induction sizes with
  | nil => rfl
  | cons x xs ih =>
    have hxs := ih fun y hy => h y (List.mem_cons_of_mem x hy)
    unfold excess at hxs ⊢
    rw [List.map_cons, List.sum_cons, hxs, List.count_cons]
    rcases h x List.mem_cons_self with rfl | rfl
    · exact Nat.zero_add _
    · exact Nat.add_comm _ _

/-- The parts of the body are as many as its units fill, at least. -/
theorem ceilDiv_le_nextFit (hbody : ∀ x ∈ body, x ≤ ucs2Concatenated) :
    body.sum ⌈/⌉ ucs2Concatenated ≤ (nextFit ucs2Concatenated (1, 0) body).1 :=
  (ceilDiv_le_iff_le_mul (by decide)).mpr (sum_le_mul_nextFit hbody)

theorem one_lt_ceilDiv {n : ℕ} (h : ucs2Single < n) : 1 < n ⌈/⌉ ucs2Concatenated := by
  rw [← not_le, ceilDiv_le_iff_le_mul (by decide)]
  unfold ucs2Single at h
  unfold ucs2Concatenated
  omega

/-- **What has room takes no more parts.** -/
theorem pack_le_of_hasRoom (hsizes : ∀ x ∈ sizes, x = 1 ∨ x = 2)
    (hbody : ∀ x ∈ body, x ≤ ucs2Concatenated)
    (h : HasRoom encoding body.sum sizes.sum (sizes.count 2)) :
    (pack sizes (single encoding) (concatenated encoding)).segments ≤
      (pack body ucs2Single ucs2Concatenated).segments := by
  have hparts := ceilDiv_le_nextFit hbody
  unfold HasRoom at h
  split_ifs at h with hone
  · rw [pack_of_le h, pack_of_le hone]
  · have hmany := one_lt_ceilDiv (not_le.mp hone)
    rw [pack_of_lt (not_le.mp hone)]
    by_cases hsmall : sizes.sum ≤ single encoding
    · rw [pack_of_le hsmall]
      dsimp only
      omega
    · rw [pack_of_lt (not_le.mp hsmall)]
      dsimp only
      rcases h with hcap | hsum
      · omega
      · have hle : ∀ x ∈ sizes, x ≤ 2 := by
          intro x hx
          have hx := hsizes x hx
          omega
        have hfits := nextFit_le_of_sum hle (Nat.zero_lt_of_lt hmany)
          (by rwa [excess_eq_count hsizes, Nat.mul_one])
        omega

/-- **What takes no more parts has room**, if the body is one part or no character takes two. -/
theorem hasRoom_of_pack_le
    (hplain : body.sum ≤ ucs2Single ∨ ((∀ x ∈ body, x = 1) ∧ sizes.count 2 = 0))
    (hsizes : ∀ x ∈ sizes, x = 1 ∨ x = 2)
    (h : (pack sizes (single encoding) (concatenated encoding)).segments ≤
      (pack body ucs2Single ucs2Concatenated).segments) :
    HasRoom encoding body.sum sizes.sum (sizes.count 2) := by
  have hlimit := concatenated_le_single encoding
  unfold HasRoom
  split_ifs with hone
  · by_contra hlarge
    have hmany : 1 < (nextFit (concatenated encoding) (1, 0) sizes).1 :=
      lt_nextFit_fst (b := (1, 0)) (Nat.zero_le _) (by dsimp only; omega)
    rw [pack_of_le hone, pack_of_lt (not_le.mp hlarge)] at h
    dsimp only at h
    omega
  · obtain ⟨hones, hnone⟩ := hplain.resolve_left hone
    have hmany := one_lt_ceilDiv (not_le.mp hone)
    -- A body of ones takes just the parts its units fill.
    have hparts : (nextFit ucs2Concatenated (1, 0) body).1 ≤ body.sum ⌈/⌉ ucs2Concatenated := by
      refine nextFit_le_of_sum (w := 1) (fun x hx => (hones x hx).le) (Nat.zero_lt_of_lt hmany) ?_
      rw [Nat.sub_self, Nat.mul_zero, Nat.min_zero, Nat.add_zero]
      exact (ceilDiv_le_iff_le_mul (by decide)).mp (le_refl _)
    rw [hnone, Nat.zero_min, Nat.add_zero]
    rw [pack_of_lt (not_le.mp hone)] at h
    by_contra hno
    obtain ⟨hcap, hlarge⟩ := not_or.mp hno
    have hdouble : single encoding ≤ concatenated encoding * 2 := by cases encoding <;> decide
    have htwo : concatenated encoding * 2 ≤
        concatenated encoding * (body.sum ⌈/⌉ ucs2Concatenated) := Nat.mul_le_mul_left _ hmany
    rw [pack_of_lt (by omega)] at h
    dsimp only at h
    have hsmall : ∀ x ∈ sizes, x ≤ concatenated encoding := by
      intro x hx
      have hx := hsizes x hx
      have hpair : 2 ≤ concatenated encoding := by cases encoding <;> decide
      omega
    have hsum := (sum_le_mul_nextFit hsmall).trans
      (Nat.mul_le_mul_left (concatenated encoding)
        (show _ ≤ body.sum ⌈/⌉ ucs2Concatenated by omega))
    exact hlarge hsum

end hasRoom

/-! ## Normalisation -/

section normalise

/-- What `normalise` writes for a character. -/
def written (c : Char) : List Char := (substitute c).getD [c]

theorem normalise_eq (lib : UnicodeLib) (body : List Char) :
    normalise lib body = (lib.nfc body).flatMap written := rfl

/-- Of the replacements only that of an ellipsis is longer than one character. -/
theorem written_cases {c : Char} (h : c ≠ '\u2026') :
    written c = [] ∨ ∃ d, written c = [d] ∧ lenUtf16 d ≤ lenUtf16 c := by
  unfold written substitute lookup
  cases hentry : substitutions.find? (·.1 = c) with
  | none => exact Or.inr ⟨c, rfl, le_refl _⟩
  | some entry =>
    have hmem := List.mem_of_find?_eq_some hentry
    have hsource : entry.1 = c := by simpa using List.find?_some hentry
    have htable : ∀ e ∈ substitutions, e.1 ≠ '\u2026' → e.2 = [] ∨ e.2.map lenUtf16 = [1] := by
      decide
    rcases htable entry hmem (by rw [hsource]; exact h) with hnil | hunits
    · exact Or.inl hnil
    · obtain ⟨d, hd, hone⟩ := List.map_eq_singleton_iff.mp hunits
      have hpos := lenUtf16_cases c
      exact Or.inr ⟨d, hd, by omega⟩

/-- What is replaced is not of the alphabet: two characters of Latin-1, and spaces, quotes and
dashes beyond its letters. -/
theorem isGsm7_substituted {entry : Char × List Char} (hentry : entry ∈ substitutions) :
    isGsm7 entry.1 = false := by
  let beyond : Char → Bool := fun c =>
    c.toNat == 0xa0 || c.toNat == 0xad || (Nat.ble 0x2000 c.toNat && c.toNat != 0x20ac)
  have hsources : (substitutions.all fun e => beyond e.1) = true := by decide +kernel
  have hbasic : (basic.all fun d => !beyond d) = true := by decide +kernel
  have hextended : (Encoding.extended.all fun d => !beyond d.2) = true := by decide +kernel
  have hesc : beyond '\x1b' = false := by decide
  have hbeyond : beyond entry.1 = true := List.all_eq_true.mp hsources entry hentry
  have hfind : basic.findIdx? (· = entry.1) = none := by
    refine List.findIdx?_eq_none_iff.mpr fun d hd => ?_
    have hd' := List.all_eq_true.mp hbasic d hd
    exact decide_eq_false fun heq => by simp [heq, hbeyond] at hd'
  have hextension : Encoding.extended.find? (·.2 = entry.1) = none := by
    refine List.find?_eq_none.mpr fun d hd => ?_
    have hd' := List.all_eq_true.mp hextended d hd
    intro heq
    simp [of_decide_eq_true heq, hbeyond] at hd'
  have hne : entry.1 ≠ '\x1b' := fun heq => by simp [heq, hesc] at hbeyond
  unfold isGsm7 classify
  rw [if_neg hne, hfind, hextension]
  rfl

/-- The alphabet is left alone. -/
theorem written_of_isGsm7 {c : Char} (h : isGsm7 c = true) : written c = [c] := by
  unfold written substitute lookup
  cases hentry : substitutions.find? (·.1 = c) with
  | none => rfl
  | some entry =>
    have hmem := List.mem_of_find?_eq_some hentry
    have hsource : entry.1 = c := by simpa using List.find?_some hentry
    rw [← hsource, isGsm7_substituted hmem] at h
    exact absurd h (by simp)

/-- Each character of `xs` takes no more units than one of `ys`, in order. -/
def NoLonger (xs ys : List Char) : Prop :=
  List.SublistForall₂ (fun c d => lenUtf16 c ≤ lenUtf16 d) xs ys

theorem noLonger_written {xs ys : List Char} (h : NoLonger xs ys) (hxs : '\u2026' ∉ xs) :
    NoLonger (xs.flatMap written) ys := by
  induction h with
  | nil => exact List.SublistForall₂.nil
  | @cons a b xs ys hab _ ih =>
    have hrest : NoLonger (xs.flatMap written) ys :=
      ih fun hmem => hxs (List.mem_cons_of_mem a hmem)
    have ha : a ≠ '\u2026' := fun ha => hxs (by rw [ha]; exact List.mem_cons_self)
    rw [List.flatMap_cons]
    rcases written_cases ha with hnil | ⟨d, hd, hle⟩
    · rw [hnil]
      exact List.SublistForall₂.cons_right hrest
    · rw [hd]
      exact List.SublistForall₂.cons (hle.trans hab) hrest
  | cons_right _ ih => exact List.SublistForall₂.cons_right (ih hxs)

/-- In UTF-16 the units of such a body are as many at most. -/
theorem costs_ucs2_noLonger {xs ys : List Char} (h : NoLonger xs ys) :
    List.SublistForall₂ (fun x y => x ≤ 1 * y) (costs .ucs2 xs) (costs .ucs2 ys) := by
  rw [costs_ucs2, costs_ucs2]
  unfold NoLonger at h
  simpa using h

/-- In the alphabet they are at most twice as many. -/
theorem costs_gsm7_noLonger {xs ys : List Char} (h : NoLonger xs ys) :
    List.SublistForall₂ (fun x y => x ≤ 2 * y) (costs .gsm7 xs) (costs .ucs2 ys) := by
  rw [costs_ucs2]
  induction h with
  | nil => exact List.SublistForall₂.nil
  | @cons a b xs ys _ _ ih =>
    unfold costs at ih ⊢
    rw [List.map_cons]
    cases ha : units .gsm7 a with
    | none =>
      rw [List.filterMap_cons_none ha]
      exact List.SublistForall₂.cons_right ih
    | some n =>
      have hn := units_cases ha
      have hb := lenUtf16_cases b
      rw [List.filterMap_cons_some ha]
      exact List.SublistForall₂.cons (by omega) ih
  | cons_right _ ih => exact List.SublistForall₂.cons_right ih

/-- **A body that is no longer takes no more parts**, in UTF-16 or in the alphabet, than one in
UTF-16. -/
theorem packing_noLonger {xs ys : List Char} (h : NoLonger xs ys) (hys : isGsm7Str ys = false) :
    (packing xs).segments ≤ (packing ys).segments := by
  unfold packing
  have hencoding : encodingOf ys = .ucs2 := by simp [encodingOf, hys]
  rw [hencoding]
  cases encodingOf xs with
  | gsm7 => exact pack_mono (by decide) (by decide) (costs_gsm7_noLonger h)
  | ucs2 => exact pack_mono (by decide) (by decide) (costs_ucs2_noLonger h)

/-! ### What is written, character by character -/

/-- In an encoding, the characters of two units. -/
def takesTwo (encoding : Encoding) (c : Char) : Bool := decide (units encoding c = some 2)

/-- In the alphabet, or with a replacement, which is. -/
def endsInGsm7 (c : Char) : Bool := isGsm7 c || (substitute c).isSome

/-- The encoding that is required for what is written. -/
def writtenEncoding (text : List Char) : Encoding := if text.all endsInGsm7 then .gsm7 else .ucs2

/-- The units that are written for a character: three for an ellipsis, and none for one that is
dropped. -/
def unitsWritten (encoding : Encoding) (c : Char) : ℕ :=
  if c = '\u2026' then 3
  else if substitute c = some [] then 0
  else if takesTwo encoding c then 2
  else 1

theorem isGsm7Str_written (c : Char) : isGsm7Str (written c) = endsInGsm7 c := by
  unfold written endsInGsm7
  cases hc : substitute c with
  | none => simp [isGsm7Str]
  | some target =>
    rw [Option.getD_some, isGsm7Str_lookup (by decide) hc]
    simp

theorem encodingOf_written (text : List Char) :
    encodingOf (text.flatMap written) = writtenEncoding text := by
  unfold encodingOf writtenEncoding
  have hall : isGsm7Str (text.flatMap written) = text.all endsInGsm7 := by
    unfold isGsm7Str
    rw [List.all_flatMap]
    exact congrArg text.all (funext isGsm7Str_written)
  rw [hall]

/-- The entry of the table for a character: it takes one unit and is not in the alphabet, and each
character of its replacement takes one unit in either encoding. -/
theorem substitute_spec {c : Char} {target : List Char} (h : substitute c = some target) :
    takesTwo .gsm7 c = false ∧ takesTwo .ucs2 c = false ∧
      (∀ encoding, costs encoding target = List.replicate target.length 1) ∧
      target.length = if c = '\u2026' then 3 else if target = [] then 0 else 1 := by
  obtain ⟨entry, hentry, rfl⟩ := Option.map_eq_some_iff.mp h
  have hmem := List.mem_of_find?_eq_some hentry
  have hsource : entry.1 = c := by simpa using List.find?_some hentry
  have hgsm : takesTwo .gsm7 entry.1 = false := by
    have hout : classify entry.1 = none := by simpa [isGsm7] using isGsm7_substituted hmem
    simp [takesTwo, units, hout]
  have htable : ∀ e ∈ substitutions, takesTwo .ucs2 e.1 = false ∧
      costs .gsm7 e.2 = List.replicate e.2.length 1 ∧
      costs .ucs2 e.2 = List.replicate e.2.length 1 ∧
      e.2.length = if e.1 = '\u2026' then 3 else if e.2 = [] then 0 else 1 := by
    decide +kernel
  obtain ⟨hucs2, hcosts7, hcosts16, hlength⟩ := htable entry hmem
  rw [hsource] at hgsm hucs2 hlength
  refine ⟨hgsm, hucs2, fun encoding => ?_, hlength⟩
  cases encoding
  · exact hcosts7
  · exact hcosts16

/-- **What is written for a character**, in an encoding that has it. -/
theorem costs_written {encoding : Encoding} {c : Char}
    (h : encoding = .gsm7 → endsInGsm7 c = true) :
    (costs encoding (written c)).sum = unitsWritten encoding c ∧
      (costs encoding (written c)).count 2 = if takesTwo encoding c then 1 else 0 := by
  unfold written unitsWritten
  cases hc : substitute c with
  | some target =>
    obtain ⟨hgsm, hucs2, hcosts, hlength⟩ := substitute_spec hc
    have htwo : takesTwo encoding c = false := by
      cases encoding
      · exact hgsm
      · exact hucs2
    rw [Option.getD_some, hcosts, List.sum_replicate, smul_eq_mul, Nat.mul_one, htwo,
      List.count_replicate]
    simpa using hlength
  | none =>
    have hellipsis : c ≠ '\u2026' := by
      rintro rfl
      exact absurd hc (by decide)
    have hunits : ∃ n, units encoding c = some n := by
      cases encoding with
      | ucs2 => exact ⟨_, rfl⟩
      | gsm7 =>
        have hgsm : isGsm7 c = true := by simpa [endsInGsm7, hc] using h rfl
        obtain ⟨g, hg⟩ := Option.isSome_iff_exists.mp hgsm
        exact ⟨g.septets, by rw [units, hg]; rfl⟩
    obtain ⟨n, hn⟩ := hunits
    have hcosts : costs encoding [c] = [n] := by simp [costs, hn]
    rw [Option.getD_none, hcosts, if_neg hellipsis, if_neg (by simp)]
    unfold takesTwo
    rw [hn]
    rcases units_cases hn with rfl | rfl
    · exact ⟨rfl, rfl⟩
    · exact ⟨rfl, rfl⟩

/-- The same for a text. -/
theorem costs_flatMap_written {encoding : Encoding} {text : List Char}
    (h : encoding = .gsm7 → text.all endsInGsm7 = true) :
    (costs encoding (text.flatMap written)).sum = (text.map (unitsWritten encoding)).sum ∧
      (costs encoding (text.flatMap written)).count 2 = text.countP (takesTwo encoding) := by
  induction text with
  | nil => exact ⟨rfl, rfl⟩
  | cons c cs ih =>
    have hall : encoding = .gsm7 → endsInGsm7 c = true ∧ cs.all endsInGsm7 = true := by
      intro hgsm
      rw [← Bool.and_eq_true, ← List.all_cons]
      exact h hgsm
    obtain ⟨hsum, hcount⟩ := ih fun hgsm => (hall hgsm).2
    obtain ⟨hsumc, hcountc⟩ := costs_written fun hgsm => (hall hgsm).1
    rw [List.flatMap_cons, costs_append, List.sum_append, List.count_append, hsum, hcount, hsumc,
      hcountc, List.map_cons, List.sum_cons, List.countP_cons]
    exact ⟨rfl, Nat.add_comm _ _⟩

theorem all_of_writtenEncoding {text : List Char} (h : writtenEncoding text = .gsm7) :
    text.all endsInGsm7 = true := by
  unfold writtenEncoding at h
  by_contra hall
  rw [if_neg hall] at h
  exact absurd h (by decide)

/-! ### Room for it -/

variable (lib : UnicodeLib)

/-- **Normalising writes no more than there is room for**: the body is in the alphabet, or composing
lengthens nothing and there is no ellipsis in it, or what is written for the characters of the
composed body has room in the parts of the body. -/
def KeepsParts (body : List Char) : Prop :=
  isGsm7Str body = true ∨ (NoLonger (lib.nfc body) body ∧ '\u2026' ∉ lib.nfc body) ∨
    let encoding := writtenEncoding (lib.nfc body)
    HasRoom encoding (body.map lenUtf16).sum ((lib.nfc body).map (unitsWritten encoding)).sum
      ((lib.nfc body).countP (takesTwo encoding))

/-- A body of one part, or none of whose characters takes two units, before and after. -/
def Plain (body : List Char) : Prop :=
  (body.map lenUtf16).sum ≤ ucs2Single ∨
    ((∀ c ∈ body, lenUtf16 c = 1) ∧
      ∀ c ∈ lib.nfc body, takesTwo (writtenEncoding (lib.nfc body)) c = false)

/-- The parts of what is written, and what they hold. -/
theorem packing_normalise (body : List Char) :
    ∃ sizes : List ℕ, (∀ x ∈ sizes, x = 1 ∨ x = 2) ∧
      (packing (normalise lib body)).segments =
        (pack sizes (single (writtenEncoding (lib.nfc body)))
          (concatenated (writtenEncoding (lib.nfc body)))).segments ∧
      sizes.sum = ((lib.nfc body).map (unitsWritten (writtenEncoding (lib.nfc body)))).sum ∧
      sizes.count 2 = (lib.nfc body).countP (takesTwo (writtenEncoding (lib.nfc body))) := by
  obtain ⟨hsum, hcount⟩ := @costs_flatMap_written (writtenEncoding (lib.nfc body)) (lib.nfc body)
    all_of_writtenEncoding
  refine ⟨_, costs_cases _ _, ?_, hsum, hcount⟩
  rw [packing, normalise_eq, encodingOf_written]

theorem packing_ucs2 {body : List Char} (h : isGsm7Str body = false) :
    packing body = pack (body.map lenUtf16) ucs2Single ucs2Concatenated := by
  have hencoding : encodingOf body = .ucs2 := by simp [encodingOf, h]
  rw [packing, hencoding, costs_ucs2]
  rfl

/-- **Normalising a body does not make it take more parts if there is room for what it writes**, and
for a body of one part, or without characters of two units, only if. -/
theorem normalise_keeps_parts (hnfc : ∀ text, isGsm7Str text = true → lib.nfc text = text)
    (body : List Char) :
    (KeepsParts lib body →
      (analyse lib (normalise lib body)).segments ≤ (analyse lib body).segments) ∧
    (Plain lib body →
      (analyse lib (normalise lib body)).segments ≤ (analyse lib body).segments →
        KeepsParts lib body) := by
  rw [(analyse_eq lib _).2.2.1, (analyse_eq lib _).2.2.1]
  obtain ⟨sizes, hsizes, hparts, hsum, hcount⟩ := packing_normalise lib body
  cases hgsm : isGsm7Str body with
  | true =>
    have hsame : normalise lib body = body := by
      rw [normalise_eq, hnfc body hgsm, List.flatMap_congr fun c hc =>
        written_of_isGsm7 (List.all_eq_true.mp hgsm c hc), List.flatMap_singleton']
    rw [hsame]
    exact ⟨fun _ => le_refl _, fun _ _ => Or.inl hgsm⟩
  | false =>
    constructor
    · rintro (h | ⟨hlonger, hellipsis⟩ | hroom)
      · exact absurd h (by simp [hgsm])
      · rw [normalise_eq]
        exact packing_noLonger (noLonger_written hlonger hellipsis) hgsm
      · dsimp only at hroom
        rw [hparts, packing_ucs2 hgsm]
        rw [← hsum, ← hcount] at hroom
        exact pack_le_of_hasRoom hsizes (lenUtf16_le body) hroom
    · intro hplain hle
      rw [hparts, packing_ucs2 hgsm] at hle
      refine Or.inr (Or.inr ?_)
      dsimp only
      rw [← hsum, ← hcount]
      refine hasRoom_of_pack_le (hplain.imp_right fun ⟨hone, htwo⟩ => ⟨?_, ?_⟩) hsizes hle
      · intro x hx
        obtain ⟨c, hc, rfl⟩ := List.mem_map.mp hx
        exact hone c hc
      · rw [hcount, List.countP_eq_zero]
        intro c hc
        rw [htwo c hc]
        exact Bool.false_ne_true

end normalise

section runs

/-- On the characters below, each of which is its own normal form. -/
def plainUnicode : UnicodeLib := ⟨id, fun c => [c]⟩

/-- An apostrophe and an ellipsis: there is room for the dots. -/
theorem normalise_keeps_parts_dots :
    (analyse plainUnicode (normalise plainUnicode "l\u2019agence\u2026".toList)).segments ≤
      (analyse plainUnicode "l\u2019agence\u2026".toList).segments :=
  (normalise_keeps_parts plainUnicode (fun _ _ => rfl) "l\u2019agence\u2026".toList).1
    (Or.inr (Or.inr (by decide +kernel)))

/-- Seventy ellipses are one part in UTF-16, and their dots are two in the alphabet. -/
theorem ellipses_take_more :
    ¬ (analyse plainUnicode (normalise plainUnicode (List.replicate 70 '\u2026'))).segments ≤
    (analyse plainUnicode (List.replicate 70 '\u2026')).segments := by
  have hdots : normalise plainUnicode (List.replicate 70 '\u2026') = List.replicate 210 '.' := by
    decide +kernel
  have hdot : encodingOf (List.replicate 210 '.') = .gsm7 :=
    encodingOf_gsm7 fun c hc => by rw [List.eq_of_mem_replicate hc]; decide
  have hellipsis : encodingOf (List.replicate 70 '\u2026') = .ucs2 :=
    encodingOf_ucs2 (List.mem_replicate.mpr ⟨by decide, rfl⟩) (by decide)
  rw [hdots, (analyse_eq plainUnicode _).2.2.1, (analyse_eq plainUnicode _).2.2.1, packing, packing,
    hdot, hellipsis, costs_ones fun c hc => by rw [List.eq_of_mem_replicate hc]; rfl,
    costs_ones fun c hc => by
      rw [List.eq_of_mem_replicate hc]; rfl, List.length_replicate, List.length_replicate]
  decide +kernel

/-- A character of two units at the end of the first part. -/
def straddling : List Char := List.replicate 152 'a' ++ '€' :: List.replicate 152 'a'

/-- A unit is lost, and there is said to be one more than there is. -/
theorem straddling_not_counted : ¬ CountsDown plainUnicode straddling := by
  have hgsm : encodingOf straddling = .gsm7 := by
    have ha (c : Char) (hc : c ∈ List.replicate 152 'a') : isGsm7 c = true := by
      rw [List.eq_of_mem_replicate hc]
      decide
    refine encodingOf_gsm7 fun c hc => ?_
    rcases List.mem_append.mp hc with hc | hc
    · exact ha c hc
    · rcases List.mem_cons.mp hc with rfl | hc
      · decide
      · exact ha c hc
  have hones (k : ℕ) : ∀ c ∈ List.replicate k 'a', units .gsm7 c = some 1 := by
    intro c hc
    rw [List.eq_of_mem_replicate hc]
    rfl
  have hcosts : costs .gsm7 straddling = List.replicate 152 1 ++ 2 :: List.replicate 152 1 := by
    have htail : costs .gsm7 ('€' :: List.replicate 152 'a') =
        2 :: costs .gsm7 (List.replicate 152 'a') :=
      List.filterMap_cons_some rfl
    rw [straddling, costs_append, htail, costs_ones (hones 152), List.length_replicate]
  obtain ⟨hencoding, hlength, hsegments, hper⟩ := analyse_eq plainUnicode straddling
  rw [packing, hgsm, hcosts] at hlength hsegments hper
  intro h
  have hunits : ∀ c ∈ List.replicate 153 'a', units (analyse plainUnicode straddling).encoding c =
      some 1 := by
    rw [hencoding, hgsm]
    exact hones 153
  have hsame := (h (List.replicate 153 'a') hunits).1 (by
    unfold remainingInSegment
    rw [hlength, hsegments, hper, List.length_replicate]
    decide +kernel)
  rw [analyse_append plainUnicode (by rw [hgsm]; exact hones 153), hsegments, hgsm, hcosts,
    List.length_replicate] at hsame
  exact absurd hsame (by decide +kernel)

end runs

end Vsms.Core.Segments
