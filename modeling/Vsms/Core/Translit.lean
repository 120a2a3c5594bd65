import Vsms.Core.Encoding
import Vsms.Lib.Edits

/-! # Transliteration

The replacements that `transliterate_to_gsm7` records are the edits that make its text of the body:
each is one of a character that is not in the alphabet, at the byte where the character begins. What
is left after it has no replacement, so doing it twice does nothing more. `analyse` offers the text
exactly if all the characters that offend are replaced.

The decomposition of the `unicode-normalization` crate is any function: what it gives is only used
if it is in the alphabet. -/

namespace Vsms.Core.Translit

open Vsms.Core.Encoding Vsms.Lib.Edits

/-- The bytes of a text. -/
def utf8 (text : List Char) : List UInt8 := text.flatMap String.utf8EncodeChar

theorem length_utf8_cons (c : Char) (text : List Char) :
    (utf8 (c :: text)).length = c.utf8Size + (utf8 text).length := by
  rw [utf8, List.flatMap_cons, List.length_append, String.length_utf8EncodeChar]
  rfl

/-- A replacement as an edit of the bytes of the body. -/
def edit (r : Replacement) : Edit UInt8 := ⟨r.offset, r.source.utf8Size, utf8 r.target⟩

variable {lib : UnicodeLib}

/-! ## The replacements -/

theorem map_edit (offset : ℕ) (body : List Char) :
    (transliterateFrom lib offset body).2.map edit =
      edits String.utf8EncodeChar (replacementFor lib) offset body := by
  induction body generalizing offset with
  | nil => rfl
  | cons c cs ih =>
    have hsize : (String.utf8EncodeChar c).length = c.utf8Size := String.length_utf8EncodeChar c
    cases hc : replacementFor lib c with
    | none =>
      rw [edits_cons_none hc, hsize, ← ih]
      simp only [transliterateFrom, hc]
    | some target =>
      rw [edits_cons_some hc, hsize, ← ih]
      simp only [transliterateFrom, hc]
      rfl

/-- What is recorded of a replacement. -/
theorem mem_transliterateFrom {r : Replacement} {offset : ℕ} {body : List Char}
    (h : r ∈ (transliterateFrom lib offset body).2) :
    replacementFor lib r.source = some r.target ∧
      ∃ before after, body = before ++ r.source :: after ∧
        r.offset = offset + (utf8 before).length := by
  induction body generalizing offset with
  | nil => cases h
  | cons c cs ih =>
    have hlater (hr : r ∈ (transliterateFrom lib (offset + c.utf8Size) cs).2) :
        replacementFor lib r.source = some r.target ∧
          ∃ before after, c :: cs = before ++ r.source :: after ∧
            r.offset = offset + (utf8 before).length := by
      obtain ⟨hsome, before, after, rfl, hoffset⟩ := ih hr
      exact ⟨hsome, c :: before, after, rfl, by rw [hoffset, length_utf8_cons, Nat.add_assoc]⟩
    cases hc : replacementFor lib c with
    | none =>
      simp only [transliterateFrom, hc] at h
      exact hlater h
    | some target =>
      simp only [transliterateFrom, hc] at h
      rcases List.mem_cons.mp h with rfl | h
      · exact ⟨hc, [], cs, rfl, rfl⟩
      · exact hlater h

theorem pairwise_offset (body : List Char) :
    (transliterateToGsm7 lib body).2.Pairwise fun r r' => r.offset < r'.offset := by
  have hedits := @pairwise_edits _ _ String.utf8EncodeChar (replacementFor lib) 0 body
  rw [← map_edit, List.pairwise_map] at hedits
  refine hedits.imp fun {r r'} h => ?_
  have hpos := r.source.utf8Size_pos
  unfold edit at h
  dsimp only at h
  omega

/-- **The replacements make the text of the body.** -/
theorem applyEdits_transliterate (body : List Char) :
    applyEdits ((transliterateToGsm7 lib body).2.map edit) (utf8 body) =
      utf8 (transliterateToGsm7 lib body).1 := by
  rw [transliterate_eq, transliterateToGsm7, map_edit]
  exact applyEdits_edits [] body

/-! ## Twice -/

theorem transliterateFrom_of_none {offset : ℕ} {body : List Char}
    (h : ∀ c ∈ body, replacementFor lib c = none) :
    transliterateFrom lib offset body = (body, []) := by
  induction body generalizing offset with
  | nil => rfl
  | cons c cs ih =>
    have hc := h c List.mem_cons_self
    have hcs := @ih (offset + c.utf8Size) fun d hd => h d (List.mem_cons_of_mem c hd)
    simp only [transliterateFrom, hc, hcs]

/-- **Nothing that is left has a replacement.** -/
theorem replacementFor_transliterate {body : List Char} {d : Char}
    (hd : d ∈ (transliterateToGsm7 lib body).1) :
    replacementFor lib d = none := by
  rw [transliterate_eq] at hd
  obtain ⟨c, -, hd⟩ := List.mem_flatMap.mp hd
  cases hc : replacementFor lib c with
  | none =>
    rw [hc] at hd
    rwa [List.mem_singleton.mp hd]
  | some target =>
    rw [hc] at hd
    exact replacementFor_of_isGsm7 (List.all_eq_true.mp (isGsm7Str_replacementFor hc) d hd)

theorem transliterate_transliterate (body : List Char) :
    transliterateToGsm7 lib (transliterateToGsm7 lib body).1 =
      ((transliterateToGsm7 lib body).1, []) :=
  transliterateFrom_of_none fun _ hd => replacementFor_transliterate hd

/-! ## What is reported -/

/-- **The characters that offend** are those that are not in the alphabet, each at its byte. -/
theorem mem_scan_offending {o : OffendingChar} {offset : ℕ} {body : List Char} :
    o ∈ (scan lib offset body).offending ↔
    isGsm7 o.ch = false ∧ o.replacement = replacementFor lib o.ch ∧
      ∃ before after, body = before ++ o.ch :: after ∧
        o.offset = offset + (utf8 before).length := by
  induction body generalizing offset with
  | nil => simp [scan]
  | cons c cs ih =>
    have hlength (before : List Char) :
        offset + (utf8 (c :: before)).length = offset + c.utf8Size + (utf8 before).length := by
      rw [length_utf8_cons, Nat.add_assoc]
    have hmem : o ∈ (scan lib offset (c :: cs)).offending ↔
        (isGsm7 c = false ∧ o = ⟨c, offset, replacementFor lib c⟩) ∨
          o ∈ (scan lib (offset + c.utf8Size) cs).offending := by
      cases hc : classify c with
      | none => simp [scan, isGsm7, hc]
      | some g => simp [scan, isGsm7, hc]
    rw [hmem, ih]
    constructor
    · rintro (⟨hc, rfl⟩ | ⟨hnot, hreplacement, before, after, rfl, hoffset⟩)
      · exact ⟨hc, rfl, [], cs, rfl, rfl⟩
      · exact ⟨hnot, hreplacement, c :: before, after, rfl, by rw [hoffset, hlength]⟩
    · rintro ⟨hnot, hreplacement, before, after, hsplit, hoffset⟩
      cases before with
      | nil =>
        obtain ⟨rfl, -⟩ := List.cons.inj hsplit
        refine Or.inl ⟨hnot, ?_⟩
        rw [← hreplacement, ← Nat.add_zero offset, ← show o.offset = offset + 0 from hoffset]
      | cons d before =>
        obtain ⟨rfl, hrest⟩ := List.cons.inj hsplit
        exact Or.inr ⟨hnot, hreplacement, before, after, hrest, by rw [hoffset, hlength]⟩

theorem analyse_offending (body : List Char) :
    (analyse lib body).offending = (scan lib 0 body).offending := by
  unfold analyse
  by_cases h : (scan lib 0 body).offending = []
  · rw [if_pos h, h]
  · rw [if_neg h]

theorem analyse_suggestion_eq_some_iff {body t : List Char} :
    (analyse lib body).suggestion = some t ↔
      isGsm7Str body = false ∧ isGsm7Str t = true ∧ t = (transliterateToGsm7 lib body).1 := by
  have hoffending := @scan_offending lib 0 body
  unfold analyse
  dsimp only
  rcases hbody : isGsm7Str body with _ | _
  · rw [hbody] at hoffending
    rw [if_neg fun h => absurd (hoffending.mp h) (by simp)]
    constructor
    · intro h
      obtain ⟨⟨hgsm, -⟩, ht⟩ := Option.ite_none_right_eq_some.mp h
      obtain rfl := Option.some.inj ht
      exact ⟨rfl, hgsm, rfl⟩
    · rintro ⟨-, hgsm, rfl⟩
      refine if_pos ⟨hgsm, fun hsame => ?_⟩
      rw [hsame, hbody] at hgsm
      exact absurd hgsm (by simp)
  · rw [if_pos (hoffending.mpr hbody)]
    simp

/-- **There is a suggestion exactly if something offends, and all of it has a replacement.** -/
theorem analyse_suggestion_isSome (body : List Char) :
    (analyse lib body).suggestion.isSome ↔
      (analyse lib body).offending ≠ [] ∧ ∀ o ∈ (analyse lib body).offending,
      o.replacement.isSome := by
  have hfits := isGsm7Str_transliterate lib body
  rw [analyse_offending, ne_eq, scan_offending, Option.isSome_iff_exists]
  simp only [analyse_suggestion_eq_some_iff, Bool.not_eq_true]
  constructor
  · rintro ⟨t, hbody, hgsm, rfl⟩
    refine ⟨hbody, fun o ho => ?_⟩
    obtain ⟨hnot, hreplacement, before, after, rfl, -⟩ := mem_scan_offending.mp ho
    rcases hfits.mp hgsm o.ch (by simp) with h | h
    · rw [hnot] at h
      exact absurd h (by simp)
    · rwa [hreplacement]
  · rintro ⟨hbody, hall⟩
    refine ⟨_, hbody, hfits.mpr fun c hc => ?_, rfl⟩
    rcases hgsm : isGsm7 c with _ | _
    · obtain ⟨before, after, rfl⟩ := List.append_of_mem hc
      exact Or.inr (hall ⟨c, _, _⟩ (mem_scan_offending.mpr ⟨hgsm, rfl, before, after, rfl, rfl⟩))
    · exact Or.inl rfl

/-- **What transliterating is.** -/
theorem transliteration_spec (lib : UnicodeLib) (body : List Char) :
    ((analyse lib body).suggestion.isSome ↔
        (analyse lib body).offending ≠ [] ∧ ∀ o ∈ (analyse lib body).offending,
        o.replacement.isSome) ∧
      (∀ o, o ∈ (analyse lib body).offending ↔
        isGsm7 o.ch = false ∧ o.replacement = replacementFor lib o.ch ∧
          ∃ before after, body = before ++ o.ch :: after ∧ o.offset = (utf8 before).length) ∧
      (∀ t, (analyse lib body).suggestion = some t →
        isGsm7Str t = true ∧ t = (transliterateToGsm7 lib body).1) ∧
      transliterateToGsm7 lib (transliterateToGsm7 lib body).1 =
        ((transliterateToGsm7 lib body).1, []) ∧
      (∀ r ∈ (transliterateToGsm7 lib body).2,
        isGsm7 r.source = false ∧ replacementFor lib r.source = some r.target ∧
          ∃ before after, body = before ++ r.source :: after ∧ r.offset = (utf8 before).length) ∧
      ((transliterateToGsm7 lib body).2.Pairwise fun r r' => r.offset < r'.offset) ∧
      applyEdits ((transliterateToGsm7 lib body).2.map edit) (utf8 body) =
        utf8 (transliterateToGsm7 lib body).1 := by
  refine ⟨analyse_suggestion_isSome body, fun o => ?_, fun t ht => ?_,
    transliterate_transliterate body, fun r hr => ?_, pairwise_offset body,
    applyEdits_transliterate body⟩
  · rw [analyse_offending, mem_scan_offending]
    simp only [Nat.zero_add]
  · exact (analyse_suggestion_eq_some_iff.mp ht).2
  · obtain ⟨hsome, before, after, hsplit, hoffset⟩ := mem_transliterateFrom hr
    refine ⟨?_, hsome, before, after, hsplit, by rw [hoffset, Nat.zero_add]⟩
    by_contra hgsm
    rw [replacementFor_of_isGsm7 (Bool.not_eq_false _ ▸ hgsm)] at hsome
    exact absurd hsome (by simp)

end Vsms.Core.Translit
