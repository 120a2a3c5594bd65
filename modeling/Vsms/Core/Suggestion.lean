import Vsms.Core.Segments
import Vsms.Core.Translit
import Mathlib.Algebra.BigOperators.Ring.List
import Mathlib.Algebra.Order.BigOperators.Group.List

/-! # The parts of a suggestion

`analyse` offers the transliterated text of a body that is carried in UTF-16 if that text is in the
alphabet. A part in the alphabet holds more than twice the units of one in UTF-16, so the text takes
no more parts as long as no character is replaced by more than twice its units
(`suggestionFits_of_le`). An ellipsis, `™`, `©` and `®` are; a body of these can take more parts
when it is replaced by the suggestion. Whether it does is said by the septets of what each character
is replaced by (`suggestion_keeps_parts`). -/

namespace Vsms.Core.Suggestion

open Vsms.Schema.Types Vsms.Core.Encoding Vsms.Core.Segments Vsms.Core.Translit

section suggestion
variable (lib : UnicodeLib)

/-- What transliterating writes for a character. -/
def rewritten (c : Char) : List Char := (replacementFor lib c).getD [c]

/-- The septets of it. -/
def septetsFor (c : Char) : ℕ := (costs .gsm7 (rewritten lib c)).sum

/-- Its characters of two septets. -/
def doublesFor (c : Char) : ℕ := (costs .gsm7 (rewritten lib c)).count 2

/-- **The parts of the body have room for what its characters are replaced by.** -/
def SuggestionFits (body : List Char) : Prop :=
  HasRoom .gsm7 (body.map lenUtf16).sum (body.map (septetsFor lib)).sum
    (body.map (doublesFor lib)).sum

instance (body : List Char) : Decidable (SuggestionFits lib body) := by
  unfold SuggestionFits
  infer_instance

/-- A body of one part, or without characters of two units, before and after. -/
def Plain (body : List Char) : Prop :=
  (body.map lenUtf16).sum ≤ ucs2Single ∨ ∀ c ∈ body, lenUtf16 c = 1 ∧ doublesFor lib c = 0

/-- The septets of the whole text are those of what is written for each character. -/
theorem costs_rewritten (body : List Char) :
    (costs .gsm7 (body.flatMap (rewritten lib))).sum = (body.map (septetsFor lib)).sum ∧
      (costs .gsm7 (body.flatMap (rewritten lib))).count 2 = (body.map (doublesFor lib)).sum := by
  induction body with
  | nil => exact ⟨rfl, rfl⟩
  | cons c cs ih =>
    rw [List.flatMap_cons, costs_append, List.sum_append, List.count_append, ih.1, ih.2]
    exact ⟨rfl, rfl⟩

variable {lib}

/-- A suggestion is what is written for the body, and the body is in UTF-16. -/
theorem suggestion_packing {body t : List Char} (h : (analyse lib body).suggestion = some t) :
    (analyse lib t).segments =
        (pack (costs .gsm7 (body.flatMap (rewritten lib))) (single .gsm7)
          (concatenated .gsm7)).segments ∧
      (analyse lib body).segments =
        (pack (body.map lenUtf16) ucs2Single ucs2Concatenated).segments := by
  obtain ⟨hbody, hgsm, ht⟩ := analyse_suggestion_eq_some_iff.mp h
  have htext : t = body.flatMap (rewritten lib) := by
    rw [ht, transliterate_eq]
    rfl
  have hencoding : encodingOf t = .gsm7 := encodingOf_gsm7 (List.all_eq_true.mp hgsm)
  rw [(analyse_eq lib t).2.2.1, (analyse_eq lib body).2.2.1, packing_ucs2 hbody, packing, hencoding,
    htext]
  exact ⟨rfl, rfl⟩

/-- **A suggestion takes no more parts than its body if there is room for what the characters are
replaced by**, and for a body of one part, or without characters of two units, only if. -/
theorem suggestion_keeps_parts {body t : List Char} (h : (analyse lib body).suggestion = some t) :
    (SuggestionFits lib body → (analyse lib t).segments ≤ (analyse lib body).segments) ∧
      (Plain lib body → (analyse lib t).segments ≤ (analyse lib body).segments →
        SuggestionFits lib body) := by
  obtain ⟨ht, hbody⟩ := suggestion_packing h
  obtain ⟨hsum, hcount⟩ := costs_rewritten lib body
  unfold SuggestionFits
  rw [ht, hbody, ← hsum, ← hcount]
  refine ⟨pack_le_of_hasRoom (costs_cases _ _) (lenUtf16_le body), fun hplain => ?_⟩
  refine hasRoom_of_pack_le (hplain.imp_right fun hall => ⟨?_, ?_⟩) (costs_cases _ _)
  · intro x hx
    obtain ⟨c, hc, rfl⟩ := List.mem_map.mp hx
    exact (hall c hc).1
  · rw [hcount, List.sum_eq_zero_iff_forall_eq_nat]
    intro x hx
    obtain ⟨c, hc, rfl⟩ := List.mem_map.mp hx
    exact (hall c hc).2

/-- **There is room if no character is replaced by more than twice its units.** -/
theorem suggestionFits_of_le {body : List Char}
    (h : ∀ c ∈ body, septetsFor lib c ≤ 2 * lenUtf16 c) :
    SuggestionFits lib body := by
  have hsum : (body.map (septetsFor lib)).sum ≤ 2 * (body.map lenUtf16).sum := by
    rw [← List.sum_map_mul_left]
    exact List.sum_le_sum h
  have hfill : (body.map lenUtf16).sum ≤
      ucs2Concatenated * ((body.map lenUtf16).sum ⌈/⌉ ucs2Concatenated) :=
    (ceilDiv_le_iff_le_mul (by decide)).mp (le_refl _)
  unfold SuggestionFits HasRoom single concatenated ucs2Single ucs2Concatenated gsm7Single
    gsm7Concatenated at *
  dsimp only
  split_ifs
  · omega
  · exact Or.inr (by omega)

end suggestion

section runs

/-- Two letters for a ligature. -/
theorem suggestion_keeps_parts_ligature : (analyse plainUnicode "oeuf".toList).segments ≤
    (analyse plainUnicode "\u0153uf".toList).segments :=
  (suggestion_keeps_parts (by decide +kernel)).1 (by decide +kernel)

/-- Seventy trade marks are one part in UTF-16, and what is suggested for them is two in the
alphabet. -/
theorem trademarks_take_more :
    ¬ ∀ t, (analyse plainUnicode (List.replicate 70 '\u2122')).suggestion = some t →
      (analyse plainUnicode t).segments ≤
        (analyse plainUnicode (List.replicate 70 '\u2122')).segments := by
  intro hall
  have hnot : isGsm7Str (List.replicate 70 '\u2122') = false := by decide +kernel
  have hfits : isGsm7Str (transliterateToGsm7 plainUnicode (List.replicate 70 '\u2122')).1 =
      true := by
    decide +kernel
  have hsuggestion := analyse_suggestion_eq_some_iff.mpr ⟨hnot, hfits, rfl⟩
  have hle := hall _ hsuggestion
  obtain ⟨ht, hbody⟩ := suggestion_packing hsuggestion
  rw [ht, hbody] at hle
  exact absurd hle (by decide +kernel)

end runs

end Vsms.Core.Suggestion
