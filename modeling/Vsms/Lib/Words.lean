import Mathlib.Data.List.Basic
import Mathlib.Data.List.DropRight

/-! # Words of a text

Where a text is split at the characters that satisfy `p`, a word without such characters is one of
the parts exactly if it stands in the text with nothing or such a character on each side
(`mem_splitOnP`). If they are taken off at both ends, what is none of them stays (`mem_trim`). A
start or an end that a text has can be taken off (`isPrefixOf_eq_some`, `isSuffixOf_eq_some`). -/

namespace Vsms.Lib.Words

variable {α : Type*} {p : α → Bool}

/-- **`word` stands in the text by itself**: on each side of it the text ends or has a separator. -/
def Stands (p : α → Bool) (word text : List α) : Prop :=
  ∃ before after, text = before ++ word ++ after ∧ (∀ c ∈ before.getLast?, p c = true) ∧
    ∀ c ∈ after.head?, p c = true

theorem stands_of_mem {word text acc : List α} (h : word ∈ text.splitOnPPrepend p acc) :
    Stands p word (acc.reverse ++ text) := by
  induction text generalizing acc with
  | nil =>
    rw [List.splitOnPPrepend_nil, List.mem_singleton] at h
    exact ⟨[], [], by simp [h], by simp, by simp⟩
  | cons c text ih =>
    cases hc : p c with
    | true =>
      rw [List.splitOnPPrepend_cons_pos hc] at h
      rcases List.mem_cons.mp h with rfl | h
      · exact ⟨[], c :: text, by simp, by simp, by simpa using hc⟩
      · -- The word is behind the separator, which ends what is before it if nothing else does.
        obtain ⟨before, after, htext, hbefore, hafter⟩ := @ih [] h
        refine ⟨acc.reverse ++ c :: before, after, ?_, ?_, hafter⟩
        · rw [List.reverse_nil, List.nil_append] at htext
          simp [htext]
        · intro d hd
          rw [List.getLast?_append_cons, List.getLast?_cons] at hd
          cases hlast : before.getLast? with
          | none =>
            rw [hlast] at hd
            rw [← Option.some.inj hd]
            exact hc
          | some e =>
            rw [hlast] at hd
            rw [← Option.some.inj hd]
            exact hbefore e hlast
    | false =>
      rw [List.splitOnPPrepend_cons_neg hc] at h
      have hstands := ih h
      rwa [List.reverse_cons, List.append_assoc, List.singleton_append] at hstands

/-- No part has a separator in it. -/
theorem forall_of_mem_splitOnP {word text : List α} (h : word ∈ text.splitOnP p) :
    ∀ c ∈ word, p c = false := by
  have hprepend : ∀ (text acc : List α), (∀ c ∈ acc, p c = false) →
      ∀ word ∈ text.splitOnPPrepend p acc, ∀ c ∈ word, p c = false := by
    intro text
    induction text with
    | nil =>
      intro acc hacc word hword
      rw [List.splitOnPPrepend_nil, List.mem_singleton] at hword
      exact fun c hc => hacc c (List.mem_reverse.mp (hword ▸ hc))
    | cons d text ih =>
      intro acc hacc word hword
      cases hd : p d with
      | true =>
        rw [List.splitOnPPrepend_cons_pos hd] at hword
        rcases List.mem_cons.mp hword with rfl | hword
        · exact fun c hc => hacc c (List.mem_reverse.mp hc)
        · exact ih [] (by simp) word hword
      | false =>
        rw [List.splitOnPPrepend_cons_neg hd] at hword
        exact ih (d :: acc) (List.forall_mem_cons.mpr ⟨hd, hacc⟩) word hword
  exact hprepend text [] (by simp) word (by rwa [List.splitOnPPrepend_nil_right])

/-- **The parts of a text** are the words that stand in it by themselves. -/
theorem mem_splitOnP {word text : List α} (hword : ∀ c ∈ word, p c = false) :
    word ∈ text.splitOnP p ↔ Stands p word text := by
  refine ⟨fun h => ?_, ?_⟩
  · rw [← List.splitOnPPrepend_nil_right] at h
    simpa using stands_of_mem h
  rintro ⟨before, after, rfl, hbefore, hafter⟩
  have hfront : word ∈ (word ++ after).splitOnP p := by
    cases after with
    | nil =>
      rw [List.append_nil, List.splitOnP_eq_singleton hword]
      exact List.mem_singleton_self _
    | cons c after =>
      rw [List.splitOnP_append_cons_of_forall_mem hword c (hafter c rfl)]
      exact List.mem_cons_self
  rw [List.append_assoc]
  rcases List.eq_nil_or_concat before with rfl | ⟨before, c, rfl⟩
  · exact hfront
  · rw [List.concat_eq_append, List.append_assoc, List.singleton_append,
      List.splitOnP_append_cons _ _ (hbefore c (by simp))]
    exact List.mem_append_right _ hfront

/-! ### What is taken off at both ends -/

theorem trim_eq_self {text : List α} (h : ∀ c ∈ text, p c = false) :
    (text.dropWhile p).rdropWhile p = text := by
  have hdrop : text.dropWhile p = text :=
    List.dropWhile_eq_self_iff.mpr fun hl => by simp [h _ (List.getElem_mem hl)]
  rw [hdrop]
  exact List.rdropWhile_eq_self_iff.mpr fun hl => by simp [h _ (List.getLast_mem hl)]

theorem mem_dropWhile {text : List α} {c : α} (hc : c ∈ text) (hp : p c = false) :
    c ∈ text.dropWhile p := by
  rw [← List.takeWhile_append_dropWhile (p := p) (l := text)] at hc
  refine (List.mem_append.mp hc).resolve_left fun htake => ?_
  rw [List.mem_takeWhile_imp htake] at hp
  cases hp

theorem mem_trim {text : List α} {c : α} (hc : c ∈ text) (hp : p c = false) :
    c ∈ (text.dropWhile p).rdropWhile p :=
  List.mem_reverse.mpr (mem_dropWhile (List.mem_reverse.mpr (mem_dropWhile hc hp)) hp)

/-! ### The start and the end of a text -/

section ends
variable [DecidableEq α]

/-- What is left after the start of a text. -/
theorem isPrefixOf_eq_some {start text rest : List α} :
    start.isPrefixOf? text = some rest ↔ text = start ++ rest := by
  induction start generalizing text with
  | nil => simp [List.isPrefixOf?, eq_comm]
  | cons c start ih =>
    cases text with
    | nil => simp [List.isPrefixOf?]
    | cons d text =>
      rw [List.isPrefixOf?]
      by_cases hcd : c = d
      · rw [if_pos (by simpa using hcd), ih, hcd]
        simp
      · rw [if_neg (by simpa using hcd)]
        simp [Ne.symm hcd]

/-- What is left before its end. -/
theorem isSuffixOf_eq_some {tail text rest : List α} :
    tail.isSuffixOf? text = some rest ↔ text = rest ++ tail := by
  rw [List.isSuffixOf?, Option.map_eq_some_iff]
  constructor
  · rintro ⟨back, hback, rfl⟩
    have hrev := congrArg List.reverse (isPrefixOf_eq_some.mp hback)
    simpa using hrev
  · rintro rfl
    exact ⟨rest.reverse, isPrefixOf_eq_some.mpr (by simp), by simp⟩

end ends

end Vsms.Lib.Words
