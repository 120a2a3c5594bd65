import Vsms.Lib.Framing
import Mathlib.Data.List.Basic

/-! # Named fields on lines

A text made of fields, the name of a field on a line and its value on the next, with nothing
escaped. A value with a separator in it takes several lines, so that two lists of fields can have
one text. If the values of one of the two have no separator in them and are not among its names,
each of its names is on one line only: in the other list the field of that name starts on the same
line, and if the same name comes next in both, or nothing does, it has the same value
(`value_unique`, `last_unique`). -/

namespace Vsms.Lib.Fields

open Vsms.Lib.Framing

/-- A word that stands once in a text cuts it in one way, whatever the other parts are. -/
theorem once_unique {α : Type*} {h : α} {a b s t : List α} (ha : h ∉ a) (hs : h ∉ s)
    (heq : a ++ h :: s = b ++ h :: t) : a = b ∧ s = t := by
  by_cases hb : h ∈ b
  · -- The first place in `b` is the one in the text, so the next would be in `s`.
    obtain ⟨b₁, b₂, rfl, hnot⟩ := List.eq_append_cons_of_mem hb
    rw [List.append_assoc, List.cons_append] at heq
    obtain ⟨-, hrest⟩ := word_unique ha hnot heq
    exact absurd (hrest ▸ List.mem_append_right _ List.mem_cons_self) hs
  · exact word_unique ha hb heq

variable {γ : Type*} [DecidableEq γ] {sep : γ}

/-- The name on a line and the value on the next, for every field. -/
def render (sep : γ) (fields : List (List γ × List γ)) : List γ :=
  fields.flatMap fun field => field.1 ++ sep :: (field.2 ++ [sep])

/-- The lines of the fields. -/
def lines (sep : γ) (fields : List (List γ × List γ)) : List (List γ) :=
  fields.flatMap fun field => field.1 :: field.2.splitOn sep

theorem lines_append (as bs : List (List γ × List γ)) :
    lines sep (as ++ bs) = lines sep as ++ lines sep bs := List.flatMap_append

theorem lines_cons (name value : List γ) (fields : List (List γ × List γ)) :
    lines sep ((name, value) :: fields) = name :: (value.splitOn sep ++ lines sep fields) := rfl

/-- The text ends with a separator, so there is an empty line after the fields. -/
theorem splitOn_render {fields : List (List γ × List γ)} (h : ∀ field ∈ fields, sep ∉ field.1) :
    (render sep fields).splitOn sep = lines sep fields ++ [[]] := by
  induction fields with
  | nil => rfl
  | cons field fields ih =>
    have hname := h field List.mem_cons_self
    have hrest := ih fun g hg => h g (List.mem_cons_of_mem _ hg)
    have htext : render sep (field :: fields) =
        field.1 ++ sep :: (field.2 ++ sep :: render sep fields) := by
      simp [render]
    rw [htext, List.splitOn_append_cons_self_of_not_mem hname, List.splitOn_append_cons_self, hrest]
    simp [lines]

/-- **No value can be taken for a name**: no value has a separator or is a name, and the names are
different lines. -/
structure Plain (sep : γ) (fields : List (List γ × List γ)) : Prop where
  value_line : ∀ field ∈ fields, sep ∉ field.2
  value_ne : ∀ field ∈ fields, ∀ other ∈ fields, field.2 ≠ other.1
  nodup : (fields.map (·.1)).Nodup
  name_ne : ∀ field ∈ fields, field.1 ≠ []

theorem notMem_lines {name : List γ} {fields : List (List γ × List γ)}
    (hline : ∀ field ∈ fields, sep ∉ field.2) (hname : ∀ field ∈ fields, field.1 ≠ name)
    (hvalue : ∀ field ∈ fields, field.2 ≠ name) : name ∉ lines sep fields := by
  intro hmem
  obtain ⟨field, hfield, hmem⟩ := List.mem_flatMap.mp hmem
  rw [List.splitOn_eq_singleton (hline field hfield)] at hmem
  rcases List.mem_cons.mp hmem with rfl | hmem
  · exact hname field hfield rfl
  · exact hvalue field hfield (List.mem_singleton.mp hmem).symm

variable {as bs as' bs' : List (List γ × List γ)} {name value value' : List γ}

theorem Plain.before (h : Plain sep (as ++ (name, value) :: bs)) : name ∉ lines sep as := by
  have hnodup := h.nodup
  rw [List.map_append, List.map_cons, List.nodup_append] at hnodup
  have hmem : ∀ {field}, field ∈ as → field ∈ as ++ (name, value) :: bs :=
    fun hfield => List.mem_append_left _ hfield
  refine notMem_lines (fun field hf => h.value_line field (hmem hf)) ?_ ?_
  · intro field hf
    exact hnodup.2.2 _ (List.mem_map_of_mem hf) _ List.mem_cons_self
  · intro field hf
    exact h.value_ne field (hmem hf) (name, value) List.mem_append_cons_self

theorem Plain.after (h : Plain sep (as ++ (name, value) :: bs)) :
    name ∉ value.splitOn sep ++ (lines sep bs ++ [[]]) := by
  have hself : (name, value) ∈ as ++ (name, value) :: bs := List.mem_append_cons_self
  have hmem : ∀ {field}, field ∈ bs → field ∈ as ++ (name, value) :: bs :=
    fun hfield => List.mem_append_right _ (List.mem_cons_of_mem _ hfield)
  have hnodup := h.nodup
  rw [List.map_append, List.map_cons, List.nodup_append, List.nodup_cons] at hnodup
  rw [List.splitOn_eq_singleton (h.value_line _ hself)]
  simp only [List.mem_append, List.mem_singleton, not_or]
  refine ⟨fun heq => h.value_ne _ hself _ hself heq.symm, ?_, h.name_ne _ hself⟩
  refine notMem_lines (fun field hf => h.value_line field (hmem hf)) ?_ ?_
  · intro field hf heq
    exact hnodup.2.1.1 (List.mem_map.mpr ⟨field, hf, heq⟩)
  · intro field hf
    exact h.value_ne field (hmem hf) (name, value) hself

/-- **A field of the same name starts on the same line.** -/
theorem Plain.rest_unique (h : Plain sep (as ++ (name, value) :: bs))
    (heq : lines sep (as ++ (name, value) :: bs) ++ [[]] =
      lines sep (as' ++ (name, value') :: bs') ++ [[]]) :
    value.splitOn sep ++ (lines sep bs ++ [[]]) =
      value'.splitOn sep ++ (lines sep bs' ++ [[]]) := by
  simp only [lines_append, lines_cons, List.append_assoc, List.cons_append] at heq
  exact (once_unique h.before h.after heq).2

theorem splitOn_inj {a b : List γ} (h : a.splitOn sep = b.splitOn sep) : a = b := by
  have ha : [sep].intercalate (a.splitOn sep) = a := List.intercalate_splitOn sep
  rw [← ha, h, List.intercalate_splitOn]

/-- **A value is read back** if the same name comes next in both. -/
theorem Plain.value_unique {next next₁ next₂ : List γ}
    (h : Plain sep (as ++ (name, value) :: (next, next₁) :: bs))
    (heq : lines sep (as ++ (name, value) :: (next, next₁) :: bs) ++ [[]] =
      lines sep (as' ++ (name, value') :: (next, next₂) :: bs') ++ [[]]) : value' = value := by
  have hrest := h.rest_unique heq
  have hnext : Plain sep ((as ++ [(name, value)]) ++ (next, next₁) :: bs) := by
    rwa [List.append_assoc, List.singleton_append]
  have hbefore : next ∉ value.splitOn sep := by
    intro hmem
    refine hnext.before ?_
    rw [lines_append, lines_cons]
    exact List.mem_append_right _ (List.mem_cons_of_mem _ (List.mem_append_left _ hmem))
  simp only [lines_cons, List.cons_append, List.append_assoc] at hrest
  exact (splitOn_inj (once_unique hbefore hnext.after hrest).1).symm

/-- **The last value is read back** if it is the last in both. -/
theorem Plain.last_unique (h : Plain sep (as ++ [(name, value)]))
    (heq : lines sep (as ++ [(name, value)]) ++ [[]] =
      lines sep (as' ++ [(name, value')]) ++ [[]]) :
    value' = value := by
  have hrest := h.rest_unique heq
  exact (splitOn_inj (List.append_cancel_right hrest)).symm

theorem lines_eq {fields : List (List γ × List γ)} (h : ∀ field ∈ fields, sep ∉ field.2) :
    lines sep fields = fields.flatMap fun field => [field.1, field.2] := by
  refine List.flatMap_congr fun field hfield => ?_
  rw [List.splitOn_eq_singleton (h field hfield)]

/-- **Where no value has a separator, fields are two lines each**, so the last ones are read back
from the end, whatever the values before them are. -/
theorem suffix_unique {tail tail' : List (List γ × List γ)} (hlen : tail.length = tail'.length)
    (h : ∀ field ∈ tail, sep ∉ field.2) (h' : ∀ field ∈ tail', sep ∉ field.2)
    (heq : lines sep (as ++ tail) ++ [[]] = lines sep (as' ++ tail') ++ [[]]) : tail = tail' := by
  have htwo : ∀ fields : List (List γ × List γ),
      (fields.flatMap fun field => [field.1, field.2]).length = 2 * fields.length := by
    intro fields
    simp [List.length_flatMap, Nat.mul_comm]
  have hlines := List.append_cancel_right heq
  rw [lines_append, lines_append, lines_eq h, lines_eq h'] at hlines
  obtain ⟨-, htail⟩ := List.append_inj' hlines (by rw [htwo, htwo, hlen])
  have hpair : SelfDelimiting (· = ·) fun field : List γ × List γ => [field.1, field.2] := by
    refine .of_length (fun _ _ => rfl) fun field other hf => ?_
    simp only [List.cons.injEq, and_true] at hf
    exact Prod.ext hf.1 hf.2
  have hrel := hpair.flatMap (fun _ => List.cons_ne_nil _ _) htail
  exact List.forall₂_eq_eq_eq ▸ hrel

end Vsms.Lib.Fields
