import Vsms.Api.Send
import Vsms.Lib.Selection

/-! # The operator of a number

The table of prefixes is sorted by length once, and a number takes the first entry that it begins
with. The sort is stable and drops the rows that are no digits, so this is the row of the longest
prefix, and of several rows with this prefix the first that was given (`operator_of_longest`). -/

namespace Vsms.Api.Operators

open Vsms.Lib.Selection
open Vsms.Api.Send (OperatorPrefixTable)

/-- A prefix that a row can have: some digits. -/
def WellFormed (leading : List Char) : Prop := leading ≠ [] ∧ ∀ c ∈ leading, c.isDigit = true

/-- **The longest prefix of a number** among those of the rows. -/
structure Longest (rows : List (List Char × String)) (national leading : List Char) : Prop where
  wellFormed : WellFormed leading
  leads : leading <+: national
  occurs : leading ∈ rows.map Prod.fst
  length_le : ∀ other ∈ rows.map Prod.fst, WellFormed other → other <+: national →
    other.length ≤ leading.length

section rows
variable {rows : List (List Char × String)} {national : List Char}

theorem wellFormed_iff {leading : List Char} :
    (leading ≠ [] && leading.all Char.isDigit) = true ↔ WellFormed leading := by
  simp [WellFormed]

/-- Two prefixes of one number that are the longest are the same. -/
theorem Longest.unique {leading leading' : List Char} (h : Longest rows national leading)
    (h' : Longest rows national leading') : leading = leading' := by
  have hle := h.length_le leading' h'.occurs h'.wellFormed h'.leads
  have hge := h'.length_le leading h.occurs h.wellFormed h.leads
  exact (List.prefix_of_prefix_length_le h.leads h'.leads hge).eq_of_length
    (Nat.le_antisymm hge hle)

/-- What the table finds is the first row of the longest prefix. -/
theorem lookupNational_longest {operator : String}
    (h : (OperatorPrefixTable.new rows).lookupNational national = some operator) :
    ∃ leading, Longest rows national leading ∧
      (rows.find? (·.1 = leading)).map Prod.snd = some operator := by
  obtain ⟨row, hfind, rfl⟩ := Option.map_eq_some_iff.mp h
  obtain ⟨before, after, hrows, hleads, hbefore, hafter⟩ :=
    find?_mergeSort (by simp; omega) (by simp; omega) hfind
  have hmem : row ∈ rows.filter fun row => row.1 ≠ [] && row.1.all Char.isDigit := by
    rw [hrows]
    exact List.mem_append_right _ List.mem_cons_self
  obtain ⟨hrow, hdigits⟩ := List.mem_filter.mp hmem
  have hleads' : row.1 <+: national := List.isPrefixOf_iff_prefix.mp hleads
  refine ⟨row.1, ⟨wellFormed_iff.mp hdigits, hleads', List.mem_map_of_mem hrow, ?_⟩, ?_⟩
  · intro leading hoccurs hwell hother
    obtain ⟨other, hmem', rfl⟩ := List.mem_map.mp hoccurs
    have hin : other ∈ before ++ row :: after := by
      rw [← hrows]
      exact List.mem_filter.mpr ⟨hmem', wellFormed_iff.mpr hwell⟩
    rw [List.mem_append, List.mem_cons] at hin
    rcases hin with hin | rfl | hin
    · exact of_decide_eq_true (hbefore other hin (List.isPrefixOf_iff_prefix.mpr hother)).1
    · exact le_rfl
    · exact of_decide_eq_true (hafter other hin (List.isPrefixOf_iff_prefix.mpr hother))
  · -- A row before it with the same prefix would be sorted before it.
    have hfirst : (before ++ row :: after).find? (·.1 = row.1) = some row := by
      refine List.find?_eq_some_iff_append.mpr ⟨by simp, before, after, rfl, fun other hin => ?_⟩
      by_contra hsame
      have heq : other.1 = row.1 := by simpa using hsame
      have hlt := (hbefore other hin (heq ▸ hleads)).2
      simp [heq] at hlt
    rw [← hrows, List.find?_filter] at hfirst
    have hsame : rows.find? (·.1 = row.1) = some row := by
      rw [← hfirst]
      congr 1
      funext other
      by_cases heq : other.1 = row.1
      · rw [heq, hdigits]
        simp
      · simp [heq]
    rw [hsame, Option.map_some]

/-- The table finds nothing if no row can be used. -/
theorem lookupNational_eq_none : (OperatorPrefixTable.new rows).lookupNational national = none ↔
    ∀ leading ∈ rows.map Prod.fst, WellFormed leading → ¬ leading <+: national := by
  unfold OperatorPrefixTable.lookupNational OperatorPrefixTable.new
  rw [Option.map_eq_none_iff, List.find?_eq_none]
  simp only [List.mem_mergeSort, List.mem_filter, wellFormed_iff, List.isPrefixOf_iff_prefix,
    List.mem_map, forall_exists_index, and_imp]
  constructor
  · rintro h _ row hrow rfl hwell
    exact h row hrow hwell
  · intro h row hrow hwell
    exact h row.1 row hrow rfl hwell

theorem lookupNational_iff {operator : String} :
    (OperatorPrefixTable.new rows).lookupNational national = some operator ↔
      ∃ leading, Longest rows national leading ∧
        (rows.find? (·.1 = leading)).map Prod.snd = some operator := by
  refine ⟨lookupNational_longest, ?_⟩
  rintro ⟨leading, hlongest, hrow⟩
  cases hfind : (OperatorPrefixTable.new rows).lookupNational national with
  | none => exact absurd hlongest.leads (lookupNational_eq_none.mp hfind leading hlongest.occurs
      hlongest.wellFormed)
  | some found =>
    obtain ⟨leading', hlongest', hrow'⟩ := lookupNational_longest hfind
    rw [hlongest'.unique hlongest, hrow] at hrow'
    exact hrow'.symm

end rows

/-! ## Rows that do not matter -/

section same
variable {rows rows' : List (List Char × String)} {national : List Char}

/-- What rows with the same entries for a prefix have of it. -/
theorem same_of_leading {leading : List Char}
    (h : rows'.filter (·.1 = leading) = rows.filter (·.1 = leading)) :
    (leading ∈ rows'.map Prod.fst ↔ leading ∈ rows.map Prod.fst) ∧
      rows'.find? (·.1 = leading) = rows.find? (·.1 = leading) := by
  have hmem : ∀ l : List (List Char × String), leading ∈ l.map Prod.fst ↔
      l.filter (·.1 = leading) ≠ [] := by
    intro l
    simp [List.filter_eq_nil_iff]
  rw [hmem, hmem, h, ← List.head?_filter, ← List.head?_filter, h]
  exact ⟨Iff.rfl, rfl⟩

theorem Longest.of_same (hsame : ∀ leading, WellFormed leading →
      rows'.filter (·.1 = leading) = rows.filter (·.1 = leading))
    {leading : List Char} (h : Longest rows national leading) : Longest rows' national leading where
  wellFormed := h.wellFormed
  leads := h.leads
  occurs := (same_of_leading (hsame leading h.wellFormed)).1.mpr h.occurs
  length_le other hoccurs hwell :=
    h.length_le other ((same_of_leading (hsame other hwell)).1.mp hoccurs) hwell

end same

/-- **The operator is that of the longest prefix**, and of several rows with this prefix of the
first; there is none exactly if no row with digits is a prefix. Of the rows only those matter that
are digits, and only the order of those with one prefix. -/
theorem operator_of_longest (rows : List (List Char × String)) (national : List Char) :
    (∀ operator, (OperatorPrefixTable.new rows).lookupNational national = some operator ↔
      ∃ leading, Longest rows national leading ∧
        (rows.find? (·.1 = leading)).map Prod.snd = some operator) ∧
    ((OperatorPrefixTable.new rows).lookupNational national = none ↔
      ∀ leading ∈ rows.map Prod.fst, WellFormed leading → ¬ leading <+: national) ∧
    ∀ rows',
    (∀ leading, WellFormed leading → rows'.filter (·.1 = leading) = rows.filter (·.1 = leading)) →
      (OperatorPrefixTable.new rows').lookupNational national =
        (OperatorPrefixTable.new rows).lookupNational national := by
  refine ⟨fun operator => lookupNational_iff, lookupNational_eq_none, fun rows' hsame => ?_⟩
  refine Option.ext fun operator => ?_
  rw [lookupNational_iff, lookupNational_iff]
  constructor
  · rintro ⟨leading, hlongest, hrow⟩
    have hlongest := hlongest.of_same fun leading hwell => (hsame leading hwell).symm
    rw [(same_of_leading (hsame leading hlongest.wellFormed)).2] at hrow
    exact ⟨leading, hlongest, hrow⟩
  · rintro ⟨leading, hlongest, hrow⟩
    rw [← (same_of_leading (hsame leading hlongest.wellFormed)).2] at hrow
    exact ⟨leading, hlongest.of_same hsame, hrow⟩

/-! ### Rows in another order, and one that is no prefix -/

def sampleRows : List (List Char × String) :=
  [("6".toList, "unknown"), ("67".toList, "mtn"), ("655".toList, "orange")]

def shuffledRows : List (List Char × String) :=
  [("655".toList, "orange"), ("65x".toList, "junk"), ("67".toList, "mtn"), ("6".toList, "unknown")]

theorem operator_of_shuffled_rows :
    (OperatorPrefixTable.new shuffledRows).lookupNational "655123456".toList =
      (OperatorPrefixTable.new sampleRows).lookupNational "655123456".toList := by
  refine (operator_of_longest sampleRows "655123456".toList).2.2 shuffledRows fun leading hwell =>
    ?_
  have hjunk : "65x".toList ≠ leading := by
    rintro rfl
    exact absurd (hwell.2 'x' (by decide)) (by decide)
  by_cases h6 : "6".toList = leading
  · subst h6
    rfl
  · by_cases h67 : "67".toList = leading
    · subst h67
      rfl
    · by_cases h655 : "655".toList = leading
      · subst h655
        rfl
      · simp only [shuffledRows, sampleRows, List.filter_cons, hjunk, h6, h67, h655, decide_false]
        rfl

end Vsms.Api.Operators
