import Vsms.Core.Pack

/-! # The scopes of a bearer token

A token acts with the scopes that its app and its client both hold, of these with the ones that its
claim names if it has a claim, and never with the scope that pairs a console key. The scopes are
read from the columns as words, so whatever the columns hold, those that are kept can be packed
again, and reading the result gives just them. -/

namespace Vsms.Api.Scopes

open Vsms.Core.Pack

/-- `str::eq_ignore_ascii_case` -/
def eqIgnoreAsciiCase (a b : String) : Bool := a.toList.map Char.toLower = b.toList.map Char.toLower

/-- `PAIR_SCOPE` -/
def pairScope : String := "console:pair"

/-- **`names_pair_scope`** -/
def namesPairScope (scopes : String) : Bool :=
  (unpack scopes).any fun scope => eqIgnoreAsciiCase scope pairScope

/-- `str::split_whitespace`, which is how a column is read. -/
def words (text : String) : List String := unpack text

/-- The scopes that are kept. -/
def kept (granted registered : String) (claimed : Option String) : List String :=
  (unpack granted).filter fun scope =>
    !namesPairScope scope && (unpack registered).contains scope &&
      claimed.all fun claim => (words claim).any fun named => named = scope

/-- `pack(..).unwrap_or_default()` -/
def packOrDefault (values : List String) : String :=
  match pack values with
  | .ok packed => packed
  | .error _ => ""

/-- **`effective_scopes`** -/
def effectiveScopes (granted registered : String) (claimed : Option String) : String :=
  packOrDefault (kept granted registered claimed)

/-- The claim, if there is one, names the scope. -/
def Names (claimed : Option String) (scope : String) : Prop :=
  ∀ claim ∈ claimed, scope ∈ words claim

variable {granted registered : String} {claimed : Option String} {p : String}

theorem namesPairScope_of_unbroken (hne : p ≠ "") (h : Unbroken p) :
    namesPairScope p = eqIgnoreAsciiCase p pairScope := by
  unfold namesPairScope
  rw [unpack_of_unbroken hne h]
  simp

theorem mem_kept_iff : p ∈ kept granted registered claimed ↔
    p ∈ unpack granted ∧ p ∈ unpack registered ∧ Names claimed p ∧
    eqIgnoreAsciiCase p pairScope = false := by
  unfold kept Names
  rw [List.mem_filter]
  constructor
  · rintro ⟨hgranted, hkept⟩
    obtain ⟨hne, hunbroken⟩ := mem_unpack hgranted
    rw [namesPairScope_of_unbroken hne hunbroken] at hkept
    simp only [Bool.and_eq_true, Bool.not_eq_true', List.contains_iff_mem] at hkept
    obtain ⟨⟨hpair, hregistered⟩, hclaim⟩ := hkept
    refine ⟨hgranted, hregistered, fun claim hc => ?_, hpair⟩
    rw [Option.mem_def.mp hc] at hclaim
    simpa using hclaim
  · rintro ⟨hgranted, hregistered, hclaim, hpair⟩
    obtain ⟨hne, hunbroken⟩ := mem_unpack hgranted
    refine ⟨hgranted, ?_⟩
    rw [namesPairScope_of_unbroken hne hunbroken, hpair]
    simp only [Bool.not_false, Bool.true_and, Bool.and_eq_true, List.contains_iff_mem]
    refine ⟨hregistered, ?_⟩
    cases claimed with
    | none => rfl
    | some claim => simpa using hclaim claim rfl

/-- **Reading the result gives the scopes that are kept**: they are words, so packing does not
refuse them. -/
theorem unpack_effectiveScopes (granted registered : String) (claimed : Option String) :
    unpack (effectiveScopes granted registered claimed) = kept granted registered claimed := by
  have hwords : ∀ v ∈ kept granted registered claimed, v ≠ "" ∧ Unbroken v :=
    fun v hv => mem_unpack (mem_kept_iff.mp hv).1
  obtain ⟨packed, hpack, hread⟩ := exists_pack hwords
  unfold effectiveScopes packOrDefault
  rw [hpack]
  exact hread

theorem contains_effectiveScopes : contains (effectiveScopes granted registered claimed) p = true ↔
    contains granted p = true ∧ contains registered p = true ∧ Names claimed p ∧
      eqIgnoreAsciiCase p pairScope = false := by
  rw [contains_iff, unpack_effectiveScopes, mem_kept_iff, contains_iff, contains_iff]

/-- Of what was kept, all is kept. -/
theorem kept_effectiveScopes (granted registered : String) (claimed : Option String) :
    kept (effectiveScopes granted registered claimed) registered claimed =
      kept granted registered claimed := by
  unfold kept
  rw [unpack_effectiveScopes, kept, List.filter_filter]
  simp only [Bool.and_self]

theorem effectiveScopes_idempotent (granted registered : String) (claimed : Option String) :
    effectiveScopes (effectiveScopes granted registered claimed) registered claimed =
      effectiveScopes granted registered claimed :=
  congrArg packOrDefault (kept_effectiveScopes granted registered claimed)

/-- **The scopes a token acts with.** For all columns: a scope is among them exactly if both columns
have it, the claim does not leave it out and it is not the one for pairing; so they grow with either
column, a claim adds none, and doing it again changes nothing. -/
theorem effective_scopes_spec (granted registered : String) (claimed : Option String) :
    (∀ p, p ≠ "" → Unbroken p →
        (contains (effectiveScopes granted registered claimed) p = true ↔
          contains granted p = true ∧ contains registered p = true ∧ Names claimed p ∧
            eqIgnoreAsciiCase p pairScope = false)) ∧
      (∀ granted' registered', (∀ p, contains granted p = true → contains granted' p = true) →
        (∀ p, contains registered p = true → contains registered' p = true) →
          ∀ p, contains (effectiveScopes granted registered claimed) p = true →
            contains (effectiveScopes granted' registered' claimed) p = true) ∧
      (∀ p, contains (effectiveScopes granted registered claimed) p = true →
        contains (effectiveScopes granted registered none) p = true) ∧
      effectiveScopes (effectiveScopes granted registered claimed) registered claimed =
        effectiveScopes granted registered claimed := by
  refine ⟨fun p _ _ => contains_effectiveScopes, ?_, ?_,
    effectiveScopes_idempotent granted registered claimed⟩
  · intro granted' registered' hgranted hregistered p hp
    obtain ⟨hg, hr, hrest⟩ := contains_effectiveScopes.mp hp
    exact contains_effectiveScopes.mpr ⟨hgranted p hg, hregistered p hr, hrest⟩
  · intro p hp
    obtain ⟨hg, hr, -, hpair⟩ := contains_effectiveScopes.mp hp
    refine contains_effectiveScopes.mpr ⟨hg, hr, ?_, hpair⟩
    rintro claim ⟨⟩

end Vsms.Api.Scopes
