import Vsms.Schema.Types
import Mathlib.Algebra.GroupWithZero.Nat
import Mathlib.Data.List.Basic
import Mathlib.Tactic.SplitIfs

/-! # The encoding of a body

`sms_encoding`: a body is carried in the GSM 03.38 alphabet if all of its characters are in it, and
in UTF-16 otherwise. `normalise` composes it and replaces typographic characters;
`transliterate_to_gsm7` replaces whatever else has an equivalent in the alphabet. `analyse` finds
the encoding and the number of parts.

A string is the list of its characters. The normal forms of the `unicode-normalization` crate are
parameters (`UnicodeLib`). Transliterating makes a body fit the alphabet exactly if each of its
characters is in it or has a replacement (`isGsm7Str_transliterate`), and leaves a body alone that
fits already (`transliterate_of_isGsm7Str`). -/

namespace Vsms.Core.Encoding

open Vsms.Schema.Types

/-! ## GSM 03.38 -/

/-- `BASIC`: the default alphabet by septet. -/
def basic : List Char :=
  ['@', '£', '$', '¥', 'è', 'é', 'ù', 'ì',
   'ò', 'Ç', '\n', 'Ø', 'ø', '\r', 'Å', 'å',
   'Δ', '_', 'Φ', 'Γ', 'Λ', 'Ω', 'Π', 'Ψ',
   'Σ', 'Θ', 'Ξ', '\x1b', 'Æ', 'æ', 'ß', 'É',
   ' ', '!', '\x22', '#', '¤', '%', '&', '\x27',
   '(', ')', '*', '+', ',', '-', '.', '/',
   '0', '1', '2', '3', '4', '5', '6', '7',
   '8', '9', ':', ';', '<', '=', '>', '?',
   '¡', 'A', 'B', 'C', 'D', 'E', 'F', 'G',
   'H', 'I', 'J', 'K', 'L', 'M', 'N', 'O',
   'P', 'Q', 'R', 'S', 'T', 'U', 'V', 'W',
   'X', 'Y', 'Z', 'Ä', 'Ö', 'Ñ', 'Ü', '§',
   '¿', 'a', 'b', 'c', 'd', 'e', 'f', 'g',
   'h', 'i', 'j', 'k', 'l', 'm', 'n', 'o',
   'p', 'q', 'r', 's', 't', 'u', 'v', 'w',
   'x', 'y', 'z', 'ä', 'ö', 'ñ', 'ü', 'à']

/-- `ESC` -/
def esc : ℕ := 0x1b

/-- `EXTENDED`: what follows `esc` for each character of the extension table. -/
def extended : List (ℕ × Char) :=
  [(0x0a, '\x0c'), (0x14, '^'), (0x28, '\x7b'), (0x29, '\x7d'), (0x2f, '\x5c'), (0x3c, '['),
    (0x3d, '~'),
   (0x3e, ']'), (0x40, '|'), (0x65, '€')]

inductive Gsm7Char
  | basic (septet : ℕ)
  | extended (septet : ℕ)
  deriving DecidableEq, Repr

def Gsm7Char.septets : Gsm7Char → ℕ
  | .basic _ => 1
  | .extended _ => 2

/-- **`classify`** -/
def classify (c : Char) : Option Gsm7Char :=
  if c = '\x1b' then none
  else
    match Encoding.basic.findIdx? (· = c) with
    | some i => some (.basic i)
    | none => (Encoding.extended.find? (·.2 = c)).map fun entry => .extended entry.1

def isGsm7 (c : Char) : Bool := (classify c).isSome

def isGsm7Str (body : List Char) : Bool := body.all isGsm7

/-! ## Parts -/

def gsm7Single : ℕ := 160

def gsm7Concatenated : ℕ := 153

def ucs2Single : ℕ := 70

def ucs2Concatenated : ℕ := 67

structure Packing where
  length : ℕ
  segments : ℕ
  perSegment : ℕ
  deriving DecidableEq, Repr

/-- The loop of `pack`: a character that does not fit begins a new part. -/
def packLoop (concatenated : ℕ) : List ℕ → ℕ → ℕ → ℕ
  | [], segments, _ => segments
  | cost :: costs, segments, used =>
    if concatenated < used + cost then packLoop concatenated costs (segments + 1) cost
    else packLoop concatenated costs segments (used + cost)

/-- **`pack`** -/
def pack (costs : List ℕ) (single concatenated : ℕ) : Packing :=
  let length := costs.sum
  if length ≤ single then ⟨length, 1, single⟩
  else ⟨length, min (packLoop concatenated costs 1 0) 255, concatenated⟩

/-- `char::len_utf16` -/
def lenUtf16 (c : Char) : ℕ := if c.toNat < 0x10000 then 1 else 2

/-! ## Replacements -/

/-- `SUBSTITUTIONS` -/
def substitutions : List (Char × List Char) :=
  [('\u2018', ['\x27']), ('\u2019', ['\x27']), ('\u201a', ['\x27']), ('\u201b', ['\x27']),
    ('\u2032', ['\x27']),
   ('\u201c', ['\x22']), ('\u201d', ['\x22']), ('\u201e', ['\x22']), ('\u2033', ['\x22']),
   ('\u2010', ['-']), ('\u2011', ['-']), ('\u2012', ['-']), ('\u2013', ['-']), ('\u2014', ['-']),
   ('\u2015', ['-']), ('\u2212', ['-']),
   ('\u2026', ['.', '.', '.']),
   ('\u00a0', [' ']), ('\u2000', [' ']), ('\u2001', [' ']), ('\u2002', [' ']), ('\u2003', [' ']),
   ('\u2004', [' ']), ('\u2005', [' ']), ('\u2006', [' ']), ('\u2007', [' ']), ('\u2008', [' ']),
   ('\u2009', [' ']), ('\u200a', [' ']), ('\u202f', [' ']), ('\u205f', [' ']), ('\u3000', [' ']),
   ('\u00ad', []), ('\u200b', []), ('\u200c', []), ('\u200d', []), ('\ufeff', [])]

/-- `EXPLICIT` -/
def explicit : List (Char × List Char) :=
  [('œ', ['o', 'e']), ('Œ', ['O', 'E']), ('\u00ab', ['\x22']), ('\u00bb', ['\x22']),
    ('\u2039', ['\x27']),
   ('\u203a', ['\x27']), ('\u2022', ['-']), ('\u00b7', ['.']), ('\u2122', ['(', 'T', 'M', ')']),
   ('\u00a9', ['(', 'C', ')']), ('\u00ae', ['(', 'R', ')']), ('\u2116', ['N', 'o'])]

/-- The first entry of a table for the character. -/
def lookup (table : List (Char × List Char)) (c : Char) : Option (List Char) :=
  (table.find? (·.1 = c)).map (·.2)

def substitute (c : Char) : Option (List Char) := lookup substitutions c

/-- The normal forms of the `unicode-normalization` crate: of a string, and of one character. -/
structure UnicodeLib where
  nfc : List Char → List Char
  nfd : Char → List Char

def isCombiningMark (c : Char) : Bool :=
  let n := c.toNat
  (0x0300 ≤ n && n ≤ 0x036f) || (0x1ab0 ≤ n && n ≤ 0x1aff) || (0x1dc0 ≤ n && n ≤ 0x1dff) ||
    (0x20d0 ≤ n && n ≤ 0x20ff) || (0xfe20 ≤ n && n ≤ 0xfe2f)

section unicode
variable (lib : UnicodeLib)

/-- **`normalise`** -/
def normalise (body : List Char) : List Char :=
  (lib.nfc body).flatMap fun c => (substitute c).getD [c]

/-- The character without its accents, if that is in the alphabet. -/
def stripped (c : Char) : Option (List Char) :=
  let stripped := (lib.nfd c).filter (! isCombiningMark ·)
  if stripped ≠ [] ∧ stripped ≠ [c] ∧ isGsm7Str stripped then some stripped else none

/-- **`replacement_for`** -/
def replacementFor (c : Char) : Option (List Char) :=
  if isGsm7 c then none
  else
    match substitute c with
    | some target => some target
    | none =>
      match lookup explicit c with
      | some target => some target
      | none => stripped lib c

structure Replacement where
  /-- `from`, and `to`. -/
  source : Char
  target : List Char
  /-- In bytes. -/
  offset : ℕ
  deriving DecidableEq, Repr

/-- The loop of `transliterate_to_gsm7`, from an offset on. -/
def transliterateFrom : ℕ → List Char → List Char × List Replacement
  | _, [] => ([], [])
  | offset, c :: cs =>
    let (out, replacements) := transliterateFrom (offset + c.utf8Size) cs
    match replacementFor lib c with
    | some target => (target ++ out, ⟨c, target, offset⟩ :: replacements)
    | none => (c :: out, replacements)

/-- **`transliterate_to_gsm7`** -/
def transliterateToGsm7 (body : List Char) : List Char × List Replacement :=
  transliterateFrom lib 0 body

/-! ## Analysis -/

structure OffendingChar where
  ch : Char
  offset : ℕ
  replacement : Option (List Char)
  deriving DecidableEq, Repr

structure EncodingReport where
  encoding : Encoding
  length : ℕ
  segments : ℕ
  perSegment : ℕ
  offending : List OffendingChar
  suggestion : Option (List Char)
  escapes : ℕ
  deriving DecidableEq, Repr

/-- What the loop of `analyse` collects. -/
structure Scan where
  offending : List OffendingChar
  escapes : ℕ
  costs : List ℕ

/-- The loop of `analyse`, from an offset on. -/
def scan : ℕ → List Char → Scan
  | _, [] => ⟨[], 0, []⟩
  | offset, c :: cs =>
    let rest := scan (offset + c.utf8Size) cs
    match classify c with
    | some g =>
      { rest with
        escapes := if g.septets = 2 then rest.escapes + 1 else rest.escapes
        costs := g.septets :: rest.costs }
    | none => { rest with offending := ⟨c, offset, replacementFor lib c⟩ :: rest.offending }

/-- **`analyse`** -/
def analyse (body : List Char) : EncodingReport :=
  let found := scan lib 0 body
  if found.offending = [] then
    let p := pack found.costs gsm7Single gsm7Concatenated
    { encoding := .gsm7
      length := p.length
      segments := p.segments
      perSegment := p.perSegment
      offending := []
      suggestion := none
      escapes := found.escapes }
  else
    let p := pack (body.map lenUtf16) ucs2Single ucs2Concatenated
    let candidate := (transliterateToGsm7 lib body).1
    { encoding := .ucs2
      length := p.length
      segments := p.segments
      perSegment := p.perSegment
      offending := found.offending
      suggestion := if isGsm7Str candidate ∧ candidate ≠ body then some candidate else none
      escapes := 0 }

/-! ## What transliterating does -/

variable {lib}

theorem transliterateFrom_fst (offset : ℕ) (body : List Char) :
    (transliterateFrom lib offset body).1 = body.flatMap fun c => (replacementFor lib c).getD
      [c] := by
  induction body generalizing offset with
  | nil => rfl
  | cons c cs ih =>
    simp only [transliterateFrom, List.flatMap_cons, ← ih (offset + c.utf8Size)]
    cases replacementFor lib c with
    | none => rfl
    | some target => rfl

theorem transliterate_eq (body : List Char) :
    (transliterateToGsm7 lib body).1 = body.flatMap fun c => (replacementFor lib c).getD [c] :=
  transliterateFrom_fst 0 body

theorem replacementFor_of_isGsm7 {c : Char} (h : isGsm7 c = true) : replacementFor lib c = none :=
  if_pos h

/-- **A body in the alphabet is left alone.** -/
theorem transliterate_of_isGsm7Str {body : List Char} (h : isGsm7Str body = true) :
    (transliterateToGsm7 lib body).1 = body := by
  rw [transliterate_eq]
  unfold isGsm7Str at h
  rw [List.all_eq_true] at h
  induction body with
  | nil => rfl
  | cons c cs ih =>
    rw [List.flatMap_cons, ih fun d hd => h d (List.mem_cons_of_mem c hd),
      replacementFor_of_isGsm7 (h c List.mem_cons_self)]
    rfl

/-- Every target of a table is in the alphabet. -/
theorem isGsm7Str_lookup {table : List (Char × List Char)} (h : table.all (isGsm7Str ·.2) = true)
    {c : Char} {target : List Char} (hc : lookup table c = some target) :
    isGsm7Str target = true := by
  obtain ⟨entry, hentry, rfl⟩ := Option.map_eq_some_iff.mp hc
  exact List.all_eq_true.mp h entry (List.mem_of_find?_eq_some hentry)

/-- **A replacement is in the alphabet.** -/
theorem isGsm7Str_replacementFor {c : Char} {target : List Char}
    (h : replacementFor lib c = some target) :
    isGsm7Str target = true := by
  unfold replacementFor at h
  split_ifs at h
  split at h
  · next target' hsubstitute =>
    rw [← Option.some.inj h]
    exact isGsm7Str_lookup (by decide) hsubstitute
  · split at h
    · next target' hexplicit =>
      rw [← Option.some.inj h]
      exact isGsm7Str_lookup (by decide) hexplicit
    · dsimp only [stripped] at h
      split_ifs at h with hstripped
      rw [← Option.some.inj h]
      exact hstripped.2.2

/-- **A body fits the alphabet when it is transliterated exactly if each of its characters is in it
or has a replacement.** -/
theorem isGsm7Str_transliterate (lib : UnicodeLib) (body : List Char) :
    isGsm7Str (transliterateToGsm7 lib body).1 = true ↔
      ∀ c ∈ body, isGsm7 c = true ∨ (replacementFor lib c).isSome = true := by
  rw [transliterate_eq]
  unfold isGsm7Str
  rw [List.all_flatMap, List.all_eq_true]
  refine forall₂_congr fun c _ => ?_
  cases hc : replacementFor lib c with
  | none => simp
  | some target => simpa [isGsm7Str] using isGsm7Str_replacementFor hc

/-- No character offends exactly if all are in the alphabet. -/
theorem scan_offending (offset : ℕ) (body : List Char) :
    (scan lib offset body).offending = [] ↔ isGsm7Str body = true := by
  induction body generalizing offset with
  | nil => simp [scan, isGsm7Str]
  | cons c cs ih =>
    unfold isGsm7Str at ih ⊢
    cases hc : classify c with
    | none => simp [scan, hc, isGsm7]
    | some g => simp [scan, hc, isGsm7, ih]

theorem analyse_encoding (body : List Char) :
    (analyse lib body).encoding = if isGsm7Str body then .gsm7 else .ucs2 := by
  unfold analyse
  simp only [scan_offending]
  split_ifs <;> rfl

/-- The parts of a body that is carried in UTF-16. -/
def ucs2Parts (body : List Char) : ℕ :=
  (pack (body.map lenUtf16) ucs2Single ucs2Concatenated).segments

theorem analyse_segments_ucs2 {body : List Char} (h : isGsm7Str body = false) :
    (analyse lib body).segments = ucs2Parts body := by
  have hoffending : ¬ (scan lib 0 body).offending = [] := by rw [scan_offending, h]; simp
  unfold analyse
  rw [if_neg hoffending]
  rfl

variable (lib) in
/-- **All of the body is in the alphabet, or a character of it is not and has no replacement, and
with the others replaced it takes as many parts in UTF-16 as before.** -/
def KeepsParts (body : List Char) : Prop :=
  isGsm7Str body = true ∨ (∃ c ∈ body, isGsm7 c = false ∧ replacementFor lib c = none) ∧
    ucs2Parts (body.flatMap fun c => (replacementFor lib c).getD [c]) = ucs2Parts body

/-- **Transliterating leaves the encoding and the parts of just these bodies.** -/
theorem analyse_transliterate_iff (body : List Char) :
    ((analyse lib body).encoding = (analyse lib (transliterateToGsm7 lib body).1).encoding ∧
      (analyse lib body).segments = (analyse lib (transliterateToGsm7 lib body).1).segments) ↔
      KeepsParts lib body := by
  unfold KeepsParts
  rcases hbody : isGsm7Str body with _ | _
  · simp only [Bool.false_eq_true, false_or, analyse_encoding, hbody, if_false]
    rcases hout : isGsm7Str (transliterateToGsm7 lib body).1 with _ | _
    · have hlacks : ∃ c ∈ body, isGsm7 c = false ∧ replacementFor lib c = none := by
        by_contra hnone
        have hall := isGsm7Str_transliterate lib body
        rw [hout] at hall
        refine absurd (hall.mpr fun c hc => ?_) (by simp)
        by_contra hc'
        simp only [not_or, Bool.not_eq_true, Option.isSome_eq_false_iff, Option.isNone_iff_eq_none]
          at hc'
        exact hnone ⟨c, hc, hc'⟩
      rw [analyse_segments_ucs2 hbody, analyse_segments_ucs2 hout, transliterate_eq]
      simp only [Bool.false_eq_true, if_false, true_and, hlacks]
      exact eq_comm
    · -- Every character has a replacement: the encoding changes.
      have hall := (isGsm7Str_transliterate lib body).mp hout
      constructor
      · rintro ⟨hencoding, -⟩
        simp at hencoding
      · rintro ⟨⟨c, hc, hnot, hnone⟩, -⟩
        rcases hall c hc with hgsm | hsome
        · rw [hnot] at hgsm
          exact absurd hgsm (by simp)
        · rw [hnone] at hsome
          exact absurd hsome (by simp)
  · rw [transliterate_of_isGsm7Str hbody]
    simp

end unicode

end Vsms.Core.Encoding
