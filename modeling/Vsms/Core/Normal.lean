import Vsms.Core.Segments
import Vsms.Lib.NormalForms

/-! # Normalising twice

`normalise` composes the body and then substitutes, and some characters are substituted by nothing.
If one of these stands between a letter and its accent, leaving it out brings the two together when
the body is composed already: the result is not in NFC, and normalising it again composes them.
`normalise_normal_iff`: this is so exactly for the bodies for which it makes a difference whether
these characters are left out before composing or after.

NFC is a parameter (`UnicodeLib`). `NfcLaws` is what is used of it: that it is a normal form, that
the typographic characters of the table and what they are replaced by compose with nothing, that
nothing is composed to one of the invisible ones, and the two entries of the table that have a
canonical decomposition. -/

namespace Vsms.Core.Normal

open Vsms.Core.Encoding Vsms.Core.Segments Vsms.Lib.NormalForms

/-- The characters of the table that compose with nothing: all but two of its left sides, and its
right sides. -/
def inertChars : List Char :=
  ((substitutions.map (·.1)).filter fun c => c ≠ '\u2000' ∧ c ≠ '\u2001') ++
    ['\x27', '\x22', '-', '.', ' ']

def Inert (c : Char) : Prop := c ∈ inertChars

/-- The character is not substituted by nothing. -/
def isKept (c : Char) : Bool := substitute c ≠ some []

/-- **What is known of NFC.** -/
structure NfcLaws (nfc : List Char → List Char) : Prop where
  lawful : Lawful nfc Inert
  fresh : ∀ c text, isKept c = false → c ∈ nfc text → c ∈ text
  enQuad : nfc ['\u2000'] = ['\u2002']
  emQuad : nfc ['\u2001'] = ['\u2003']

/-! ## The table -/

theorem substitute_eq_some {c : Char} {target : List Char} (h : substitute c = some target) :
    (c, target) ∈ substitutions := by
  unfold substitute lookup at h
  obtain ⟨entry, hentry, rfl⟩ := Option.map_eq_some_iff.mp h
  have hsource : entry.1 = c := by simpa using List.find?_some hentry
  rw [← hsource]
  exact List.mem_of_find?_eq_some hentry

/-- A character of the table is inert, or one of the two that are decomposed; and what replaces it
is inert. -/
theorem inert_of_substitute {c : Char} {target : List Char} (h : substitute c = some target) :
    (c = '\u2000' ∨ c = '\u2001' ∨ Inert c) ∧ ∀ d ∈ target, Inert d := by
  have hmem := substitute_eq_some h
  have hsources : (substitutions.all fun entry =>
      entry.1 = '\u2000' ∨ entry.1 = '\u2001' ∨ entry.1 ∈ inertChars) = true := by decide +kernel
  have htargets : (substitutions.all fun entry => entry.2.all (· ∈ inertChars)) = true := by
    decide +kernel
  have hsource := List.all_eq_true.mp hsources _ hmem
  have htarget := List.all_eq_true.mp (List.all_eq_true.mp htargets _ hmem)
  simp only [decide_eq_true_eq] at hsource htarget
  exact ⟨hsource, htarget⟩

theorem isKept_eq_false {c : Char} : isKept c = false ↔ substitute c = some [] := by
  unfold isKept
  simp

theorem inert_of_not_kept {c : Char} (h : isKept c = false) : Inert c := by
  have hnone := isKept_eq_false.mp h
  rcases (inert_of_substitute hnone).1 with rfl | rfl | hinert
  · exact absurd h (by decide +kernel)
  · exact absurd h (by decide +kernel)
  · exact hinert

/-- What is written is not substituted again. -/
theorem written_written {c d : Char} (hd : d ∈ written c) : written d = [d] := by
  cases hc : substitute c with
  | none =>
    have hsame : written c = [c] := by rw [written, hc]; rfl
    rw [hsame] at hd
    rw [List.mem_singleton.mp hd, hsame]
  | some target =>
    have htarget : written c = target := by rw [written, hc]; rfl
    rw [htarget] at hd
    have hgsm := @isGsm7Str_lookup substitutions (by decide +kernel) c target hc
    exact written_of_isGsm7 (List.all_eq_true.mp hgsm d hd)

/-! ## Normalising -/

section normalise
variable {lib : UnicodeLib}

/-- The invisible characters are left out, and the others are written. -/
theorem normalise_eq_kept (body : List Char) :
    normalise lib body = ((lib.nfc body).filter isKept).flatMap written := by
  rw [normalise_eq]
  induction lib.nfc body with
  | nil => rfl
  | cons c cs ih =>
    rw [List.flatMap_cons, ih]
    rcases hc : isKept c with _ | _
    · have hnone : written c = [] := by rw [written, isKept_eq_false.mp hc]; rfl
      rw [List.filter_cons_of_neg (by simp [hc]), hnone, List.nil_append]
    · rw [List.filter_cons_of_pos hc, List.flatMap_cons]

/-- A composed text is normalised by substituting, which does nothing to what was substituted. -/
theorem normalise_normalise {body : List Char}
    (h : lib.nfc (normalise lib body) = normalise lib body) :
    normalise lib (normalise lib body) = normalise lib body := by
  have hwritten : ∀ d ∈ normalise lib body, written d = [d] := by
    intro d hd
    rw [normalise_eq] at hd
    obtain ⟨c, -, hd⟩ := List.mem_flatMap.mp hd
    exact written_written hd
  rw [normalise_eq lib (normalise lib body), h, List.flatMap_congr hwritten,
    List.flatMap_singleton']

/-- **The result of normalising is normal exactly if** leaving the invisible characters out before
composing gives the same as leaving them out after. -/
theorem normalise_normal_iff (h : NfcLaws lib.nfc) (body : List Char) :
    (normalise lib (normalise lib body) = normalise lib body ∧
      lib.nfc (normalise lib body) = normalise lib body) ↔
      lib.nfc (body.filter isKept) = (lib.nfc body).filter isKept := by
  have hletters : ∀ c ∈ (lib.nfc body).filter isKept,
      written c = [c] ∨ (Inert c ∧ written c ≠ [] ∧ ∀ d ∈ written c, Inert d) := by
    intro c hc
    obtain ⟨hmem, hkept⟩ := List.mem_filter.mp hc
    have hown := h.lawful.singleton hmem
    cases hsub : substitute c with
    | none => exact Or.inl (by rw [written, hsub]; rfl)
    | some target =>
      have htarget : written c = target := by rw [written, hsub]; rfl
      obtain ⟨hsource, hinert⟩ := inert_of_substitute hsub
      refine Or.inr ⟨?_, ?_, by rwa [htarget]⟩
      · rcases hsource with rfl | rfl | hsource
        · rw [h.enQuad] at hown
          exact absurd hown (by decide)
        · rw [h.emQuad] at hown
          exact absurd hown (by decide)
        · exact hsource
      · rw [htarget]
        rintro rfl
        rw [isKept_eq_false.mpr hsub] at hkept
        exact absurd hkept (by simp)
  rw [← h.lawful.normal_drop_iff (fun c => inert_of_not_kept) h.fresh,
    ← h.lawful.normal_flatMap_iff hletters, ← normalise_eq_kept]
  exact ⟨And.right, fun hnormal => ⟨normalise_normalise hnormal, hnormal⟩⟩

end normalise

/-! ## One letter and one accent -/

section runs

/-- The two characters with a decomposition. -/
def quad (c : Char) : Char := if c = '\u2000' then '\u2002' else if c = '\u2001' then
    '\u2003' else c

/-- An `e` before an acute accent is composed with it. -/
def composeOne (c : Char) (rest : List Char) : List Char :=
  if c = 'e' ∧ rest.head? = some '\u0301' then 'é' :: rest.tail else quad c :: rest

/-- NFC of the characters below. -/
def composeAcute (text : List Char) : List Char := text.foldr composeOne []

def acuteUnicode : UnicodeLib := ⟨composeAcute, fun c => [c]⟩

theorem composeOne_cases (c : Char) (rest : List Char) :
    (c = 'e' ∧ (∃ tail, rest = '\u0301' :: tail ∧ composeOne c rest = 'é' :: tail)) ∨
      ((c = 'e' → rest.head? ≠ some '\u0301') ∧ composeOne c rest = quad c :: rest) := by
  unfold composeOne
  by_cases h : c = 'e' ∧ rest.head? = some '\u0301'
  · obtain ⟨hc, hhead⟩ := h
    obtain ⟨tail, rfl⟩ := List.head?_eq_some_iff.mp hhead
    exact Or.inl ⟨hc, tail, rfl, if_pos ⟨hc, rfl⟩⟩
  · exact Or.inr ⟨fun hc hhead => h ⟨hc, hhead⟩, if_neg h⟩

theorem composeOne_of_ne {c : Char} (h : c ≠ 'e') (rest : List Char) :
    composeOne c rest = quad c :: rest :=
  if_neg fun hc => h hc.1

theorem composeOne_quad (c : Char) (rest : List Char) :
    composeOne (quad c) rest = composeOne c rest := by
  by_cases hen : c = '\u2000'
  · subst hen
    rfl
  · by_cases hem : c = '\u2001'
    · subst hem
      rfl
    · have hsame : quad c = c := by rw [quad, if_neg hen, if_neg hem]
      rw [hsame]

/-- What was composed is composed with what follows as the text itself is. -/
theorem foldr_composeAcute (x out : List Char) :
    (composeAcute x).foldr composeOne out = x.foldr composeOne out := by
  induction x with
  | nil => rfl
  | cons c x ih =>
    have hcons : composeAcute (c :: x) = composeOne c (composeAcute x) := rfl
    rw [hcons, List.foldr_cons]
    rcases composeOne_cases c (composeAcute x) with ⟨rfl, tail, htail, hone⟩ | ⟨-, hone⟩
    · have hletter (rest : List Char) : composeOne 'é' rest = 'é' :: rest :=
        composeOne_of_ne (by decide) rest
      have haccent (rest : List Char) : composeOne '\u0301' rest = '\u0301' :: rest :=
        composeOne_of_ne (by decide) rest
      rw [hone, ← ih, htail, List.foldr_cons, List.foldr_cons, hletter, haccent]
      rfl
    · rw [hone, List.foldr_cons, ih, composeOne_quad]

theorem composeAcute_append (x y : List Char) :
    composeAcute (x ++ y) = x.foldr composeOne (composeAcute y) := List.foldr_append

theorem composeAcute_idempotent (x : List Char) : composeAcute (composeAcute x) = composeAcute x :=
  foldr_composeAcute x []

/-- A text that is composed is so in front of a composed text, and with nothing behind it. -/
theorem composeAcute_closed (x y : List Char) (h : composeAcute (x ++ y) = x ++ y) :
    composeAcute x = x ∧ composeAcute y = y := by
  rw [composeAcute_append] at h
  induction x with
  | nil => exact ⟨rfl, h⟩
  | cons c x ih =>
    rw [List.foldr_cons, List.cons_append] at h
    rcases composeOne_cases c (x.foldr composeOne (composeAcute y)) with
      ⟨rfl, tail, -, hone⟩ | ⟨hnot, hone⟩
    · rw [hone] at h
      exact absurd (List.cons.inj h).1 (by decide)
    · rw [hone] at h
      obtain ⟨hc, hrest⟩ := List.cons.inj h
      obtain ⟨hx, hy⟩ := ih hrest
      refine ⟨?_, hy⟩
      have hcons : composeAcute (c :: x) = composeOne c (composeAcute x) := rfl
      have hsame : composeOne c x = quad c :: x := by
        refine if_neg ?_
        rintro ⟨rfl, hhead⟩
        refine hnot rfl ?_
        rw [hrest, List.head?_append, hhead]
        rfl
      rw [hcons, hx, hsame, hc]

/-- A text can be cut at what is neither the letter nor the accent, and is not decomposed. -/
theorem composeAcute_inert {c : Char} (he : c ≠ 'e') (haccent : c ≠ '\u0301') (hquad : quad c = c)
    (x y : List Char) :
    composeAcute (x ++ c :: y) = composeAcute x ++ c :: composeAcute y := by
  have hcons : composeAcute (c :: y) = quad c :: composeAcute y :=
    composeOne_of_ne he (composeAcute y)
  rw [hquad] at hcons
  rw [composeAcute_append, hcons]
  induction x with
  | nil => rfl
  | cons d x ih =>
    have hfirst : composeAcute (d :: x) = composeOne d (composeAcute x) := rfl
    rw [List.foldr_cons, ih, hfirst]
    cases hx : composeAcute x with
    | nil =>
      unfold composeOne
      simp [haccent]
    | cons a rest =>
      unfold composeOne
      split_ifs with h1 h2 h2
      · rfl
      · exact absurd h1 h2
      · exact absurd h2 h1
      · rfl

/-- What is composed or decomposed to is not in the table. -/
theorem composeAcute_fresh {c : Char} (hletter : c ≠ 'é') (hquad : ∀ d, quad d = c → d = c)
    {x : List Char} (h : c ∈ composeAcute x) : c ∈ x := by
  induction x with
  | nil => cases h
  | cons d x ih =>
    have hcons : composeAcute (d :: x) = composeOne d (composeAcute x) := rfl
    rw [hcons] at h
    rcases composeOne_cases d (composeAcute x) with ⟨-, tail, htail, hone⟩ | ⟨-, hone⟩
    · rw [hone] at h
      rcases List.mem_cons.mp h with rfl | h
      · exact absurd rfl hletter
      · exact List.mem_cons_of_mem d (ih (htail ▸ List.mem_cons_of_mem _ h))
    · rw [hone] at h
      rcases List.mem_cons.mp h with rfl | h
      · rw [← hquad d rfl]
        exact List.mem_cons_self
      · exact List.mem_cons_of_mem d (ih h)

theorem acuteUnicode_laws : NfcLaws acuteUnicode.nfc where
  lawful :=
    { idempotent := composeAcute_idempotent
      append := fun x y => by
        change composeAcute (composeAcute x ++ composeAcute y) = composeAcute (x ++ y)
        rw [composeAcute_append, composeAcute_idempotent, foldr_composeAcute, composeAcute_append]
      closed := composeAcute_closed
      inert := fun c hc => by
        have htable : (inertChars.all fun c => c ≠ 'e' ∧ c ≠ '\u0301' ∧ quad c = c) = true := by
          decide +kernel
        have hplain := List.all_eq_true.mp htable c hc
        simp only [decide_eq_true_eq] at hplain
        exact composeAcute_inert hplain.1 hplain.2.1 hplain.2.2 }
  fresh := by
    intro c text hdrop hc
    have hkept (d : Char) (hd : isKept d = true) : c ≠ d := by
      rintro rfl
      rw [hd] at hdrop
      exact absurd hdrop (by simp)
    refine composeAcute_fresh (hkept 'é' (by decide +kernel)) (fun d hd => ?_) hc
    unfold quad at hd
    split_ifs at hd with hen hem
    · exact absurd hd.symm (hkept '\u2002' (by decide +kernel))
    · exact absurd hd.symm (hkept '\u2003' (by decide +kernel))
    · exact hd
  enQuad := rfl
  emQuad := rfl

/-- Decomposed, with a typographic apostrophe. -/
theorem normalise_normal_ete :
    normalise acuteUnicode (normalise acuteUnicode "l\u2019e\u0301te\u0301".toList) =
        normalise acuteUnicode "l\u2019e\u0301te\u0301".toList ∧
      acuteUnicode.nfc (normalise acuteUnicode "l\u2019e\u0301te\u0301".toList) =
        normalise acuteUnicode "l\u2019e\u0301te\u0301".toList :=
  (normalise_normal_iff acuteUnicode_laws "l\u2019e\u0301te\u0301".toList).mpr (by decide +kernel)

/-- A zero-width space between the letter and its accent. -/
theorem zero_width_not_normal :
    ¬ (normalise acuteUnicode (normalise acuteUnicode "e\u200b\u0301".toList) =
        normalise acuteUnicode "e\u200b\u0301".toList ∧
      acuteUnicode.nfc (normalise acuteUnicode "e\u200b\u0301".toList) =
        normalise acuteUnicode "e\u200b\u0301".toList) := by decide +kernel

end runs

end Vsms.Core.Normal
