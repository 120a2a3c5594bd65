import Vsms.Core.Segments

/-! # Septets

`to_septets` writes a body in the alphabet as septets: a character of the default alphabet is its
index, and one of the extension table an `ESC` and what follows it there. `ESC` is the index of no
character, so what is written can be read back character by character (`readSeptets_wire`), and
bodies with the same septets are the same. -/

namespace Vsms.Core.Septets

open Vsms.Schema.Types Vsms.Core.Encoding Vsms.Core.Segments

/-- The septets that are pushed for a character. -/
def wire : Gsm7Char → List ℕ
  | .basic b => [b]
  | .extended b => [esc, b]

/-- The loop of `to_septets`; `out` is what was pushed so far. -/
def toSeptetsLoop : List ℕ → List Char → Option (List ℕ)
  | out, [] => some out
  | out, c :: cs =>
    match classify c with
    | none => none
    | some g => toSeptetsLoop (out ++ wire g) cs

/-- **`to_septets`** -/
def toSeptets (body : List Char) : Option (List ℕ) := toSeptetsLoop [] body

/-- The character after `ESC`. -/
def extension (b : ℕ) : Option Char := (extended.find? (·.1 = b)).map (·.2)

/-- Septets read back: through `BASIC`, and after `ESC` through `EXTENDED`. -/
def readSeptets : Bool → List ℕ → Option (List Char)
  | false, [] => some []
  | true, [] => none
  | true, b :: rest => (extension b).bind fun c => (readSeptets false rest).map (c :: ·)
  | false, b :: rest =>
    if b = esc then readSeptets true rest
    else basic[b]?.bind fun c => (readSeptets false rest).map (c :: ·)

/-! ## One character -/

theorem length_wire (g : Gsm7Char) : (wire g).length = g.septets := by
  cases g with
  | basic b => rfl
  | extended b => rfl

/-- **A character of the default alphabet** is at its index, which is not `ESC`. -/
theorem classify_basic {c : Char} {b : ℕ} (h : classify c = some (.basic b)) :
    b < 128 ∧ b ≠ esc ∧ basic[b]? = some c := by
  unfold classify at h
  split_ifs at h with hesc
  cases hfind : basic.findIdx? (· = c) with
  | none =>
    rw [hfind] at h
    obtain ⟨entry, -, hentry⟩ := Option.map_eq_some_iff.mp h
    exact absurd hentry (by simp)
  | some i =>
    rw [hfind] at h
    obtain rfl : i = b := by simpa using h
    obtain ⟨hlt, hat, -⟩ := List.findIdx?_eq_some_iff_getElem.mp hfind
    have hc : basic[i] = c := by simpa using hat
    have hlength : basic.length = 128 := rfl
    have hsome : basic[i]? = some c := by rw [List.getElem?_eq_getElem hlt, hc]
    refine ⟨hlength ▸ hlt, ?_, hsome⟩
    rintro rfl
    have hat27 : basic[esc]? = some '\x1b' := by decide
    rw [hat27] at hsome
    exact hesc (Option.some.inj hsome).symm

/-- **A character of the extension table** is what follows `ESC` there. -/
theorem classify_extended {c : Char} {b : ℕ} (h : classify c = some (.extended b)) :
    b < 128 ∧ extension b = some c := by
  have htable : ∀ entry ∈ extended, entry.1 < 128 ∧ extension entry.1 = some entry.2 := by decide
  unfold classify at h
  split_ifs at h
  cases hfind : basic.findIdx? (· = c) with
  | some i =>
    rw [hfind] at h
    exact absurd h (by simp)
  | none =>
    rw [hfind] at h
    obtain ⟨entry, hentry, hb⟩ := Option.map_eq_some_iff.mp h
    obtain rfl : entry.1 = b := by simpa using hb
    have hsource : entry.2 = c := by simpa using List.find?_some hentry
    obtain ⟨hlt, hread⟩ := htable entry (List.mem_of_find?_eq_some hentry)
    exact ⟨hlt, hsource ▸ hread⟩

theorem wire_lt {c : Char} {g : Gsm7Char} (h : classify c = some g) : ∀ b ∈ wire g, b < 128 := by
  cases g with
  | basic i =>
    intro b hb
    rw [List.mem_singleton.mp hb]
    exact (classify_basic h).1
  | extended e =>
    intro b hb
    have hesc : esc < 128 := by decide
    have he := (classify_extended h).1
    rcases List.mem_cons.mp hb with rfl | hb
    · exact hesc
    · rw [List.mem_singleton.mp hb]
      exact he

/-- **The septets of a character are read as that character**, whatever follows. -/
theorem readSeptets_wire {c : Char} {g : Gsm7Char} (h : classify c = some g) (rest : List ℕ) :
    readSeptets false (wire g ++ rest) = (readSeptets false rest).map (c :: ·) := by
  cases g with
  | basic i =>
    obtain ⟨-, hne, hat⟩ := classify_basic h
    unfold wire
    rw [List.singleton_append, readSeptets, if_neg hne, hat]
    rfl
  | extended e =>
    obtain ⟨-, hread⟩ := classify_extended h
    unfold wire
    rw [List.cons_append, readSeptets, if_pos rfl, List.singleton_append, readSeptets, hread]
    rfl

/-! ## Bodies -/

/-- **What the loop pushes**: nothing is left out, and it ends early exactly at a character that is
not in the alphabet. -/
theorem toSeptetsLoop_eq (out : List ℕ) (body : List Char) :
    toSeptetsLoop out body =
      if isGsm7Str body then some (out ++ (body.filterMap classify).flatMap wire) else none := by
  induction body generalizing out with
  | nil => simp [toSeptetsLoop, isGsm7Str]
  | cons c cs ih =>
    unfold toSeptetsLoop
    cases hc : classify c with
    | none => simp [isGsm7Str, isGsm7, hc]
    | some g =>
      have hall : isGsm7Str (c :: cs) = isGsm7Str cs := by simp [isGsm7Str, isGsm7, hc]
      dsimp only
      rw [ih, hall, List.filterMap_cons_some hc, List.flatMap_cons, List.append_assoc]

theorem toSeptets_eq_some_iff {body : List Char} {out : List ℕ} :
    toSeptets body = some out ↔
    isGsm7Str body = true ∧ out = (body.filterMap classify).flatMap wire := by
  unfold toSeptets
  rw [toSeptetsLoop_eq, List.nil_append]
  cases isGsm7Str body with
  | false => simp
  | true => simp [eq_comm]

theorem readSeptets_toSeptets {body : List Char} (h : isGsm7Str body = true) :
    readSeptets false ((body.filterMap classify).flatMap wire) = some body := by
  induction body with
  | nil => rfl
  | cons c cs ih =>
    unfold isGsm7Str at h ih
    rw [List.all_cons, Bool.and_eq_true] at h
    obtain ⟨g, hg⟩ := Option.isSome_iff_exists.mp h.1
    rw [List.filterMap_cons_some hg, List.flatMap_cons, readSeptets_wire hg, ih h.2]
    rfl

theorem length_septets (body : List Char) :
    ((body.filterMap classify).flatMap wire).length = (costs .gsm7 body).sum := by
  have hwire : List.length ∘ wire = Gsm7Char.septets := funext length_wire
  unfold costs units
  rw [List.length_flatMap, ← List.map_filterMap]
  exact congrArg (fun f => ((body.filterMap classify).map f).sum) hwire

/-- The reported length is the sum of the units. -/
theorem analyse_length (lib : UnicodeLib) (body : List Char) :
    (analyse lib body).length = (costs (encodingOf body) body).sum := by
  rw [(analyse_eq lib body).2.1]
  unfold packing pack
  dsimp only
  split_ifs <;> rfl

/-- **The coding is exact**: a body has septets exactly if `analyse` reports the alphabet, and
exactly if `is_gsm7_str` does; they are as many as it says, and each a septet; they are read back as
the body, so no other body has them. -/
theorem septets_spec (lib : UnicodeLib) (body : List Char) :
    ((toSeptets body).isSome ↔ (analyse lib body).encoding = .gsm7) ∧
      ((analyse lib body).encoding = .gsm7 ↔ isGsm7Str body = true) ∧
      ∀ out, toSeptets body = some out →
        out.length = (analyse lib body).length ∧ (∀ b ∈ out, b < 128) ∧
        readSeptets false out = some body ∧
          ∀ other, toSeptets other = some out → other = body := by
  have hencoding : (analyse lib body).encoding = .gsm7 ↔ isGsm7Str body = true := by
    rw [analyse_encoding]
    cases isGsm7Str body <;> simp
  refine ⟨?_, hencoding, ?_⟩
  · rw [hencoding, Option.isSome_iff_exists]
    simp [toSeptets_eq_some_iff]
  · intro out hout
    obtain ⟨hgsm, rfl⟩ := toSeptets_eq_some_iff.mp hout
    refine ⟨?_, ?_, readSeptets_toSeptets hgsm, fun other hother => ?_⟩
    · rw [length_septets, analyse_length, encodingOf_gsm7 (List.all_eq_true.mp hgsm)]
    · intro b hb
      obtain ⟨g, hg, hb⟩ := List.mem_flatMap.mp hb
      obtain ⟨c, -, hc⟩ := List.mem_filterMap.mp hg
      exact wire_lt hc b hb
    · obtain ⟨hgsm', hsame⟩ := toSeptets_eq_some_iff.mp hother
      have hread := readSeptets_toSeptets hgsm'
      rw [← hsame, readSeptets_toSeptets hgsm] at hread
      exact (Option.some.inj hread).symm

end Vsms.Core.Septets
