import Vsms.Lib.Framing

/-! # Percent-encoding

Bytes as text: some stand for themselves, and any other is a percent sign with two hexadecimal
digits. A percent sign that no two digits follow is left as it is. What was encoded is decoded again
if the percent sign itself is encoded (`percentDecode_percentEncode`). -/

namespace Vsms.Lib.Percent

open Vsms.Lib.Framing

/-- The value of a byte that is a hexadecimal digit, of either case. -/
def hexByte (b : UInt8) : Option ℕ := hexValue (Char.ofNat b.toNat)

/-- Undo the encoding, from the left. -/
def percentDecode : List UInt8 → List UInt8
  | [] => []
  | [b] => [b]
  | [b, c] => [b, c]
  | b :: c :: d :: rest =>
    if b = 37 then
      match hexByte c, hexByte d with
      | some high, some low => UInt8.ofNat (16 * high + low) :: percentDecode rest
      | _, _ => b :: percentDecode (c :: d :: rest)
    else b :: percentDecode (c :: d :: rest)

/-- A byte that stands for itself, or its two digits. -/
def percentEncodeByte (keep : UInt8 → Bool) (b : UInt8) : List Char :=
  if keep b then [Char.ofNat b.toNat]
  else ['%', (Nat.digitChar (b.toNat / 16)).toUpper, (Nat.digitChar (b.toNat % 16)).toUpper]

def percentEncode (keep : UInt8 → Bool) (bytes : List UInt8) : String :=
  String.ofList (bytes.flatMap (percentEncodeByte keep))

theorem percentDecode_cons {b : UInt8} (hb : b ≠ 37) (rest : List UInt8) :
    percentDecode (b :: rest) = b :: percentDecode rest := by
  match rest with
  | [] => rfl
  | [_] => rfl
  | _ :: _ :: _ => rw [percentDecode, if_neg hb]

theorem percentDecode_digits {c d : UInt8} {high low : ℕ} (hc : hexByte c = some high)
    (hd : hexByte d = some low) (rest : List UInt8) :
    percentDecode (37 :: c :: d :: rest) = UInt8.ofNat (16 * high + low) :: percentDecode rest := by
  rw [percentDecode, if_pos rfl, hc, hd]

theorem forall_byte {P : UInt8 → Prop} (h : ∀ n < 256, P (UInt8.ofNat n)) (b : UInt8) : P b := by
  rw [← UInt8.ofNat_toNat (x := b)]
  exact h b.toNat b.toNat_lt

/-- An upper-case digit is one byte, which is read as the digit. -/
theorem upper_digit : ∀ n < 16, ∃ b, String.utf8EncodeChar (Nat.digitChar n).toUpper = [b] ∧
    hexByte b = some n := by
  intro n hn
  have h : ∀ n < 16, String.utf8EncodeChar (Nat.digitChar n).toUpper =
      [UInt8.ofNat (Nat.digitChar n).toUpper.toNat] ∧
      hexByte (UInt8.ofNat (Nat.digitChar n).toUpper.toNat) = some n := by decide
  exact ⟨_, h n hn⟩

/-- An ASCII character is one byte. -/
theorem utf8EncodeChar_ascii {b : UInt8} (hb : b < 128) :
    String.utf8EncodeChar (Char.ofNat b.toNat) = [b] := by
  have h : ∀ n < 128, String.utf8EncodeChar (Char.ofNat n) = [UInt8.ofNat n] := by decide +kernel
  have hlt : b.toNat < 128 := hb
  rw [h b.toNat hlt, UInt8.ofNat_toNat]

/-- **Decoding undoes encoding** if what stands for itself is ASCII and no percent sign. -/
theorem percentDecode_percentEncode {keep : UInt8 → Bool}
    (hkeep : ∀ b, keep b = true → b < 128 ∧ b ≠ 37) (bytes : List UInt8) :
    percentDecode (strBytes (percentEncode keep bytes)) = bytes := by
  unfold percentEncode
  rw [strBytes_ofList]
  induction bytes with
  | nil => rfl
  | cons b bytes ih =>
    rw [List.flatMap_cons, List.flatMap_append, percentEncodeByte]
    by_cases hb : keep b = true
    · obtain ⟨hascii, hne⟩ := hkeep b hb
      rw [if_pos hb, List.flatMap_singleton, utf8EncodeChar_ascii hascii, List.singleton_append,
        percentDecode_cons hne, ih]
    · have hlt : b.toNat < 256 := b.toNat_lt
      obtain ⟨c, hc, hhigh⟩ := upper_digit (b.toNat / 16) (by omega)
      obtain ⟨d, hd, hlow⟩ := upper_digit (b.toNat % 16) (by omega)
      have hpercent : String.utf8EncodeChar '%' = [37] := by decide
      rw [if_neg hb]
      simp only [List.flatMap_cons, List.flatMap_nil, hpercent, hc, hd, List.append_nil,
        List.cons_append, List.nil_append]
      rw [percentDecode_digits hhigh hlow, ih, Nat.div_add_mod, UInt8.ofNat_toNat]

/-! ### Texts -/

/-- Read bytes as UTF-8. -/
def decodeUtf8 (bytes : List UInt8) : Option String := String.fromUTF8? ⟨bytes.toArray⟩

theorem decodeUtf8_strBytes (s : String) : decodeUtf8 (strBytes s) = some s := by
  unfold decodeUtf8 strBytes String.fromUTF8?
  rw [dif_pos s.isValidUTF8]
  rfl

/-- A byte below 128 in the encoding of a character is the character. -/
theorem eq_of_mem_utf8EncodeChar {c : Char} {b : UInt8} (hb : b ∈ String.utf8EncodeChar c)
    (hlow : b < 128) :
    c = Char.ofNat b.toNat := by
  have hlow' : b.toNat < 128 := hlow
  unfold String.utf8EncodeChar at hb
  dsimp only at hb
  split at hb
  · obtain rfl := List.mem_singleton.mp hb
    have hc : c.val.toNat < 256 := by omega
    rw [UInt8.toNat_ofNat', Nat.mod_eq_of_lt hc]
    exact (Char.ofNat_toNat c).symm
  -- The bytes of the longer encodings have their first bit set.
  · split at hb
    · simp only [List.mem_cons, List.not_mem_nil, or_false] at hb
      rcases hb with rfl | rfl <;> (simp at hlow'; omega)
    · split at hb
      · simp only [List.mem_cons, List.not_mem_nil, or_false] at hb
        rcases hb with rfl | rfl | rfl <;> (simp at hlow'; omega)
      · simp only [List.mem_cons, List.not_mem_nil, or_false] at hb
        rcases hb with rfl | rfl | rfl | rfl <;> (simp at hlow'; omega)

/-- **A text without a percent sign** is decoded as itself. -/
theorem percentDecode_strBytes {s : String} (h : '%' ∉ s.toList) :
    percentDecode (strBytes s) = strBytes s := by
  have hbytes : ∀ b ∈ strBytes s, b ≠ 37 := by
    intro b hb hpercent
    rw [← String.ofList_toList (s := s), strBytes_ofList] at hb
    obtain ⟨c, hc, hb⟩ := List.mem_flatMap.mp hb
    subst hpercent
    exact h (eq_of_mem_utf8EncodeChar hb (by decide) ▸ hc)
  have hdecode : ∀ bytes : List UInt8, (∀ b ∈ bytes, b ≠ 37) → percentDecode bytes = bytes := by
    intro bytes
    induction bytes with
    | nil => exact fun _ => rfl
    | cons b bytes ih =>
      intro hall
      rw [percentDecode_cons (hall b List.mem_cons_self), ih fun c hc =>
        hall c (List.mem_cons_of_mem _ hc)]
  exact hdecode _ hbytes

end Vsms.Lib.Percent
