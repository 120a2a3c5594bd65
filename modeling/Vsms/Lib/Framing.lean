import Mathlib.Data.List.Forall2
import Mathlib.Data.Nat.Basic
import Mathlib.Tactic.NormNum

/-! # Framing of bytes

Encodings that are put one after the other are told apart if each of them is self-delimiting:
whatever follows, the encoding of a value ends at the same place. Encodings of one length are, a
text with its length before it is, and so is an optional value with a flag before it. A word is, if
it is followed by a separator that is not in it. -/

namespace Vsms.Lib.Framing

/-! ### Self-delimiting encodings -/

section delimiting
variable {α γ : Type*}

/-- **The encoding can be split off** what follows it, and gives the value up to `R`. -/
def SelfDelimiting (R : α → α → Prop) (enc : α → List γ) : Prop :=
  ∀ a b r s, enc a ++ r = enc b ++ s → R a b ∧ r = s

theorem SelfDelimiting.of_length {R : α → α → Prop} {enc : α → List γ}
    (hlen : ∀ a b, (enc a).length = (enc b).length) (hinj : ∀ a b, enc a = enc b → R a b) :
    SelfDelimiting R enc := by
  intro a b r s h
  obtain ⟨henc, hrest⟩ := List.append_inj h (hlen a b)
  exact ⟨hinj a b henc, hrest⟩

/-- One encoding after the other. -/
theorem SelfDelimiting.flatMap {R : α → α → Prop} {enc : α → List γ} (h : SelfDelimiting R enc)
    (hne : ∀ a, enc a ≠ []) {as bs : List α} (he : as.flatMap enc = bs.flatMap enc) :
    List.Forall₂ R as bs := by
  induction as generalizing bs with
  | nil =>
    cases bs with
    | nil => exact .nil
    | cons b bs => exact absurd (List.append_eq_nil_iff.mp he.symm).1 (hne b)
  | cons a as ih =>
    cases bs with
    | nil => exact absurd (List.append_eq_nil_iff.mp he).1 (hne a)
    | cons b bs =>
      obtain ⟨hab, hrest⟩ := h a b _ _ he
      exact .cons hab (ih hrest)

/-- A word that a separator ends is split off, whatever follows the separator. -/
theorem word_unique {sep : γ} {a b s t : List γ} (ha : sep ∉ a) (hb : sep ∉ b)
    (h : a ++ sep :: s = b ++ sep :: t) : a = b ∧ s = t := by
  induction a generalizing b with
  | nil =>
    cases b with
    | nil => exact ⟨rfl, (List.cons.inj h).2⟩
    | cons c b =>
      have hc := (List.cons.inj h).1
      exact absurd (hc ▸ List.mem_cons_self) hb
  | cons c a ih =>
    cases b with
    | nil =>
      have hc := (List.cons.inj h).1
      exact absurd (hc ▸ List.mem_cons_self) ha
    | cons d b =>
      obtain ⟨hcd, h⟩ := List.cons.inj h
      obtain ⟨hab, hst⟩ := ih (fun hm => ha (List.mem_cons_of_mem _ hm))
        (fun hm => hb (List.mem_cons_of_mem _ hm)) h
      exact ⟨by rw [hcd, hab], hst⟩

end delimiting

/-! ### Numbers -/

/-- `n` in `k` bytes, the most significant first. -/
def bigEndian : ℕ → ℕ → List UInt8
  | 0, _ => []
  | k + 1, n => UInt8.ofNat (n / 256 ^ k) :: bigEndian k n

@[simp] theorem length_bigEndian (k n : ℕ) : (bigEndian k n).length = k := by
  induction k with
  | zero => rfl
  | succ k ih => simp [bigEndian, ih]

theorem bigEndian_eq {k m n : ℕ} (h : bigEndian k m = bigEndian k n) :
    m % 256 ^ k = n % 256 ^ k := by
  induction k with
  | zero => simp [Nat.mod_one]
  | succ k ih =>
    obtain ⟨hhead, htail⟩ := List.cons.inj h
    have hdigit : m / 256 ^ k % 256 = n / 256 ^ k % 256 := by
      have := congrArg UInt8.toNat hhead
      simpa using this
    rw [pow_succ, Nat.mod_mul, Nat.mod_mul, ih htail, hdigit]

/-- The eight bytes of a 64-bit number. -/
def u64Bytes (n : UInt64) : List UInt8 := bigEndian 8 n.toNat

/-- The eight bytes of a signed one, in two's complement. -/
def i64Bytes (n : Int64) : List UInt8 := u64Bytes n.toUInt64

theorem u64Bytes_injective : Function.Injective u64Bytes := by
  intro m n h
  have hmod := bigEndian_eq h
  have hm : m.toNat < 256 ^ 8 := m.toNat_lt
  have hn : n.toNat < 256 ^ 8 := n.toNat_lt
  rw [Nat.mod_eq_of_lt hm, Nat.mod_eq_of_lt hn] at hmod
  exact UInt64.toNat_inj.mp hmod

theorem i64Bytes_injective : Function.Injective i64Bytes := by
  intro m n h
  have hbits : m.toUInt64 = n.toUInt64 := u64Bytes_injective h
  cases m
  cases n
  exact congrArg Int64.ofUInt64 hbits

@[simp] theorem length_u64Bytes (n : UInt64) : (u64Bytes n).length = 8 := length_bigEndian 8 _

@[simp] theorem length_i64Bytes (n : Int64) : (i64Bytes n).length = 8 := length_bigEndian 8 _

theorem i64Bytes_delimited : SelfDelimiting (· = ·) i64Bytes :=
  .of_length (fun a b => by simp) fun _ _ h => i64Bytes_injective h

/-! ### Optional values -/

section optional
variable {α : Type*}

/-- A flag, and the value if there is one. -/
def optionBytes (enc : α → List UInt8) : Option α → List UInt8
  | none => [0]
  | some a => 1 :: enc a

theorem optionBytes_delimited {R : α → α → Prop} {enc : α → List UInt8}
    (h : SelfDelimiting R enc) : SelfDelimiting (Option.Rel R) (optionBytes enc) := by
  intro a b r s he
  cases a with
  | none =>
    cases b with
    | none => exact ⟨.none, (List.cons.inj he).2⟩
    | some b => exact absurd (List.cons.inj he).1 (by decide)
  | some a =>
    cases b with
    | none => exact absurd (List.cons.inj he).1 (by decide)
    | some b =>
      obtain ⟨hab, hrest⟩ := h a b r s (List.cons.inj he).2
      exact ⟨.some hab, hrest⟩

theorem eq_of_optionRel {a b : Option α} (h : Option.Rel (· = ·) a b) : a = b := by
  cases h with
  | none => rfl
  | some h => rw [h]

end optional

/-! ### Texts -/

/-- The UTF-8 bytes of a text. -/
def strBytes (s : String) : List UInt8 := s.toByteArray.data.toList

theorem strBytes_injective : Function.Injective strBytes := by
  intro s t h
  apply String.toByteArray_inj.mp
  exact ByteArray.ext (Array.toList_inj.mp h)

theorem strBytes_ofList (l : List Char) :
    strBytes (String.ofList l) = l.flatMap String.utf8EncodeChar := by
  unfold strBytes
  rw [String.toByteArray_ofList, List.utf8Encode, List.toList_data_toByteArray]

/-! ### Decimal digits -/

theorem isDigit_of_mem_repr {n : ℕ} {c : Char} (h : c ∈ n.repr.toList) : c.isDigit = true := by
  rw [Nat.toList_repr] at h
  exact Nat.isDigit_of_mem_toDigits (by decide) (by decide) h

/-- What is not a digit can stand after a number to end it. -/
theorem notMem_repr {c : Char} (h : c.isDigit = false) (n : ℕ) : c ∉ n.repr.toList := by
  intro hc
  rw [isDigit_of_mem_repr hc] at h
  cases h

/-! ### Hexadecimal digits -/

def hexDigits (b : UInt8) : List Char :=
  [Nat.digitChar (b.toNat / 16), Nat.digitChar (b.toNat % 16)]

/-- Two lower-case digits a byte. -/
def hexEncode (bytes : List UInt8) : String := String.ofList (bytes.flatMap hexDigits)

theorem digitChar_inj : ∀ m < 16, ∀ n < 16, Nat.digitChar m = Nat.digitChar n → m = n := by decide

theorem utf8Size_digitChar : ∀ n < 16, (Nat.digitChar n).utf8Size = 1 := by decide

theorem hexDigits_delimited : SelfDelimiting (· = ·) hexDigits := by
  refine .of_length (fun _ _ => rfl) fun a b h => ?_
  have ha : a.toNat < 256 := a.toNat_lt
  have hb : b.toNat < 256 := b.toNat_lt
  obtain ⟨hhigh, hlow⟩ := List.cons.inj h
  have hdiv := digitChar_inj _ (by omega) _ (by omega) hhigh
  have hmod := digitChar_inj _ (by omega) _ (by omega) (List.cons.inj hlow).1
  refine UInt8.toNat_inj.mp ?_
  omega

theorem hexEncode_injective : Function.Injective hexEncode := by
  intro as bs h
  have hchars := String.ofList_injective h
  have hrel := hexDigits_delimited.flatMap (fun _ => List.cons_ne_nil _ _) hchars
  exact List.forall₂_eq_eq_eq ▸ hrel

theorem length_hexEncode (bytes : List UInt8) :
    (strBytes (hexEncode bytes)).length = 2 * bytes.length := by
  unfold hexEncode
  rw [strBytes_ofList]
  induction bytes with
  | nil => rfl
  | cons b bytes ih =>
    have hb : b.toNat < 256 := b.toNat_lt
    have hhigh := utf8Size_digitChar (b.toNat / 16) (by omega)
    have hlow := utf8Size_digitChar (b.toNat % 16) (by omega)
    rw [List.flatMap_cons, List.flatMap_append, List.length_append, ih]
    simp [hexDigits, String.length_utf8EncodeChar, hhigh, hlow]
    omega

/-- The value of a digit, of either case. -/
def hexValue (c : Char) : Option ℕ :=
  let n := c.toNat
  if 48 ≤ n ∧ n ≤ 57 then some (n - 48)
  else if 97 ≤ n ∧ n ≤ 102 then some (n - 87)
  else if 65 ≤ n ∧ n ≤ 70 then some (n - 55)
  else none

/-- Read two digits a byte. -/
def hexDecode : List Char → Option (List UInt8)
  | [] => some []
  | [_] => none
  | a :: b :: rest => do
    let high ← hexValue a
    let low ← hexValue b
    let bytes ← hexDecode rest
    return UInt8.ofNat (16 * high + low) :: bytes

theorem hexValue_digitChar : ∀ n < 16, hexValue (Nat.digitChar n) = some n := by decide

theorem hexDecode_flatMap (bytes : List UInt8) :
    hexDecode (bytes.flatMap hexDigits) = some bytes := by
  induction bytes with
  | nil => rfl
  | cons b bytes ih =>
    have hb : b.toNat < 256 := b.toNat_lt
    have hhigh := hexValue_digitChar (b.toNat / 16) (by omega)
    have hlow := hexValue_digitChar (b.toNat % 16) (by omega)
    have hbyte : UInt8.ofNat (16 * (b.toNat / 16) + b.toNat % 16) = b := by
      rw [Nat.div_add_mod, UInt8.ofNat_toNat]
    rw [List.flatMap_cons]
    simp only [hexDigits, List.cons_append, List.nil_append, hexDecode, hhigh, hlow, ih, hbyte,
      Option.bind_eq_bind, Option.bind_some, Option.pure_def]

end Vsms.Lib.Framing
