import Vsms.Core.Numbers

/-! # Storing a recipient

The parser keeps a number if it has fifteen digits at most, and the column the number is stored in
takes fifteen characters at most, and eight at least; the stored form begins with a plus sign. So a
number that the API accepts can be stored exactly if it has seven to fourteen digits
(`recipient_fits_iff`). Nothing in the parser asks for seven, and nothing there refuses a fifteenth.
-/

namespace Vsms.Core.Storable

open Vsms.Core.Numbers

/-- `@length(min, max)`: the value has so many characters. -/
def LengthIn (min max : ℕ) (value : String) : Prop := min ≤ value.length ∧ value.length ≤ max

instance (min max : ℕ) (value : String) : Decidable (LengthIn min max value) := by
  unfold LengthIn
  infer_instance

/-- The check of `Message.msisdn`. -/
def MsisdnLength (value : String) : Prop := LengthIn 8 15 value

/-- The number that the library reads in an input. -/
def Reads (lib : PhoneLib) (input region : String) (n : PhoneNumber) : Prop :=
  ∃ candidate, sanitise input = .ok candidate ∧ lib.parse region (String.ofList candidate) = .ok n

/-- Its digits, the country code first. -/
def digits (n : PhoneNumber) : List Char := (toString n.code).toList ++ n.national

/-- **The recipient is a number in E.164 form that the column takes.** -/
structure Fits (n : PhoneNumber) (m : Msisdn) : Prop where
  form : m.e164.toList = '+' :: digits n
  decimal : ∀ c ∈ digits n, c.isDigit = true
  capped : (digits n).length ≤ 15
  national : m.national = String.ofList n.national
  stored : MsisdnLength m.e164

/-! ## What is accepted -/

theorem length_toString_code {code : ℕ} (h : code < 1000) :
    (toString code).toList.length = countryCodeDigits code := by
  have hpos : 0 < code.repr.length := Nat.length_repr_pos
  have hone : code.repr.length ≤ 1 ↔ code < 10 ^ 1 := Nat.length_repr_le_iff (by decide)
  have htwo : code.repr.length ≤ 2 ↔ code < 10 ^ 2 := Nat.length_repr_le_iff (by decide)
  have hthree : code.repr.length ≤ 3 ↔ code < 10 ^ 3 := Nat.length_repr_le_iff (by decide)
  rw [String.length_toList, Nat.toString_eq_repr]
  unfold countryCodeDigits
  split_ifs <;> omega

theorem decimal_digits (n : PhoneNumber) : ∀ c ∈ digits n, c.isDigit = true := by
  intro c hc
  rcases List.mem_append.mp hc with hc | hc
  · exact Lib.Framing.isDigit_of_mem_repr hc
  · exact isDigit_national hc

/-- **What the end of `parse_in` accepts**: fifteen digits at most. -/
theorem ofPhoneNumber_ok {lib : PhoneLib} {n : PhoneNumber} {m : Msisdn}
    (h : ofPhoneNumber lib n = .ok m) :
    m.e164 = String.ofList n.e164 ∧ m.nationalOffset = 1 + countryCodeDigits n.code ∧
      countryCodeDigits n.code + n.national.length ≤ 15 := by
  unfold ofPhoneNumber at h
  dsimp only at h
  split_ifs at h with hcap
  obtain rfl := Except.ok.inj h
  exact ⟨rfl, rfl, Nat.not_lt.mp hcap⟩

theorem parseMobileIn_ok {lib : PhoneLib} {input region : String} {m : Msisdn} {n : PhoneNumber}
    (h : parseMobileIn lib input region = .ok m) (hn : Reads lib input region n) :
    ofPhoneNumber lib n = .ok m := by
  obtain ⟨candidate, hcandidate, hparse⟩ := hn
  have hread : parseIn lib input region = ofPhoneNumber lib n := by
    unfold parseIn
    rw [hcandidate]
    dsimp only
    rw [hparse]
  unfold parseMobileIn at h
  rw [hread] at h
  cases hm : ofPhoneNumber lib n with
  | error e =>
    rw [hm] at h
    exact absurd h (by simp)
  | ok m' =>
    rw [hm] at h
    dsimp only at h
    split_ifs at h
    exact h

/-- The form of a recipient that is accepted. -/
theorem accepted_form {lib : PhoneLib} {n : PhoneNumber} {m : Msisdn} (hcode : n.code < 1000)
    (h : ofPhoneNumber lib n = .ok m) :
    m.e164.toList = '+' :: digits n ∧ (digits n).length ≤ 15 ∧
    m.national = String.ofList n.national := by
  obtain ⟨hform, hoffset, hcap⟩ := ofPhoneNumber_ok h
  have hlength := length_toString_code hcode
  have hlist : m.e164.toList = '+' :: digits n := by
    rw [hform, String.toList_ofList]
    rfl
  refine ⟨hlist, ?_, ?_⟩
  · unfold digits
    rw [List.length_append, hlength]
    exact hcap
  · have hprefix : 1 + countryCodeDigits n.code = ('+' :: (toString n.code).toList).length := by
      rw [List.length_cons, hlength, Nat.add_comm]
    unfold Msisdn.national
    rw [hlist, hoffset, hprefix]
    unfold digits
    rw [← List.cons_append, List.drop_left]

/-- **A recipient that is accepted can be stored exactly if it has seven to fourteen digits.** -/
theorem recipient_fits_iff {lib : PhoneLib}
    (hcode : ∀ region text n, lib.parse region text = .ok n → n.code < 1000) {input region : String}
    {m : Msisdn} {n : PhoneNumber} (h : parseMobileIn lib input region = .ok m)
    (hn : Reads lib input region n) : Fits n m ↔
    7 ≤ (digits n).length ∧ (digits n).length ≤ 14 := by
  have hcode' : n.code < 1000 := by
    obtain ⟨candidate, -, hparse⟩ := hn
    exact hcode region _ n hparse
  obtain ⟨hform, hcap, hnational⟩ := accepted_form hcode' (parseMobileIn_ok h hn)
  have hlength : m.e164.length = (digits n).length + 1 := by
    rw [← String.length_toList, hform, List.length_cons]
  constructor
  · rintro ⟨-, -, -, -, hmin, hmax⟩
    omega
  · rintro ⟨hmin, hmax⟩
    exact ⟨hform, decimal_digits n, hcap, hnational, by omega, by omega⟩

section runs

/-- A plan whose numbers are those of one kind of line. -/
def mobilePlan (id : String) (lengths : List ℕ) : Metadata where
  id := id
  general := ⟨fun national => national.length ∈ lengths, "", lengths⟩
  fixedLine := none
  mobile := some ⟨fun national => national.length ∈ lengths, "", lengths⟩
  tollFree := none
  premiumRate := none
  sharedCost := none
  personalNumber := none
  voip := none
  pager := none
  uan := none
  voicemail := none

/-- On the numbers below, one of Cameroon and one of Austria, where a mobile number has up to
thirteen digits. -/
def twoPhones : PhoneLib where
  parse _ text :=
    if text = "+237677123456" then .ok ⟨237, 0, 677123456⟩
    else if text = "+436641234567890" then .ok ⟨43, 0, 6641234567890⟩
    else .error .invalidCountryCode
  metadata n :=
    if n.code = 237 then some (mobilePlan "CM" [9])
    else if n.code = 43 then some (mobilePlan "AT" [7, 8, 9, 10, 11, 12, 13])
    else none
  region id := some id

theorem twoPhones_code (region text : String) (n : PhoneNumber)
    (h : twoPhones.parse region text = .ok n) :
    n.code < 1000 := by
  unfold twoPhones at h
  dsimp only at h
  split_ifs at h
  · obtain rfl := Except.ok.inj h
    decide
  · obtain rfl := Except.ok.inj h
    decide

theorem recipient_fits_cameroon :
    Fits ⟨237, 0, 677123456⟩ ⟨"+237677123456", 4, some "CM", .mobile⟩ :=
  (@recipient_fits_iff twoPhones twoPhones_code "+237 677 12 34 56" "CM" _ _ rfl
    ⟨"+237677123456".toList, rfl, rfl⟩).mpr
    (by decide +kernel)

/-- The plus sign and fifteen digits. -/
theorem austrian_recipient_too_long :
    ¬ ∀ m, parseMobileIn twoPhones "+436641234567890" "CM" = .ok m → MsisdnLength m.e164 := by
  intro hall
  have hfits := hall ⟨"+436641234567890", 3, some "AT", .mobile⟩ rfl
  exact absurd hfits.2 (by decide +kernel)

end runs

end Vsms.Core.Storable
