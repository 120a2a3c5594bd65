import Mathlib.Data.List.Basic
import Mathlib.Tactic.SplitIfs
import Vsms.Lib.Framing

/-! # Numbers

The parser of `sms_msisdn` over what the `phonenumber` crate gives it (`PhoneLib`): the country code
and the national number of a text, and the metadata of the plan the number belongs to. A number is
kept in E.164 form, `+`, the country code and the national number; if the library reads that form as
the same number, so does the parser (`parse_e164`). -/

namespace Vsms.Core.Numbers

/-! ## What the library gives -/

/-- One kind of line of a numbering plan. -/
structure Descriptor where
  isMatch : String → Bool
  nationalNumber : String
  possibleLength : List ℕ

/-- A numbering plan. -/
structure Metadata where
  id : String
  general : Descriptor
  fixedLine : Option Descriptor
  mobile : Option Descriptor
  tollFree : Option Descriptor
  premiumRate : Option Descriptor
  sharedCost : Option Descriptor
  personalNumber : Option Descriptor
  voip : Option Descriptor
  pager : Option Descriptor
  uan : Option Descriptor
  voicemail : Option Descriptor

/-- A number as the library reads it: the leading zeros of the national number are counted apart. -/
structure PhoneNumber where
  code : ℕ
  zeros : ℕ
  value : ℕ
  deriving DecidableEq

inductive ParseError
  | invalidCountryCode
  | badLength

/-- The `phonenumber` crate: `parse` against a region, the plan of a number, and the regions. -/
structure PhoneLib where
  parse : String → String → Except ParseError PhoneNumber
  metadata : PhoneNumber → Option Metadata
  region : String → Option String

/-- The national number as text. -/
def PhoneNumber.national (n : PhoneNumber) : List Char :=
  List.replicate n.zeros '0' ++ (toString n.value).toList

def PhoneNumber.e164 (n : PhoneNumber) : List Char :=
  '+' :: ((toString n.code).toList ++ n.national)

/-! ## Lines -/

inductive LineType
  | mobile
  | fixedLineOrMobile
  | fixedLine
  | tollFree
  | premiumRate
  | sharedCost
  | voip
  | personalNumber
  | pager
  | uan
  | voicemail
  | unallocated
  deriving DecidableEq, Repr

def LineType.isAddressable : LineType → Bool
  | .mobile | .fixedLineOrMobile => true
  | _ => false

/-- The first of the kinds that matches. -/
def firstMatch (national : String) : List (Option Descriptor × LineType) → Option LineType
  | [] => none
  | (d, lineType) :: rest =>
    if d.any (·.isMatch national) then some lineType else firstMatch national rest

def lineTypeOf (m : Metadata) (national : String) : LineType :=
  if !m.general.isMatch national then .unallocated
  else
    match firstMatch national [(m.premiumRate, .premiumRate), (m.tollFree, .tollFree),
      (m.sharedCost, .sharedCost), (m.voip, .voip), (m.personalNumber, .personalNumber),
      (m.pager, .pager), (m.uan, .uan), (m.voicemail, .voicemail)] with
    | some lineType => lineType
    | none =>
      if m.fixedLine.any (·.isMatch national) then
        if m.fixedLine.map (·.nationalNumber) = m.mobile.map (·.nationalNumber) ||
          m.mobile.any (·.isMatch national) then .fixedLineOrMobile
        else .fixedLine
      else if m.mobile.any (·.isMatch national) then .mobile
      else .unallocated

/-- Some kind of line has numbers of this length, or the plan gives no lengths. -/
def lengthIsPossible (m : Metadata) (len : ℕ) : Bool :=
  let lengths := ([m.fixedLine, m.mobile, m.tollFree, m.premiumRate, m.sharedCost,
    m.personalNumber, m.voip, m.pager, m.uan, m.voicemail].filterMap id).map (·.possibleLength)
  len < 65536 && (lengths.any (len ∈ ·) || lengths.all (· = []))

/-! ## Parsing -/

inductive MsisdnError
  | empty
  | invalidCharacter (ch : Char)
  | unknownCountryCode (digits : String)
  | legacyEightDigit (digits : String)
  | badLength (got : ℕ)
  | unallocated (national : String)
  | notAddressable (national : String) (lineType : LineType)
  deriving DecidableEq, Repr

structure Msisdn where
  e164 : String
  nationalOffset : ℕ
  region : Option String
  lineType : LineType
  deriving DecidableEq, Repr

/-- The national number, without the country code. -/
def Msisdn.national (m : Msisdn) : String := String.ofList (m.e164.toList.drop m.nationalOffset)

/-- The number with all but the country code and the last two digits hidden. -/
def Msisdn.masked (m : Msisdn) : String :=
  let national := m.national.toList
  let hidden := national.length - min 2 national.length
  String.ofList (m.e164.toList.take m.nationalOffset ++ List.replicate hidden '*' ++
    national.drop hidden)

def separators : List Char :=
  [' ', '\t', '-', '.', '/', '(', ')', '[', ']', '\u00a0', '\u202f']

/-- The loop of `sanitise`: `out` is what was kept, last character first. -/
def sanitiseLoop : List Char → List Char → Bool → ℕ → Except MsisdnError (List Char)
  | [], out, _, digits => if digits = 0 then .error .empty else .ok out.reverse
  | c :: cs, out, plus, digits =>
    if c ∈ separators then sanitiseLoop cs out plus digits
    else if c = '+' then
      if plus || 0 < digits then .error (.invalidCharacter c)
      else sanitiseLoop cs (c :: out) true digits
    else if c.isDigit then sanitiseLoop cs (c :: out) plus (digits + 1)
    else .error (.invalidCharacter c)

/-- Strip separators and refuse anything that is not a digit or a leading `+`. -/
def sanitise (input : String) : Except MsisdnError (List Char) :=
  sanitiseLoop input.toList [] false 0

def countryCodeDigits (code : ℕ) : ℕ := if 100 ≤ code then 3 else if 10 ≤ code then 2 else 1

def maxE164Digits : ℕ := 15

def cmCountryCode : ℕ := 237

/-- The end of `parse_in`, from the number the library read. -/
def ofPhoneNumber (lib : PhoneLib) (n : PhoneNumber) : Except MsisdnError Msisdn :=
  let national := String.ofList n.national
  if maxE164Digits < countryCodeDigits n.code + n.national.length then
    .error (.badLength n.national.length)
  else
    let plan := lib.metadata n
    let lineType := (plan.map (lineTypeOf · national)).getD .unallocated
    if lineType = .unallocated then
      if n.code = cmCountryCode ∧ n.national.length = 8 ∧ !"88".toList.isPrefixOf n.national then
        .error (.legacyEightDigit national)
      else if plan.any (lengthIsPossible · n.national.length) then .error (.unallocated national)
      else .error (.badLength n.national.length)
    else .ok
      { e164 := String.ofList n.e164
        nationalOffset := 1 + countryCodeDigits n.code
        region := plan.bind (lib.region ·.id)
        lineType := lineType }

/-- **`parse_in`**: a number without a country code is read against `region`. -/
def parseIn (lib : PhoneLib) (input region : String) : Except MsisdnError Msisdn :=
  match sanitise input with
  | .error e => .error e
  | .ok candidate =>
    match lib.parse region (String.ofList candidate) with
    | .error .invalidCountryCode =>
      .error (.unknownCountryCode (String.ofList (candidate.dropWhile (· = '+'))))
    | .error .badLength => .error (.badLength (candidate.filter (· ≠ '+')).length)
    | .ok n => ofPhoneNumber lib n

def parse (lib : PhoneLib) (input : String) : Except MsisdnError Msisdn := parseIn lib input "CM"

/-- **`parse_mobile_in`**: only lines an SMS can reach. -/
def parseMobileIn (lib : PhoneLib) (input region : String) : Except MsisdnError Msisdn :=
  match parseIn lib input region with
  | .error e => .error e
  | .ok m =>
    if m.lineType.isAddressable then .ok m else .error (.notAddressable m.national m.lineType)

/-- `parse_mobile` -/
def parseMobile (lib : PhoneLib) (input : String) : Except MsisdnError Msisdn :=
  parseMobileIn lib input "CM"

/-! ### The E.164 form -/

theorem isDigit_national {n : PhoneNumber} {c : Char} (h : c ∈ n.national) : c.isDigit = true := by
  rcases List.mem_append.mp h with h | h
  · rw [List.eq_of_mem_replicate h]
    rfl
  · exact Lib.Framing.isDigit_of_mem_repr h

theorem digit_not_stripped {c : Char} (h : c.isDigit = true) : c ∉ separators ∧ c ≠ '+' := by
  have hall : separators.all (fun d => !d.isDigit) = true := rfl
  have hsep : ∀ d ∈ separators, d.isDigit = false := by simpa using List.all_eq_true.mp hall
  refine ⟨fun hc => ?_, ?_⟩
  · rw [hsep c hc] at h
    cases h
  · rintro rfl
    revert h
    decide

/-- Digits are kept as they are. -/
theorem sanitiseLoop_digits {cs : List Char} (h : ∀ c ∈ cs, c.isDigit = true) :
    ∀ (out : List Char) (plus : Bool) (digits : ℕ), 0 < digits + cs.length →
      sanitiseLoop cs out plus digits = .ok (out.reverse ++ cs) := by
  induction cs with
  | nil =>
    intro out plus digits hd
    have hne : digits ≠ 0 := by simpa [Nat.pos_iff_ne_zero] using hd
    rw [sanitiseLoop, if_neg hne, List.append_nil]
  | cons c cs ih =>
    intro out plus digits _
    have hc := h c List.mem_cons_self
    obtain ⟨hsep, hplus⟩ := digit_not_stripped hc
    rw [sanitiseLoop, if_neg hsep, if_neg hplus, if_pos hc]
    rw [ih (fun d hd => h d (List.mem_cons_of_mem _ hd)) _ _ _ (by omega)]
    simp

/-- What is accepted has a digit. -/
theorem sanitiseLoop_isDigit {cs out kept : List Char} {plus : Bool} {digits : ℕ}
    (h : sanitiseLoop cs out plus digits = .ok kept) (hdigits : digits = 0) :
    ∃ c ∈ cs, c.isDigit = true := by
  induction cs generalizing out plus with
  | nil =>
    rw [sanitiseLoop, if_pos hdigits] at h
    exact absurd h (by simp)
  | cons c cs ih =>
    by_cases hc : c.isDigit = true
    · exact ⟨c, List.mem_cons_self, hc⟩
    · have hrest : ∃ out plus, sanitiseLoop cs out plus digits = .ok kept := by
        unfold sanitiseLoop at h
        split_ifs at h
        · exact ⟨_, _, h⟩
        · exact ⟨_, _, h⟩
      obtain ⟨out', plus', hrest⟩ := hrest
      obtain ⟨d, hd, hdigit⟩ := ih hrest
      exact ⟨d, List.mem_cons_of_mem c hd, hdigit⟩

theorem sanitise_e164 (n : PhoneNumber) : sanitise (String.ofList n.e164) = .ok n.e164 := by
  have hdigits : ∀ c ∈ (toString n.code).toList ++ n.national, c.isDigit = true := by
    intro c hc
    rcases List.mem_append.mp hc with hc | hc
    · exact Lib.Framing.isDigit_of_mem_repr hc
    · exact isDigit_national hc
  have hlen : 0 < 0 + ((toString n.code).toList ++ n.national).length := by
    have hne : (toString n.code).toList ≠ [] := by
      rw [Nat.toString_eq_repr, Nat.repr_eq_ofList_toDigits, String.toList_ofList]
      exact Nat.toDigits_ne_nil
    have := List.length_pos_iff.mpr hne
    rw [List.length_append]
    omega
  have hplus : '+' ∉ separators := by decide
  unfold sanitise PhoneNumber.e164
  rw [String.toList_ofList, sanitiseLoop, if_neg hplus, if_pos rfl]
  simp only [Bool.false_or, Nat.lt_irrefl, decide_false, Bool.false_eq_true, if_false]
  rw [sanitiseLoop_digits hdigits _ _ _ hlen]
  rfl

/-- The library reads a number's E.164 form as that number. -/
def PhoneLib.ReadsE164 (lib : PhoneLib) (n : PhoneNumber) : Prop :=
  lib.parse "CM" (String.ofList n.e164) = .ok n

/-- **A parsed number is the E.164 form of what the library read.** -/
theorem parse_ok {lib : PhoneLib} {input : String} {m : Msisdn} (h : parse lib input = .ok m) :
    ∃ n, ofPhoneNumber lib n = .ok m ∧ m.e164 = String.ofList n.e164 := by
  unfold parse parseIn at h
  split at h
  · cases h
  · split at h
    · cases h
    · cases h
    · next n _ =>
      refine ⟨n, h, ?_⟩
      unfold ofPhoneNumber at h
      dsimp only at h
      split_ifs at h
      cases h
      rfl

/-- **Parsing the stored form gives the number again.** -/
theorem parse_e164 {lib : PhoneLib} {n : PhoneNumber} {m : Msisdn}
    (h : ofPhoneNumber lib n = .ok m) (hread : lib.ReadsE164 n) :
    parse lib (String.ofList n.e164) = .ok m := by
  unfold parse parseIn
  rw [sanitise_e164]
  dsimp only
  rw [hread]
  exact h

theorem parseMobile_ok {lib : PhoneLib} {input : String} {m : Msisdn}
    (h : parseMobile lib input = .ok m) : parse lib input = .ok m := by
  unfold parseMobile parseMobileIn at h
  unfold parse
  split at h
  · cases h
  · next m' hm =>
    split_ifs at h
    cases h
    exact hm

/-- A text that is a number has a digit. -/
theorem parseMobile_isDigit {lib : PhoneLib} {input : String} {m : Msisdn}
    (h : parseMobile lib input = .ok m) : ∃ c ∈ input.toList, c.isDigit = true := by
  have hparse := parseMobile_ok h
  unfold parse parseIn at hparse
  split at hparse
  · exact absurd hparse (by simp)
  · next hsanitise => exact sanitiseLoop_isDigit hsanitise rfl

end Vsms.Core.Numbers
