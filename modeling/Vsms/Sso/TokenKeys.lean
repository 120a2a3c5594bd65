import Vsms.Hooks.Signature
import Vsms.Lib.Percent

/-! # The buckets of the token endpoint

A request to `/token` draws on a bucket that is named after its form: an authorization code is worth
a bucket of its own, named after the digest of the code and nothing else, and any other form is
counted by its client. The form is read as leniently as the handler reads it: fields can be
repeated, empty or percent-encoded, and bytes that are no UTF-8 become replacement characters.

Two forms that redeem a code draw on one bucket exactly if the codes are equal, as long as their
digests do not collide, and no other request draws on the bucket of a code (`token_buckets`). -/

namespace Vsms.Sso.TokenKeys

open Vsms.Lib.Framing Vsms.Lib.Percent Vsms.Hooks.Signature

/-! ## Reading the form -/

/-- What the UTF-8 decoder has of a character: how many bytes are still to come, the bounds of the
next one, and the bits so far. -/
structure Pending where
  needed : ℕ
  lower : ℕ
  upper : ℕ
  codePoint : ℕ

def Pending.idle : Pending := ⟨0, 0x80, 0xBF, 0⟩

/-- The replacement character. -/
def replacement : Char := Char.ofNat 0xFFFD

/-- The first byte of a character. -/
def firstByte (b : ℕ) : List Char × Pending :=
  if b ≤ 0x7F then ([Char.ofNat b], .idle)
  else if 0xC2 ≤ b ∧ b ≤ 0xDF then ([], ⟨1, 0x80, 0xBF, b % 0x20⟩)
  else if 0xE0 ≤ b ∧ b ≤ 0xEF then
    ([], ⟨2, if b = 0xE0 then 0xA0 else 0x80, if b = 0xED then 0x9F else 0xBF, b % 0x10⟩)
  else if 0xF0 ≤ b ∧ b ≤ 0xF4 then
    ([], ⟨3, if b = 0xF0 then 0x90 else 0x80, if b = 0xF4 then 0x8F else 0xBF, b % 8⟩)
  else ([replacement], .idle)

/-- The UTF-8 decoder: an ill-formed sequence is a replacement character, and the byte that breaks
it off is read again. -/
def utf8DecodeLossy : Pending → List UInt8 → List Char
  | pending, [] => if pending.needed = 0 then [] else [replacement]
  | pending, b :: bytes =>
    if pending.needed = 0 then
      (firstByte b.toNat).1 ++ utf8DecodeLossy (firstByte b.toNat).2 bytes
    else if b.toNat < pending.lower ∨ pending.upper < b.toNat then
      replacement :: ((firstByte b.toNat).1 ++ utf8DecodeLossy (firstByte b.toNat).2 bytes)
    else
      let codePoint := pending.codePoint * 64 + b.toNat % 64
      if pending.needed = 1 then Char.ofNat codePoint :: utf8DecodeLossy .idle bytes
      else utf8DecodeLossy ⟨pending.needed - 1, 0x80, 0xBF, codePoint⟩ bytes

/-- A name or a value: a plus sign is a space. -/
def decode (bytes : List UInt8) : String :=
  String.ofList (utf8DecodeLossy .idle
    (percentDecode (bytes.map fun b => if b = 43 then 32 else b)))

/-- **`form_urlencoded::parse`**: fields between `&`, but for empty ones, cut at the first `=`. -/
def parse (bytes : List UInt8) : List (String × String) :=
  ((bytes.splitOn 38).filter (· ≠ [])).map fun field =>
    (decode (field.takeWhile (· ≠ 61)), decode ((field.dropWhile (· ≠ 61)).drop 1))

inductive Field
  | absent
  | one (value : String)
  | repeated
  deriving DecidableEq, Repr

/-- **`form_field`** -/
def formField (bytes : List UInt8) (name : String) : Field :=
  match (parse bytes).filter (·.1 = name) with
  | [] => .absent
  | [(_, first)] => if first = "" then .absent else .one first
  | _ :: _ :: _ => .repeated

/-- **`client_id_from_form_body`** -/
def clientIdFromFormBody (bytes : List UInt8) : Option String :=
  (((parse bytes).find? (·.1 = "client_id")).map (·.2)).filter (· ≠ "")

/-! ## The bucket -/

def authorizationCode : String := "authorization_code"

variable (sha256 : List UInt8 → Tag)

/-- **`limit_key`** -/
def limitKey (bytes : List UInt8) : String :=
  if formField bytes "grant_type" = .one authorizationCode then
    match formField bytes "code" with
    | .one code => "code:" ++ hexEncode (sha256 (strBytes code)).toList
    | .absent => "authorization-code:no-code"
    | .repeated => "authorization-code:repeated-code"
  else
    match clientIdFromFormBody bytes with
    | none => "no-client-id"
    | some clientId => "client:" ++ clientId

/-- The key a request draws on: of its body, if that could be read. -/
def requestKey : Option (List UInt8) → String
  | some bytes => limitKey sha256 bytes
  | none => "oversized-or-unreadable-body"

/-- **The form redeems `code`**: it has one `grant_type`, which is that of a code, and one code,
which is not empty. -/
def Redeems (bytes : List UInt8) (code : String) : Prop :=
  (parse bytes).filter (·.1 = "grant_type") = [("grant_type", authorizationCode)] ∧
    (parse bytes).filter (·.1 = "code") = [("code", code)] ∧ code ≠ ""

theorem formField_eq_one {bytes : List UInt8} {name value : String} :
    formField bytes name = .one value ↔
      (parse bytes).filter (·.1 = name) = [(name, value)] ∧ value ≠ "" := by
  have hname : ∀ field ∈ (parse bytes).filter (·.1 = name), field.1 = name := fun field hfield => by
    simpa using (List.mem_filter.mp hfield).2
  unfold formField
  split
  · rename_i hnone
    simp [hnone]
  · rename_i first hone
    rw [hone] at hname ⊢
    have hfirst := hname _ (List.mem_singleton_self _)
    split_ifs with hempty
    · simp only [List.cons.injEq, Prod.mk.injEq, and_true, false_iff, not_and]
      rintro ⟨-, rfl⟩ hne
      exact hne hempty
    · simp only [Field.one.injEq, List.cons.injEq, Prod.mk.injEq, and_true]
      exact ⟨fun h => ⟨⟨hfirst, h⟩, h ▸ hempty⟩, fun h => h.1.2⟩
  · rename_i hmany
    simp [hmany]

theorem redeems_iff {bytes : List UInt8} {code : String} : Redeems bytes code ↔
    formField bytes "grant_type" = .one authorizationCode ∧ formField bytes "code" = .one code := by
  rw [formField_eq_one, formField_eq_one]
  exact ⟨fun h => ⟨⟨h.1, by decide⟩, h.2⟩, fun h => ⟨h.1.1, h.2⟩⟩

theorem limitKey_of_redeems {bytes : List UInt8} {code : String} (h : Redeems bytes code) :
    limitKey sha256 bytes = "code:" ++ hexEncode (sha256 (strBytes code)).toList := by
  obtain ⟨hgrant, hcode⟩ := redeems_iff.mp h
  unfold limitKey
  rw [if_pos hgrant, hcode]

/-- The keys of the requests that redeem no code: one of four, or that of a client. -/
def OtherKey (key : String) : Prop :=
  key ∈ ["authorization-code:no-code", "authorization-code:repeated-code", "no-client-id",
    "oversized-or-unreadable-body"] ∨ ∃ clientId, key = "client:" ++ clientId

theorem otherKey_of_not_redeems {body : Option (List UInt8)}
    (h : ∀ bytes code, body = some bytes → ¬ Redeems bytes code) :
    OtherKey (requestKey sha256 body) := by
  cases body with
  | none => exact .inl (by simp [requestKey])
  | some bytes =>
    unfold requestKey limitKey
    dsimp only
    split_ifs with hgrant
    · split
      · rename_i code hcode
        exact absurd (redeems_iff.mpr ⟨hgrant, hcode⟩) (h bytes code rfl)
      · exact .inl (by simp)
      · exact .inl (by simp)
    · split
      · exact .inl (by simp)
      · rename_i clientId _
        exact .inr ⟨clientId, rfl⟩

/-- No such key is that of a code. -/
theorem OtherKey.ne_code {key : String} (h : OtherKey key) (digest : String) :
    key ≠ "code:" ++ digest := by
  intro heq
  have hchars := congrArg (fun s => s.toList.take 2) heq
  rw [String.toList_append] at hchars
  rcases h with h | ⟨clientId, rfl⟩
  · simp only [List.mem_cons, List.not_mem_nil, or_false] at h
    rcases h with rfl | rfl | rfl | rfl <;> exact absurd hchars (by simp)
  · rw [String.toList_append] at hchars
    exact absurd hchars (by simp)

/-- **The buckets of codes.** Two forms that redeem a code have one key exactly if the codes are
equal, provided their digests do not collide, whatever else is in the forms; and a request that
redeems no code, readable or not, has another key. -/
theorem token_buckets (bytes : List UInt8) (code : String) (h : Redeems bytes code) :
    (∀ bytes' code', Redeems bytes' code' →
      (sha256 (strBytes code) = sha256 (strBytes code') → strBytes code = strBytes code') →
      (requestKey sha256 (some bytes) = requestKey sha256 (some bytes') ↔ code = code')) ∧
    ∀ body : Option (List UInt8), (∀ bytes' code', body = some bytes' → ¬ Redeems bytes' code') →
      requestKey sha256 (some bytes) ≠ requestKey sha256 body := by
  have hkey : requestKey sha256 (some bytes) =
      "code:" ++ hexEncode (sha256 (strBytes code)).toList :=
    limitKey_of_redeems sha256 h
  rw [hkey]
  constructor
  · intro bytes' code' h' hcollision
    have hkey' : requestKey sha256 (some bytes') =
        "code:" ++ hexEncode (sha256 (strBytes code')).toList :=
      limitKey_of_redeems sha256 h'
    rw [hkey']
    constructor
    · intro heq
      have hchars := congrArg String.toList heq
      rw [String.toList_append, String.toList_append] at hchars
      have hhex := hexEncode_injective (String.toList_inj.mp (List.append_cancel_left hchars))
      exact strBytes_injective (hcollision (Vector.toList_inj.mp hhex))
    · rintro rfl
      rfl
  · intro body hbody heq
    exact (otherKey_of_not_redeems sha256 hbody).ne_code _ heq.symm

/-! ### Two spellings of a code -/

def consoleForm : List UInt8 :=
  strBytes "grant_type=authorization_code&client_id=sms-console&code=abc"

/-- The same code, of another client. -/
def spelledForm : List UInt8 :=
  strBytes "code=ab%63&grant_type=authorization_code&client_id=another"

def repeatedForm : List UInt8 := strBytes "grant_type=authorization_code&code=abc&code=abc"

/-- SHA-256 of the code. -/
def sampleSha256 (_ : List UInt8) : Tag :=
  #v[0xba, 0x78, 0x16, 0xbf, 0x8f, 0x01, 0xcf, 0xea, 0x41, 0x41, 0x40, 0xde, 0x5d, 0xae, 0x22, 0x23,
    0xb0, 0x03, 0x61, 0xa3, 0x96, 0x17, 0x7a, 0x9c, 0xb4, 0x10, 0xff, 0x61, 0xf2, 0x00, 0x15, 0xad]

instance (bytes : List UInt8) (code : String) : Decidable (Redeems bytes code) :=
  inferInstanceAs (Decidable (_ ∧ _ ∧ _))

theorem token_buckets_abc :
    requestKey sampleSha256 (some consoleForm) = requestKey sampleSha256 (some spelledForm) ∧
      requestKey sampleSha256 (some consoleForm) ≠ requestKey sampleSha256 (some repeatedForm) ∧
      requestKey sampleSha256 (some consoleForm) ≠ requestKey sampleSha256 none := by
  have hredeems : Redeems consoleForm "abc" := by decide +kernel
  obtain ⟨hsame, hother⟩ := token_buckets sampleSha256 consoleForm "abc" hredeems
  refine ⟨(hsame spelledForm "abc" (by decide +kernel) fun _ => rfl).mpr rfl, hother _ ?_,
    hother _ ?_⟩
  · rintro bytes code ⟨⟩ h
    have hrepeated : formField repeatedForm "code" = .repeated := by decide +kernel
    rw [(redeems_iff.mp h).2] at hrepeated
    cases hrepeated
  · rintro bytes code ⟨⟩

end Vsms.Sso.TokenKeys
