import Vsms.Lib.Framing
import Vsms.Core.Pack

/-! # `X-Sms-Signature`

A delivery of an `hmac` endpoint is signed once with each secret it is given, `v1=<hex>` values with
commas between them, and a receiver accepts it if one of the values is what one of its own secrets
gives. The header is read back as it was written, so a receiver accepts a delivery exactly if one of
its secrets, or one with the same tag, is among those it was signed with (`verify_signHeader`).
SHA-256 and HMAC are parameters. -/

namespace Vsms.Hooks.Signature

open Vsms.Lib.Framing Vsms.Core.Pack

/-- A SHA-256 digest, or a tag of HMAC-SHA256. -/
abbrev Tag := Vector UInt8 32

section hmac
variable (sha256 : List UInt8 → Tag) (hmac : List UInt8 → List UInt8 → Tag)

/-- **`canonical_string`** -/
def canonicalString (timestamp : ℤ) (eventId : String) (body : List UInt8) : String :=
  "v1\n" ++ toString timestamp ++ "\n" ++ eventId ++ "\n" ++ hexEncode (sha256 body).toList

/-- The tag of a text under a secret. -/
def mac (secret canonical : String) : Tag := hmac (strBytes secret) (strBytes canonical)

/-- One value of the header, `v1=` and the digits of `sign_canonical`. -/
def headerEntry (secret canonical : String) : List Char :=
  ['v', '1', '='] ++ (mac hmac secret canonical).toList.flatMap hexDigits

/-- **`sign_header`** -/
def signHeader (secrets : List String) (timestamp : ℤ) (eventId : String) (body : List UInt8) :
    String :=
  let canonical := canonicalString sha256 timestamp eventId body
  String.ofList ([','].intercalate (secrets.map fun secret => headerEntry hmac secret canonical))

def stripV1 : List Char → Option (List Char)
  | 'v' :: '1' :: '=' :: rest => some rest
  | _ => none

/-- The tags of a header; what is not a `v1=` value in hexadecimal is passed over. -/
def presentedTags (signatureHeader : String) : List (List UInt8) :=
  (((signatureHeader.toList.splitOn ',').map trim).filterMap stripV1).filterMap hexDecode

/-- **`verify`** -/
def verify (candidateSecrets : List String) (timestamp : ℤ) (eventId : String) (body : List UInt8)
    (signatureHeader : String) : Bool :=
  let canonical := canonicalString sha256 timestamp eventId body
  let tags := presentedTags signatureHeader
  if tags = [] then false
  else (candidateSecrets.filter fun secret => secret ≠ "").any fun secret =>
    tags.any fun tag => (mac hmac secret canonical).toList = tag

variable {sha256 hmac}

/-! ## The header is read back -/

theorem plain_digitChar : ∀ n < 16,
    Nat.digitChar n ≠ ',' ∧ isWhitespace (Nat.digitChar n) = false := by decide

/-- A value has no comma and no space in it. -/
theorem headerEntry_plain {secret canonical : String} :
    ∀ c ∈ headerEntry hmac secret canonical, c ≠ ',' ∧ isWhitespace c = false := by
  intro c hc
  have hv1 : ∀ c ∈ ['v', '1', '='], c ≠ ',' ∧ isWhitespace c = false := by simp [isWhitespace]
  rcases List.mem_append.mp hc with hc | hc
  · exact hv1 c hc
  · obtain ⟨b, -, hb⟩ := List.mem_flatMap.mp hc
    have hlt : b.toNat < 256 := b.toNat_lt
    rcases List.mem_cons.mp hb with rfl | hb
    · exact plain_digitChar _ (by omega)
    · rw [List.mem_singleton.mp hb]
      exact plain_digitChar _ (by omega)

theorem presentedTags_signHeader (secrets : List String) (timestamp : ℤ) (eventId : String)
    (body : List UInt8) :
    presentedTags (signHeader sha256 hmac secrets timestamp eventId body) =
      secrets.map fun secret =>
      (mac hmac secret (canonicalString sha256 timestamp eventId body)).toList := by
  by_cases hne : secrets = []
  · -- No secret, and the one entry of the header is empty.
    subst hne
    unfold presentedTags signHeader
    simp only [List.map_nil, String.toList_ofList]
    rfl
  unfold presentedTags signHeader
  dsimp only
  rw [String.toList_ofList, List.splitOn_intercalate]
  · rw [List.map_map, List.filterMap_map, List.filterMap_filterMap, ← List.filterMap_eq_map]
    congr 1
    funext secret
    have htrim : trim (headerEntry hmac secret (canonicalString sha256 timestamp eventId body)) =
        headerEntry hmac secret (canonicalString sha256 timestamp eventId body) :=
      trim_of_all fun c hc => (headerEntry_plain c hc).2
    simp only [Function.comp_apply, htrim]
    exact hexDecode_flatMap _
  · intro l hl hcomma
    obtain ⟨secret, -, rfl⟩ := List.mem_map.mp hl
    exact (headerEntry_plain _ hcomma).1 rfl
  · simpa using hne

/-- A header is accepted for the tag of one of the secrets, of those that are not empty. -/
theorem verify_iff {keys : List String} {timestamp : ℤ} {eventId : String} {body : List UInt8}
    {header : String} :
    verify sha256 hmac keys timestamp eventId body header = true ↔ ∃ key ∈ keys, key ≠ "" ∧
      (mac hmac key (canonicalString sha256 timestamp eventId body)).toList ∈
        presentedTags header := by
  unfold verify
  dsimp only
  by_cases htags : presentedTags header = []
  · simp [htags]
  · rw [if_neg htags]
    simp

/-- **A receiver accepts what was signed** with one of its secrets, or with one that has the same
tag. -/
theorem verify_signHeader {keys secrets : List String} {timestamp timestamp' : ℤ}
    {eventId eventId' : String} {body body' : List UInt8} :
    verify sha256 hmac keys timestamp' eventId' body'
        (signHeader sha256 hmac secrets timestamp eventId body) = true ↔
      ∃ key ∈ keys, key ≠ "" ∧ ∃ secret ∈ secrets,
        mac hmac secret (canonicalString sha256 timestamp eventId body) =
          mac hmac key (canonicalString sha256 timestamp' eventId' body') := by
  rw [verify_iff, presentedTags_signHeader]
  simp only [List.mem_map, Vector.toList_inj]

end hmac

end Vsms.Hooks.Signature
