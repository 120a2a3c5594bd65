import Mathlib
import Vsms.Hooks.Signature

/-! # What a signature binds

The tags of a delivery are taken of four lines: the version, the timestamp, the event id and the
digest of the body. A decimal number has no line break in it and a digest has a fixed length, so the
lines can be told apart whatever the event id is (`canonicalString_inj`). A receiver then accepts
what shares a secret with it, accepts nothing else as long as the hashes involved do not collide,
and is not put off by entries it cannot read (`signature_scheme`). -/

namespace Vsms.Hooks.Scheme

open Vsms.Lib.Framing Vsms.Hooks.Signature

variable {sha256 : List UInt8 → Tag} {hmac : List UInt8 → List UInt8 → Tag}

/-! ## The canonical string -/

theorem newline_notMem_toString (timestamp : ℤ) : '\n' ∉ (toString timestamp).toList := by
  rw [Int.toString_eq_repr, Int.repr_eq_if]
  split
  · exact notMem_repr rfl _
  · rw [String.toList_append]
    intro h
    rcases List.mem_append.mp h with h | h
    · exact absurd h (by decide)
    · exact notMem_repr rfl _ h

/-- The digits of a digest, two for each of its 32 bytes. -/
theorem length_toList_hexEncode (tag : Tag) : (hexEncode tag.toList).toList.length = 64 := by
  unfold hexEncode
  rw [String.toList_ofList, List.length_flatMap]
  simp [hexDigits]

theorem toList_canonicalString (timestamp : ℤ) (eventId : String) (body : List UInt8) :
    (canonicalString sha256 timestamp eventId body).toList = "v1\n".toList ++
      ((toString timestamp).toList ++ '\n' ::
        (eventId.toList ++ ("\n".toList ++ (hexEncode (sha256 body).toList).toList))) := by
  unfold canonicalString
  simp only [String.toList_append, List.append_assoc]
  rfl

/-- **The lines are read back**, the last one up to the digest. -/
theorem canonicalString_inj {timestamp timestamp' : ℤ} {eventId eventId' : String}
    {body body' : List UInt8}
    (h : canonicalString sha256 timestamp eventId body =
      canonicalString sha256 timestamp' eventId' body') :
    timestamp = timestamp' ∧ eventId = eventId' ∧ sha256 body = sha256 body' := by
  have hchars := congrArg String.toList h
  rw [toList_canonicalString, toList_canonicalString] at hchars
  obtain ⟨htime, hrest⟩ := word_unique (newline_notMem_toString timestamp)
    (newline_notMem_toString timestamp') (List.append_cancel_left hchars)
  -- The event id may have line breaks in it: what follows it is cut off by its length.
  obtain ⟨hid, htail⟩ :=
    List.append_inj' hrest (by simp only [List.length_append, length_toList_hexEncode])
  have hdigest := hexEncode_injective (String.toList_inj.mp (List.append_cancel_left htail))
  refine ⟨Int.repr_injective ?_, String.toList_inj.mp hid, Vector.toList_inj.mp hdigest⟩
  exact String.toList_inj.mp htime

/-! ## Secrets and entries -/

/-- The signer and the receiver have a secret in common, and it is not empty. -/
def Share (secrets keys : List String) : Prop := ∃ key ∈ keys, key ∈ secrets ∧ key ≠ ""

/-- The signer's tags of one text are the receiver's of another only for one secret and one text. -/
def NoCollision (hmac : List UInt8 → List UInt8 → Tag) (secrets keys : List String)
    (canonical canonical' : String) : Prop :=
  ∀ secret ∈ secrets, ∀ key ∈ keys, mac hmac secret canonical = mac hmac key canonical' →
    secret = key ∧ canonical = canonical'

/-- What is between the commas of a header. -/
def entries (header : String) : List (List Char) := header.toList.splitOn ','

/-- A header put before another, or after it, or between two, adds its entries. -/
theorem entries_append (header header' : String) :
    entries (header ++ "," ++ header') = entries header ++ entries header' := by
  unfold entries
  rw [String.toList_append, String.toList_append, List.append_assoc]
  exact List.splitOn_append_cons_self _ _

theorem presentedTags_subset {header header' : String} (h : entries header ⊆ entries header') :
    presentedTags header ⊆ presentedTags header' :=
  List.filterMap_subset _ (List.filterMap_subset _ (List.map_subset _ h))

theorem verify_of_share {secrets keys : List String} (h : Share secrets keys) (timestamp : ℤ)
    (eventId : String) (body : List UInt8) :
    verify sha256 hmac keys timestamp eventId body
      (signHeader sha256 hmac secrets timestamp eventId body) = true := by
  obtain ⟨key, hkey, hsecret, hne⟩ := h
  exact verify_signHeader.mpr ⟨key, hkey, hne, key, hsecret, rfl⟩

/-- **What is accepted was signed**, with a secret of the receiver. -/
theorem eq_of_verify {secrets keys : List String} {timestamp timestamp' : ℤ}
    {eventId eventId' : String} {body body' : List UInt8}
    (hbody : sha256 body = sha256 body' → body = body')
    (hmac_inj : NoCollision hmac secrets keys (canonicalString sha256 timestamp eventId body)
      (canonicalString sha256 timestamp' eventId' body'))
    (h : verify sha256 hmac keys timestamp' eventId' body'
      (signHeader sha256 hmac secrets timestamp eventId body) = true) :
    Share secrets keys ∧ (timestamp', eventId', body') = (timestamp, eventId, body) := by
  obtain ⟨key, hkey, hne, secret, hsecret, htag⟩ := verify_signHeader.mp h
  obtain ⟨rfl, hcanonical⟩ := hmac_inj secret hsecret key hkey htag
  obtain ⟨rfl, rfl, hdigest⟩ := canonicalString_inj hcanonical
  rw [hbody hdigest]
  exact ⟨⟨secret, hkey, hsecret, hne⟩, rfl⟩

/-- **The scheme.** For all secrets of the signer and of the receiver and everything that is signed:
if they share a secret that is not empty, the delivery is accepted; two canonical strings are equal
only for one timestamp, event id and body, if the digests of the bodies do not collide; what the
receiver accepts is what was signed and they share a secret, if the tags do not collide either; and
a header that has all the entries of an accepted one is accepted, whatever else it has. -/
theorem signature_scheme (sha256 : List UInt8 → Tag) (hmac : List UInt8 → List UInt8 → Tag)
    (secrets keys : List String) (timestamp : ℤ) (eventId : String) (body : List UInt8) :
    (Share secrets keys → verify sha256 hmac keys timestamp eventId body
      (signHeader sha256 hmac secrets timestamp eventId body) = true) ∧
    (∀ timestamp' eventId' body', (sha256 body = sha256 body' → body = body') →
      canonicalString sha256 timestamp eventId body =
        canonicalString sha256 timestamp' eventId' body' →
      (timestamp, eventId, body) = (timestamp', eventId', body')) ∧
    (∀ timestamp' eventId' body', (sha256 body = sha256 body' → body = body') →
      NoCollision hmac secrets keys (canonicalString sha256 timestamp eventId body)
        (canonicalString sha256 timestamp' eventId' body') →
      verify sha256 hmac keys timestamp' eventId' body'
        (signHeader sha256 hmac secrets timestamp eventId body) = true →
      Share secrets keys ∧ (timestamp', eventId', body') = (timestamp, eventId, body)) ∧
    ∀ header header', entries header ⊆ entries header' →
      verify sha256 hmac keys timestamp eventId body header = true →
      verify sha256 hmac keys timestamp eventId body header' = true := by
  refine ⟨fun h => verify_of_share h timestamp eventId body, ?_, ?_, ?_⟩
  · intro timestamp' eventId' body' hbody h
    obtain ⟨rfl, rfl, hdigest⟩ := canonicalString_inj h
    rw [hbody hdigest]
  · intro timestamp' eventId' body' hbody hmac_inj h
    exact eq_of_verify hbody hmac_inj h
  · intro header header' hsub h
    obtain ⟨key, hkey, hne, htag⟩ := verify_iff.mp h
    exact verify_iff.mpr ⟨key, hkey, hne, presentedTags_subset hsub htag⟩

/-! ### The documented delivery -/

def sampleSecrets : List String := ["test-secret", "old-secret"]

def sampleEventId : String := "11111111-1111-4111-8111-111111111111"

def sampleBody : List UInt8 := strBytes "\x7b\"hello\":\"world\"\x7d"

/-- SHA-256 of the body. -/
def sampleSha256 (_ : List UInt8) : Tag :=
  #v[0x93, 0xa2, 0x39, 0x71, 0xa9, 0x14, 0xe5, 0xea, 0xcb, 0xf0, 0xa8, 0xd2, 0x51, 0x54, 0xcd, 0xa3,
    0x09, 0xc3, 0xc1, 0xc7, 0x2f, 0xbb, 0x99, 0x14, 0xd4, 0x7c, 0x60, 0xf3, 0xcb, 0x68, 0x15, 0x88]

def sampleCanonical : String := canonicalString sampleSha256 1700000000 sampleEventId sampleBody

/-- HMAC-SHA256 on that string under the two secrets; on others, a tag that neither has. -/
def sampleHmac (key message : List UInt8) : Tag :=
  if message ≠ strBytes sampleCanonical then Vector.replicate 32 0
  else if key = strBytes "test-secret" then
    #v[0xd1, 0xaf, 0x37, 0xfc, 0x05, 0x41, 0x2e, 0x99, 0x17, 0xcc, 0x04, 0x18, 0xd4,
      0x15, 0x00, 0x57, 0x1b, 0xdb, 0x69, 0x8c, 0xc3, 0x72, 0x05, 0xf7, 0x78, 0x6e, 0x36, 0x26,
      0x70, 0x65, 0xcb, 0x93]
  else
    #v[0x2e, 0x28, 0x4c, 0xbe, 0x3a, 0x61, 0x83, 0xac, 0x06, 0xcd, 0x38, 0x1f, 0x56,
      0xc3, 0xf0, 0x37, 0xfe, 0xcc, 0x73, 0x8b, 0x3e, 0x82, 0x31, 0xd0, 0xf3, 0x3f, 0x4f, 0x6f,
      0x9d, 0x06, 0x29, 0xe4]

def sampleHeader : String :=
  signHeader sampleSha256 sampleHmac sampleSecrets 1700000000 sampleEventId sampleBody

theorem sampleCanonical_ne : strBytes (canonicalString sampleSha256 1700000001 sampleEventId
    sampleBody) ≠ strBytes sampleCanonical := by decide +kernel

/-- A receiver that has not learnt the new secret, and entries of no scheme it knows. -/
theorem signature_scheme_rotated :
    verify sampleSha256 sampleHmac ["", "old-secret"] 1700000000 sampleEventId sampleBody
      ("v2=00,v1=zz" ++ "," ++ sampleHeader) = true ∧
    ¬ verify sampleSha256 sampleHmac ["", "old-secret"] 1700000001 sampleEventId sampleBody
      sampleHeader = true := by
  obtain ⟨haccept, -, honly, hextra⟩ := signature_scheme sampleSha256 sampleHmac sampleSecrets
    ["", "old-secret"] 1700000000 sampleEventId sampleBody
  constructor
  · refine hextra sampleHeader _ ?_ (haccept ⟨"old-secret", by decide, by decide, by decide⟩)
    rw [entries_append]
    exact List.subset_append_right _ _
  · intro h
    have hfree : NoCollision sampleHmac sampleSecrets ["", "old-secret"] sampleCanonical
        (canonicalString sampleSha256 1700000001 sampleEventId sampleBody) := by
      intro secret hsecret key hkey htag
      unfold mac sampleHmac at htag
      rw [if_neg (not_not.mpr rfl), if_pos sampleCanonical_ne] at htag
      split at htag <;> exact absurd htag (by decide)
    have heq := (honly 1700000001 sampleEventId sampleBody (fun _ => rfl) hfree h).2
    exact absurd (congrArg Prod.fst heq) (by decide)

end Vsms.Hooks.Scheme
