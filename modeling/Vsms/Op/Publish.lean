import Vsms.Op.SigningKeys

/-! # Publishing the signing keys

A `Keyring` holds the key that signs and the key set that is published, each under its own lock.
`Keyring::publish` writes the key set, then the signing key. Within one call that order is enough if
the new set still has the old key; two calls can interleave, and then the set written last may lack
the key that the other call goes on to sign with. The order is enough exactly if every set that is
written has the key that signs and the keys of the calls between their two writes
(`signing_key_published_iff`). -/

namespace Vsms.Op.Publish

open Vsms.Lib.Runs Vsms.Schema.Types Vsms.Op.SigningKeys

section keyring
variable {T J : Type*}

/-- **`Keyring`** -/
structure Keyring (T J : Type*) where
  tokens : T
  jwks : J

/-- What a call publishes: a key set that has its key. -/
structure Load (Has : J → T → Prop) where
  tokens : T
  jwks : J
  has : Has jwks tokens

variable (Has : J → T → Prop)

/-- A call of `publish`. -/
inductive Call
  | idle
  /-- Before its writes. -/
  | loaded (load : Load Has)
  /-- The key set is written, the signing key is not. -/
  | between (tokens : T)

/-- The keyring, and the calls: the periodic refresh, and the forced reloads. -/
structure Sys where
  ring : Keyring T J
  calls : ℕ → Call Has

inductive Action
  | load (p : ℕ) (load : Load Has)
  | writeJwks (p : ℕ)
  | writeTokens (p : ℕ)

variable {Has}

/-- `Keyring::new`, and no call yet. -/
def init (load : Load Has) : Sys Has := ⟨⟨load.tokens, load.jwks⟩, fun _ => .idle⟩

def step (s : Sys Has) : Action Has → Option (Sys Has)
  | .load p load =>
    match s.calls p with
    | .idle => some { s with calls := Function.update s.calls p (.loaded load) }
    | _ => none
  | .writeJwks p =>
    match s.calls p with
    | .loaded load => some ⟨{ s.ring with jwks := load.jwks },
        Function.update s.calls p (.between load.tokens)⟩
    | _ => none
  | .writeTokens p =>
    match s.calls p with
    | .between tokens => some ⟨{ s.ring with tokens }, Function.update s.calls p .idle⟩
    | _ => none

/-- **The key that signs is published.** -/
def Published (s : Sys Has) : Prop := Has s.ring.jwks s.ring.tokens

/-- **A key set is written only if it has the key that signs, and the key of every other call
between its two writes.** -/
def KeepsKeys (s : Sys Has) : Action Has → Sys Has → Prop
  | .writeJwks p, _ => ∀ load, s.calls p = .loaded load → Has load.jwks s.ring.tokens ∧
      ∀ q tokens, s.calls q = .between tokens → Has load.jwks tokens
  | _, _ => True

/-- The second write of a call. -/
def Action.IsSecond : Action Has → Prop
  | .writeTokens _ => True
  | _ => False

/-- The key set has the key that signs, and those that calls are about to sign with. -/
structure Covers (s : Sys Has) : Prop where
  published : Published s
  between : ∀ p tokens, s.calls p = .between tokens → Has s.ring.jwks tokens

variable {s s' : Sys Has} {a : Action Has}

theorem Covers.step (hs : Covers s) (h : step s a = some s') (hkeeps : KeepsKeys s a s') :
    Covers s' := by
  cases a with
  | load p load =>
    dsimp only [Publish.step] at h
    split at h
    · rw [← Option.some.inj h]
      refine ⟨hs.published, fun q tokens hq => ?_⟩
      rcases update_cases (fun c => c) hq with ⟨-, hq⟩ | ⟨-, hq⟩
      · exact absurd hq (by simp)
      · exact hs.between q tokens hq
    · exact absurd h (by simp)
  | writeJwks p =>
    dsimp only [Publish.step] at h
    split at h
    · next load hp =>
      rw [← Option.some.inj h]
      obtain ⟨hcurrent, hothers⟩ := hkeeps load hp
      refine ⟨hcurrent, fun q tokens hq => ?_⟩
      rcases update_cases (fun c => c) hq with ⟨-, hq⟩ | ⟨-, hq⟩
      · rw [← Call.between.inj hq]
        exact load.has
      · exact hothers q tokens hq
    · exact absurd h (by simp)
  | writeTokens p =>
    dsimp only [Publish.step] at h
    split at h
    · next tokens hp =>
      rw [← Option.some.inj h]
      refine ⟨hs.between p tokens hp, fun q tokens' hq => ?_⟩
      rcases update_cases (fun c => c) hq with ⟨-, hq⟩ | ⟨-, hq⟩
      · exact absurd hq (by simp)
      · exact hs.between q tokens' hq
    · exact absurd h (by simp)

/-- After a key set is written that lacks a key in use, or about to be, that key can sign. -/
theorem exists_unpublished (h : step s a = some s') (hkeeps : ¬ KeepsKeys s a s') :
    ∃ bs v, (∀ b ∈ bs, Action.IsSecond b) ∧ exec step s' bs = some v ∧ ¬ Published v := by
  cases a with
  | writeJwks p =>
    unfold KeepsKeys at hkeeps
    push Not at hkeeps
    obtain ⟨load, hp, hothers⟩ := hkeeps
    have hs' : s' = ⟨{ s.ring with jwks := load.jwks },
        Function.update s.calls p (.between load.tokens)⟩ := by
      simp only [step, hp] at h
      exact (Option.some.inj h).symm
    by_cases hcurrent : Has load.jwks s.ring.tokens
    · obtain ⟨q, tokens, hq, hlacks⟩ := hothers hcurrent
      have hqp : q ≠ p := by
        rintro rfl
        rw [hp] at hq
        exact absurd hq (by simp)
      have hv : step s' (.writeTokens q) = some ⟨{ s'.ring with tokens },
          Function.update s'.calls q .idle⟩ := by
        simp [step, hs', hqp, hq]
      refine ⟨[.writeTokens q], _, by simp [Action.IsSecond], exec_cons.mpr ⟨_, hv, rfl⟩, ?_⟩
      simpa [Published, hs'] using hlacks
    · exact ⟨[], s', by simp, rfl, by simpa [Published, hs'] using hcurrent⟩
  | _ => exact absurd trivial hkeeps

/-- **The order of the writes is enough exactly if every key set has the keys in use.** -/
theorem published_iff (load : Load Has) (as : List (Action Has)) :
    Along step KeepsKeys (init load) as ↔
    AlwaysThen step Action.IsSecond Published (init load) as := by
  refine along_iff_alwaysThen (fun b hb s s' => ?_) (fun as h => ?_)
    (fun pre a t u _ hu hkeeps => ?_)
  · cases b with
    | writeTokens => exact trivial
    | _ => exact absurd hb id
  · exact h.always (I := Covers) (fun s hs => hs.published)
      (fun s a s' hs ha hkeeps => hs.step ha hkeeps) ⟨load.has, by simp [init]⟩
  · exact exists_unpublished hu hkeeps

end keyring

/-! ## The provider's keyring -/

/-- A key that verifies. -/
structure DecodingKey where
  n : String
  e : String
  deriving DecidableEq, Repr

/-- **`PublishedKeys`**: what `/jwks.json` serves, and the same keys as the bearer door looks them
up. -/
structure PublishedKeys where
  jwks : List Jwk
  verify : List (String × DecodingKey)
  deriving DecidableEq, Repr

section published
variable (fromRsaComponents : String → String → Option DecodingKey)

/-- A key without a `kid` or RSA components verifies nothing. -/
def verifyEntry (jwk : Jwk) : Option (String × DecodingKey) := do
  let kid ← jwk.kid
  let key ← fromRsaComponents (← jwk.n) (← jwk.e)
  some (kid, key)

/-- `PublishedKeys::new` -/
def PublishedKeys.new (jwks : List Jwk) : PublishedKeys :=
  ⟨jwks, jwks.filterMap (verifyEntry fromRsaComponents)⟩

/-- `PublishedKeys::decoding_key`; of two entries for one `kid` the later is in the map. -/
def PublishedKeys.decodingKey (keys : PublishedKeys) (kid : String) : Option DecodingKey :=
  keys.verify.reverse.lookup kid

/-- The key's `kid` is in `/jwks.json`, and known at the bearer door. -/
structure Advertises (keys : PublishedKeys) (tokens : TokenManager) : Prop where
  jwks : ∃ jwk ∈ keys.jwks, jwk.kid = some tokens.kid
  door : (keys.decodingKey tokens.kid).isSome = true

/-- The stored keys are RSA keys: they have a public half that verifies. -/
def Rsa (lib : TokenLib) (rows : List OauthSigningKey) : Prop :=
  ∀ row ∈ rows, ∃ jwk key, lib.publicJwk row.privateKeyPem row.id = some jwk ∧
    verifyEntry fromRsaComponents jwk = some (row.id, key)

variable {fromRsaComponents}

theorem isSome_lookup {kid : String} (key : DecodingKey) {entries : List (String × DecodingKey)}
    (h : (kid, key) ∈ entries) : (entries.lookup kid).isSome = true := by
  induction entries with
  | nil => exact absurd h List.not_mem_nil
  | cons entry entries ih =>
    by_cases hkid : kid = entry.1
    · simp [hkid]
    · rcases List.mem_cons.mp h with rfl | h
      · exact absurd rfl hkid
      · simpa [List.lookup_cons, hkid] using ih h

theorem kid_of_verifyEntry {jwk : Jwk} {kid : String} {key : DecodingKey}
    (h : verifyEntry fromRsaComponents jwk = some (kid, key)) : jwk.kid = some kid := by
  unfold verifyEntry at h
  simp only [Option.bind_eq_bind, Option.bind_eq_some_iff] at h
  obtain ⟨kid', hkid, n, -, e, -, key', -, heq⟩ := h
  rw [hkid, (Prod.mk.inj (Option.some.inj heq)).1]

/-- **A load publishes every key that is active or not yet expired.** -/
theorem advertises_of_valid {lib : TokenLib} {issuer : String} {rows : List OauthSigningKey}
    {now : Time} {signing : TokenManager} {jwks : List Jwk} (hrsa : Rsa fromRsaComponents lib rows)
    (hload : loadSigningKeys lib issuer rows now = .ok (signing, jwks)) {row : OauthSigningKey}
    (hrow : row ∈ rows) (hvalid : row.valid now = true) :
    Advertises (PublishedKeys.new fromRsaComponents jwks) (row.manager issuer) := by
  obtain ⟨jwk, key, hjwk, hkey⟩ := hrsa row hrow
  have hmem : jwk ∈ jwks := by
    rw [(loadSigningKeys_ok hload).2]
    exact List.mem_filterMap.mpr ⟨row, mem_validRows.mpr ⟨hrow, hvalid⟩, hjwk⟩
  refine ⟨⟨jwk, hmem, kid_of_verifyEntry hkey⟩, isSome_lookup key ?_⟩
  rw [List.mem_reverse]
  exact List.mem_filterMap.mpr ⟨jwk, hmem, hkey⟩

/-- **A load is one that can be published**: its key set has its key. -/
theorem advertises_of_load {lib : TokenLib} {issuer : String} {rows : List OauthSigningKey}
    {now : Time} {signing : TokenManager} {jwks : List Jwk} (hrsa : Rsa fromRsaComponents lib rows)
    (hload : loadSigningKeys lib issuer rows now = .ok (signing, jwks)) :
    Advertises (PublishedKeys.new fromRsaComponents jwks) signing := by
  obtain ⟨row, hrow, hactive, rfl⟩ := (loadSigningKeys_ok hload).1
  exact advertises_of_valid hrsa hload hrow (by simp [OauthSigningKey.valid, hactive])

end published

/-- **`/jwks.json` and the bearer door have the key that signs exactly as long as every key set
written has the keys in use**, whatever the periodic refresh and the forced reloads load, in any
order of their writes. -/
theorem signing_key_published_iff (load : Load Advertises) (as : List (Action Advertises)) :
    Along step KeepsKeys (init load) as ↔
    AlwaysThen step Action.IsSecond Published (init load) as :=
  published_iff load as

/-- The key set of two keys' names. -/
def keySet (kids : List String) : PublishedKeys :=
  .new (fun n e => some ⟨n, e⟩) (kids.map fun kid => ⟨some kid, some kid, some "AQAB"⟩)

/-- What is loaded before a rotation. -/
def loadBefore : Load Advertises :=
  ⟨⟨"issuer", "a", "pem"⟩, keySet ["a"], ⟨_, List.mem_cons_self, rfl⟩, rfl⟩

/-- What is loaded after it. -/
def loadAfter : Load Advertises :=
  ⟨⟨"issuer", "b", "pem"⟩, keySet ["b", "a"], ⟨_, List.mem_cons_self, rfl⟩, rfl⟩

/-- The refresh has loaded before a rotation and a forced reload after it. The reload writes its key
set, the refresh its own, older one, and the reload its signing key: it is not in the set. -/
theorem reload_overtaken :
    ¬ Always step Published (init loadBefore)
      [.load 0 loadBefore, .load 1 loadAfter, .writeJwks 1, .writeJwks 0, .writeTokens 1] := by
  intro h
  have hlast := h.last rfl
  exact absurd hlast.door (by decide)

end Vsms.Op.Publish
