import Vsms.Schema.Types
import Vsms.Core.Chrono
import Vsms.Lib.Indexes
import Mathlib.Algebra.Group.Nat.Defs
import Mathlib.Data.Rat.Defs
import Mathlib.Tactic.SplitIfs

/-! # The provider's configuration

The rules of `op:`. Of the timing of the signing keys: a running gateway signs with a key until its
next refresh, and the last token lives for `accessTokenTtlSecs` more, so that a rotated-out key has
to stay published for longer than both (`validateOp_overlap`). -/

namespace Vsms.Core.Config

open Vsms.Schema.Types Vsms.Core.Chrono Vsms.Lib.Indexes

/-- `ACCESS_TOKEN_TTL_SECS` -/
def accessTokenTtlSecs : UInt64 := 900

/-- A number of `f64`. -/
inductive F64
  | nan
  | infinite
  | finite (q : ℚ)
  deriving DecidableEq

structure Bucket where
  burst : UInt32
  refillPerSecond : F64

structure SigningKey where
  refreshIntervalSecs : UInt64
  rotationOverlapSecs : UInt64
  deriving DecidableEq, Repr

structure Op where
  issuer : String
  tokenRateLimit : Bucket
  signingKey : SigningKey

inductive ConfigError
  | invalidValue (key reason : String)
  /-- `InvalidValue` whose reason is that the text is not a URL. -/
  | notUrl (key raw error : String)
  | insecureHost (key url : String)
  | stubHostInLivemode (key url : String)
  deriving DecidableEq, Repr

structure Url where
  scheme : String
  host : Option String
  deriving DecidableEq, Repr

def stubMarkers : List String := ["wiremock", "stub", "mock", "localhost", "fake"]

/-- `u64::saturating_add` -/
def saturatingAdd (a b : UInt64) : UInt64 :=
  if a.toNat + b.toNat < 2 ^ 64 then a + b else UInt64.ofNat (2 ^ 64 - 1)

/-- `str::contains` -/
def contains (s : List Char) (t : String) : Bool := s.tails.any t.toList.isPrefixOf

section parse
variable (parse : String → Except String Url)

/-- **`check_url`**, with `Url::parse` -/
def checkUrl (key raw : String) (livemode : Bool) : Except ConfigError Unit :=
  match parse raw with
  | .error error => .error (.notUrl key raw error)
  | .ok parsed =>
    if !livemode then .ok ()
    else if parsed.scheme ≠ "https" then .error (.insecureHost key raw)
    else
      let host := (parsed.host.getD "").toList.map Char.toLower
      if stubMarkers.any (contains host) then .error (.stubHostInLivemode key raw) else .ok ()

/-- Finite and above zero. -/
def F64.positive : F64 → Bool
  | .finite q => 0 < q
  | _ => false

/-- **`validate_bucket`** -/
def validateBucket (key : String) (bucket : Bucket) : Except ConfigError Unit :=
  if bucket.burst = 0 then .error (.invalidValue (key ++ ".burst") "must be at least 1")
  else if !bucket.refillPerSecond.positive then
    .error (.invalidValue (key ++ ".refill_per_second") "must be a positive number")
  else .ok ()

/-- Why an overlap is too short. -/
def overlapReason (refresh latest : UInt64) : String :=
  "must exceed refresh_interval_secs (" ++ toString refresh ++ ") plus the " ++
    toString accessTokenTtlSecs ++
    "-second                  access token lifetime (" ++ toString latest ++
    "): a running gateway keeps                  signing with the old key until its next " ++
    "refresh, so the last token under it                  would outlive the key's place in " ++
    "/jwks.json"

/-- `if … { return Err(invalid(key, reason)) }` -/
def refuseIf (c : Prop) [Decidable c] (key reason : String) : Except ConfigError Unit :=
  if c then .error (.invalidValue key reason) else .ok ()

/-- **`validate_op`** -/
def validateOp (op : Op) (livemode : Bool) : Except ConfigError Unit := do
  checkUrl parse "op.issuer" op.issuer livemode
  refuseIf (op.issuer.toList.getLast? = some '/') "op.issuer"
    ("must not end with a slash: the discovery document appends /token and /jwks.json to it")
  validateBucket "op.token_rate_limit" op.tokenRateLimit
  refuseIf (op.signingKey.refreshIntervalSecs = 0) "op.signing_key.refresh_interval_secs"
    "must be at least 1"
  let latest := saturatingAdd op.signingKey.refreshIntervalSecs accessTokenTtlSecs
  refuseIf (op.signingKey.rotationOverlapSecs ≤ latest) "op.signing_key.rotation_overlap_secs"
    (overlapReason op.signingKey.refreshIntervalSecs latest)

/-- The time between two refreshes. -/
def SigningKey.refreshInterval (cfg : SigningKey) : Time := seconds cfg.refreshIntervalSecs.toNat

/-- The overlap of `rotate-signing-key`: `none` if the command fails on it. -/
def SigningKey.rotationOverlap (cfg : SigningKey) : Option Time :=
  if (cfg.rotationOverlapSecs.toNat : ℤ) ≤ maxI64 then durationSeconds cfg.rotationOverlapSecs.toNat
    else none

/-- How long a token lives. -/
def accessTokenTtl : Time := seconds accessTokenTtlSecs.toNat

variable {parse}

theorem saturatingAdd_toNat (a b : UInt64) :
    (saturatingAdd a b).toNat = min (a.toNat + b.toNat) (2 ^ 64 - 1) := by
  unfold saturatingAdd
  split_ifs with h
  · rw [UInt64.toNat_add, Nat.mod_eq_of_lt h]
    omega
  · rw [UInt64.toNat_ofNat']
    omega

/-- **An overlap that is accepted is longer than a refresh and a token's life**, the saturation of
the sum notwithstanding: no 64-bit number is above the largest one. -/
theorem validateOp_overlap {op : Op} {livemode : Bool} (h : validateOp parse op livemode = .ok ()) :
    op.signingKey.refreshIntervalSecs.toNat + accessTokenTtlSecs.toNat <
      op.signingKey.rotationOverlapSecs.toNat := by
  obtain ⟨-, -, h⟩ := bind_ok.mp h
  obtain ⟨-, -, h⟩ := bind_ok.mp h
  obtain ⟨-, -, h⟩ := bind_ok.mp h
  obtain ⟨-, -, h⟩ := bind_ok.mp h
  dsimp only [refuseIf] at h
  split_ifs at h with hshort
  rw [UInt64.le_iff_toNat_le, saturatingAdd_toNat] at hshort
  have hmax := op.signingKey.rotationOverlapSecs.toNat_lt
  omega

end parse

end Vsms.Core.Config
