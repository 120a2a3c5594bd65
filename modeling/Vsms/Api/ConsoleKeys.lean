import Vsms.Lib.Runs
import Vsms.Lib.Framing
import Vsms.Core.Pack
import Vsms.Schema.Accounts
import Mathlib.Algebra.Order.Group.Unbundled.Abs
import Mathlib.Algebra.Order.Group.Int

/-! # Console keys

The registry of the public keys of consoles. `register` takes a key that a person at vaam has proved
to hold: in one serializable transaction it finds the person's link and the key, and creates what is
missing, the account and the link and the key. `pair_existing_user` attaches a key to a user that
exists, statement by statement. `revoke` stamps a key. The first two answer a key that is already
registered with `same_registration`, and go around once more where a unique index says that another
call came first. -/

namespace Vsms.Api.ConsoleKeys

open Vsms.Lib.Runs Vsms.Lib.Indexes Vsms.Lib.Framing Vsms.Core.Pack
open Vsms.Schema.Types Vsms.Schema.Accounts

inductive ApiError
  | validation (message : String)
  | forbidden (message : String)
  | conflict (message : String)
  | notFound (message : String)
  | db (error : DbError)
  /-- Any other error of the database. -/
  | internal
  deriving DecidableEq, Repr

/-! ## What can be decided without the database -/

/-- The libraries behind a proof of possession. -/
structure Crypto where
  /-- Unpadded base64url. -/
  decode : List Char → Option (List UInt8)
  /-- `CoseVerifyKey::p256_sec1` and the thumbprint of the key; an error for a point off the curve.
  -/
  p256Sec1 : List UInt8 → Except ApiError (List UInt8)
  /-- `Signature::from_slice` -/
  isSignature : List UInt8 → Bool
  /-- Of a message, by a key. -/
  verify : List UInt8 → List UInt8 → List UInt8 → Bool

structure RegisterConsoleKeyInput where
  vaamUserId : String
  displayName : Option String
  publicKey : String
  possessionProof : String
  issuedAt : Time
  deriving DecidableEq, Repr

structure ParsedConsoleKey where
  bytes : List UInt8
  thumbprint : String
  deriving DecidableEq, Repr

def federationIssuer : String := "vaam"

def pairedRole : String := "admin"

def ownerRoleKey : String := "owner"

def proofMaxSkew : Time := seconds 300

def keyLifetime : Time := days 30

def p256Sec1Len : ℕ := 65

def labelMaxChars : ℕ := 64

def displayNameMaxChars : ℕ := 128

def vaamUserIdMaxChars : ℕ := 64

section checks
variable (crypto : Crypto)

def parsePublicKey (publicKey : String) : Except ApiError ParsedConsoleKey :=
  match crypto.decode (trim publicKey.toList) with
  | none => .error (.validation
      "publicKey must be the SEC1 uncompressed P-256 point as unpadded base64url")
  | some bytes =>
    if bytes.length ≠ p256Sec1Len then
      .error (.validation ("publicKey must be 65 bytes (a SEC1 uncompressed P-256 point), got " ++
        toString bytes.length))
    else if bytes.head? ≠ some 4 then
      .error (.validation ("publicKey must be the uncompressed SEC1 form (first byte 0x04); " ++
        "a compressed point is refused"))
    else (crypto.p256Sec1 bytes).map fun thumbprint => ⟨bytes, hexEncode thumbprint⟩

/-- **`possession_message`** -/
def possessionMessage (publicKey : String) (issuedAtUnix : ℤ) : List UInt8 :=
  strBytes ("vsms.console-pair.v1\n" ++ publicKey ++ "\n" ++ toString issuedAtUnix)

def verifyPossession (key : ParsedConsoleKey) (message : List UInt8) (proof : String) :
    Except ApiError Unit :=
  match crypto.decode (trim proof.toList) with
  | none => .error (.validation "possessionProof must be unpadded base64url")
  | some signature =>
    if !crypto.isSignature signature then
      .error (.validation "possessionProof must be a 64-byte r||s ECDSA signature")
    else if !crypto.verify key.bytes message signature then
      .error (.validation "possessionProof does not verify under publicKey")
    else .ok ()

/-- The unix time of a timestamp. -/
def unixSeconds (t : Time) : ℤ := t / 1000000

/-- **`check_proof`** -/
def checkProof (args : RegisterConsoleKeyInput) (now : Time) :
    Except ApiError ParsedConsoleKey := do
  let key ← parsePublicKey crypto args.publicKey
  if proofMaxSkew < |now - args.issuedAt| then
    .error (.validation ("the pairing request expired: issuedAt must be within 300 seconds " ++
      "of the server's clock"))
  else
    let message := possessionMessage args.publicKey (unixSeconds args.issuedAt)
    verifyPossession crypto key message args.possessionProof
    return key

def cleanLabel : Option String → Except ApiError (Option String)
  | none => .ok none
  | some label =>
    let trimmed := trim label.toList
    if trimmed = [] ∨ labelMaxChars < trimmed.length then
      .error (.validation "label must be 1-64 characters")
    else .ok (some (String.ofList trimmed))

def cleanVaamUserId (id : String) : Except ApiError String :=
  if id.toList = [] ∨ vaamUserIdMaxChars < id.toList.length ∨
      !id.toList.all fun c => c.isAlphanum || c = '_' || c = '-' then
    .error (.validation "vaamUserId must be 1-64 characters of A-Z a-z 0-9 _ -")
  else .ok id

def displayNameFor (displayName : Option String) (vaamUserId : String) : Except ApiError String :=
  match displayName with
  | none => .ok ("vaam " ++ vaamUserId)
  | some name =>
    let trimmed := trim name.toList
    if trimmed = [] ∨ displayNameMaxChars < trimmed.length then
      .error (.validation "displayName must be 1-128 characters")
    else .ok (String.ofList trimmed)

/-- What `register` goes to the database with. -/
structure Registration where
  key : ParsedConsoleKey
  vaamUserId : String
  displayName : String
  now : Time
  deriving DecidableEq, Repr

def registration (args : RegisterConsoleKeyInput) (now : Time) : Except ApiError Registration := do
  let key ← checkProof crypto args now
  let vaamUserId ← cleanVaamUserId args.vaamUserId
  let displayName ← displayNameFor args.displayName vaamUserId
  return ⟨key, vaamUserId, displayName, now⟩

/-- The person who registers. -/
def Registration.person (r : Registration) : String × String := (federationIssuer, r.vaamUserId)

/-- What `pair_existing_user` goes to the database with. -/
structure Pairing where
  user : String
  key : ParsedConsoleKey
  label : Option String
  now : Time
  deriving DecidableEq, Repr

def pairing (user publicKey : String) (label : Option String) (now : Time) :
    Except ApiError Pairing := do
  let key ← parsePublicKey crypto publicKey
  let label ← cleanLabel label
  return ⟨user, key, label, now⟩

end checks

/-! ## The table -/

inductive ConsoleKeyAlg
  | esp256
  deriving DecidableEq, Repr

structure ConsoleKey where
  id : String
  userId : String
  alg : ConsoleKeyAlg
  publicKey : List UInt8
  thumbprint : String
  label : Option String
  pairedAt : Time
  expiresAt : Time
  revokedAt : Option Time
  deriving DecidableEq, Repr

/-- **The keys and the accounts**; `console_keys` has its unique indexes as fields. -/
structure Registry where
  accounts : Tables
  keys : List ConsoleKey
  pkey : Unique ConsoleKey.id keys
  thumbprintKey : Unique ConsoleKey.thumbprint keys

namespace Registry

def findKey (reg : Registry) (thumbprint : String) : Option ConsoleKey :=
  reg.keys.find? (·.thumbprint = thumbprint)

/-- Whether an e-mail or an id names the user. -/
def named (user : String) (u : User) : Bool :=
  if '@' ∈ user.toList then u.email = String.ofList (trim user.toList)
  else u.id = String.ofList (trim user.toList)

def findUser (reg : Registry) (user : String) : Option User :=
  reg.accounts.liveUsers.find? fun u => named user u && u.active

/-- `@length` of the generated input type. -/
def validKey (k : ConsoleKey) : Bool :=
  k.publicKey.length = 65 && k.thumbprint.length = 64 &&
    k.label.all fun label => 1 ≤ label.length && label.length ≤ 64

def createKey (reg : Registry) (k : ConsoleKey) : Except DbError Registry :=
  if !validKey k then .error .validation
  else if hid : ∃ x ∈ reg.keys, x.id = k.id then .error (.uniqueViolation .consoleKeysPkey)
  else if hthumbprint : ∃ x ∈ reg.keys, x.thumbprint = k.thumbprint then
    .error (.uniqueViolation .consoleKeysThumbprintKey)
  else if ∀ u ∈ reg.accounts.users, u.id ≠ k.userId then .error .foreignKeyViolation
  else .ok { reg with
    keys := reg.keys ++ [k]
    pkey := reg.pkey.concat fun x hx h => hid ⟨x, hx, h⟩
    thumbprintKey := reg.thumbprintKey.concat fun x hx h => hthumbprint ⟨x, hx, h⟩ }

/-- The column `revoked_at` of one row. -/
def stamp (id : String) (now : Time) (k : ConsoleKey) : ConsoleKey :=
  if k.id = id then { k with revokedAt := some now } else k

theorem stamp_keys (id : String) (now : Time) (k : ConsoleKey) :
    (stamp id now k).id = k.id ∧ (stamp id now k).thumbprint = k.thumbprint := by
  unfold stamp
  split_ifs <;> exact ⟨rfl, rfl⟩

def stampKey (reg : Registry) (id : String) (now : Time) : Registry := { reg with
  keys := reg.keys.map (stamp id now)
  pkey := reg.pkey.map fun k => (stamp_keys id now k).1
  thumbprintKey := reg.thumbprintKey.map fun k => (stamp_keys id now k).2 }

end Registry

/-- **`new_key_input`** -/
def newKeyInput (id userId : String) (key : ParsedConsoleKey) (label : Option String) (now : Time) :
    ConsoleKey :=
  ⟨id, userId, .esp256, key.bytes, key.thumbprint, label, now, now + keyLifetime, none⟩

/-- **`same_registration`** -/
def sameRegistration (existing : ConsoleKey) (userId : String) (now : Time) :
    Except ApiError ConsoleKey :=
  if existing.userId ≠ userId then
    .error (.conflict "this public key is already registered to another user")
  else if existing.revokedAt.isSome then
    .error (.conflict ("this public key was revoked; generate a new keypair, " ++
      "a revoked key is never reinstated"))
  else if existing.expiresAt ≤ now then
    .error (.conflict ("this public key has expired; generate a new keypair, " ++
      "an expired key is never extended"))
  else .ok existing

/-! ## The transactions -/

def deactivated : ApiError := .forbidden "this person's vsms account is deactivated"

def ownerPairsByCli : ApiError :=
  .forbidden "an owner pairs a console only through `sms-gateway pair-console-key`"

section transactions
-- The check behind `@email`.
variable (validEmail : String → Bool)

/-- The account of a person who registers for the first time. -/
def newAccount (r : Registration) : NewAccount :=
  ⟨r.vaamUserId ++ "@vaam.invalid", r.displayName, pairedRole, federationIssuer, r.vaamUserId⟩

/-- **`create_user_and_link`**; its creator is `creator_context`. -/
def createUserAndLink (accounts : Tables) (g : Generated) (r : Registration) :
    Except DbError Tables :=
  accounts.createAccount validEmail "admin" g (newAccount r)

/-- The user the key is for: the link's, or a new one. -/
def userFor (accounts : Tables) (g : Generated) (r : Registration) :
    Except ApiError (Tables × String) :=
  match accounts.findLink federationIssuer r.vaamUserId with
  | some link =>
    match accounts.findActiveUser link.userId with
    | none => .error deactivated
    | some active =>
      if active.roleKey = ownerRoleKey then .error ownerPairsByCli else .ok (accounts, active.id)
  | none =>
    match createUserAndLink validEmail accounts g r with
    | .error e => .error (.db e)
    | .ok accounts => .ok (accounts, g.userId)

/-- **The transaction of `register`**: the registry after it, the key, and whether it was created.
-/
def registerTx (reg : Registry) (g : Generated) (keyId : String) (r : Registration) :
    Except ApiError (Registry × ConsoleKey × Bool) :=
  match reg.findKey r.key.thumbprint with
  | some existing =>
    match reg.accounts.findLink federationIssuer r.vaamUserId with
    | none => .error (.conflict "this public key is already registered to another user")
    | some link =>
      match sameRegistration existing link.userId r.now with
      | .error e => .error e
      | .ok key => .ok (reg, key, false)
  | none =>
    match userFor validEmail reg.accounts g r with
    | .error e => .error e
    | .ok (accounts, userId) =>
      let key := newKeyInput keyId userId r.key none r.now
      match { reg with accounts }.createKey key with
      | .error e => .error (.db e)
      | .ok reg => .ok (reg, key, true)

end transactions

/-- **The transaction of `revoke`.** -/
def revokeTx (reg : Registry) (keyId : String) (now : Time) :
    Except ApiError (Registry × ConsoleKey) :=
  match reg.keys.find? (·.id = keyId) with
  | none => .error (.notFound ("no ConsoleKey with id " ++ keyId))
  | some key =>
    if key.revokedAt.isSome then .ok (reg, key)
    else .ok (reg.stampKey keyId now, { key with revokedAt := some now })

/-! ## Calls -/

/-- A call, before its next statement or transaction; `attempt` counts the rounds of its loop. -/
inductive Call
  | idle
  | registering (r : Registration) (attempt : ℕ)
  | findingUser (q : Pairing)
  | findingKey (q : Pairing) (found : User) (attempt : ℕ)
  | creatingKey (q : Pairing) (found : User) (attempt : ℕ)
  | revoking (keyId : String)
  /-- Refused before the database was asked. -/
  | refused (e : ApiError)
  | registered (r : Registration) (result : Except ApiError ConsoleKey)
  | paired (q : Pairing) (result : Except ApiError (ConsoleKey × User × Bool))
  | revoked (keyId : String) (result : Except ApiError ConsoleKey)

def attempts : ℕ := 2

/-- The violations after which `register` goes around. -/
def anotherCameFirst : ApiError → Bool
  | .db (.uniqueViolation .consoleKeysThumbprintKey) => true
  | .db (.uniqueViolation .federatedLinksIssuerSubjectKey) => true
  | .db (.uniqueViolation .usersEmailKey) => true
  | _ => false

def retryRegister (r : Registration) (attempt : ℕ) (e : ApiError) : Call :=
  if attempt < attempts ∧ anotherCameFirst e then .registering r (attempt + 1)
  else .registered r (.error e)

def retryPairing (q : Pairing) (found : User) (attempt : ℕ) (e : DbError) : Call :=
  if attempt < attempts ∧ e = .uniqueViolation .consoleKeysThumbprintKey then
    .findingKey q found (attempt + 1)
  else .paired q (.error (.db e))

/-- The next read of `pair_existing_user`. -/
def readNext (reg : Registry) : Call → Option Call
  | .findingUser q =>
    match reg.findUser q.user with
    | none => some (.paired q
        (.error (.notFound ("no active user matches " ++ reprStr q.user ++ " (by email or id)"))))
    | some found => some (.findingKey q found 1)
  | .findingKey q found attempt =>
    match reg.findKey q.key.thumbprint with
    | none => some (.creatingKey q found attempt)
    | some existing =>
      match sameRegistration existing found.id q.now with
      | .error e => some (.paired q (.error e))
      | .ok key => some (.paired q (.ok (key, found, false)))
  | _ => none

/-- A statement or a transaction failed, or its answer did not arrive. -/
def Call.fail : Call → Option Call
  | .registering r _ => some (.registered r (.error .internal))
  | .findingUser q => some (.paired q (.error .internal))
  | .findingKey q _ _ => some (.paired q (.error .internal))
  | .creatingKey q _ _ => some (.paired q (.error .internal))
  | .revoking keyId => some (.revoked keyId (.error .internal))
  | _ => none

/-! ## The system -/

inductive Request
  | register (args : RegisterConsoleKeyInput) (now : Time)
  | pair (user publicKey : String) (label : Option String) (now : Time)
  | revoke (keyId : String)
  deriving DecidableEq, Repr

structure Sys where
  reg : Registry
  calls : ℕ → Call
  /-- The accounts that were created, each with its link. -/
  created : List (User × FederatedLink)

def init (reg : Registry) : Sys := ⟨reg, fun _ => .idle, []⟩

def Sys.setCall (s : Sys) (p : ℕ) (c : Call) : Sys :=
  { s with calls := Function.update s.calls p c }

inductive Action
  | call (p : ℕ) (request : Request)
  /-- The transaction of `register`; `lost`: it commits, and the answer does not arrive. -/
  | register (p : ℕ) (g : Generated) (keyId : String) (lost : Bool)
  /-- The transaction of `register` had read the tables before another one committed, and fails on a
  unique index. -/
  | abort (p : ℕ) (constraint : UniqueIndex)
  | read (p : ℕ)
  /-- The insert of `pair_existing_user`. -/
  | create (p : ℕ) (keyId : String) (lost : Bool)
  /-- The transaction of `revoke`, with the time of its clock. -/
  | revoke (p : ℕ) (now : Time) (lost : Bool)
  /-- Nothing is carried out. -/
  | fail (p : ℕ)
  /-- Somebody edits a user in the console. -/
  | edit (userId : String) (e : UserEdit)
  deriving DecidableEq, Repr

section step
variable (crypto : Crypto) (validEmail : String → Bool)

/-- The checks before the database is asked. -/
def begin : Request → Call
  | .register args now =>
    match registration crypto args now with
    | .error e => .refused e
    | .ok r => .registering r 1
  | .pair user publicKey label now =>
    match pairing crypto user publicKey label now with
    | .error e => .refused e
    | .ok q => .findingUser q
  | .revoke keyId => .revoking keyId

/-- The answer to what was carried out, or the error where it does not arrive. -/
def unlessLost (lost : Bool) (answer error : Call) : Call := if lost then error else answer

/-- What a transaction of `register` added to the accounts. -/
def accountCreated (reg : Registry) (g : Generated) (r : Registration) :
    List (User × FederatedLink) :=
  match reg.findKey r.key.thumbprint, reg.accounts.findLink federationIssuer r.vaamUserId with
  | none, none => [((newAccount r).user g, (newAccount r).link g)]
  | _, _ => []

def step (s : Sys) : Action → Option Sys
  | .call p request =>
    match s.calls p with
    | .idle => some (s.setCall p (begin crypto request))
    | _ => none
  | .register p g keyId lost =>
    match s.calls p with
    | .registering r attempt =>
      match registerTx validEmail s.reg g keyId r with
      | .error e => some (s.setCall p (retryRegister r attempt e))
      | .ok (reg, key, _) =>
        some {
          reg
          calls := Function.update s.calls p
            (unlessLost lost (.registered r (.ok key)) (.registered r (.error .internal)))
          created := s.created ++ accountCreated s.reg g r }
    | _ => none
  | .abort p constraint =>
    match s.calls p with
    | .registering r attempt =>
      some (s.setCall p (retryRegister r attempt (.db (.uniqueViolation constraint))))
    | _ => none
  | .read p => (readNext s.reg (s.calls p)).map (s.setCall p)
  | .create p keyId lost =>
    match s.calls p with
    | .creatingKey q found attempt =>
      let key := newKeyInput keyId found.id q.key q.label q.now
      match s.reg.createKey key with
      | .error e => some (s.setCall p (retryPairing q found attempt e))
      | .ok reg =>
        some ({ s with reg }.setCall p
          (unlessLost lost (.paired q (.ok (key, found, true))) (.paired q (.error .internal))))
    | _ => none
  | .revoke p now lost =>
    match s.calls p with
    | .revoking keyId =>
      match revokeTx s.reg keyId now with
      | .error e => some (s.setCall p (.revoked keyId (.error e)))
      | .ok (reg, key) =>
        some ({ s with reg }.setCall p
          (unlessLost lost (.revoked keyId (.ok key)) (.revoked keyId (.error .internal))))
    | _ => none
  | .fail p => (s.calls p).fail.map (s.setCall p)
  | .edit userId e =>
    some { s with reg := { s.reg with accounts := s.reg.accounts.editUser userId e } }

end step

end Vsms.Api.ConsoleKeys
