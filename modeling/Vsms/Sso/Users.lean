import Vsms.Lib.Runs
import Vsms.Lib.Paging
import Vsms.Core.Pack
import Vsms.Schema.Accounts
import Mathlib.Data.String.Basic

/-! # Resolving a sign-in to an account

`resolve_user` looks for the link of the person and answers with its user; on a first sign-in it
checks the e-mail, reads the live users a page at a time for one that has it in any case, and
creates the user and the link in one transaction. A transaction that fails on a unique index says
what came first: on the link's, that another sign-in of this person did, and the loop reads the
link; on the e-mail's, that this or another account did. Every read and every transaction commits on
its own, and any number of calls are under way at a time.

The index on the e-mail is case-sensitive and the check that is not is outside the transaction. So
the e-mails of the live users stay distinct in every case exactly if no transaction commits over an
account that came in after its call had begun to read the users (`emails_distinct_iff`): rows that
are added in between do not hide one that was there from the pages. -/

namespace Vsms.Sso.Users

open Vsms.Lib.Runs Vsms.Lib.Indexes Vsms.Lib.Paging Vsms.Core.Pack
open Vsms.Schema.Types Vsms.Schema.Accounts

/-! ## Refusals -/

inductive Refusal
  | userInactive
  | emailMissing
  | emailUnverified
  | emailReserved
  | emailInUse
  deriving DecidableEq, Repr

inductive SsoError
  | refused (reason : Refusal)
  | unavailable (what : String)
  deriving DecidableEq, Repr

/-- The fields of the configuration that are read. -/
structure SsoConfig where
  issuer : String
  jitRoleKey : String
  deriving DecidableEq, Repr

/-- The claims of a verified `id_token` that are read. -/
structure IdClaims where
  subject : String
  email : Option String := none
  emailVerified : Option Bool := none
  name : Option String := none
  preferredUsername : Option String := none
  deriving DecidableEq, Repr

structure ResolvedUser where
  userId : String
  email : String
  displayName : String
  provisioned : Bool
  deriving DecidableEq, Repr

/-! ## What can be decided without the database -/

def maxDisplayNameChars : ℕ := 128

def maxEmailChars : ℕ := 254

/-- `str::split_once` -/
def splitOnce (c : Char) (l : List Char) : Option (List Char × List Char) :=
  if c ∈ l then some (l.takeWhile (· ≠ c), (l.dropWhile (· ≠ c)).tail) else none

/-- What `str::rsplit_once` has on the right. -/
def afterLast (c : Char) (l : List Char) : Option (List Char) :=
  if c ∈ l then some (l.reverse.takeWhile (· ≠ c)).reverse else none

def displayNameFor (claims : IdClaims) (email : String) : String :=
  let named := (claims.name <|> claims.preferredUsername).map fun name => trim name.toList
  let raw := (named.filter (· ≠ [])).getD (email.toList.takeWhile (· ≠ '@'))
  let clipped := raw.take maxDisplayNameChars
  if clipped = [] then "SSO user" else String.ofList clipped

def isReservedDomain (email : String) : Bool :=
  match afterLast '@' email.toList with
  | none => false
  | some domain =>
    let domain := (domain.rdropWhile (· = '.')).map Char.toLower
    domain = "invalid".toList || ".invalid".toList.isSuffixOf domain

def refuseUnusableJitRole (role : String) : Except SsoError Unit :=
  if role ∈ reservedRoleKeys ∨ role ∈ deviceOnlyRoles then
    .error (.unavailable "the configured just-in-time role is not allowed")
  else .ok ()

/-- The length is in bytes. -/
def plausibleEmail (email : String) : Bool :=
  email.utf8ByteSize ≤ maxEmailChars && !email.toList.any isWhitespace &&
    match splitOnce '@' email.toList with
    | none => false
    | some (localPart, domain) => localPart ≠ [] && '.' ∈ domain

/-- The first half of `provision`: the e-mail the account would have. -/
def usableEmail (config : SsoConfig) (claims : IdClaims) : Except SsoError String := do
  refuseUnusableJitRole config.jitRoleKey
  let trimmed := claims.email.map fun email => String.ofList (trim email.toList)
  match trimmed.filter plausibleEmail with
  | none => .error (.refused .emailMissing)
  | some email =>
    if claims.emailVerified ≠ some true then .error (.refused .emailUnverified)
    else if isReservedDomain email then .error (.refused .emailReserved)
    else .ok email

/-- The account of a first sign-in. -/
def newAccount (config : SsoConfig) (claims : IdClaims) (email : String) : NewAccount :=
  ⟨email, displayNameFor claims email, config.jitRoleKey, config.issuer, claims.subject⟩

/-! ## Calls -/

/-- The arguments of `resolve_user`. -/
structure SignIn where
  config : SsoConfig
  claims : IdClaims
  deriving DecidableEq, Repr

/-- The person who signs in. -/
def SignIn.person (i : SignIn) : String × String := (i.config.issuer, i.claims.subject)

/-- A call of `resolve_user`, before its next statement. `round` counts the rounds of its loop, and
`seen` has the live users of the moment at which `email_held_locally` read its first page, for the
proofs. -/
inductive Call
  | idle
  | findingLink (i : SignIn) (round : ℕ)
  | findingUser (i : SignIn) (userId : String)
  /-- `email_held_locally`, before the page -/
  | scanning (i : SignIn) (round : ℕ) (email : String) (page : ℕ) (seen : List User)
  | creating (i : SignIn) (round : ℕ) (email : String) (seen : List User)
  /-- The e-mail is held, or `users_email_key` refused it: is it this person's? -/
  | clash (i : SignIn) (round : ℕ)
  | returned (i : SignIn) (result : Except SsoError ResolvedUser)

/-- The rounds of the loop. -/
def rounds : ℕ := 2

def emailScanPage : ℕ := 500

def emailScanMaxPages : ℕ := 100

/-- Around the loop, or out of it. -/
def nextRound (i : SignIn) (round : ℕ) : Call :=
  if round + 1 < rounds then .findingLink i (round + 1)
  else .returned i (.error (.unavailable "the federated link kept appearing and disappearing"))

section parameters
-- `str::to_lowercase`, and the check behind `@email`.
variable (lower : String → String) (validEmail : String → Bool)

/-- One page of `email_held_locally`. -/
def scanPage (db : Tables) (i : SignIn) (round : ℕ) (email : String) (n : ℕ) (seen : List User) :
    Call :=
  let users := page User.id emailScanPage n db.liveUsers
  if users.any fun u => lower u.email = lower email then .clash i round
  else if users.length < emailScanPage then .creating i round email seen
  else if n + 1 < emailScanMaxPages then .scanning i round email (n + 1) seen
  else .returned i (.error (.unavailable "the user table is too large to check the e-mail"))

/-- The next read of a call. -/
def advance (db : Tables) : Call → Option Call
  | .findingLink i round =>
    match db.findLink i.config.issuer i.claims.subject with
    | some link => some (.findingUser i link.userId)
    | none =>
      match usableEmail i.config i.claims with
      | .error e => some (.returned i (.error e))
      | .ok email => some (.scanning i round email 0 [])
  | .findingUser i userId =>
    match db.findActiveUser userId with
    | some u => some (.returned i (.ok ⟨u.id, u.email, u.displayName, false⟩))
    | none => some (.returned i (.error (.refused .userInactive)))
  | .scanning i round email n seen =>
    some (scanPage lower db i round email n (if n = 0 then db.liveUsers else seen))
  | .clash i round =>
    match db.findLink i.config.issuer i.claims.subject with
    | some _ => some (nextRound i round)
    | none => some (.returned i (.error (.refused .emailInUse)))
  | _ => none

/-- What a failed transaction means. -/
def outcome (i : SignIn) (round : ℕ) : DbError → Call
  | .uniqueViolation .federatedLinksIssuerSubjectKey => nextRound i round
  | .uniqueViolation .usersEmailKey => .clash i round
  | .validation => .returned i (.error (.refused .emailMissing))
  | _ => .returned i (.error (.unavailable "provisioning the SSO user failed"))

/-- The transaction of `provision`; its creator is `jit_context`. -/
def provision (db : Tables) (g : Generated) (i : SignIn) (email : String) : Except DbError Tables :=
  db.createAccount validEmail "admin" g (newAccount i.config i.claims email)

/-- What a statement that fails is called in the error. -/
def Call.what : Call → Option (SignIn × String)
  | .findingLink i _ => some (i, "looking up the federated link")
  | .clash i _ => some (i, "looking up the federated link")
  | .findingUser i _ => some (i, "looking up the user")
  | .scanning i _ _ _ _ => some (i, "scanning the users for the e-mail")
  | .creating i _ _ _ => some (i, "provisioning the SSO user")
  | _ => none

/-! ## The system -/

structure Sys where
  db : Tables
  calls : ℕ → Call
  /-- The accounts created, each with its link. -/
  created : List (User × FederatedLink)

def init (db : Tables) : Sys := ⟨db, fun _ => .idle, []⟩

def Sys.setCall (s : Sys) (p : ℕ) (c : Call) : Sys :=
  { s with calls := Function.update s.calls p c }

inductive Action
  | call (p : ℕ) (i : SignIn)
  /-- The next read. -/
  | advance (p : ℕ)
  /-- The transaction; `lost`: it commits, and the answer does not arrive. -/
  | create (p : ℕ) (g : Generated) (lost : Bool)
  /-- A statement or a transaction fails, and the transaction is rolled back. -/
  | fail (p : ℕ)
  deriving DecidableEq, Repr

def failed (i : SignIn) (what : String) : Call :=
  .returned i (.error (.unavailable (what ++ " failed")))

/-- The answer to a transaction that committed. -/
def committed (i : SignIn) (email : String) (g : Generated) (lost : Bool) : Call :=
  if lost then failed i "provisioning the SSO user"
  else .returned i (.ok ⟨g.userId, email, displayNameFor i.claims email, true⟩)

def step (s : Sys) : Action → Option Sys
  | .call p i =>
    match s.calls p with
    | .idle => some (s.setCall p (.findingLink i 0))
    | _ => none
  | .advance p => (advance lower s.db (s.calls p)).map (s.setCall p)
  | .create p g lost =>
    match s.calls p with
    | .creating i round email _ =>
      match provision validEmail s.db g i email with
      | .error e => some (s.setCall p (outcome i round e))
      | .ok db =>
        let account := newAccount i.config i.claims email
        some { s with
          db
          calls := Function.update s.calls p (committed i email g lost)
          created := s.created ++ [(account.user g, account.link g)] }
    | _ => none
  | .fail p => (s.calls p).what.map fun (i, what) => s.setCall p (failed i what)

/-- **What a step does.** -/
inductive Effect (s : Sys) : Action → Sys → Prop
  | call {p : ℕ} {i : SignIn} (hc : s.calls p = .idle) :
      Effect s (.call p i) (s.setCall p (.findingLink i 0))
  | advance {p : ℕ} {c : Call} (hc : advance lower s.db (s.calls p) = some c) :
      Effect s (.advance p) (s.setCall p c)
  | refused {p : ℕ} {g : Generated} {lost : Bool} {i : SignIn} {round : ℕ} {email : String}
      {seen : List User} {e : DbError} (hc : s.calls p = .creating i round email seen)
      (he : provision validEmail s.db g i email = .error e) :
      Effect s (.create p g lost) (s.setCall p (outcome i round e))
  | created {p : ℕ} {g : Generated} {lost : Bool} {i : SignIn} {round : ℕ} {email : String}
      {seen : List User} {db : Tables} (hc : s.calls p = .creating i round email seen)
      (hdb : provision validEmail s.db g i email = .ok db) :
      Effect s (.create p g lost)
        ⟨db, Function.update s.calls p (committed i email g lost), s.created ++
          [((newAccount i.config i.claims email).user g,
            (newAccount i.config i.claims email).link g)]⟩
  | fail {p : ℕ} {i : SignIn} {what : String} (hc : (s.calls p).what = some (i, what)) :
      Effect s (.fail p) (s.setCall p (failed i what))

end parameters

variable {lower : String → String} {validEmail : String → Bool} {s s' : Sys} {a : Action}

theorem step_effect (h : step lower validEmail s a = some s') : Effect lower validEmail s a s' := by
  cases a with
  | call p i =>
    dsimp only [step] at h
    split at h
    · next hc =>
      cases h
      exact .call hc
    · cases h
  | advance p =>
    obtain ⟨c, hc, rfl⟩ := Option.map_eq_some_iff.mp h
    exact .advance hc
  | create p g lost =>
    dsimp only [step] at h
    split at h
    · next i round email seen hc =>
      split at h
      · next e he =>
        cases h
        exact .refused hc he
      · next db hdb =>
        cases h
        exact .created hc hdb
    · cases h
  | fail p =>
    obtain ⟨⟨i, what⟩, hc, rfl⟩ := Option.map_eq_some_iff.mp h
    exact .fail hc

/-- The tables after a transaction that committed. -/
theorem provision_ok {db db' : Tables} {g : Generated} {i : SignIn} {email : String}
    (h : provision validEmail db g i email = .ok db') :
    db'.users = db.users ++ [(newAccount i.config i.claims email).user g] ∧
      db'.links = db.links ++ [(newAccount i.config i.claims email).link g] := by
  obtain ⟨hu, hl, -⟩ := Tables.createAccount_ok h
  exact ⟨hu, hl⟩

/-- Calls that carry nothing they have read: before a round, before the look at a clash, and with an
error. -/
def Call.plain : Call → Bool
  | .findingLink _ _ => true
  | .clash _ _ => true
  | .returned _ (.error _) => true
  | _ => false

theorem plain_nextRound (i : SignIn) (round : ℕ) : (nextRound i round).plain = true := by
  unfold nextRound
  split_ifs <;> rfl

theorem plain_outcome (i : SignIn) (round : ℕ) (e : DbError) :
    (outcome i round e).plain = true := by
  unfold outcome
  split
  · exact plain_nextRound i round
  all_goals rfl

/-! ## E-mails -/

/-- **The live users' e-mails differ in every case.** -/
def DistinctEmails (lower : String → String) (s : Sys) : Prop :=
  Unique (fun u => lower u.email) s.db.liveUsers

/-- The accounts a transaction commits over: they have the e-mail, in some case, and came in after
its call had begun to read the users. -/
def cameInSince (lower : String → String) (validEmail : String → Bool) (s : Sys) :
    Action → List User
  | .create p g _ =>
    match s.calls p with
    | .creating i _ email seen =>
      match provision validEmail s.db g i email with
      | .ok _ => s.db.liveUsers.filter fun u => u ∉ seen ∧ lower u.email = lower email
      | .error _ => []
    | _ => []
  | _ => []

/-- What a call knows of the users: none of those seen has the e-mail, as far as it has read. -/
def Knows (lower : String → String) (db : Tables) : Call → Prop
  | .scanning _ _ email n seen => n = 0 ∨ (seen ⊆ db.liveUsers ∧
      Scanned User.id (fun u => lower u.email = lower email) emailScanPage n seen db.liveUsers)
  | .creating _ _ email seen => ∀ u ∈ seen, lower u.email ≠ lower email
  | _ => True

theorem liveUsers_unique (db : Tables) : Unique User.id db.liveUsers := db.usersPkey.filter _

theorem knows_of_plain (db : Tables) {c : Call} (h : c.plain = true) : Knows lower db c := by
  unfold Call.plain at h
  split at h <;> trivial

/-- **A page.** -/
theorem knows_scanPage {db : Tables} {email : String} {n : ℕ} {seen : List User} (i : SignIn)
    (round : ℕ) (hseen : seen ⊆ db.liveUsers)
    (hscan : Scanned User.id
      (fun u => lower u.email = lower email) emailScanPage n seen db.liveUsers) :
    Knows lower db (scanPage lower db i round email n seen) := by
  unfold scanPage
  by_cases hany : ((page User.id emailScanPage n db.liveUsers).any
      fun u => lower u.email = lower email) = true
  · rw [if_pos hany]
    trivial
  have hpage : ∀ u ∈ page User.id emailScanPage n db.liveUsers, ¬ lower u.email = lower email := by
    intro u hu heq
    exact hany (List.any_eq_true.mpr ⟨u, hu, decide_eq_true heq⟩)
  rw [if_neg hany]
  by_cases hshort : (page User.id emailScanPage n db.liveUsers).length < emailScanPage
  · rw [if_pos hshort]
    exact hscan.last (liveUsers_unique db) hseen hpage hshort
  · rw [if_neg hshort]
    split_ifs
    · exact Or.inr ⟨hseen, hscan.next (liveUsers_unique db) hseen hpage⟩
    · trivial

theorem knows_advance {db : Tables} {c c' : Call} (hc : Knows lower db c)
    (h : advance lower db c = some c') : Knows lower db c' := by
  unfold advance at h
  split at h
  · split at h
    · cases h
      trivial
    · split at h
      · cases h
        trivial
      · cases h
        exact Or.inl rfl
  · split at h
    · cases h
      trivial
    · cases h
      trivial
  · next i round email n seen =>
    cases h
    by_cases hn : n = 0
    · rw [if_pos hn, hn]
      exact knows_scanPage i round (fun _ hu => hu) (.zero _ _ _ _ _)
    · rw [if_neg hn]
      obtain ⟨hseen, hscan⟩ := hc.resolve_left hn
      exact knows_scanPage i round hseen hscan
  · split at h
    · cases h
      exact knows_of_plain db (plain_nextRound _ _)
    · cases h
      trivial
  · cases h

/-- Users are only added. -/
theorem Knows.grow {db db' : Tables} (hsub : db.liveUsers ⊆ db'.liveUsers) {c : Call}
    (hc : Knows lower db c) : Knows lower db' c := by
  cases c with
  | scanning i round email n seen =>
    refine hc.imp_right fun ⟨hseen, hscan⟩ => ⟨fun u hu => hsub (hseen hu), ?_⟩
    exact hscan.grow (liveUsers_unique db).nodup hsub
  | creating i round email seen => exact hc
  | _ => trivial

/-- The invariant of the runs in which the e-mails stay distinct. -/
structure Inv (lower : String → String) (s : Sys) : Prop where
  distinct : DistinctEmails lower s
  calls : ∀ p, Knows lower s.db (s.calls p)

theorem inv_init {db : Tables} (h : DistinctEmails lower (init db)) : Inv lower (init db) :=
  ⟨h, fun _ => trivial⟩

theorem Inv.setCall (hs : Inv lower s) {p : ℕ} {c : Call} (hc : Knows lower s.db c) :
    Inv lower (s.setCall p c) := by
  refine ⟨hs.distinct, ?_⟩
  exact (Function.forall_update_iff s.calls fun _ => Knows lower s.db).mpr
    ⟨hc, fun q _ => hs.calls q⟩

/-- The live users after a transaction that committed. -/
theorem liveUsers_provision {db db' : Tables} {g : Generated} {i : SignIn} {email : String}
    (h : provision validEmail db g i email = .ok db') :
    db'.liveUsers = db.liveUsers ++ [(newAccount i.config i.claims email).user g] := by
  unfold Tables.liveUsers
  rw [(provision_ok h).1, List.filter_append]
  rfl

/-- **An account more**: the e-mails stay distinct exactly if none of the live users has it. -/
theorem unique_provision {db db' : Tables} {g : Generated} {i : SignIn} {email : String}
    (hdb : Unique (fun u : User => lower u.email) db.liveUsers)
    (h : provision validEmail db g i email = .ok db') :
    Unique (fun u : User => lower u.email) db'.liveUsers ↔
      ∀ u ∈ db.liveUsers, lower u.email ≠ lower email := by
  rw [liveUsers_provision h]
  exact ⟨fun hu => hu.of_concat, fun hnew => hdb.concat hnew⟩

/-- A step keeps the e-mails distinct exactly if it commits over no such account. -/
theorem Inv.distinct_iff (hs : Inv lower s) (h : step lower validEmail s a = some s') :
    DistinctEmails lower s' ↔ cameInSince lower validEmail s a = [] := by
  cases step_effect h with
  | call hc => exact iff_of_true hs.distinct rfl
  | advance hc => exact iff_of_true hs.distinct rfl
  | fail hc => exact iff_of_true hs.distinct rfl
  | refused hc he =>
    refine iff_of_true hs.distinct ?_
    simp only [cameInSince, hc, he]
  | @created p g lost i round email seen db hc hdb =>
    have hseen : ∀ u ∈ seen, lower u.email ≠ lower email := by
      have hknows := hs.calls p
      rw [hc] at hknows
      exact hknows
    refine (unique_provision hs.distinct hdb).trans ?_
    simp only [cameInSince, hc, hdb, List.filter_eq_nil_iff, decide_eq_true_eq, not_and]
    refine ⟨fun hnew u hu _ => hnew u hu, fun hsince u hu => ?_⟩
    by_cases hold : u ∈ seen
    · exact hseen u hold
    · exact hsince u hu hold

theorem Inv.step_inv (hs : Inv lower s) (h : step lower validEmail s a = some s')
    (hsince : cameInSince lower validEmail s a = []) : Inv lower s' := by
  have hdistinct := (hs.distinct_iff h).mpr hsince
  cases step_effect h with
  | call hc => exact hs.setCall trivial
  | advance hc => exact hs.setCall (knows_advance (hs.calls _) hc)
  | fail hc => exact hs.setCall trivial
  | refused hc he => exact hs.setCall (knows_of_plain _ (plain_outcome _ _ _))
  | @created p g lost i round email seen db hc hdb =>
    have hsub : s.db.liveUsers ⊆ db.liveUsers := by
      rw [liveUsers_provision hdb]
      exact List.subset_append_left _ _
    have hcommitted : Knows lower db (committed i email g lost) := by
      unfold committed
      split_ifs <;> trivial
    refine ⟨hdistinct, ?_⟩
    exact (Function.forall_update_iff s.calls fun _ => Knows lower db).mpr
      ⟨hcommitted, fun q _ => (hs.calls q).grow hsub⟩

/-- **The e-mails of the live users stay distinct in every case exactly in the runs in which no
transaction commits over an account that came in since.** -/
theorem emails_distinct_iff (lower : String → String) (validEmail : String → Bool) (db : Tables)
    (hdb : DistinctEmails lower (init db)) (as : List Action) :
    Always (step lower validEmail) (DistinctEmails lower) (init db) as ↔
      Along (step lower validEmail) (fun s a _ => cameInSince lower validEmail s a = [])
        (init db) as := by
  refine always_iff (I := Inv lower) (fun _ hs => hs.distinct) ?_ ?_ (inv_init hdb)
  · intro s a s' hs h
    exact hs.distinct_iff h
  · intro s a s' hs h hsince
    exact hs.step_inv h hsince

/-- `str::to_lowercase` of a text in ASCII. -/
def asciiLower (text : String) : String := String.ofList (text.toList.map Char.toLower)

/-- The first sign-in of a person. -/
def signIn (subject email : String) : SignIn :=
  ⟨⟨"https://idp.example.test", "support"⟩,
    { subject, email := some email, emailVerified := some true }⟩

/-- A first sign-in, another with the same mailbox that comes after it and is refused, and a third.
-/
def oneByOne : List Action :=
  [.call 0 (signIn "u1" "Alice@corp.test"), .advance 0, .advance 0,
    .create 0 ⟨"a", "la", "x"⟩ false, .call 1 (signIn "u2" "alice@corp.test"),
      .advance 1, .advance 1,
    .advance 1, .call 2 (signIn "u3" "bob@corp.test"), .advance 2, .advance 2,
    .create 2 ⟨"b", "lb", "y"⟩ false]

/-- Two first sign-ins with one mailbox: both read the users, and then both create their account. -/
def readThenCreate : List Action :=
  [.call 0 (signIn "u1" "Alice@corp.test"), .call 1 (signIn "u2" "alice@corp.test"), .advance 0,
    .advance 1, .advance 0, .advance 1, .create 0 ⟨"a", "la", "x"⟩ false,
    .create 1 ⟨"b", "lb", "y"⟩ false]

theorem emails_distinct_one_by_one :
    DistinctEmails asciiLower (init .empty) ∧
      Always (step asciiLower fun _ => true) (DistinctEmails asciiLower) (init .empty) oneByOne :=
  ⟨.nil, (emails_distinct_iff asciiLower (fun _ => true) .empty .nil oneByOne).mpr
    (by decide +kernel)⟩

/-- **One mailbox, two accounts.** -/
theorem two_accounts_one_mailbox :
    DistinctEmails asciiLower (init .empty) ∧
      ¬ Always (step asciiLower fun _ => true) (DistinctEmails asciiLower) (init .empty)
        readThenCreate := by
  refine ⟨.nil, fun h => ?_⟩
  obtain ⟨t, ht, hlive⟩ := exec_eval (b := ["alice@corp.test", "alice@corp.test"])
    (f := fun t : Sys => t.db.liveUsers.map fun u => asciiLower u.email)
    (show (exec (step asciiLower fun _ => true) (init .empty) readThenCreate).map _ = _ by decide)
  have hdistinct : (t.db.liveUsers.map fun u => asciiLower u.email).Nodup := h.last ht
  rw [hlive] at hdistinct
  simp at hdistinct

end Vsms.Sso.Users
