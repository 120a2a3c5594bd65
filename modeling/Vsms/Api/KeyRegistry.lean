import Vsms.Api.ConsoleKeys

/-! # What the registry of console keys keeps

A key is inserted under the unique index on its thumbprint and afterwards only stamped, once
(`KeysKept`). A call succeeds with the row that is in the table at its last statement: a new one, or
one that `same_registration` has let through (`Answer`). `register` reads the role of a linked
person in the transaction that inserts the key, and creates accounts as `admin` (`StepSafe`).
`key_registry_safe` has all of it, over every run and with the users edited in between. -/

namespace Vsms.Api.KeyRegistry

open Vsms.Lib.Runs Vsms.Lib.Indexes Vsms.Schema.Types Vsms.Schema.Accounts
open Vsms.Api.ConsoleKeys

/-! ## What the transactions do -/

section specs
variable {validEmail : String → Bool} {reg reg' : Registry} {key k : ConsoleKey} {now : Time}

/-- Neither revoked nor expired. -/
def Live (key : ConsoleKey) (now : Time) : Prop := key.revokedAt = none ∧ now < key.expiresAt

theorem live_newKeyInput (id userId : String) (parsed : ParsedConsoleKey) (label : Option String)
    (now : Time) : Live (newKeyInput id userId parsed label now) now := by
  have hpos : 0 < keyLifetime := by decide
  exact ⟨rfl, lt_add_of_pos_right now hpos⟩

theorem sameRegistration_ok {existing : ConsoleKey} {userId : String}
    (h : sameRegistration existing userId now = .ok key) :
    key = existing ∧ key.userId = userId ∧ Live key now := by
  unfold sameRegistration at h
  split_ifs at h with huser hrevoked hexpired
  cases h
  refine ⟨rfl, not_not.mp huser, ?_, not_le.mp hexpired⟩
  simpa using hrevoked

theorem createKey_ok (h : reg.createKey k = .ok reg') :
    reg'.keys = reg.keys ++ [k] ∧ reg'.accounts = reg.accounts := by
  unfold Registry.createKey at h
  split_ifs at h
  cases h
  exact ⟨rfl, rfl⟩

theorem mem_of_findKey {thumbprint : String} (h : reg.findKey thumbprint = some k) :
    k ∈ reg.keys ∧ k.thumbprint = thumbprint := mem_of_find h

theorem findKey_of_mem (h : k ∈ reg.keys) : reg.findKey k.thumbprint = some k :=
  reg.thumbprintKey.find.mpr ⟨h, rfl⟩

/-- The user of a registration is linked to the person and no owner; the accounts have grown by the
account that was created, if one was. -/
structure UserFor (accounts accounts' : Tables) (g : Generated) (r : Registration) (userId : String)
    (created : List (User × FederatedLink)) : Prop where
  linked : accounts'.LinkedTo r.person userId
  user : ∃ u ∈ accounts'.users, u.id = userId ∧ u.roleKey ≠ ownerRoleKey
  users : accounts'.users = accounts.users ++ created.map Prod.fst
  links : accounts'.links = accounts.links ++ created.map Prod.snd
  own : ∀ c ∈ created, c.2.userId = c.1.id ∧ c.1.roleKey = pairedRole

theorem userFor_ok {accounts accounts' : Tables} {g : Generated} {r : Registration}
    {userId : String} (h : userFor validEmail accounts g r = .ok (accounts', userId)) :
    UserFor accounts accounts' g r userId
      (if (accounts.findLink federationIssuer r.vaamUserId).isNone then
        [((newAccount r).user g, (newAccount r).link g)] else []) := by
  unfold userFor at h
  split at h
  · next link hlink =>
    split at h
    · cases h
    · next active hactive =>
      split_ifs at h with howner
      cases h
      obtain ⟨hmem, hid⟩ := Tables.id_of_findActiveUser hactive
      rw [hlink, if_neg (by simp)]
      refine ⟨?_, ⟨active, hmem, rfl, howner⟩, by simp, by simp, fun _ hc => by cases hc⟩
      rw [hid]
      exact Tables.linkedTo_of_findLink hlink
  · next hlink =>
    split at h
    · cases h
    · next hcreate =>
      cases h
      obtain ⟨husers, hlinks, -⟩ := Tables.createAccount_ok hcreate
      rw [hlink, if_pos Option.isNone_none]
      refine ⟨⟨(newAccount r).link g, ?_, rfl, rfl⟩, ⟨(newAccount r).user g, ?_, rfl, ?_⟩, husers,
        hlinks, ?_⟩
      · rw [hlinks]
        exact List.mem_append_right _ List.mem_cons_self
      · rw [husers]
        exact List.mem_append_right _ List.mem_cons_self
      · show pairedRole ≠ ownerRoleKey
        decide
      · intro c hc
        rw [List.mem_singleton.mp hc]
        exact ⟨rfl, rfl⟩

/-- **`register`**: either the key was there, for this person and live, or it is created. -/
theorem registerTx_ok {g : Generated} {keyId : String} {r : Registration} {created : Bool}
    (h : registerTx validEmail reg g keyId r = .ok (reg', key, created)) :
    (reg' = reg ∧ key ∈ reg.keys ∧ Live key r.now ∧ reg.accounts.LinkedTo r.person key.userId ∧
      accountCreated reg g r = []) ∨
    (reg'.keys = reg.keys ++ [key] ∧ Live key r.now ∧
      UserFor reg.accounts reg'.accounts g r key.userId (accountCreated reg g r)) := by
  unfold registerTx at h
  split at h
  · next existing hfind =>
    split at h
    · cases h
    · next link hlink =>
      split at h
      · cases h
      · next hsame =>
        cases h
        obtain ⟨rfl, huser, hlive⟩ := sameRegistration_ok hsame
        refine Or.inl ⟨rfl, (mem_of_findKey hfind).1, hlive, ?_, ?_⟩
        · rw [huser]
          exact Tables.linkedTo_of_findLink hlink
        · simp only [accountCreated, hfind]
  · next hfind =>
    split at h
    · cases h
    · next accounts userId huser =>
      dsimp only at h
      split at h
      · cases h
      · next hcreate =>
        cases h
        obtain ⟨hkeys, haccounts⟩ := createKey_ok hcreate
        refine Or.inr ⟨hkeys, live_newKeyInput .., ?_⟩
        have hspec := userFor_ok huser
        have hcreated : accountCreated reg g r =
            if (reg.accounts.findLink federationIssuer r.vaamUserId).isNone then
              [((newAccount r).user g, (newAccount r).link g)] else [] := by
          unfold accountCreated
          rw [hfind]
          cases reg.accounts.findLink federationIssuer r.vaamUserId <;> rfl
        rw [hcreated, haccounts]
        exact hspec

end specs

/-! ## Keys that are kept -/

/-- **A key keeps its columns**, and the time of its revocation once it has one. -/
structure Kept (k k' : ConsoleKey) : Prop where
  thumbprint : k'.thumbprint = k.thumbprint
  userId : k'.userId = k.userId
  pairedAt : k'.pairedAt = k.pairedAt
  expiresAt : k'.expiresAt = k.expiresAt
  revokedAt : ∀ t, k.revokedAt = some t → k'.revokedAt = some t

theorem Kept.refl (k : ConsoleKey) : Kept k k := ⟨rfl, rfl, rfl, rfl, fun _ h => h⟩

theorem Kept.trans {k k' k'' : ConsoleKey} (h : Kept k k') (h' : Kept k' k'') : Kept k k'' where
  thumbprint := h'.thumbprint.trans h.thumbprint
  userId := h'.userId.trans h.userId
  pairedAt := h'.pairedAt.trans h.pairedAt
  expiresAt := h'.expiresAt.trans h.expiresAt
  revokedAt := fun t ht => h'.revokedAt t (h.revokedAt t ht)

/-- A thumbprint that is registered stays so, with the same key. -/
def KeysKept (reg reg' : Registry) : Prop :=
  ∀ thumbprint k, reg.findKey thumbprint = some k → ∃ k',
    reg'.findKey thumbprint = some k' ∧ Kept k k'

variable {reg reg' : Registry}

theorem KeysKept.refl (reg : Registry) : KeysKept reg reg := fun _ k h => ⟨k, h, .refl k⟩

theorem KeysKept.trans {reg'' : Registry} (h : KeysKept reg reg') (h' : KeysKept reg' reg'') :
    KeysKept reg reg'' := by
  intro thumbprint k hk
  obtain ⟨k', hk', hkept⟩ := h thumbprint k hk
  obtain ⟨k'', hk'', hkept'⟩ := h' thumbprint k' hk'
  exact ⟨k'', hk'', hkept.trans hkept'⟩

theorem keysKept_of_mem (h : ∀ k ∈ reg.keys, ∃ k' ∈ reg'.keys, Kept k k') : KeysKept reg reg' := by
  intro thumbprint k hk
  obtain ⟨hmem, hthumbprint⟩ := mem_of_findKey hk
  obtain ⟨k', hmem', hkept⟩ := h k hmem
  refine ⟨k', ?_, hkept⟩
  rw [← hthumbprint, ← hkept.thumbprint]
  exact findKey_of_mem hmem'

theorem keysKept_of_subset (h : reg.keys ⊆ reg'.keys) : KeysKept reg reg' :=
  keysKept_of_mem fun k hk => ⟨k, h hk, .refl k⟩

/-- The stamp falls on a key without one. -/
theorem keysKept_stampKey {key : ConsoleKey} {now : Time} (hkey : key ∈ reg.keys)
    (hnone : key.revokedAt = none) : KeysKept reg (reg.stampKey key.id now) := by
  refine keysKept_of_mem fun k hk => ⟨_, List.mem_map_of_mem hk, ?_⟩
  unfold Registry.stamp
  by_cases hid : k.id = key.id
  · have hsame : k = key := reg.pkey.eq hk hkey hid
    subst hsame
    rw [if_pos rfl]
    refine ⟨rfl, rfl, rfl, rfl, fun t ht => ?_⟩
    rw [hnone] at ht
    cases ht
  · rw [if_neg hid]
    exact .refl k

/-- **`revoke`** -/
theorem revokeTx_ok {keyId : String} {now : Time} {key : ConsoleKey}
    (h : revokeTx reg keyId now = .ok (reg', key)) :
    reg'.accounts = reg.accounts ∧ KeysKept reg reg' ∧ key ∈ reg'.keys ∧ key.id = keyId ∧
      key.revokedAt.isSome := by
  unfold revokeTx at h
  split at h
  · cases h
  · next found hfind =>
    obtain ⟨hmem, hid⟩ := mem_of_find hfind
    split_ifs at h with hrevoked
    · cases h
      exact ⟨rfl, .refl reg, hmem, hid, hrevoked⟩
    · cases h
      have hnone : found.revokedAt = none := by simpa using hrevoked
      subst hid
      refine ⟨rfl, keysKept_stampKey hmem hnone, ?_, rfl, rfl⟩
      exact List.mem_map.mpr ⟨found, hmem, if_pos rfl⟩

/-! ## What the calls answer -/

/-- The key a call has succeeded with. -/
def succeeded : Call → Option ConsoleKey
  | .registered _ (.ok key) => some key
  | .paired _ (.ok (key, _, _)) => some key
  | .revoked _ (.ok key) => some key
  | _ => none

/-- **What a call answers with**: a key that is live at its clock and that is the caller's, the
person's by their link or the user's that was named; `revoke` answers with the key it was asked for,
revoked. -/
def Answer (accounts : Tables) : Call → Prop
  | .registered r (.ok key) => Live key r.now ∧ accounts.LinkedTo r.person key.userId
  | .paired q (.ok (key, found, _)) =>
    Live key q.now ∧ key.userId = found.id ∧ Registry.named q.user found = true
  | .revoked keyId (.ok key) => key.id = keyId ∧ key.revokedAt.isSome
  | .findingKey q found _ => Registry.named q.user found = true
  | .creatingKey q found _ => Registry.named q.user found = true
  | _ => True

theorem Answer.grow {accounts accounts' : Tables} (hsub : accounts.links ⊆ accounts'.links)
    {c : Call} (h : Answer accounts c) : Answer accounts' c := by
  unfold Answer at h ⊢
  split
  · exact ⟨h.1, h.2.grow hsub⟩
  all_goals first | exact h | trivial

/-- The next read: a key that it finds is answered as it is in the table. -/
theorem readNext_answer {c c' : Call} (hc : Answer reg.accounts c) (h : readNext reg c = some c') :
    Answer reg.accounts c' ∧ ∀ key, succeeded c' = some key → key ∈ reg.keys := by
  unfold readNext at h
  split at h
  · split at h
    · cases h
      exact ⟨trivial, fun _ h => by cases h⟩
    · next found hfound =>
      cases h
      have hnamed := List.find?_some hfound
      rw [Bool.and_eq_true] at hnamed
      exact ⟨hnamed.1, fun _ h => by cases h⟩
  · split at h
    · cases h
      exact ⟨hc, fun _ h => by cases h⟩
    · next existing hfind =>
      split at h
      · cases h
        exact ⟨trivial, fun _ h => by cases h⟩
      · next key hsame =>
        cases h
        obtain ⟨rfl, huser, hlive⟩ := sameRegistration_ok hsame
        refine ⟨⟨hlive, huser, hc⟩, fun key' h => ?_⟩
        cases h
        exact (mem_of_findKey hfind).1
  · cases h

/-! ## Steps -/

/-- **What a call may write**: keys are kept; the accounts grow by those that are created, each with
its link; and nobody becomes an owner. -/
structure Writes (reg reg' : Registry) (new : List (User × FederatedLink)) : Prop where
  kept : KeysKept reg reg'
  links : reg'.accounts.links = reg.accounts.links ++ new.map Prod.snd
  ids : reg'.accounts.users.map User.id = reg.accounts.users.map User.id ++ new.map (·.1.id)
  own : ∀ c ∈ new, c.2.userId = c.1.id
  owners : ∀ u ∈ reg'.accounts.users, u.roleKey = ownerRoleKey → u ∈ reg.accounts.users

/-- The accounts stay as they are. -/
theorem Writes.keys (hkept : KeysKept reg reg') (haccounts : reg'.accounts = reg.accounts) :
    Writes reg reg' [] := by
  refine ⟨hkept, ?_, ?_, by simp, fun u hu _ => ?_⟩
  · rw [haccounts]
    simp
  · rw [haccounts]
    simp
  · rwa [haccounts] at hu

theorem Writes.refl (reg : Registry) : Writes reg reg [] := .keys (.refl reg) rfl

/-- Keys that were added are for users that are no owners. -/
def NoOwnerKey (reg reg' : Registry) : Prop :=
  ∀ k ∈ reg'.keys, k ∈ reg.keys ∨
    ∃ u ∈ reg'.accounts.users, u.id = k.userId ∧ u.roleKey ≠ ownerRoleKey

variable {crypto : Crypto} {validEmail : String → Bool}

/-- **The transaction of `register`.** -/
theorem registerTx_writes {g : Generated} {keyId : String} {r : Registration} {key : ConsoleKey}
    {created : Bool} (h : registerTx validEmail reg g keyId r = .ok (reg', key, created)) :
    Writes reg reg' (accountCreated reg g r) ∧ NoOwnerKey reg reg' ∧ key ∈ reg'.keys ∧
      Live key r.now ∧ reg'.accounts.LinkedTo r.person key.userId := by
  rcases registerTx_ok h with ⟨rfl, hkey, hlive, hlinked, hnone⟩ | ⟨hkeys, hlive, huser⟩
  · rw [hnone]
    exact ⟨.refl reg', fun k hk => Or.inl hk, hkey, hlive, hlinked⟩
  · have hsub : reg.keys ⊆ reg'.keys := by
      rw [hkeys]
      exact List.subset_append_left _ _
    refine ⟨⟨keysKept_of_subset hsub, huser.links, ?_, fun c hc => (huser.own c hc).1, ?_⟩, ?_, ?_,
      hlive, huser.linked⟩
    · rw [huser.users, List.map_append, List.map_map]
      rfl
    · intro u hu howner
      rw [huser.users] at hu
      rcases List.mem_append.mp hu with hu | hu
      · exact hu
      · -- The account that was created is an admin's.
        obtain ⟨c, hc, rfl⟩ := List.mem_map.mp hu
        rw [(huser.own c hc).2] at howner
        exact absurd howner (by decide)
    · intro k hk
      rw [hkeys] at hk
      rcases List.mem_append.mp hk with hk | hk
      · exact Or.inl hk
      · rw [List.mem_singleton.mp hk]
        exact Or.inr huser.user
    · rw [hkeys]
      exact List.mem_append_right _ List.mem_cons_self

/-- **What a step does.** -/
inductive Effect (s : Sys) : Action → Sys → Prop
  | call {a : Action} {p : ℕ} {c : Call} {reg : Registry} {new : List (User × FederatedLink)}
      (hw : Writes s.reg reg new) (hc : Answer reg.accounts c)
      (hkey : ∀ key, succeeded c = some key → key ∈ reg.keys)
      (hregister : ∀ q g keyId lost, a = .register q g keyId lost → NoOwnerKey s.reg reg) :
      Effect s a ⟨reg, Function.update s.calls p c, s.created ++ new⟩
  | edit {userId : String} {e : UserEdit} : Effect s (.edit userId e)
      { s with reg := { s.reg with accounts := s.reg.accounts.editUser userId e } }

variable {s s' : Sys} {a : Action}

/-- A call goes on and writes nothing. -/
theorem Effect.quiet {p : ℕ} {c : Call} (hc : Answer s.reg.accounts c)
    (hkey : ∀ key, succeeded c = some key → key ∈ s.reg.keys) : Effect s a (s.setCall p c) := by
  have heffect : Effect s a ⟨s.reg, Function.update s.calls p c, s.created ++ []⟩ :=
    .call (.refl s.reg) hc hkey fun _ _ _ _ _ k hk => Or.inl hk
  rw [List.append_nil] at heffect
  exact heffect

/-- A call fails. -/
theorem Effect.failed {p : ℕ} {c : Call} (hc : Answer s.reg.accounts c)
    (hnone : succeeded c = none) :
    Effect s a (s.setCall p c) := by
  refine .quiet hc fun key hkey => ?_
  rw [hnone] at hkey
  cases hkey

theorem answer_begin (accounts : Tables) (request : Request) :
    Answer accounts (begin crypto request) ∧ succeeded (begin crypto request) = none := by
  unfold begin
  split
  · split <;> exact ⟨trivial, rfl⟩
  · split <;> exact ⟨trivial, rfl⟩
  · exact ⟨trivial, rfl⟩

theorem answer_retryRegister (accounts : Tables) (r : Registration) (attempt : ℕ) (e : ApiError) :
    Answer accounts (retryRegister r attempt e) ∧ succeeded (retryRegister r attempt e) = none := by
  unfold retryRegister
  split_ifs <;> exact ⟨trivial, rfl⟩

theorem answer_retryPairing (accounts : Tables) {q : Pairing} {found : User}
    (hnamed : Registry.named q.user found = true) (attempt : ℕ) (e : DbError) :
    Answer accounts (retryPairing q found attempt e) ∧
      succeeded (retryPairing q found attempt e) = none := by
  unfold retryPairing
  split_ifs
  · exact ⟨hnamed, rfl⟩
  · exact ⟨trivial, rfl⟩

theorem answer_fail (accounts : Tables) {c c' : Call} (h : c.fail = some c') :
    Answer accounts c' ∧ succeeded c' = none := by
  unfold Call.fail at h
  split at h <;> cases h <;> exact ⟨trivial, rfl⟩

/-- An answer that may be lost. -/
theorem answer_unlessLost {accounts : Tables} {c e : Call} (lost : Bool) (hc : Answer accounts c)
    (he : Answer accounts e) : Answer accounts (unlessLost lost c e) := by
  unfold unlessLost
  split_ifs
  · exact he
  · exact hc

theorem succeeded_unlessLost {c e : Call} {lost : Bool} {key : ConsoleKey} (he : succeeded e = none)
    (h : succeeded (unlessLost lost c e) = some key) : succeeded c = some key := by
  unfold unlessLost at h
  split_ifs at h
  · rw [he] at h
    cases h
  · exact h

/-- A call writes keys only, and is no `register`. -/
theorem Effect.wrote {p : ℕ} {c e : Call} {lost : Bool} {reg : Registry} {key : ConsoleKey}
    (hw : Writes s.reg reg []) (hc : Answer reg.accounts c) (he : Answer reg.accounts e)
    (hsucc : succeeded c = some key) (hfail : succeeded e = none) (hkey : key ∈ reg.keys)
    (ha : ∀ q g keyId lost, a ≠ .register q g keyId lost) :
    Effect s a ({ s with reg }.setCall p (unlessLost lost c e)) := by
  have heffect :
      Effect s a ⟨reg, Function.update s.calls p (unlessLost lost c e), s.created ++ []⟩ := by
    refine .call hw (answer_unlessLost lost hc he) ?_ fun q g keyId lost h =>
      absurd h (ha q g keyId lost)
    intro key' hkey'
    have hsame := hsucc.symm.trans (succeeded_unlessLost hfail hkey')
    cases hsame
    exact hkey
  rw [List.append_nil] at heffect
  exact heffect

theorem register_effect {p : ℕ} {g : Generated} {keyId : String} {lost : Bool}
    (h : step crypto validEmail s (.register p g keyId lost) = some s') :
    Effect s (.register p g keyId lost) s' := by
  dsimp only [step] at h
  split at h
  · next r attempt hp =>
    split at h
    · next e he =>
      cases h
      obtain ⟨hc, hnone⟩ := answer_retryRegister s.reg.accounts r attempt e
      exact .failed hc hnone
    · next reg key created htx =>
      cases h
      obtain ⟨hw, hno, hkey, hlive, hlinked⟩ := registerTx_writes htx
      refine .call hw (answer_unlessLost lost ⟨hlive, hlinked⟩ trivial) ?_ fun _ _ _ _ _ => hno
      intro key' hsucc
      cases succeeded_unlessLost rfl hsucc
      exact hkey
  · cases h

theorem create_effect {p : ℕ} {keyId : String} {lost : Bool}
    (hs : ∀ p, Answer s.reg.accounts (s.calls p))
    (h : step crypto validEmail s (.create p keyId lost) = some s') :
    Effect s (.create p keyId lost) s' := by
  dsimp only [step] at h
  split at h
  · next q found attempt hp =>
    have hnamed : Registry.named q.user found = true := by
      have hknows := hs p
      rw [hp] at hknows
      exact hknows
    split at h
    · next e he =>
      cases h
      obtain ⟨hc, hnone⟩ := answer_retryPairing s.reg.accounts hnamed attempt e
      exact .failed hc hnone
    · next reg hcreate =>
      cases h
      obtain ⟨hkeys, haccounts⟩ := createKey_ok hcreate
      have hsub : s.reg.keys ⊆ reg.keys := by
        rw [hkeys]
        exact List.subset_append_left _ _
      have hkey : newKeyInput keyId found.id q.key q.label q.now ∈ reg.keys := by
        rw [hkeys]
        exact List.mem_append_right _ List.mem_cons_self
      refine .wrote (.keys (keysKept_of_subset hsub) haccounts) ⟨live_newKeyInput .., rfl,
        hnamed⟩ trivial
        rfl rfl hkey ?_
      intro q g keyId lost ha
      cases ha
  · cases h

theorem revoke_effect {p : ℕ} {now : Time} {lost : Bool}
    (h : step crypto validEmail s (.revoke p now lost) = some s') :
    Effect s (.revoke p now lost) s' := by
  dsimp only [step] at h
  split at h
  · next keyId hp =>
    split at h
    · next e he =>
      cases h
      exact .failed trivial rfl
    · next reg key htx =>
      cases h
      obtain ⟨haccounts, hkept, hkey, hid, hrevoked⟩ := revokeTx_ok htx
      refine .wrote (.keys hkept haccounts) ⟨hid, hrevoked⟩ trivial rfl rfl hkey ?_
      intro q g keyId lost ha
      cases ha
  · cases h

theorem step_effect (hs : ∀ p, Answer s.reg.accounts (s.calls p))
    (h : step crypto validEmail s a = some s') : Effect s a s' := by
  cases a with
  | call p request =>
    dsimp only [step] at h
    split at h
    · cases h
      obtain ⟨hc, hnone⟩ := answer_begin s.reg.accounts request
      exact .failed hc hnone
    · cases h
  | register p g keyId lost => exact register_effect h
  | abort p constraint =>
    dsimp only [step] at h
    split at h
    · next r attempt hp =>
      cases h
      obtain ⟨hc, hnone⟩ :=
        answer_retryRegister s.reg.accounts r attempt (.db (.uniqueViolation constraint))
      exact .failed hc hnone
    · cases h
  | read p =>
    obtain ⟨c, hc, rfl⟩ := Option.map_eq_some_iff.mp h
    obtain ⟨hanswer, hkey⟩ := readNext_answer (hs p) hc
    exact .quiet hanswer hkey
  | create p keyId lost => exact create_effect hs h
  | revoke p now lost => exact revoke_effect h
  | fail p =>
    obtain ⟨c, hc, rfl⟩ := Option.map_eq_some_iff.mp h
    obtain ⟨hanswer, hnone⟩ := answer_fail s.reg.accounts hc
    exact .failed hanswer hnone
  | edit userId e =>
    cases h
    exact .edit

/-! ## Runs -/

/-- **A step of the registry.** -/
structure StepSafe (s : Sys) (a : Action) (s' : Sys) : Prop where
  /-- Registered keys are kept. -/
  kept : KeysKept s.reg s'.reg
  /-- A call that succeeds answers with the row that is in the table then. -/
  answered : ∀ p key, succeeded (s'.calls p) = some key →
    succeeded (s.calls p) = some key ∨ s'.reg.findKey key.thumbprint = some key
  /-- `register` creates no key for an owner. -/
  noOwnerKey : ∀ p g keyId lost, a = .register p g keyId lost → NoOwnerKey s.reg s'.reg
  /-- No call creates an owner or makes one of a user. -/
  noOwner : (∀ userId e, a ≠ .edit userId e) →
    ∀ u ∈ s'.reg.accounts.users, u.roleKey = ownerRoleKey → u ∈ s.reg.accounts.users

/-- **A state of the registry**, in a run from `reg`. -/
structure Safe (reg : Registry) (s : Sys) : Prop where
  /-- No call succeeds with a key that is revoked or expired at its clock, or that is another
  user's. -/
  answers : ∀ p, Answer s.reg.accounts (s.calls p)
  /-- The accounts are those there were and those that `register` created, each with its link. -/
  ids : s.reg.accounts.users.map User.id =
    reg.accounts.users.map User.id ++ s.created.map (·.1.id)
  links : s.reg.accounts.links = reg.accounts.links ++ s.created.map Prod.snd
  own : ∀ c ∈ s.created, c.2.userId = c.1.id
  /-- A person gets one, if they had none. -/
  once : Unique (fun c => c.2.person) s.created
  first : ∀ c ∈ s.created, ∀ l ∈ reg.accounts.links, c.2.person ≠ l.person
  /-- The calls that succeed for a person name one user. -/
  same : ∀ p q r r' key key', s.calls p = .registered r (.ok key) →
    s.calls q = .registered r' (.ok key') → r.vaamUserId = r'.vaamUserId → key.userId = key'.userId

structure Inv (reg : Registry) (s : Sys) : Prop where
  answers : ∀ p, Answer s.reg.accounts (s.calls p)
  ids : s.reg.accounts.users.map User.id =
    reg.accounts.users.map User.id ++ s.created.map (·.1.id)
  links : s.reg.accounts.links = reg.accounts.links ++ s.created.map Prod.snd
  own : ∀ c ∈ s.created, c.2.userId = c.1.id

theorem inv_init (reg : Registry) : Inv reg (init reg) where
  answers := fun _ => trivial
  ids := (List.append_nil _).symm
  links := (List.append_nil _).symm
  own := fun _ h => by cases h

theorem Inv.safe (hs : Inv reg s) : Safe reg s := by
  obtain ⟨honce, hfirst⟩ := Tables.created_once hs.links
  refine ⟨hs.answers, hs.ids, hs.links, hs.own, honce, hfirst, ?_⟩
  intro p q r r' key key' hp hq hperson
  have hlinked : ∀ p r key, s.calls p = .registered r (.ok key) →
      s.reg.accounts.LinkedTo r.person key.userId := by
    intro p r key hp
    have hanswer := hs.answers p
    rw [hp] at hanswer
    exact hanswer.2
  have hr := hlinked p r key hp
  unfold Registration.person at hr
  rw [hperson] at hr
  exact hr.unique (hlinked q r' key' hq)

theorem Inv.step_inv (hs : Inv reg s) (h : step crypto validEmail s a = some s') : Inv reg s' := by
  cases step_effect hs.answers h with
  | @call _ p c reg' new hw hc hkey hregister =>
    have hsub : s.reg.accounts.links ⊆ reg'.accounts.links := by
      rw [hw.links]
      exact List.subset_append_left _ _
    refine ⟨?_, ?_, ?_, ?_⟩
    · exact (Function.forall_update_iff s.calls fun _ => Answer reg'.accounts).mpr
        ⟨hc, fun q _ => (hs.answers q).grow hsub⟩
    · rw [hw.ids, hs.ids, List.map_append, List.append_assoc]
    · rw [hw.links, hs.links, List.map_append, List.append_assoc]
    · intro c' hc'
      rcases List.mem_append.mp hc' with hc' | hc'
      · exact hs.own c' hc'
      · exact hw.own c' hc'
  | @edit userId e =>
    refine ⟨fun p => (hs.answers p).grow fun _ hl => hl, ?_, hs.links, hs.own⟩
    rw [← hs.ids]
    show (s.reg.accounts.users.map (e.apply userId)).map User.id = _
    rw [List.map_map]
    exact List.map_congr_left fun u _ => (e.apply_keys userId u).1

theorem Inv.stepSafe (hs : Inv reg s) (h : step crypto validEmail s a = some s') :
    StepSafe s a s' := by
  cases step_effect hs.answers h with
  | @call _ p c reg' new hw hc hkey hregister =>
    refine ⟨hw.kept, fun q key hsucc => ?_, hregister, fun _ => hw.owners⟩
    rcases update_cases succeeded hsucc with ⟨-, hsucc⟩ | ⟨-, hsucc⟩
    · exact Or.inr (findKey_of_mem (hkey key hsucc))
    · exact Or.inl hsucc
  | @edit userId e =>
    refine ⟨fun _ k hk => ⟨k, hk, .refl k⟩, fun q key hsucc => Or.inl hsucc, ?_, ?_⟩
    · intro p g keyId lost ha
      cases ha
    · intro hne
      exact absurd rfl (hne userId e)

/-- **The registry of console keys**, over every run: what holds in every state, what every step
does, and that a thumbprint that is registered at some time is so, with the same key, at every later
one. -/
theorem key_registry_safe (crypto : Crypto) (validEmail : String → Bool) (reg : Registry) :
    (∀ as, Always (step crypto validEmail) (Safe reg) (init reg) as ∧
      Along (step crypto validEmail) StepSafe (init reg) as) ∧
    ∀ as bs s t, exec (step crypto validEmail) (init reg) as = some s →
      exec (step crypto validEmail) s bs = some t → KeysKept s.reg t.reg := by
  have hstep : ∀ s a s', Inv reg s → step crypto validEmail s a = some s' → True → Inv reg s' :=
    fun _ _ _ hs h _ => hs.step_inv h
  refine ⟨fun as => ⟨?_, ?_⟩, fun as bs s t has hbs => ?_⟩
  · exact (along_true _ as).always (fun _ hs => hs.safe) hstep (inv_init reg)
  · exact Along.of_invariant (fun _ _ _ hs h _ => hs.stepSafe h) hstep (inv_init reg)
      (along_true _ as)
  · have hs : Inv reg s := exec_invariant' (fun _ _ _ hs h => hs.step_inv h) (inv_init reg) has
    refine exec_rel (I := Inv reg) (R := fun s t => KeysKept s.reg t.reg) (fun s => .refl s.reg)
      (fun _ _ _ h h' => h.trans h') ?_ hs hbs
    intro s a s' hs h
    exact ⟨hs.step_inv h, (hs.stepSafe h).kept⟩

/-! ## Runs of one person -/

/-- Libraries that accept every text, and give each its own thumbprint. -/
def lenient : Crypto where
  decode := fun text => some (4 :: List.replicate 63 0 ++ [text.length.toUInt8])
  p256Sec1 := fun bytes => .ok (bytes.drop 33)
  isSignature := fun _ => true
  verify := fun _ _ _ => true

def request (publicKey : String) : Request := .register ⟨"usr_42", none, publicKey, "proof", 0⟩ 0

def emptyRegistry : Registry := ⟨.empty, [], .nil, .nil⟩

/-- Two first registrations of one person, with different keys: the second has read the tables
before the first committed, fails on the e-mail, and joins the user of the first when it goes
around. -/
example : (exec (step lenient fun _ => true) (init emptyRegistry)
    [.call 0 (request "a"), .call 1 (request "ab"), .register 0 ⟨"u", "l", "x"⟩ "k" false,
      .abort 1 .usersEmailKey, .register 1 ⟨"u'", "l'", "x'"⟩ "k'" false]).map (fun s =>
        (s.reg.accounts.users.map (·.roleKey), s.reg.accounts.links.map (·.userId),
          s.reg.keys.map fun k => (k.id, k.userId))) =
      some (["admin"], ["u"], [("k", "u"), ("k'", "u")]) := by decide +kernel

/-- A key is registered and revoked, and then revoked once more. -/
def revokedTwice : List Action :=
  [.call 0 (request "a"), .register 0 ⟨"u", "l", "x"⟩ "k" false, .call 1 (.revoke "k"),
    .revoke 1 5 false, .call 2 (.revoke "k"), .revoke 2 9 false]

/-- **`revoke` succeeds with a key that is revoked**, at its first time. -/
theorem revoke_answers_revoked :
    ¬ Always (step lenient fun _ => true)
      (fun s => ∀ p key, succeeded (s.calls p) = some key → key.revokedAt = none)
      (init emptyRegistry) revokedTwice := by
  intro h
  obtain ⟨t, ht, hkey⟩ := exec_eval (b := some (some 5))
    (f := fun t : Sys => (succeeded (t.calls 2)).map (·.revokedAt))
    (show (exec (step lenient fun _ => true) (init emptyRegistry) revokedTwice).map _ = _ by
      decide +kernel)
  obtain ⟨key, hsucc, hrevoked⟩ := Option.map_eq_some_iff.mp hkey
  have hnone := h.last ht 2 key hsucc
  rw [hrevoked] at hnone
  cases hnone

end Vsms.Api.KeyRegistry
