import Vsms.Sso.Transactions
import Vsms.Sso.Users

/-! # The callback

`/login/sso/callback` consumes the transaction of its `state` and resolves the person who signed in.
`Transactions` has the first half. In the second, the unique index on issuer and subject lets one
transaction create the account of a person; the others, that of another call in the same round or an
e-mail that came first, leave the tables as they were, and what a call answers with is always the
user of the person's link (`SingleAccount`). -/

namespace Vsms.Sso.Callback

open Vsms.Lib.Runs Vsms.Lib.Indexes Vsms.Schema.Accounts Vsms.Sso.Users

/-- What a call knows of the links. -/
def Knows (db : Tables) : Call → Prop
  | .findingUser i userId => db.LinkedTo i.person userId
  | .returned i (.ok r) => db.LinkedTo i.person r.userId
  | _ => True

/-- **One account for a person**, in a run from the tables `db`. -/
structure SingleAccount (db : Tables) (s : Sys) : Prop where
  /-- The users are those there were and those of the transactions that committed, each with the
  link of its transaction. -/
  users : s.db.users = db.users ++ s.created.map Prod.fst
  links : s.db.links = db.links ++ s.created.map Prod.snd
  own : ∀ c ∈ s.created, c.2.userId = c.1.id
  /-- No person gets two, and none who had a link gets one. -/
  once : Unique (fun c => c.2.person) s.created
  first : ∀ c ∈ s.created, ∀ l ∈ db.links, c.2.person ≠ l.person
  /-- The calls that succeed for a person answer with one user. -/
  same : ∀ p q i j r r', s.calls p = .returned i (.ok r) → s.calls q = .returned j (.ok r') →
    i.person = j.person → r.userId = r'.userId

structure Inv (db : Tables) (s : Sys) : Prop where
  users : s.db.users = db.users ++ s.created.map Prod.fst
  links : s.db.links = db.links ++ s.created.map Prod.snd
  own : ∀ c ∈ s.created, c.2.userId = c.1.id
  calls : ∀ p, Knows s.db (s.calls p)

variable {lower : String → String} {validEmail : String → Bool} {db : Tables} {s s' : Sys}
    {a : Action}

theorem inv_init (db : Tables) : Inv db (init db) where
  users := (List.append_nil _).symm
  links := (List.append_nil _).symm
  own := fun _ h => by cases h
  calls := fun _ => trivial

/-! ## Steps -/

theorem knows_of_plain (db : Tables) {c : Call} (h : c.plain = true) : Knows db c := by
  unfold Call.plain at h
  split at h <;> trivial

theorem knows_scanPage (db : Tables) (i : SignIn) (round : ℕ) (email : String) (n : ℕ)
    (seen : List User) : Knows db (scanPage lower db i round email n seen) := by
  unfold scanPage
  dsimp only
  split_ifs <;> trivial

theorem knows_advance {c c' : Call} (hc : Knows db c) (h : advance lower db c = some c') :
    Knows db c' := by
  unfold advance at h
  split at h
  · split at h
    · next hlink =>
      cases h
      exact Tables.linkedTo_of_findLink hlink
    · split at h
      · cases h
        trivial
      · cases h
        trivial
  · split at h
    · next hu =>
      cases h
      rw [← (Tables.id_of_findActiveUser hu).2] at hc
      exact hc
    · cases h
      trivial
  · cases h
    exact knows_scanPage ..
  · split at h
    · cases h
      exact knows_of_plain db (plain_nextRound _ _)
    · cases h
      trivial
  · cases h

/-- Links are only added. -/
theorem Knows.grow {db db' : Tables} (hsub : db.links ⊆ db'.links) {c : Call} (hc : Knows db c) :
    Knows db' c := by
  unfold Knows at hc ⊢
  split
  · exact Tables.LinkedTo.grow hsub hc
  · exact Tables.LinkedTo.grow hsub hc
  · trivial

theorem Inv.setCall (hs : Inv db s) {p : ℕ} {c : Call} (hc : Knows s.db c) :
    Inv db (s.setCall p c) where
  users := hs.users
  links := hs.links
  own := hs.own
  calls := (Function.forall_update_iff s.calls fun _ => Knows s.db).mpr ⟨hc, fun q _ => hs.calls q⟩

theorem Inv.step_inv (hs : Inv db s) (h : step lower validEmail s a = some s') : Inv db s' := by
  cases step_effect h with
  | call hc => exact hs.setCall trivial
  | advance hc => exact hs.setCall (knows_advance (hs.calls _) hc)
  | fail hc => exact hs.setCall trivial
  | refused hc he => exact hs.setCall (knows_of_plain _ (plain_outcome _ _ _))
  | @created p g lost i round email seen db' hc hdb =>
    obtain ⟨husers, hlinks⟩ := provision_ok hdb
    have hsub : s.db.links ⊆ db'.links := by
      rw [hlinks]
      exact List.subset_append_left _ _
    have hcommitted : Knows db' (committed i email g lost) := by
      unfold committed
      split_ifs
      · trivial
      · refine ⟨(newAccount i.config i.claims email).link g, ?_, rfl, rfl⟩
        rw [hlinks]
        exact List.mem_append_right _ List.mem_cons_self
    refine ⟨?_, ?_, ?_, ?_⟩
    · rw [husers, hs.users]
      simp
    · rw [hlinks, hs.links]
      simp
    · intro c hmem
      rcases List.mem_append.mp hmem with hmem | hmem
      · exact hs.own c hmem
      · rw [List.mem_singleton.mp hmem]
        rfl
    · exact (Function.forall_update_iff s.calls fun _ => Knows db').mpr
        ⟨hcommitted, fun q _ => (hs.calls q).grow hsub⟩

/-! ## Runs -/

theorem Inv.linkedTo (hs : Inv db s) {p : ℕ} {i : SignIn} {r : ResolvedUser}
    (hp : s.calls p = .returned i (.ok r)) : s.db.LinkedTo i.person r.userId := by
  have hknows := hs.calls p
  rw [hp] at hknows
  exact hknows

theorem Inv.singleAccount (hs : Inv db s) : SingleAccount db s := by
  obtain ⟨honce, hfirst⟩ := Tables.created_once hs.links
  refine ⟨hs.users, hs.links, hs.own, honce, hfirst, ?_⟩
  intro p q i j r r' hp hq hij
  have hi := hs.linkedTo hp
  rw [hij] at hi
  exact hi.unique (hs.linkedTo hq)

theorem always_singleAccount (db : Tables) (as : List Action) :
    Always (step lower validEmail) (SingleAccount db) (init db) as := by
  refine (along_true _ as).always (I := Inv db) (fun _ hs => hs.singleAccount) ?_ (inv_init db)
  intro s a s' hs h _
  exact hs.step_inv h

/-- Two first sign-ins of one person: the second transaction fails on the e-mail, finds the link of
the first, and the call goes around and answers with that user. -/
example : (exec (step asciiLower fun _ => true) (init .empty)
    [.call 0 (signIn "u1" "ada@corp.test"), .call 1 (signIn "u1" "ada@corp.test"),
      .advance 0, .advance 1, .advance 0, .advance 1, .create 0 ⟨"a", "la", "x"⟩ false,
      .create 1 ⟨"b", "lb", "y"⟩ false,
      .advance 1, .advance 1, .advance 1]).map (fun s =>
        match s.calls 0, s.calls 1 with
        | .returned _ (.ok r), .returned _ (.ok r') =>
          (r.userId, r.provisioned, r'.userId, r'.provisioned)
        | _, _ => ("", false, "", false)) =
      some ("a", true, "a", false) := by decide +kernel

/-- **Single use, and a single account**: over all runs of both halves, from any tables. -/
theorem single_use_single_account (sha256 : List UInt8 → Vector UInt8 32) (lower : String → String)
    (validEmail : String → Bool) :
    (∀ st as, Always (Transactions.step sha256) (Transactions.SingleUse sha256)
      (Transactions.init st) as) ∧
    ∀ db as, Always (step lower validEmail) (SingleAccount db) (init db) as :=
  ⟨fun st as => Transactions.always_singleUse st as, fun db as => always_singleAccount db as⟩

end Vsms.Sso.Callback
