import Vsms.Lib.Indexes
import Vsms.Schema.Types

/-! # The `users` and `federated_links` tables

An account is a row of `users`; a link names the account of a person at an identity provider. Both
tables have their unique indexes and the foreign key as fields. A statement that would break one
fails with the name of the index, and a transaction is its statements one after the other: the
tables come back only if all of them succeed. -/

namespace Vsms.Schema.Accounts

open Vsms.Lib.Indexes Vsms.Schema.Types

/-- The columns of `users` that are read. -/
structure User where
  id : String
  subject : String
  email : String
  displayName : String
  roleKey : String
  active : Bool
  deletedAt : Option Time
  deriving DecidableEq, Repr

/-- `@@soft_delete` hides deleted rows. -/
def User.live (u : User) : Bool := u.deletedAt.isNone

structure FederatedLink where
  id : String
  issuer : String
  subject : String
  userId : String
  deriving DecidableEq, Repr

/-- The person a link is for. -/
def FederatedLink.person (l : FederatedLink) : String × String := (l.issuer, l.subject)

/-- `RESERVED_ROLE_KEYS` -/
def reservedRoleKeys : List String := ["system", "app"]

/-- `DEVICE_ONLY_ROLES` -/
def deviceOnlyRoles : List String := ["owner", "admin"]

/-- What the database and the call make up for a new account. -/
structure Generated where
  userId : String
  linkId : String
  uuid : String
  deriving DecidableEq, Repr

/-- An account and the person it is for. -/
structure NewAccount where
  email : String
  displayName : String
  roleKey : String
  issuer : String
  subject : String
  deriving DecidableEq, Repr

/-- The row as it is when the transaction is over: its subject is its own id. -/
def NewAccount.user (a : NewAccount) (g : Generated) : User :=
  ⟨g.userId, g.userId, a.email, a.displayName, a.roleKey, true, none⟩

def NewAccount.link (a : NewAccount) (g : Generated) : FederatedLink :=
  ⟨g.linkId, a.issuer, a.subject, g.userId⟩

/-- What the console may change in a user. -/
structure UserEdit where
  roleKey : String
  active : Bool
  deletedAt : Option Time
  deriving DecidableEq, Repr

def UserEdit.apply (e : UserEdit) (id : String) (u : User) : User :=
  if u.id = id then { u with roleKey := e.roleKey, active := e.active, deletedAt := e.deletedAt }
    else u

theorem UserEdit.apply_keys (e : UserEdit) (id : String) (u : User) :
    (e.apply id u).id = u.id ∧ (e.apply id u).subject = u.subject ∧
    (e.apply id u).email = u.email := by
  unfold UserEdit.apply
  split_ifs <;> exact ⟨rfl, rfl, rfl⟩

/-- The constraint a unique violation names. -/
inductive UniqueIndex
  | usersPkey
  | usersSubjectKey
  | usersEmailKey
  | federatedLinksPkey
  | federatedLinksIssuerSubjectKey
  | consoleKeysPkey
  | consoleKeysThumbprintKey
  deriving DecidableEq, Repr

inductive DbError
  /-- `23505` -/
  | uniqueViolation (constraint : UniqueIndex)
  /-- `23503` -/
  | foreignKeyViolation
  | validation
  /-- A policy of the model. -/
  | forbidden
  | notFound
  deriving DecidableEq, Repr

/-- **The two tables.** `users_email_key` is on the exact text, deleted rows included. -/
structure Tables where
  users : List User
  links : List FederatedLink
  usersPkey : Unique User.id users
  usersSubjectKey : Unique User.subject users
  usersEmailKey : Unique User.email users
  linksPkey : Unique FederatedLink.id links
  linksPersonKey : Unique FederatedLink.person links
  linksUserFkey : ∀ l ∈ links, ∃ u ∈ users, u.id = l.userId

namespace Tables

def empty : Tables := ⟨[], [], .nil, .nil, .nil, .nil, .nil, fun _ h => by cases h⟩

/-! ## Reads -/

/-- What `find_many` sees. -/
def liveUsers (db : Tables) : List User := db.users.filter User.live

/-- `find_link` -/
def findLink (db : Tables) (issuer subject : String) : Option FederatedLink :=
  db.links.find? (·.person = (issuer, subject))

/-- `find_active_user` -/
def findActiveUser (db : Tables) (userId : String) : Option User :=
  db.liveUsers.find? fun u => u.id = userId && u.active

/-! ## Statements -/

section statements
variable (validEmail : String → Bool)

/-- `@email` and `@length(min: 1, max: 128)` -/
def validUser (u : User) : Bool :=
  validEmail u.email && 1 ≤ u.displayName.length && u.displayName.length ≤ 128

/-- `@@allow("create", hasRole('owner') || (hasRole('admin') && roleKey != 'owner'))` -/
def mayCreate (creator roleKey : String) : Bool :=
  creator = "owner" || (creator = "admin" && roleKey ≠ "owner")

def createUser (db : Tables) (creator : String) (u : User) : Except DbError Tables :=
  if !validUser validEmail u then .error .validation
  else if !mayCreate creator u.roleKey then .error .forbidden
  else if hid : ∃ x ∈ db.users, x.id = u.id then .error (.uniqueViolation .usersPkey)
  else if hsubject : ∃ x ∈ db.users, x.subject = u.subject then
    .error (.uniqueViolation .usersSubjectKey)
  else if hemail : ∃ x ∈ db.users, x.email = u.email then .error (.uniqueViolation .usersEmailKey)
  else .ok { db with
    users := db.users ++ [u]
    usersPkey := db.usersPkey.concat fun y hy h => hid ⟨y, hy, h⟩
    usersSubjectKey := db.usersSubjectKey.concat fun y hy h => hsubject ⟨y, hy, h⟩
    usersEmailKey := db.usersEmailKey.concat fun y hy h => hemail ⟨y, hy, h⟩
    linksUserFkey := fun l hl => by
      obtain ⟨y, hy, h⟩ := db.linksUserFkey l hl
      exact ⟨y, List.mem_append_left _ hy, h⟩ }

/-- The column `subject` of one row. -/
def writeSubject (id subject : String) (u : User) : User :=
  if u.id = id then { u with subject } else u

theorem writeSubject_id (id subject : String) (u : User) :
    (writeSubject id subject u).id = u.id := by
  unfold writeSubject
  split_ifs <;> rfl

theorem writeSubject_email (id subject : String) (u : User) :
    (writeSubject id subject u).email = u.email := by
  unfold writeSubject
  split_ifs <;> rfl

/-- `update(id).set(subject)` -/
def setSubject (db : Tables) (id subject : String) : Except DbError Tables :=
  if ∀ x ∈ db.users, x.id ≠ id then .error .notFound
  else if h : ∃ x ∈ db.users, x.id ≠ id ∧ x.subject = subject then
    .error (.uniqueViolation .usersSubjectKey)
  else .ok { db with
    users := db.users.map (writeSubject id subject)
    usersPkey := db.usersPkey.map (writeSubject_id id subject)
    usersSubjectKey := db.usersSubjectKey.write (f := fun u => { u with subject }) db.usersPkey
      fun _ _ y hy _ hne heq => h ⟨y, hy, hne, heq.symm⟩
    usersEmailKey := db.usersEmailKey.map (writeSubject_email id subject)
    linksUserFkey := fun l hl => by
      obtain ⟨y, hy, h⟩ := db.linksUserFkey l hl
      exact ⟨_, List.mem_map_of_mem hy, (writeSubject_id id subject y).trans h⟩ }

def editUser (db : Tables) (id : String) (e : UserEdit) : Tables := { db with
  users := db.users.map (e.apply id)
  usersPkey := db.usersPkey.map fun u => (e.apply_keys id u).1
  usersSubjectKey := db.usersSubjectKey.map fun u => (e.apply_keys id u).2.1
  usersEmailKey := db.usersEmailKey.map fun u => (e.apply_keys id u).2.2
  linksUserFkey := fun l hl => by
    obtain ⟨u, hu, h⟩ := db.linksUserFkey l hl
    exact ⟨_, List.mem_map_of_mem hu, (e.apply_keys id u).1.trans h⟩ }

/-- `@length(min: 1, max: 512)` and `@length(min: 1, max: 255)` -/
def validLink (l : FederatedLink) : Bool :=
  1 ≤ l.issuer.length && l.issuer.length ≤ 512 && 1 ≤ l.subject.length && l.subject.length ≤ 255

def createLink (db : Tables) (l : FederatedLink) : Except DbError Tables :=
  if !validLink l then .error .validation
  else if hid : ∃ x ∈ db.links, x.id = l.id then .error (.uniqueViolation .federatedLinksPkey)
  else if hperson : ∃ x ∈ db.links, x.person = l.person then
    .error (.uniqueViolation .federatedLinksIssuerSubjectKey)
  else if huser : ∃ u ∈ db.users, u.id = l.userId then
    .ok { db with
      links := db.links ++ [l]
      linksPkey := db.linksPkey.concat fun y hy h => hid ⟨y, hy, h⟩
      linksPersonKey := db.linksPersonKey.concat fun y hy h => hperson ⟨y, hy, h⟩
      linksUserFkey := fun l' hl' => by
        rcases List.mem_append.mp hl' with hl' | hl'
        · exact db.linksUserFkey l' hl'
        · rw [List.mem_singleton.mp hl']
          exact huser }
  else .error .foreignKeyViolation

/-! ## A person's account -/

/-- **The transaction**: the user with a placeholder for the subject, the subject, the link. -/
def createAccount (db : Tables) (creator : String) (g : Generated) (a : NewAccount) :
    Except DbError Tables := do
  let db ← db.createUser validEmail creator { a.user g with subject := "pending-" ++ g.uuid }
  let db ← db.setSubject g.userId g.userId
  db.createLink (a.link g)

end statements

/-! ## What they do -/

section specs
variable {validEmail : String → Bool} {db db' : Tables}

theorem id_of_findActiveUser {userId : String} {u : User} (h : db.findActiveUser userId = some u) :
    u ∈ db.users ∧ u.id = userId := by
  have hu := List.find?_some h
  simp only [Bool.and_eq_true, decide_eq_true_eq] at hu
  exact ⟨List.mem_of_mem_filter (List.mem_of_find?_eq_some h), hu.1⟩

theorem createUser_ok {creator : String} {u : User}
    (h : db.createUser validEmail creator u = .ok db') :
    db'.users = db.users ++ [u] ∧ db'.links = db.links ∧ mayCreate creator u.roleKey = true := by
  unfold createUser at h
  split_ifs at h with hvalid hmay
  cases h
  exact ⟨rfl, rfl, by simpa using hmay⟩

theorem setSubject_ok {id subject : String} (h : db.setSubject id subject = .ok db') :
    db'.users = db.users.map (writeSubject id subject) ∧ db'.links = db.links := by
  unfold setSubject at h
  split_ifs at h
  cases h
  exact ⟨rfl, rfl⟩

theorem createLink_ok {l : FederatedLink} (h : db.createLink l = .ok db') :
    db'.users = db.users ∧ db'.links = db.links ++ [l] := by
  unfold createLink at h
  split_ifs at h
  cases h
  exact ⟨rfl, rfl⟩

/-- A transaction that succeeds has the one account and the one link. -/
theorem createAccount_ok {creator : String} {g : Generated} {a : NewAccount}
    (h : db.createAccount validEmail creator g a = .ok db') :
    db'.users = db.users ++ [a.user g] ∧ db'.links = db.links ++ [a.link g] ∧
      mayCreate creator a.roleKey = true := by
  unfold createAccount at h
  obtain ⟨db₁, h₁, h⟩ := bind_ok.mp h
  obtain ⟨db₂, h₂, h⟩ := bind_ok.mp h
  obtain ⟨hu₁, hl₁, hmay⟩ := createUser_ok h₁
  obtain ⟨hu₂, hl₂⟩ := setSubject_ok h₂
  obtain ⟨hu₃, hl₃⟩ := createLink_ok h
  refine ⟨?_, by rw [hl₃, hl₂, hl₁], hmay⟩
  have hother : ∀ x ∈ db.users, writeSubject g.userId g.userId x = x := by
    intro x hx
    have hnew := (hu₁ ▸ db₁.usersPkey).of_concat x hx
    exact if_neg hnew
  rw [hu₃, hu₂, hu₁, List.map_append, List.map_congr_left hother, List.map_id']
  simp [writeSubject, NewAccount.user]

/-! ## Links -/

/-- The person has a link, to this user. -/
def LinkedTo (db : Tables) (person : String × String) (userId : String) : Prop :=
  ∃ l ∈ db.links, l.person = person ∧ l.userId = userId

variable {person : String × String} {userId userId' : String}

theorem linkedTo_of_findLink {issuer subject : String} {l : FederatedLink}
    (h : db.findLink issuer subject = some l) : db.LinkedTo (issuer, subject) l.userId := by
  obtain ⟨hmem, hperson⟩ := mem_of_find h
  exact ⟨l, hmem, hperson, rfl⟩

/-- Links are only added. -/
theorem LinkedTo.grow (hsub : db.links ⊆ db'.links) (h : db.LinkedTo person userId) :
    db'.LinkedTo person userId := by
  obtain ⟨l, hl, hlinked⟩ := h
  exact ⟨l, hsub hl, hlinked⟩

/-- A person has one user. -/
theorem LinkedTo.unique (h : db.LinkedTo person userId) (h' : db.LinkedTo person userId') :
    userId = userId' := by
  obtain ⟨l, hl, hperson, hid⟩ := h
  obtain ⟨l', hl', hperson', hid'⟩ := h'
  have hsame : l = l' := db.linksPersonKey.eq hl hl' (hperson.trans hperson'.symm)
  rw [← hid, ← hid', hsame]

/-- The index on the person covers the links there were and those that were created: no person gets
two, and none who had a link gets one. -/
theorem created_once {created : List (User × FederatedLink)}
    (h : db'.links = db.links ++ created.map Prod.snd) :
    Unique (fun c : User × FederatedLink => c.2.person) created ∧
      ∀ c ∈ created, ∀ l ∈ db.links, c.2.person ≠ l.person := by
  have hkey : (db.links.map FederatedLink.person ++ created.map fun c => c.2.person).Nodup := by
    have hindex := db'.linksPersonKey
    unfold Vsms.Lib.Indexes.Unique at hindex
    rw [h, List.map_append, List.map_map] at hindex
    exact hindex
  obtain ⟨-, honce, hfirst⟩ := List.nodup_append.mp hkey
  refine ⟨honce, fun c hc l hl => ?_⟩
  exact (hfirst _ (List.mem_map_of_mem hl) _ (List.mem_map_of_mem hc)).symm

end specs

end Tables

end Vsms.Schema.Accounts
