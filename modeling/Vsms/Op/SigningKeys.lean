import Vsms.Lib.Runs
import Vsms.Lib.Indexes
import Vsms.Core.Chrono

/-! # The provider's signing keys

`rotate_signing_key` creates an active key, reads the other active keys, and deactivates them one by
one; every statement commits on its own. `load_signing_keys` reads the keys that are active or not
yet expired, signs with the newest active one and publishes all of them.

A rotation deactivates whatever it has read. Two rotations that both create their key before either
reads deactivate each other's: there is then no active key at all. As long as no key is created
while another rotation is about to read, the key created last is in no rotation's list
(`active_key_iff`). -/

namespace Vsms.Op.SigningKeys

open Vsms.Lib.Runs Vsms.Lib.Indexes Vsms.Core.Chrono Vsms.Schema.Types

structure OauthSigningKey where
  id : String
  privateKeyPem : String
  active : Bool
  expiresAt : Option Time
  createdAt : Time
  deriving DecidableEq, Repr

/-! ## Loading -/

/-- A key that signs; its id is the `kid` of what it signs. -/
structure TokenManager where
  issuer : String
  kid : String
  pem : String
  deriving DecidableEq, Repr

/-- A public key, with its RSA components. -/
structure Jwk where
  kid : Option String
  n : Option String
  e : Option String
  deriving DecidableEq, Repr

/-- What `authkestra` makes of a private key. -/
structure TokenLib where
  /-- Why `TokenManager::new_asymmetric` refuses a PEM. -/
  refuses : String → Option String
  /-- `public_jwk` of a PEM that is not refused, by the key's `kid`. -/
  publicJwk : String → String → Option Jwk

inductive LoadError
  | tokenManager (kid error : String)
  | noActiveKey
  deriving DecidableEq, Repr

/-- The rows `load_signing_keys` reads. -/
def OauthSigningKey.valid (now : Time) (row : OauthSigningKey) : Bool :=
  row.active || row.expiresAt.any (now < ·)

/-- Newest first. -/
def validRows (rows : List OauthSigningKey) (now : Time) : List OauthSigningKey :=
  (rows.filter (OauthSigningKey.valid now)).mergeSort fun a b => b.createdAt ≤ a.createdAt

section lib
variable (lib : TokenLib) (issuer : String)

def OauthSigningKey.manager (row : OauthSigningKey) : TokenManager :=
  ⟨issuer, row.id, row.privateKeyPem⟩

def OauthSigningKey.publicJwk (row : OauthSigningKey) : Option Jwk :=
  lib.publicJwk row.privateKeyPem row.id

/-- The loop of `load_signing_keys`. -/
def loadLoop : List OauthSigningKey → Option TokenManager → List Jwk →
    Except LoadError (Option TokenManager × List Jwk)
  | [], signing, jwks => .ok (signing, jwks)
  | row :: rows, signing, jwks =>
    match lib.refuses row.privateKeyPem with
    | some error => .error (.tokenManager row.id error)
    | none => loadLoop rows
        (if row.active && signing.isNone then some (row.manager issuer) else signing)
        (jwks ++ (row.publicJwk lib).toList)

/-- **`load_signing_keys`** -/
def loadSigningKeys (rows : List OauthSigningKey) (now : Time) :
    Except LoadError (TokenManager × List Jwk) :=
  match loadLoop lib issuer (validRows rows now) none [] with
  | .error e => .error e
  | .ok (none, _) => .error .noActiveKey
  | .ok (some signing, jwks) => .ok (signing, jwks)

variable {lib issuer}

theorem loadLoop_ne_noActiveKey (rows : List OauthSigningKey) (signing : Option TokenManager)
    (jwks : List Jwk) : loadLoop lib issuer rows signing jwks ≠ .error .noActiveKey := by
  induction rows generalizing signing jwks with
  | nil => simp [loadLoop]
  | cons row rows ih =>
    unfold loadLoop
    split
    · simp
    · exact ih _ _

/-- **The loop**: the first active key signs, and every key that has one publishes its public half.
-/
theorem loadLoop_ok {rows : List OauthSigningKey} {signing signing' : Option TokenManager}
    {jwks jwks' : List Jwk} (h : loadLoop lib issuer rows signing jwks = .ok (signing', jwks')) :
    signing' = signing.or ((rows.find? (·.active)).map (OauthSigningKey.manager issuer)) ∧
      jwks' = jwks ++ rows.filterMap (OauthSigningKey.publicJwk lib) := by
  induction rows generalizing signing jwks with
  | nil =>
    obtain ⟨rfl, rfl⟩ := Prod.mk.inj (Except.ok.inj h)
    simp
  | cons row rows ih =>
    unfold loadLoop at h
    split at h
    · exact absurd h (by simp)
    · obtain ⟨hsigning, hjwks⟩ := ih h
      constructor
      · rw [hsigning]
        rcases hactive : row.active with _ | _
        · simp [hactive]
        · rcases signing with _ | manager
          · simp [hactive]
          · simp
      · rw [hjwks, List.append_assoc]
        congr 1
        rcases hjwk : row.publicJwk lib with _ | jwk
        · simp [hjwk]
        · simp [hjwk]

theorem mem_validRows {rows : List OauthSigningKey} {now : Time} {row : OauthSigningKey} :
    row ∈ validRows rows now ↔ row ∈ rows ∧ row.valid now = true := by
  unfold validRows
  rw [(List.mergeSort_perm _ _).mem_iff, List.mem_filter]

/-- **What was loaded.** -/
theorem loadSigningKeys_ok {rows : List OauthSigningKey} {now : Time} {signing : TokenManager}
    {jwks : List Jwk} (h : loadSigningKeys lib issuer rows now = .ok (signing, jwks)) :
    (∃ row ∈ rows, row.active = true ∧ signing = row.manager issuer) ∧
      jwks = (validRows rows now).filterMap (OauthSigningKey.publicJwk lib) := by
  unfold loadSigningKeys at h
  split at h
  · exact absurd h (by simp)
  · exact absurd h (by simp)
  · next signing' jwks' hloop =>
    obtain ⟨rfl, rfl⟩ := Prod.mk.inj (Except.ok.inj h)
    obtain ⟨hsigning, hjwks⟩ := loadLoop_ok hloop
    rw [Option.none_or] at hsigning
    obtain ⟨row, hfind, hmanager⟩ := Option.map_eq_some_iff.mp hsigning.symm
    have hmem := (mem_validRows.mp (List.mem_of_find?_eq_some hfind)).1
    have hactive : row.active = true := by simpa using List.find?_some hfind
    exact ⟨⟨row, hmem, hactive, hmanager.symm⟩, by simpa using hjwks⟩

/-- Loading fails for lack of an active key only if there is none. -/
theorem loadSigningKeys_noActiveKey {rows : List OauthSigningKey} {now : Time}
    (h : loadSigningKeys lib issuer rows now = .error .noActiveKey) :
    ∀ row ∈ rows, row.active = false := by
  unfold loadSigningKeys at h
  split at h
  · next e hloop =>
    rw [Except.error.inj h] at hloop
    exact absurd hloop (loadLoop_ne_noActiveKey _ _ _)
  · next jwks' hloop =>
    obtain ⟨hsigning, -⟩ := loadLoop_ok hloop
    rw [Option.none_or, eq_comm, Option.map_eq_none_iff, List.find?_eq_none] at hsigning
    intro row hrow
    by_contra hactive
    have hactive : row.active = true := by simpa using hactive
    exact hsigning row (mem_validRows.mpr ⟨hrow, by simp [OauthSigningKey.valid, hactive]⟩) hactive
  · exact absurd h (by simp)

end lib

/-! ## Rotations -/

/-- A run of `rotate_signing_key`: the id of the key it created, and the ids of the keys it has
still to deactivate. -/
inductive Run
  | idle
  /-- Its key is there; before it reads the others. -/
  | created (id : String)
  /-- Before it reads the clock. -/
  | listed (id : String) (olds : List String)
  | deactivating (id : String) (expiresAt : Time) (olds : List String)
  | stopped
  deriving DecidableEq, Repr

/-- The table, and the rotations. -/
structure Sys where
  rows : List OauthSigningKey
  pkey : Unique OauthSigningKey.id rows
  runs : ℕ → Run

def init (rows : List OauthSigningKey) (pkey : Unique OauthSigningKey.id rows) : Sys :=
  ⟨rows, pkey, fun _ => .idle⟩

def Sys.setRun (s : Sys) (p : ℕ) (r : Run) : Sys := { s with runs := Function.update s.runs p r }

/-- The ids of the active keys but one. -/
def previouslyActive (rows : List OauthSigningKey) (id : String) : List String :=
  (rows.filter fun row => row.active && row.id ≠ id).map (·.id)

/-- `update(id).set(active: false, expiresAt)` on one row. -/
def deactivated (id : String) (expiresAt : Time) (row : OauthSigningKey) : OauthSigningKey :=
  if row.id = id then { row with active := false, expiresAt := some expiresAt } else row

theorem deactivated_id (id : String) (expiresAt : Time) (row : OauthSigningKey) :
    (deactivated id expiresAt row).id = row.id := by
  unfold deactivated
  split_ifs <;> rfl

/-- The row of a new key. -/
def newKey (id privateKeyPem : String) (createdAt : Time) : OauthSigningKey :=
  ⟨id, privateKeyPem, true, none, createdAt⟩

inductive Action
  | create (p : ℕ) (id privateKeyPem : String) (createdAt : Time)
  | read (p : ℕ)
  /-- `Utc::now() + overlap` -/
  | readClock (p : ℕ) (now : Time)
  | deactivate (p : ℕ)
  /-- The run fails, or its process stops. -/
  | stop (p : ℕ)
  deriving DecidableEq, Repr

def step (overlap : Time) (s : Sys) : Action → Option Sys
  | .create p id privateKeyPem createdAt =>
    match s.runs p with
    | .idle =>
      if h : ∀ row ∈ s.rows, row.id ≠ id then
        some ({ s with
          rows := s.rows ++ [newKey id privateKeyPem createdAt]
          pkey := s.pkey.concat h }.setRun p (.created id))
      else none
    | _ => none
  | .read p =>
    match s.runs p with
    | .created id => some (s.setRun p (.listed id (previouslyActive s.rows id)))
    | _ => none
  | .readClock p now =>
    match s.runs p with
    | .listed id olds =>
      match addDuration now overlap with
      | none => some (s.setRun p .stopped)
      | some expiresAt => some (s.setRun p (.deactivating id expiresAt olds))
    | _ => none
  | .deactivate p =>
    match s.runs p with
    | .deactivating id expiresAt (old :: olds) =>
      some ({ s with
        rows := s.rows.map (deactivated old expiresAt)
        pkey := s.pkey.map (deactivated_id old expiresAt) }.setRun p
          (.deactivating id expiresAt olds))
    | _ => none
  | .stop p => some (s.setRun p .stopped)

/-! ## An active key -/

/-- **Once there is a key there is an active one**, and the keys can be loaded as far as that goes.
-/
structure HasActiveKey (s : Sys) : Prop where
  active : s.rows ≠ [] → ∃ row ∈ s.rows, row.active = true
  load : s.rows ≠ [] → ∀ lib issuer now, loadSigningKeys lib issuer s.rows now ≠ .error .noActiveKey

/-- **No key is created while another rotation is about to read.** -/
def ReadsFirst (s : Sys) : Action → Sys → Prop
  | .create p .., _ => ∀ q, q ≠ p → ∀ id, s.runs q ≠ .created id
  | _, _ => True

def Action.NoCreate : Action → Prop
  | .create .. => False
  | _ => True

theorem hasActiveKey_of_active {s : Sys} (h : s.rows ≠ [] → ∃ row ∈ s.rows, row.active = true) :
    HasActiveKey s := by
  refine ⟨h, fun hne lib issuer now hload => ?_⟩
  obtain ⟨row, hrow, hactive⟩ := h hne
  rw [loadSigningKeys_noActiveKey hload row hrow] at hactive
  exact absurd hactive (by simp)

/-! ## The key created last -/

/-- The keys the run has still to deactivate. -/
def Run.pending : Run → List String
  | .listed _ olds | .deactivating _ _ olds => olds
  | _ => []

/-- The key a run has created or will deactivate is in the table. -/
structure Known (s : Sys) : Prop where
  created : ∀ p id, s.runs p = .created id → ∃ row ∈ s.rows, row.id = id
  pending : ∀ p, ∀ old ∈ (s.runs p).pending, ∃ row ∈ s.rows, row.id = old

/-- An active key that no rotation deactivates; a rotation that is about to read has created it. -/
def Safe (s : Sys) : Prop :=
  s.rows ≠ [] → ∃ row ∈ s.rows, row.active = true ∧ (∀ p, row.id ∉ (s.runs p).pending) ∧
    ∀ p id, s.runs p = .created id → id = row.id

/-- **The steps.** -/
inductive Effect (s : Sys) (a : Action) (s' : Sys) : Prop
  | create {p : ℕ} {id privateKeyPem : String} {createdAt : Time}
      (ha : a = .create p id privateKeyPem createdAt) (hnew : ∀ row ∈ s.rows, row.id ≠ id)
      (hrows : s'.rows = s.rows ++ [newKey id privateKeyPem createdAt])
      (hruns : s'.runs = Function.update s.runs p (.created id))
  | read {p : ℕ} {id : String} (hp : s.runs p = .created id) (hrows : s'.rows = s.rows)
      (hruns : s'.runs = Function.update s.runs p (.listed id (previouslyActive s.rows id)))
  | goOn {p : ℕ} {r : Run} (hpending : r.pending ⊆ (s.runs p).pending) (hr : ∀ id, r ≠ .created id)
      (hrows : s'.rows = s.rows) (hruns : s'.runs = Function.update s.runs p r)
  | deactivate {p : ℕ} {id : String} {expiresAt : Time} {old : String} {olds : List String}
      (hp : s.runs p = .deactivating id expiresAt (old :: olds))
      (hrows : s'.rows = s.rows.map (deactivated old expiresAt))
      (hruns : s'.runs = Function.update s.runs p (.deactivating id expiresAt olds))

variable {overlap : Time} {s s' : Sys} {a : Action}

theorem step_create {p : ℕ} {id privateKeyPem : String} {createdAt : Time}
    (h : step overlap s (.create p id privateKeyPem createdAt) = some s') :
    (∀ row ∈ s.rows, row.id ≠ id) ∧ s'.rows = s.rows ++ [newKey id privateKeyPem createdAt] ∧
      s'.runs = Function.update s.runs p (.created id) := by
  dsimp only [step] at h
  split at h
  · split_ifs at h with hnew
    rw [← Option.some.inj h]
    exact ⟨hnew, rfl, rfl⟩
  · exact absurd h (by simp)

theorem step_effect (h : step overlap s a = some s') : Effect s a s' := by
  cases a with
  | create p id privateKeyPem createdAt =>
    obtain ⟨hnew, hrows, hruns⟩ := step_create h
    exact .create rfl hnew hrows hruns
  | read p =>
    dsimp only [step] at h
    split at h
    · next id hp =>
      rw [← Option.some.inj h]
      exact .read hp rfl rfl
    · exact absurd h (by simp)
  | readClock p now =>
    dsimp only [step] at h
    split at h
    · next id olds hp =>
      split at h
      · rw [← Option.some.inj h]
        exact .goOn (p := p) (List.nil_subset _) (by simp) rfl rfl
      · rw [← Option.some.inj h]
        exact .goOn (p := p) (by rw [hp]; exact List.Subset.refl _) (by simp) rfl rfl
    · exact absurd h (by simp)
  | deactivate p =>
    dsimp only [step] at h
    split at h
    · next id expiresAt old olds hp =>
      rw [← Option.some.inj h]
      exact .deactivate hp rfl rfl
    · exact absurd h (by simp)
  | stop p =>
    rw [← Option.some.inj h]
    exact .goOn (p := p) (List.nil_subset _) (by simp) rfl rfl

/-- What the runs know stays true when one goes on and no key is lost. -/
theorem Known.goOn (hs : Known s) {p : ℕ} {r : Run} (hruns : s'.runs = Function.update s.runs p r)
    (hids : ∀ id, (∃ row ∈ s.rows, row.id = id) → ∃ row ∈ s'.rows, row.id = id)
    (hcreated : ∀ id, r = .created id → ∃ row ∈ s'.rows, row.id = id)
    (hpending : ∀ old ∈ r.pending, ∃ row ∈ s'.rows, row.id = old) : Known s' := by
  constructor
  · intro q id hq
    rw [hruns] at hq
    rcases update_cases (fun r => r) hq with ⟨-, hq⟩ | ⟨-, hq⟩
    · exact hcreated id hq
    · exact hids id (hs.created q id hq)
  · intro q old hold
    rw [hruns] at hold
    by_cases hqp : q = p
    · subst hqp
      rw [Function.update_self] at hold
      exact hpending old hold
    · rw [Function.update_of_ne hqp] at hold
      exact hids old (hs.pending q old hold)

theorem mem_previouslyActive {rows : List OauthSigningKey} {id old : String} :
    old ∈ previouslyActive rows id ↔
    ∃ row ∈ rows, row.active = true ∧ row.id ≠ id ∧ row.id = old := by
  unfold previouslyActive
  simp [and_assoc]

theorem Known.effect (hs : Known s) (h : Effect s a s') : Known s' := by
  cases h with
  | @create p id privateKeyPem createdAt ha hnew hrows hruns =>
    refine hs.goOn hruns (fun id' ⟨row, hrow, hid⟩ => ⟨row, ?_, hid⟩) (fun id' hid' => ?_)
      (fun old hold => absurd hold List.not_mem_nil)
    · rw [hrows]
      exact List.mem_append_left _ hrow
    · rw [hrows, ← Run.created.inj hid']
      exact ⟨_, List.mem_append_right _ List.mem_cons_self, rfl⟩
  | @read p id hp hrows hruns =>
    refine hs.goOn hruns (fun id' => by rw [hrows]; exact fun h => h) (by simp) (fun old hold => ?_)
    obtain ⟨row, hrow, -, -, hid⟩ := mem_previouslyActive.mp hold
    rw [hrows]
    exact ⟨row, hrow, hid⟩
  | @goOn p r hpending hr hrows hruns =>
    refine hs.goOn hruns (fun id' => by rw [hrows]; exact fun h => h)
      (fun id hid => absurd hid (hr id)) (fun old hold => ?_)
    rw [hrows]
    exact hs.pending p old (hpending hold)
  | @deactivate p id expiresAt old olds hp hrows hruns =>
    have hids : ∀ id, (∃ row ∈ s.rows, row.id = id) → ∃ row ∈ s'.rows, row.id = id := by
      rintro id ⟨row, hrow, hid⟩
      rw [hrows]
      exact ⟨_, List.mem_map_of_mem hrow, (deactivated_id old expiresAt row).trans hid⟩
    refine hs.goOn hruns hids (by simp) (fun old' hold' => hids old' ?_)
    exact hs.pending p old' (by rw [hp]; exact List.mem_cons_of_mem old hold')

/-- The key stays when a run goes on that does not deactivate it. -/
theorem safe_goOn (row : OauthSigningKey) {p : ℕ} {r : Run} (hrow : row ∈ s'.rows)
    (hactive : row.active = true) (hruns : s'.runs = Function.update s.runs p r)
    (hpending : ∀ q, q ≠ p → row.id ∉ (s.runs q).pending) (hown : row.id ∉ r.pending)
    (hcreated : ∀ q, q ≠ p → ∀ id, s.runs q = .created id → id = row.id)
    (hr : ∀ id, r = .created id → id = row.id) : Safe s' := by
  refine fun _ => ⟨row, hrow, hactive, fun q => ?_, fun q id hq => ?_⟩
  · rw [hruns]
    by_cases hqp : q = p
    · subst hqp
      rw [Function.update_self]
      exact hown
    · rw [Function.update_of_ne hqp]
      exact hpending q hqp
  · rw [hruns] at hq
    rcases update_cases (fun r => r) hq with ⟨-, hq⟩ | ⟨hqp, hq⟩
    · exact hr id hq
    · exact hcreated q hqp id hq

theorem Safe.effect (hs : Safe s) (hknown : Known s) (h : Effect s a s')
    (hfirst : ReadsFirst s a s') :
    Safe s' := by
  cases h with
  | @create p id privateKeyPem createdAt ha hnew hrows hruns =>
    subst ha
    -- The new key is in no list, and no other rotation is about to read.
    refine safe_goOn (newKey id privateKeyPem createdAt) ?_ rfl hruns (fun q _ hold => ?_)
      List.not_mem_nil (fun q hq id' hid' => absurd hid' (hfirst q hq id'))
      (fun id' hid' => (Run.created.inj hid').symm)
    · rw [hrows]
      exact List.mem_append_right _ List.mem_cons_self
    · obtain ⟨row, hrow, hid⟩ := hknown.pending q _ hold
      exact hnew row hrow hid
  | @read p id hp hrows hruns =>
    intro hne
    rw [hrows] at hne
    obtain ⟨row, hrow, hactive, hpending, hcreated⟩ := hs hne
    refine safe_goOn row (hrows ▸ hrow) hactive hruns (fun q _ => hpending q) (fun hold => ?_)
      (fun q _ => hcreated q) (by simp) (hrows ▸ hne)
    obtain ⟨row', -, -, hother, hid⟩ := mem_previouslyActive.mp hold
    exact hother (hid.trans (hcreated p id hp).symm)
  | @goOn p r hsub hr hrows hruns =>
    intro hne
    rw [hrows] at hne
    obtain ⟨row, hrow, hactive, hpending, hcreated⟩ := hs hne
    exact safe_goOn row (hrows ▸ hrow) hactive hruns (fun q _ => hpending q)
      (fun hold => hpending p (hsub hold)) (fun q _ => hcreated q) (fun id hid =>
        absurd hid (hr id))
      (hrows ▸ hne)
  | @deactivate p id expiresAt old olds hp hrows hruns =>
    intro hne
    have hne' : s.rows ≠ [] := by
      intro hnil
      rw [hrows, hnil] at hne
      exact hne rfl
    obtain ⟨row, hrow, hactive, hpending, hcreated⟩ := hs hne'
    have hnot := hpending p
    rw [hp] at hnot
    have hkeep : deactivated old expiresAt row = row :=
      if_neg fun heq => hnot (by rw [heq]; exact List.mem_cons_self)
    refine safe_goOn row ?_ hactive hruns (fun q _ => hpending q)
      (fun hold => hnot (List.mem_cons_of_mem old hold)) (fun q _ => hcreated q) (by simp) hne
    rw [hrows, ← hkeep]
    exact List.mem_map_of_mem hrow

/-! ## Two rotations that read too late -/

variable (overlap) in
/-- A rotation that deactivates all it has listed. -/
theorem exec_deactivate {p : ℕ} {id : String} {expiresAt : Time} {olds : List String} {s : Sys}
    (hp : s.runs p = .deactivating id expiresAt olds) :
    ∃ s', exec (step overlap) s (List.replicate olds.length (.deactivate p)) = some s' ∧
      s'.runs = Function.update s.runs p (.deactivating id expiresAt []) ∧
      (s.rows ≠ [] → s'.rows ≠ []) ∧
        ∀ row' ∈ s'.rows, row'.active = true →
          row'.id ∉ olds ∧ ∃ row ∈ s.rows, row.id = row'.id ∧ row.active = true := by
  induction olds generalizing s with
  | nil =>
    refine ⟨s, rfl, ?_, fun hne => hne, fun row hrow hactive =>
      ⟨List.not_mem_nil, row, hrow, rfl, hactive⟩⟩
    rw [← hp, Function.update_eq_self]
  | cons old olds ih =>
    have ht : step overlap s (.deactivate p) = some ({ s with
        rows := s.rows.map (deactivated old expiresAt)
        pkey := s.pkey.map (deactivated_id old expiresAt) }.setRun p
          (.deactivating id expiresAt olds)) := by
      simp only [step, hp]
    obtain ⟨s', hs', hruns, hne, hrows⟩ := ih (s := { s with
        rows := s.rows.map (deactivated old expiresAt)
        pkey := s.pkey.map (deactivated_id old expiresAt) }.setRun p
          (.deactivating id expiresAt olds))
      (Function.update_self ..)
    refine ⟨s', exec_cons.mpr ⟨_, ht, hs'⟩, ?_, fun hrows => hne ?_, fun row' hrow' hactive' => ?_⟩
    · rw [hruns]
      exact Function.update_idem ..
    · simpa [Sys.setRun] using hrows
    · obtain ⟨hnot, row, hrow, hid, hactive⟩ := hrows row' hrow' hactive'
      obtain ⟨row₀, hrow₀, rfl⟩ := List.mem_map.mp hrow
      rw [deactivated_id] at hid
      -- The row is active, so it is not the one that was deactivated.
      have hold : row₀.id ≠ old := by
        intro hold
        rw [deactivated, if_pos hold] at hactive
        exact absurd hactive (by simp)
      rw [deactivated, if_neg hold] at hactive
      refine ⟨fun hmem => ?_, row₀, hrow₀, hid, hactive⟩
      rcases List.mem_cons.mp hmem with heq | hmem
      · exact hold (hid.trans heq)
      · exact hnot hmem

/-- A rotation that reads, and computes an expiry. -/
theorem exec_list {p : ℕ} {id : String} {now expiresAt : Time} {s : Sys}
    (hp : s.runs p = .created id) (hnow : addDuration now overlap = some expiresAt) :
    exec (step overlap) s [.read p, .readClock p now] =
      some (s.setRun p (.deactivating id expiresAt (previouslyActive s.rows id))) := by
  have hread :
      step overlap s (.read p) = some (s.setRun p (.listed id (previouslyActive s.rows id))) := by
    simp only [step, hp]
  refine exec_cons.mpr ⟨_, hread, exec_cons.mpr ⟨_, ?_, rfl⟩⟩
  simp [step, Sys.setRun, hnow]

/-- **Two rotations that are both about to read can deactivate every key.** -/
theorem exec_both {p q : ℕ} {idp idq : String} {now expiresAt : Time} (hpq : p ≠ q)
    (hids : idp ≠ idq) (hp : s.runs p = .created idp) (hq : s.runs q = .created idq)
    (hne : s.rows ≠ []) (hnow : addDuration now overlap = some expiresAt) :
    ∃ bs v, (∀ b ∈ bs, Action.NoCreate b) ∧ exec (step overlap) s bs = some v ∧
      ¬ HasActiveKey v := by
  have hlistp := exec_list hp hnow
  have hq' : (s.setRun p (.deactivating idp expiresAt (previouslyActive s.rows idp))).runs q =
      .created idq := by
    simp [Sys.setRun, hpq.symm, hq]
  have hlistq := exec_list hq' hnow
  let u := (s.setRun p (.deactivating idp expiresAt (previouslyActive s.rows idp))).setRun q
    (.deactivating idq expiresAt (previouslyActive s.rows idq))
  have hup : u.runs p = .deactivating idp expiresAt (previouslyActive s.rows idp) := by
    simp [u, Sys.setRun, hpq]
  obtain ⟨t, ht, htruns, htne, htrows⟩ := exec_deactivate overlap hup
  have htq : t.runs q = .deactivating idq expiresAt (previouslyActive s.rows idq) := by
    rw [htruns]
    simp [u, Sys.setRun, hpq.symm]
  obtain ⟨v, hv, -, hvne, hvrows⟩ := exec_deactivate overlap htq
  refine ⟨[.read p, .readClock p now] ++ ([.read q, .readClock q now] ++
    (List.replicate (previouslyActive s.rows idp).length (.deactivate p) ++
      List.replicate (previouslyActive s.rows idq).length (.deactivate q))), v, ?_,
    exec_append.mpr ⟨_, hlistp, exec_append.mpr ⟨_, hlistq, exec_append.mpr ⟨t, ht, hv⟩⟩⟩, ?_⟩
  · intro b hb
    simp only [List.mem_append, List.mem_cons, List.not_mem_nil, or_false, List.mem_replicate] at hb
    rcases hb with (rfl | rfl) | (rfl | rfl) | ⟨-, rfl⟩ | ⟨-, rfl⟩ <;> exact trivial
  · rintro ⟨hactive, -⟩
    obtain ⟨row'', hrow'', hactive''⟩ := hactive (hvne (htne hne))
    obtain ⟨hnotq, row', hrow', hid', hactive'⟩ := hvrows row'' hrow'' hactive''
    obtain ⟨hnotp, row, hrow, hid, hactive⟩ := htrows row' hrow' hactive'
    -- An active key but the first rotation's own is in its list; that one is in the other's.
    by_cases howner : row.id = idp
    · refine hnotq (mem_previouslyActive.mpr ⟨row, hrow, hactive, ?_, hid.trans hid'⟩)
      rw [howner]
      exact hids
    · exact hnotp (mem_previouslyActive.mpr ⟨row, hrow, hactive, howner, hid⟩)

theorem known_init (rows : List OauthSigningKey) (pkey : Unique OauthSigningKey.id rows) :
    Known (init rows pkey) := by
  constructor
  · intro p id hp
    exact absurd hp (by simp [init])
  · intro p old hold
    exact absurd hold (by simp [init, Run.pending])

/-- After a key is created while another rotation is about to read, all keys can be deactivated. -/
theorem exists_no_active_key {now expiresAt : Time}
    (hnow : addDuration now overlap = some expiresAt) (hs : Known s)
    (h : step overlap s a = some s') (hfirst : ¬ ReadsFirst s a s') :
    ∃ bs v, (∀ b ∈ bs, Action.NoCreate b) ∧ exec (step overlap) s' bs = some v ∧
      ¬ HasActiveKey v := by
  cases a with
  | create p id privateKeyPem createdAt =>
    unfold ReadsFirst at hfirst
    push Not at hfirst
    obtain ⟨q, hqp, idq, hq⟩ := hfirst
    obtain ⟨row, hrow, hid⟩ := hs.created q idq hq
    obtain ⟨hnew, hrows, hruns⟩ := step_create h
    refine exec_both hqp.symm (fun heq => hnew row hrow (hid.trans heq.symm)) ?_ ?_ ?_ hnow
    · rw [hruns, Function.update_self]
    · rw [hruns, Function.update_of_ne hqp, hq]
    · simp [hrows]
  | _ => exact absurd trivial hfirst

/-- **There is always an active key exactly as long as no key is created while another rotation is
about to read**, for any number of rotations, stopped anywhere. -/
theorem active_key_iff (overlap : Time) (hoverlap : ∃ now, (addDuration now overlap).isSome)
    (rows : List OauthSigningKey) (pkey : Unique OauthSigningKey.id rows)
    (hrows : rows ≠ [] → ∃ row ∈ rows, row.active = true) (as : List Action) :
    Along (step overlap) ReadsFirst (init rows pkey) as ↔
      AlwaysThen (step overlap) Action.NoCreate HasActiveKey (init rows pkey) as := by
  have hknown := known_init rows pkey
  refine along_iff_alwaysThen (fun b hb s s' => ?_) (fun as h => ?_)
    (fun pre a t u ht hu hfirst => ?_)
  · cases b with
    | create => exact absurd hb id
    | _ => exact trivial
  · refine h.always (I := fun s => Known s ∧ Safe s) (fun s hs => ?_)
      (fun s a s' hs ha hfirst => ?_)
      ⟨hknown, fun hne => ?_⟩
    · refine hasActiveKey_of_active fun hne => ?_
      obtain ⟨row, hrow, hactive, -⟩ := hs.2 hne
      exact ⟨row, hrow, hactive⟩
    · have heffect := step_effect ha
      exact ⟨hs.1.effect heffect, hs.2.effect hs.1 heffect hfirst⟩
    · obtain ⟨row, hrow, hactive⟩ := hrows hne
      exact ⟨row, hrow, hactive, fun p => List.not_mem_nil, by simp [init]⟩
  · obtain ⟨now, hnow⟩ := hoverlap
    obtain ⟨expiresAt, hnow⟩ := Option.isSome_iff_exists.mp hnow
    have ht :=
      exec_invariant' (I := Known) (fun s a s' hs ha => hs.effect (step_effect ha)) hknown ht
    exact exists_no_active_key hnow ht hu hfirst

/-- A rotation over an empty table, and one after it. -/
theorem active_key_two_rotations :
    AlwaysThen (step (seconds 3600)) Action.NoCreate HasActiveKey (init [] Unique.nil)
      [.create 0 "k1" "pem1" 0, .read 0, .readClock 0 0, .create 1 "k2" "pem2" 1, .read 1,
        .readClock 1 1, .deactivate 1] := by
  refine (active_key_iff (seconds 3600) ⟨0, by decide⟩ [] Unique.nil
    (fun hne => absurd rfl hne) _).mp ?_
  have hfirst : addDuration 0 (seconds 3600) = some (seconds 3600) := by decide
  have hsecond : addDuration 1 (seconds 3600) = some (seconds 3600 + 1) := by decide
  simp [Along, step, Sys.setRun, init, ReadsFirst, hfirst, hsecond, newKey, Function.update_apply,
    previouslyActive]
  intro q _ id
  split_ifs <;> simp

/-- Two operators rotate at once: both keys are created, both runs list what is active, and each
deactivates the other's key. -/
theorem concurrent_rotations_no_key :
    ¬ Always (step (seconds 3600)) HasActiveKey (init [] Unique.nil)
      [.create 0 "k1" "pem1" 0, .create 1 "k2" "pem2" 1, .read 0, .read 1, .readClock 0 2,
        .readClock 1 2, .deactivate 0, .deactivate 1] := by
  intro h
  have hrun : (exec (step (seconds 3600)) (init [] Unique.nil)
      [.create 0 "k1" "pem1" 0, .create 1 "k2" "pem2" 1, .read 0, .read 1, .readClock 0 2,
        .readClock 1 2, .deactivate 0, .deactivate 1]).map
      (fun s => (s.rows.length, s.rows.all (! ·.active))) = some (2, true) := by decide
  obtain ⟨s, hs, hrows⟩ := exec_eval hrun
  obtain ⟨hlength, hinactive⟩ := Prod.mk.inj hrows
  have hne : s.rows ≠ [] := List.length_pos_iff.mp (by simp [hlength])
  obtain ⟨row, hrow, hactive⟩ := (h.last hs).active hne
  have hrow := List.all_eq_true.mp hinactive row hrow
  simp [hactive] at hrow

end Vsms.Op.SigningKeys
