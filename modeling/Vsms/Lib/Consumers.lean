import Mathlib.Data.List.Nodup
import Mathlib.Data.List.Sort
import Vsms.Lib.Optimistic
import Vsms.Lib.Runs

/-! # Competing consumers of a table

Workers claim rows of a table. A claim first selects candidates, in any number of separate reads of
the database, and then goes through them and tries to take the lease of each, a compare-and-swap on
the version it read: a candidate that has changed or is gone is skipped. Between any two reads or
writes the other workers go on, and anything else may change, insert or delete rows; a change
increases the version, and the key of a deleted row is not given out again.

`Claims` is what a kind of rows defines, `Lawful` what it has to keep to: the candidates are rows
that were read, no more than the budget, and a lease that is taken increases the version and leaves
the row owned by the worker. `Lawful.always`: then no version of a row is leased twice, and every
batch a claim returns has different rows, no more than the budget, all owned at their write. -/

namespace Vsms.Lib.Consumers

open Vsms.Lib.Runs Vsms.Lib.Optimistic

variable {ρ κ δ ω χ ε α β : Type}

/-! ### Selections -/

/-- The result of a selection: rows that were read, at most `n`. -/
def Selected (n : ℕ) (seen cs : List ρ) : Prop := (∀ c ∈ cs, c ∈ seen) ∧ cs.length ≤ n

/-- The rows with `P`, in the order `r`, at most `limit`. -/
def selectRows (P : ρ → Prop) [DecidablePred P] (r : ρ → ρ → Prop) [DecidableRel r] (limit : ℕ)
    (rows : List ρ) : List ρ := ((rows.filter fun x => P x).insertionSort r).take limit

section selectRows
variable {P : ρ → Prop} [DecidablePred P] {r : ρ → ρ → Prop} [DecidableRel r]

theorem mem_selectRows {limit : ℕ} {rows : List ρ} {x : ρ}
    (h : x ∈ selectRows P r limit rows) : x ∈ rows ∧ P x := by
  have hx := (List.mem_insertionSort r).mp (List.mem_of_mem_take h)
  exact ⟨List.mem_of_mem_filter hx, by simpa using List.of_mem_filter hx⟩

theorem selectRows_length (limit : ℕ) (rows : List ρ) :
    (selectRows P r limit rows).length ≤ limit := List.length_take_le _ _

theorem selected_selectRows {seen rows : List ρ} (limit : ℕ) (h : rows ⊆ seen) :
    Selected limit seen (selectRows P r limit rows) :=
  ⟨fun _ hx => h (mem_selectRows hx).1, selectRows_length limit rows⟩

end selectRows

/-- A second selection for what is left of the budget. -/
theorem Selected.append {n : ℕ} {seen seen' cs cs' : List ρ} (h : Selected n seen cs)
    (h' : Selected (n - cs.length) seen' cs') (hs : seen ⊆ seen') :
    Selected n seen' (cs ++ cs') := by
  refine ⟨fun c hc => ?_, ?_⟩
  · rcases List.mem_append.mp hc with hc | hc
    · exact hs (h.1 c hc)
    · exact h'.1 c hc
  · have h1 := h.2
    have h2 := h'.2
    rw [List.length_append]
    omega

/-- A program that reads the database, each time as it is then. -/
inductive Select (σ α : Type)
  | done (a : α)
  | read (k : σ → Select σ α)

def Select.bind {σ : Type} : Select σ α → (α → Select σ β) → Select σ β
  | .done a, f => f a
  | .read k, f => .read fun db => (k db).bind f

instance {σ : Type} : Monad (Select σ) where
  pure := Select.done
  bind := Select.bind

/-- One query. -/
def query {σ : Type} (f : σ → α) : Select σ α := .read fun db => .done (f db)

/-- What it returns if nothing changes while it runs. -/
def Select.run {σ : Type} (db : σ) : Select σ α → α
  | .done a => a
  | .read k => (k db).run db

@[simp] theorem run_pure {σ : Type} (db : σ) (a : α) : (pure a : Select σ α).run db = a := rfl

@[simp] theorem run_query {σ : Type} (db : σ) (f : σ → α) : (query f).run db = f db := rfl

@[simp] theorem run_bind {σ : Type} (db : σ) (f : α → Select σ β) :
    ∀ m : Select σ α, (m >>= f).run db = (f (m.run db)).run db
  | .done _ => rfl
  | .read k => run_bind db f (k db)

/-! ### The database -/

/-- Rows with a key. -/
class Keyed (ρ : Type) (κ : outParam Type) where
  key : ρ → κ

export Keyed (key)

variable [Keyed ρ κ]

/-- The rows, the keys given out so far, and the other tables. -/
structure Db (ρ κ δ : Type) [Keyed ρ κ] where
  rows : List ρ
  issued : List κ
  rest : δ
  nodup : (rows.map key).Nodup
  issued_of_mem : ∀ r ∈ rows, key r ∈ issued

theorem Db.eq_of_key (db : Db ρ κ δ) {r r' : ρ} (hr : r ∈ db.rows) (hr' : r' ∈ db.rows)
    (h : key r = key r') : r = r' := List.inj_on_of_nodup_map db.nodup hr hr' h

section find
variable [DecidableEq κ]

def Db.find (db : Db ρ κ δ) (k : κ) : Option ρ := db.rows.find? fun r => key r = k

theorem Db.find_some {db : Db ρ κ δ} {k : κ} {r : ρ} (h : db.find k = some r) :
    r ∈ db.rows ∧ key r = k := by
  unfold Db.find at h
  exact ⟨List.mem_of_find?_eq_some h, by simpa using List.find?_some h⟩

/-- Replace the row that has the key of `new`. -/
def replaceRow (new r : ρ) : ρ := if key r = key new then new else r

theorem key_replaceRow (new r : ρ) : key (replaceRow new r) = key r := by
  unfold replaceRow
  split_ifs with h
  · exact h.symm
  · rfl

def Db.replace (db : Db ρ κ δ) (new : ρ) : Db ρ κ δ where
  rows := db.rows.map (replaceRow new)
  issued := db.issued
  rest := db.rest
  nodup := by
    have hkey : key ∘ replaceRow new = key := funext (key_replaceRow new)
    rw [List.map_map, hkey]
    exact db.nodup
  issued_of_mem := by
    intro r hr
    obtain ⟨r₀, hr₀, rfl⟩ := List.mem_map.mp hr
    rw [key_replaceRow]
    exact db.issued_of_mem r₀ hr₀

theorem Db.mem_replace_self {db : Db ρ κ δ} {r new : ρ} (hr : r ∈ db.rows)
    (h : key r = key new) : new ∈ (db.replace new).rows :=
  List.mem_map.mpr ⟨r, hr, if_pos h⟩

def Db.delete (db : Db ρ κ δ) (k : κ) : Db ρ κ δ where
  rows := db.rows.filter fun r => key r ≠ k
  issued := db.issued
  rest := db.rest
  nodup := db.nodup.sublist (List.filter_sublist.map _)
  issued_of_mem := fun r hr => db.issued_of_mem r (List.mem_of_mem_filter hr)

end find

def Db.insert (db : Db ρ κ δ) (r : ρ) (h : key r ∉ db.issued) : Db ρ κ δ where
  rows := r :: db.rows
  issued := key r :: db.issued
  rest := db.rest
  nodup := by
    rw [List.map_cons, List.nodup_cons]
    refine ⟨fun hk => ?_, db.nodup⟩
    obtain ⟨r', hr', he⟩ := List.mem_map.mp hk
    exact h (he ▸ db.issued_of_mem r' hr')
  issued_of_mem := by
    intro r' hr'
    rcases List.mem_cons.mp hr' with rfl | hr'
    · exact List.mem_cons_self
    · exact List.mem_cons_of_mem _ (db.issued_of_mem r' hr')

def Db.setRest (db : Db ρ κ δ) (rest : δ) : Db ρ κ δ := { db with rest := rest }

/-! ### What a selection returns -/

/-- **Whatever it reads, it returns a result with `Q`.** `seen` are the rows read so far. -/
def Select.wp (Q : List ρ → α → Prop) (seen : List ρ) : Select (Db ρ κ δ) α → Prop
  | .done a => Q seen a
  | .read k => ∀ db : Db ρ κ δ, (k db).wp Q (seen ++ db.rows)

theorem wp_pure {Q : List ρ → α → Prop} {seen : List ρ} {a : α} (h : Q seen a) :
    (pure a : Select (Db ρ κ δ) α).wp Q seen := h

theorem wp_query {Q : List ρ → α → Prop} {seen : List ρ} {f : Db ρ κ δ → α}
    (h : ∀ db, Q (seen ++ db.rows) (f db)) : (query f).wp Q seen := h

theorem wp_bind {Q : List ρ → β → Prop} {f : α → Select (Db ρ κ δ) β} :
    ∀ {m : Select (Db ρ κ δ) α} {seen : List ρ},
      m.wp (fun seen a => (f a).wp Q seen) seen → (m >>= f).wp Q seen
  | .done _, _, h => h
  | .read _, _, h => fun db => wp_bind (h db)

theorem wp_mono {Q Q' : List ρ → α → Prop} (hQ : ∀ seen a, Q seen a → Q' seen a) :
    ∀ {m : Select (Db ρ κ δ) α} {seen : List ρ}, m.wp Q seen → m.wp Q' seen
  | .done _, _, h => hQ _ _ h
  | .read _, _, h => fun db => wp_mono hQ (h db)

/-- A second query that fills up what the first one has left of the budget. -/
theorem wp_fill {P : ρ → Prop} [DecidablePred P] {r : ρ → ρ → Prop} [DecidableRel r] {limit : ℕ}
    {seen ready : List ρ} (h : Selected limit seen ready) :
    (if 0 < limit - ready.length then do
        let more ← query fun db : Db ρ κ δ => selectRows P r (limit - ready.length) db.rows
        return ready ++ more
      else return ready).wp (Selected limit) seen := by
  split_ifs
  · refine wp_bind (wp_query fun db => wp_pure ?_)
    exact h.append (selected_selectRows _ (List.subset_append_right _ _))
      (List.subset_append_left _ _)
  · exact wp_pure h

/-- What holds whatever it reads holds if nothing changes while it runs. -/
theorem wp_run (db : Db ρ κ δ) {Q : List ρ → α → Prop} :
    ∀ {m : Select (Db ρ κ δ) α} {seen : List ρ}, m.wp Q seen →
      ∃ seen', (∀ c ∈ seen', c ∈ seen ∨ c ∈ db.rows) ∧ Q seen' (m.run db)
  | .done _, seen, h => ⟨seen, fun _ hc => Or.inl hc, h⟩
  | .read _, _, h => by
    obtain ⟨seen', hseen, hq⟩ := wp_run db (h db)
    refine ⟨seen', fun c hc => ?_, hq⟩
    rcases hseen c hc with hc | hc
    · exact List.mem_append.mp hc
    · exact Or.inr hc

/-! ### Copies of rows -/

variable [Versioned ρ]

/-- **`c` is a copy of a row read now or earlier**: the row is no older, if it is still there. -/
def Copy (db : Db ρ κ δ) (c : ρ) : Prop :=
  key c ∈ db.issued ∧ ∀ r ∈ db.rows, key r = key c → version c ≤ version r

theorem copy_of_mem {db : Db ρ κ δ} {r : ρ} (h : r ∈ db.rows) : Copy db r := by
  refine ⟨db.issued_of_mem r h, fun r' hr' hk => ?_⟩
  rw [db.eq_of_key hr' h hk]

/-- `db'` is a later state of the database `db`. -/
structure Later (db db' : Db ρ κ δ) : Prop where
  issued : ∀ k ∈ db.issued, k ∈ db'.issued
  rows : ∀ r' ∈ db'.rows, key r' ∈ db.issued →
    ∃ r ∈ db.rows, key r = key r' ∧ version r ≤ version r'

theorem Later.refl (db : Db ρ κ δ) : Later db db :=
  ⟨fun _ h => h, fun r h _ => ⟨r, h, rfl, le_rfl⟩⟩

theorem Copy.later {db db' : Db ρ κ δ} {c : ρ} (h : Copy db c) (hl : Later db db') :
    Copy db' c := by
  refine ⟨hl.issued _ h.1, fun r' hr' hk => ?_⟩
  obtain ⟨r, hr, hrk, hv⟩ := hl.rows r' hr' (hk ▸ h.1)
  exact (h.2 r hr (hrk.trans hk)).trans hv

theorem later_replace [DecidableEq κ] {db : Db ρ κ δ} {r new : ρ} (hr : r ∈ db.rows)
    (hk : key r = key new) (hv : version r ≤ version new) : Later db (db.replace new) := by
  refine ⟨fun _ h => h, fun r' hr' _ => ?_⟩
  obtain ⟨r₀, hr₀, rfl⟩ := List.mem_map.mp hr'
  refine ⟨r₀, hr₀, (key_replaceRow new r₀).symm, ?_⟩
  unfold replaceRow
  split_ifs with h
  · rwa [db.eq_of_key hr₀ hr (h.trans hk.symm)]
  · exact le_rfl

theorem later_delete [DecidableEq κ] (db : Db ρ κ δ) (k : κ) : Later db (db.delete k) :=
  ⟨fun _ h => h, fun r hr _ => ⟨r, List.mem_of_mem_filter hr, rfl, le_rfl⟩⟩

theorem later_insert (db : Db ρ κ δ) (r : ρ) (h : key r ∉ db.issued) :
    Later db (db.insert r h) := by
  refine ⟨fun _ hk => List.mem_cons_of_mem _ hk, fun r' hr' hk => ?_⟩
  rcases List.mem_cons.mp hr' with rfl | hr'
  · exact absurd hk h
  · exact ⟨r', hr', rfl, le_rfl⟩

theorem later_setRest (db : Db ρ κ δ) (rest : δ) : Later db (db.setRest rest) :=
  ⟨fun _ h => h, fun r h _ => ⟨r, h, rfl, le_rfl⟩⟩

/-! ### Claims -/

/-- **What a kind of rows defines.** For a request `q : ω`, how many rows it asks for, how it
selects its candidates, and the write that takes the lease of one: `none` if it fails before the
write, and `x : χ` what else it read. -/
structure Claims (ρ κ δ ω χ ε : Type) [Keyed ρ κ] where
  budget : ω → ℕ
  select : ω → Select (Db ρ κ δ) (List ρ)
  lease : ω → ρ → χ → Option (ρ → Except (CasError ε) ρ)

/-- What it has to keep to. -/
structure Claims.Lawful (C : Claims ρ κ δ ω χ ε) (Owned : ω → ρ → Prop) : Prop where
  select : ∀ q, (C.select q).wp (Selected (C.budget q)) []
  lease : ∀ q c x write r r', C.lease q c x = some write → write r = .ok r' →
    version r = version c ∧ version r < version r' ∧ key r' = key r ∧ Owned q r'

/-- What one worker is doing. -/
inductive Proc (ρ κ δ ω : Type) [Keyed ρ κ]
  | idle
  | selecting (q : ω) (sel : Select (Db ρ κ δ) (List ρ))
  | leasing (q : ω) (cs claimed : List ρ)

/-- A lease is taken, from the row `old` to the row `new`; a claim returns its batch. -/
inductive Event (ρ ω : Type)
  | leased (p : ℕ) (q : ω) (old new : ρ)
  | returned (p : ℕ) (q : ω) (batch : List ρ)

/-- The database, the workers and the events, newest first. -/
structure Sys (ρ κ δ ω : Type) [Keyed ρ κ] where
  db : Db ρ κ δ
  procs : ℕ → Proc ρ κ δ ω
  log : List (Event ρ ω)

def start (db : Db ρ κ δ) : Sys ρ κ δ ω := ⟨db, fun _ => .idle, []⟩

/-- The next thing a worker does; the last four are changes by anything else. -/
inductive Op (ρ κ δ ω χ : Type)
  | claim (q : ω)
  | read
  | collect
  | lease (x : χ)
  | finish
  | fail
  | change (new : ρ)
  | insert (r : ρ)
  | delete (k : κ)
  | setRest (rest : δ)

structure Action (ρ κ δ ω χ : Type) where
  proc : ℕ
  op : Op ρ κ δ ω χ

section step
variable [DecidableEq κ]

/-- Let worker `p` go on. -/
def Sys.go (s : Sys ρ κ δ ω) (p : ℕ) (x : Proc ρ κ δ ω) : Sys ρ κ δ ω :=
  { s with procs := Function.update s.procs p x }

/-- The lease is taken: the row `new` is in the table and in the batch. -/
def Sys.leased (s : Sys ρ κ δ ω) (p : ℕ) (q : ω) (cs claimed : List ρ) (old new : ρ) :
    Sys ρ κ δ ω where
  db := s.db.replace new
  procs := Function.update s.procs p (.leasing q cs (claimed ++ [new]))
  log := .leased p q old new :: s.log

def Sys.returned (s : Sys ρ κ δ ω) (p : ℕ) (q : ω) (batch : List ρ) : Sys ρ κ δ ω where
  db := s.db
  procs := Function.update s.procs p .idle
  log := .returned p q batch :: s.log

variable (C : Claims ρ κ δ ω χ ε)

/-- **The loop body**: take the lease of the candidate `c`, skip it if the race is lost or the row
is gone, and give up on any other error. -/
def Sys.tryLease (s : Sys ρ κ δ ω) (p : ℕ) (q : ω) (c : ρ) (cs claimed : List ρ) (x : χ) :
    Sys ρ κ δ ω :=
  match C.lease q c x with
  | none => s.go p .idle
  | some write =>
    match s.db.find (key c) with
    | none => s.go p (.leasing q cs claimed)
    | some r =>
      match write r with
      | .ok new => s.leased p q cs claimed r new
      | .error .preconditionFailed => s.go p (.leasing q cs claimed)
      | .error (.refused _) => s.go p .idle

/-- A change of a row by anything else. -/
def Db.tryChange (db : Db ρ κ δ) (new : ρ) : Option (Db ρ κ δ) :=
  match db.find (key new) with
  | none => none
  | some r => if version r < version new then some (db.replace new) else none

def Db.tryInsert (db : Db ρ κ δ) (r : ρ) : Option (Db ρ κ δ) :=
  if h : key r ∉ db.issued then some (db.insert r h) else none

/-- **One step of the system.** -/
def Claims.step (s : Sys ρ κ δ ω) (a : Action ρ κ δ ω χ) : Option (Sys ρ κ δ ω) :=
  match s.procs a.proc, a.op with
  | .idle, .claim q => some (s.go a.proc (.selecting q (C.select q)))
  | .selecting q (.read k), .read => some (s.go a.proc (.selecting q (k s.db)))
  | .selecting q (.done cs), .collect => some (s.go a.proc (.leasing q cs []))
  | .leasing q (c :: cs) claimed, .lease x => some (s.tryLease C a.proc q c cs claimed x)
  | .leasing q [] claimed, .finish => some (s.returned a.proc q claimed)
  | _, .fail => some (s.go a.proc .idle)
  | _, .change new => (s.db.tryChange new).map fun db => { s with db := db }
  | _, .insert r => (s.db.tryInsert r).map fun db => { s with db := db }
  | _, .delete k => some { s with db := s.db.delete k }
  | _, .setRest rest => some { s with db := s.db.setRest rest }
  | _, _ => none

/-! ### What a step can do -/

/-- **What one step of worker `p`, or of anything else, can do.** -/
inductive Steps (s : Sys ρ κ δ ω) (p : ℕ) : Sys ρ κ δ ω → Prop
  | claim (q : ω) (h : s.procs p = .idle) : Steps s p (s.go p (.selecting q (C.select q)))
  | read (q : ω) (k : Db ρ κ δ → Select (Db ρ κ δ) (List ρ))
      (h : s.procs p = .selecting q (.read k)) : Steps s p (s.go p (.selecting q (k s.db)))
  | collect (q : ω) (cs : List ρ) (h : s.procs p = .selecting q (.done cs)) :
      Steps s p (s.go p (.leasing q cs []))
  | leased (q : ω) (c : ρ) (cs claimed : List ρ) (x : χ)
      (write : ρ → Except (CasError ε) ρ) (old new : ρ)
      (h : s.procs p = .leasing q (c :: cs) claimed) (hw : C.lease q c x = some write)
      (hold : old ∈ s.db.rows) (hk : key old = key c) (hok : write old = .ok new) :
      Steps s p (s.leased p q cs claimed old new)
  | skipped (q : ω) (c : ρ) (cs claimed : List ρ) (h : s.procs p = .leasing q (c :: cs) claimed) :
      Steps s p (s.go p (.leasing q cs claimed))
  | returned (q : ω) (claimed : List ρ) (h : s.procs p = .leasing q [] claimed) :
      Steps s p (s.returned p q claimed)
  | failed : Steps s p (s.go p .idle)
  | other (db : Db ρ κ δ) (hl : Later s.db db) : Steps s p { s with db := db }

variable {C}

theorem tryLease_cases {s : Sys ρ κ δ ω} {p : ℕ} {q : ω} {c : ρ} {cs claimed : List ρ}
    (h : s.procs p = .leasing q (c :: cs) claimed) (x : χ) :
    Steps C s p (s.tryLease C p q c cs claimed x) := by
  unfold Sys.tryLease
  cases hw : C.lease q c x with
  | none => exact .failed
  | some write =>
    dsimp only
    cases hf : s.db.find (key c) with
    | none => exact .skipped q c cs claimed h
    | some r =>
      obtain ⟨hr, hk⟩ := Db.find_some hf
      dsimp only
      cases ho : write r with
      | ok new => exact .leased q c cs claimed x write r new h hw hr hk ho
      | error e =>
        cases e with
        | preconditionFailed => exact .skipped q c cs claimed h
        | refused e => exact .failed

theorem later_tryChange {db db' : Db ρ κ δ} {new : ρ} (h : db.tryChange new = some db') :
    Later db db' := by
  unfold Db.tryChange at h
  split at h
  · cases h
  · next r hf =>
    obtain ⟨hr, hk⟩ := Db.find_some hf
    split_ifs at h with hv
    cases h
    exact later_replace hr hk hv.le

theorem later_tryInsert {db db' : Db ρ κ δ} {r : ρ}
    (h : db.tryInsert r = some db') : Later db db' := by
  unfold Db.tryInsert at h
  split_ifs at h with hk
  cases h
  exact later_insert db r hk

theorem step_cases {s s' : Sys ρ κ δ ω} {a : Action ρ κ δ ω χ} (h : C.step s a = some s') :
    Steps C s a.proc s' := by
  unfold Claims.step at h
  split at h
  · next q hp _ =>
    cases h
    exact .claim q hp
  · next q k hp _ =>
    cases h
    exact .read q k hp
  · next q cs hp _ =>
    cases h
    exact .collect q cs hp
  · next q c cs claimed x hp _ =>
    cases h
    exact tryLease_cases hp x
  · next q claimed hp _ =>
    cases h
    exact .returned q claimed hp
  · cases h
    exact .failed
  · obtain ⟨db, hdb, rfl⟩ := Option.map_eq_some_iff.mp h
    exact .other db (later_tryChange hdb)
  · obtain ⟨db, hdb, rfl⟩ := Option.map_eq_some_iff.mp h
    exact .other db (later_tryInsert hdb)
  · cases h
    exact .other _ (later_delete _ _)
  · cases h
    exact .other _ (later_setRest _ _)
  · cases h

end step

/-! ### The promises -/

/-- The row versions that were leased. -/
def leasedVersions (log : List (Event ρ ω)) : List (κ × ℕ) :=
  log.filterMap fun
    | .leased _ _ old _ => some (key old, version old)
    | .returned _ _ _ => none

/-- **Every batch** is within its budget and has different rows, leased by this worker for this
request and owned at that write. -/
def Batches (C : Claims ρ κ δ ω χ ε) (Owned : ω → ρ → Prop) (log : List (Event ρ ω)) : Prop :=
  ∀ p q batch, .returned p q batch ∈ log →
    batch.length ≤ C.budget q ∧ (batch.map key).Nodup ∧
      ∀ r ∈ batch, Owned q r ∧ ∃ old, .leased p q old r ∈ log

/-- **A lease is a write of the table's row**, which the worker owns then. -/
def LeaseWritten (Owned : ω → ρ → Prop) (s s' : Sys ρ κ δ ω) : Prop :=
  ∀ p q old new, s'.log = .leased p q old new :: s.log →
    old ∈ s.db.rows ∧ new ∈ s'.db.rows ∧ key new = key old ∧ Owned q new

/-! ### The invariant -/

/-- A worker in the loop: `claimed` are the rows it has leased, `cs` the candidates left. -/
structure Leasing (C : Claims ρ κ δ ω χ ε) (Owned : ω → ρ → Prop) (db : Db ρ κ δ)
    (log : List (Event ρ ω)) (p : ℕ) (q : ω) (cs claimed : List ρ) : Prop where
  copies : ∀ c ∈ cs, Copy db c
  length : claimed.length + cs.length ≤ C.budget q
  nodup : (claimed.map key).Nodup
  leased : ∀ r ∈ claimed, Copy db r ∧ Owned q r ∧ ∃ old, .leased p q old r ∈ log
  older : ∀ c ∈ cs, ∀ r ∈ claimed, key c = key r → version c < version r

def ProcOk (C : Claims ρ κ δ ω χ ε) (Owned : ω → ρ → Prop) (db : Db ρ κ δ)
    (log : List (Event ρ ω)) (p : ℕ) : Proc ρ κ δ ω → Prop
  | .idle => True
  | .selecting q sel =>
    ∃ seen, (∀ c ∈ seen, Copy db c) ∧ sel.wp (Selected (C.budget q)) seen
  | .leasing q cs claimed => Leasing C Owned db log p q cs claimed

structure Inv (C : Claims ρ κ δ ω χ ε) (Owned : ω → ρ → Prop) (s : Sys ρ κ δ ω) : Prop where
  procs : ∀ p, ProcOk C Owned s.db s.log p (s.procs p)
  leases : ∀ p q old new, .leased p q old new ∈ s.log →
    key new = key old ∧ version old < version new ∧ Copy s.db new
  exclusive : (leasedVersions s.log).Nodup
  batches : Batches C Owned s.log

variable {C : Claims ρ κ δ ω χ ε} {Owned : ω → ρ → Prop}

theorem Inv.start (db : Db ρ κ δ) : Inv C Owned (start db) where
  procs := fun _ => trivial
  leases := by rintro p q old new ⟨⟩
  exclusive := List.nodup_nil
  batches := by rintro p q batch ⟨⟩

theorem ProcOk.later {db db' : Db ρ κ δ} {log log' : List (Event ρ ω)} {p : ℕ}
    {x : Proc ρ κ δ ω} (h : ProcOk C Owned db log p x) (hl : Later db db') (hlog : log ⊆ log') :
    ProcOk C Owned db' log' p x := by
  cases x with
  | idle => trivial
  | selecting q sel =>
    obtain ⟨seen, hseen, hsel⟩ := h
    exact ⟨seen, fun c hc => (hseen c hc).later hl, hsel⟩
  | leasing q cs claimed =>
    have h : Leasing C Owned db log p q cs claimed := h
    refine ⟨fun c hc => (h.copies c hc).later hl, h.length, h.nodup, ?_, h.older⟩
    intro r hr
    obtain ⟨hc, ho, old, hold⟩ := h.leased r hr
    exact ⟨hc.later hl, ho, old, hlog hold⟩

theorem procOk_update {db db' : Db ρ κ δ} {log log' : List (Event ρ ω)} {p : ℕ}
    {procs : ℕ → Proc ρ κ δ ω} {x : Proc ρ κ δ ω}
    (h : ∀ q, ProcOk C Owned db log q (procs q)) (hl : Later db db') (hlog : log ⊆ log')
    (hx : ProcOk C Owned db' log' p x) (q : ℕ) :
    ProcOk C Owned db' log' q (Function.update procs p x q) := by
  revert q
  rw [Function.forall_update_iff procs (p := fun q x => ProcOk C Owned db' log' q x)]
  exact ⟨hx, fun q _ => (h q).later hl hlog⟩

theorem Inv.go {s : Sys ρ κ δ ω} (h : Inv C Owned s) {p : ℕ} {x : Proc ρ κ δ ω}
    (hx : ProcOk C Owned s.db s.log p x) : Inv C Owned (s.go p x) where
  procs := procOk_update h.procs (.refl _) (List.Subset.refl _) hx
  leases := h.leases
  exclusive := h.exclusive
  batches := h.batches

theorem Inv.other {s : Sys ρ κ δ ω} (h : Inv C Owned s) {db : Db ρ κ δ} (hl : Later s.db db) :
    Inv C Owned { s with db := db } where
  procs := fun p => (h.procs p).later hl (List.Subset.refl _)
  leases := by
    intro p q old new hmem
    obtain ⟨hk, hv, hc⟩ := h.leases p q old new hmem
    exact ⟨hk, hv, hc.later hl⟩
  exclusive := h.exclusive
  batches := h.batches

omit [Versioned ρ] in
theorem Batches.cons {log : List (Event ρ ω)} (h : Batches C Owned log) {e : Event ρ ω}
    (he : ∀ p q batch, e = .returned p q batch → batch.length ≤ C.budget q ∧
      (batch.map key).Nodup ∧ ∀ r ∈ batch, Owned q r ∧ ∃ old, .leased p q old r ∈ log) :
    Batches C Owned (e :: log) := by
  intro p q batch hmem
  have hb : batch.length ≤ C.budget q ∧ (batch.map key).Nodup ∧
      ∀ r ∈ batch, Owned q r ∧ ∃ old, .leased p q old r ∈ log := by
    rcases List.mem_cons.mp hmem with hmem | hmem
    · exact he p q batch hmem.symm
    · exact h p q batch hmem
  refine ⟨hb.1, hb.2.1, fun r hr => ?_⟩
  obtain ⟨ho, old, hold⟩ := hb.2.2 r hr
  exact ⟨ho, old, List.mem_cons_of_mem _ hold⟩

theorem Inv.returned {s : Sys ρ κ δ ω} (h : Inv C Owned s) {p : ℕ} {q : ω} {claimed : List ρ}
    (hp : s.procs p = .leasing q [] claimed) : Inv C Owned (s.returned p q claimed) := by
  have hl : Leasing C Owned s.db s.log p q [] claimed := by
    have := h.procs p
    rwa [hp] at this
  refine ⟨procOk_update h.procs (.refl _) (List.subset_cons_self _ _) trivial, ?_, h.exclusive, ?_⟩
  · intro p' q' old' new' hmem
    rcases List.mem_cons.mp hmem with he | hmem
    · cases he
    · exact h.leases p' q' old' new' hmem
  · refine h.batches.cons ?_
    rintro p' q' batch ⟨⟩
    exact ⟨hl.length, hl.nodup, fun r hr => (hl.leased r hr).2⟩

section step
variable [DecidableEq κ]

/-- The step that matters: the candidate's version is the row's, so it is newer than every other
copy, and no lease of that version can have been taken before. -/
theorem Inv.leased {s : Sys ρ κ δ ω} (hC : C.Lawful Owned) (h : Inv C Owned s) {p : ℕ} {q : ω}
    {c : ρ} {cs claimed : List ρ} {x : χ} {write : ρ → Except (CasError ε) ρ} {old new : ρ}
    (hp : s.procs p = .leasing q (c :: cs) claimed) (hw : C.lease q c x = some write)
    (hold : old ∈ s.db.rows) (hk : key old = key c) (hok : write old = .ok new) :
    Inv C Owned (s.leased p q cs claimed old new) := by
  obtain ⟨hvc, hlt, hkey, hown⟩ := hC.lease q c x write old new hw hok
  have hl : Leasing C Owned s.db s.log p q (c :: cs) claimed := by
    have := h.procs p
    rwa [hp] at this
  have hlater : Later s.db (s.db.replace new) := later_replace hold hkey.symm hlt.le
  have hnew : Copy (s.db.replace new) new := copy_of_mem (Db.mem_replace_self hold hkey.symm)
  have hfresh : key new ∉ claimed.map key := by
    intro hmem
    obtain ⟨r, hr, hrk⟩ := List.mem_map.mp hmem
    have h1 := hl.older c List.mem_cons_self r hr (hk.symm.trans (hkey.symm.trans hrk.symm))
    have h2 := (hl.leased r hr).1.2 old hold (hkey.symm.trans hrk.symm)
    omega
  have hproc : Leasing C Owned (s.db.replace new) (.leased p q old new :: s.log) p q cs
      (claimed ++ [new]) := by
    refine ⟨fun c' hc' => (hl.copies c' (List.mem_cons_of_mem _ hc')).later hlater, ?_, ?_, ?_, ?_⟩
    · have := hl.length
      simp only [List.length_append, List.length_cons, List.length_nil] at this ⊢
      omega
    · rw [List.map_append, List.nodup_append_comm]
      exact List.nodup_cons.mpr ⟨hfresh, hl.nodup⟩
    · intro r hr
      rcases List.mem_append.mp hr with hr | hr
      · obtain ⟨hc, ho, old', hold'⟩ := hl.leased r hr
        exact ⟨hc.later hlater, ho, old', List.mem_cons_of_mem _ hold'⟩
      · rw [List.mem_singleton.mp hr]
        exact ⟨hnew, hown, old, List.mem_cons_self⟩
    · intro c' hc' r hr hkr
      rcases List.mem_append.mp hr with hr | hr
      · exact hl.older c' (List.mem_cons_of_mem _ hc') r hr hkr
      · rw [List.mem_singleton.mp hr] at hkr ⊢
        have := (hl.copies c' (List.mem_cons_of_mem _ hc')).2 old hold (hkey.symm.trans hkr.symm)
        omega
  refine ⟨procOk_update h.procs hlater (List.subset_cons_self _ _) hproc, ?_, ?_, ?_⟩
  · intro p' q' old' new' hmem
    rcases List.mem_cons.mp hmem with he | hmem
    · cases he
      exact ⟨hkey, hlt, hnew⟩
    · obtain ⟨hk', hv', hc'⟩ := h.leases p' q' old' new' hmem
      exact ⟨hk', hv', hc'.later hlater⟩
  · change ((key old, version old) :: leasedVersions s.log).Nodup
    refine List.nodup_cons.mpr ⟨fun hmem => ?_, h.exclusive⟩
    obtain ⟨e, he, hv⟩ := List.mem_filterMap.mp hmem
    cases e with
    | leased p' q' old' new' =>
      obtain ⟨hk', hv', hc'⟩ := h.leases p' q' old' new' he
      obtain ⟨hko, hvo⟩ := Prod.mk.inj (Option.some.inj hv)
      have := hc'.2 old hold (hko.symm.trans hk'.symm)
      omega
    | returned p' q' batch => cases hv
  · exact h.batches.cons (by rintro p' q' batch ⟨⟩)

theorem Inv.step (hC : C.Lawful Owned) {s s' : Sys ρ κ δ ω} {a : Action ρ κ δ ω χ}
    (h : Inv C Owned s) (hstep : C.step s a = some s') : Inv C Owned s' := by
  cases step_cases hstep with
  | claim q hp => exact h.go ⟨[], by simp, hC.select q⟩
  | read q k hp =>
    have hproc := h.procs a.proc
    rw [hp] at hproc
    obtain ⟨seen, hseen, hsel⟩ := hproc
    refine h.go ⟨seen ++ s.db.rows, fun c hc => ?_, hsel s.db⟩
    rcases List.mem_append.mp hc with hc | hc
    · exact hseen c hc
    · exact copy_of_mem hc
  | collect q cs hp =>
    have hproc := h.procs a.proc
    rw [hp] at hproc
    obtain ⟨seen, hseen, hsub, hlen⟩ := hproc
    refine h.go ⟨fun c hc => hseen c (hsub c hc), by simpa using hlen, by simp, ?_, ?_⟩
    · rintro r ⟨⟩
    · rintro c hc r ⟨⟩
  | leased q c cs claimed x write old new hp hw hold hk hok =>
    exact h.leased hC hp hw hold hk hok
  | skipped q c cs claimed hp =>
    have hl : Leasing C Owned s.db s.log a.proc q (c :: cs) claimed := by
      have := h.procs a.proc
      rwa [hp] at this
    refine h.go ⟨fun c' hc' => hl.copies c' (List.mem_cons_of_mem _ hc'), ?_, hl.nodup,
      hl.leased, fun c' hc' => hl.older c' (List.mem_cons_of_mem _ hc')⟩
    have := hl.length
    rw [List.length_cons] at this
    omega
  | returned q claimed hp => exact h.returned hp
  | failed => exact h.go trivial
  | other db hl => exact h.other hl

/-- **Leases are exclusive and batches are right, in every state of every run.** -/
theorem Claims.Lawful.always (hC : C.Lawful Owned) (db : Db ρ κ δ)
    (as : List (Action ρ κ δ ω χ)) :
    Always C.step (fun s => (leasedVersions s.log).Nodup ∧ Batches C Owned s.log)
      (start db) as := by
  refine (along_true _ as).always (I := Inv C Owned) (fun s h => ⟨h.exclusive, h.batches⟩) ?_
    (Inv.start db)
  intro s a s' h hstep _
  exact h.step hC hstep

/-- **Leases are writes of rows the worker owns, in every step of every run.** -/
theorem Claims.Lawful.along (hC : C.Lawful Owned) (db : Db ρ κ δ)
    (as : List (Action ρ κ δ ω χ)) :
    Along C.step (fun s _ s' => LeaseWritten Owned s s') (start db) as := by
  refine (along_iff (I := fun _ => True) (Q := fun _ _ _ => True) ?_ (fun _ _ _ _ _ _ => trivial)
    trivial).mpr (along_true _ as)
  intro s a s' _ hstep
  refine iff_true_intro fun p q old new hlog => ?_
  have hne {log : List (Event ρ ω)} (h : log = .leased p q old new :: log) : False := by
    have := congrArg List.length h
    simp at this
  cases step_cases hstep with
  | leased q' c cs claimed x write old' new' hp hw hold hk hok =>
    obtain ⟨-, -, hkey, hown⟩ := hC.lease q' c x write old' new' hw hok
    cases hlog
    exact ⟨hold, Db.mem_replace_self hold hkey.symm, hkey, hown⟩
  | returned q' claimed hp => cases hlog
  | _ => exact (hne hlog).elim

end step

end Vsms.Lib.Consumers
