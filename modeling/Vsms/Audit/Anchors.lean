import Vsms.Lib.Runs
import Vsms.Audit.Rows

/-! # Writing the anchors

A run of `anchor_audit` reads the latest anchor, verifies what there is, reads the rows since that
anchor and writes the next one, which links to the anchor it has read. Each of these is a statement
of its own. The only guard of the table is the unique index on `chainHash`: runs that overlap,
because the lease of a job expired while its handler was still running, may have read the same
anchor, and then both write one that links to it. The chain forks, and as anchors are never changed
it stays so.

The chain has no breaks as long as every anchor that is written links to the latest of the table
(`chain_unbroken`). Times are in microseconds, what the columns hold. -/

namespace Vsms.Audit.Anchors

open Vsms.Lib.Runs Vsms.Lib.Framing Vsms.Lib.Json Vsms.Audit.Chain Vsms.Audit.Rows

/-! ## The table -/

def newestFirst (a b : AuditAnchor) : Prop := b.periodEnd ≤ a.periodEnd

def oldestFirst (a b : AuditAnchor) : Prop := a.periodEnd ≤ b.periodEnd

instance : DecidableRel newestFirst := fun a b => by unfold newestFirst; infer_instance

instance : DecidableRel oldestFirst := fun a b => by unfold oldestFirst; infer_instance

instance : Std.Total newestFirst := ⟨fun _ _ => Int64.le_total _ _⟩

instance : IsTrans AuditAnchor newestFirst := ⟨fun _ _ _ hab hbc => Int64.le_trans hbc hab⟩

/-- **`latest_anchor`** -/
def latestAnchor (anchors : List AuditAnchor) : Option AuditAnchor :=
  (anchors.insertionSort newestFirst).head?

/-- The anchors as `verify_chain_linkage` reads them. -/
def anchorsInOrder (anchors : List AuditAnchor) : List AuditAnchor :=
  anchors.insertionSort oldestFirst

structure CreateAuditAnchorInput where
  periodStart : Option Timestamp
  periodEnd : Timestamp
  rowCount : Int64
  rangeHash : String
  prevChainHash : String
  chainHash : String
  deriving DecidableEq, Repr

def CreateAuditAnchorInput.row (input : CreateAuditAnchorInput) (id : String) : AuditAnchor :=
  ⟨id, input.periodStart, input.periodEnd, input.rowCount, input.rangeHash, input.prevChainHash,
    input.chainHash⟩

/-- The primary key and the unique index let the row in. -/
def Accepts (anchors : List AuditAnchor) (id : String) (input : CreateAuditAnchorInput) : Prop :=
  ∀ a ∈ anchors, a.id ≠ id ∧ a.chainHash ≠ input.chainHash

instance (anchors : List AuditAnchor) (id : String) (input : CreateAuditAnchorInput) :
    Decidable (Accepts anchors id input) := by
  unfold Accepts
  infer_instance

/-- The insert, which fails where an index refuses the row. -/
def insertAnchor (anchors : List AuditAnchor) (id : String) (input : CreateAuditAnchorInput) :
    List AuditAnchor :=
  if Accepts anchors id input then anchors ++ [input.row id] else anchors

/-! ## The job -/

/-- `ANCHOR_LAG`, five minutes. -/
def anchorLag : Timestamp := 300000000

/-- The first `DateTime` there is, in the year -262143. -/
def minUtc : Timestamp := -8334601228800000000

/-- `now - ANCHOR_LAG`, which panics where there is no such time. -/
def lagged (now : Timestamp) : Option Timestamp :=
  if minUtc + anchorLag ≤ now then some (now - anchorLag) else none

/-- The end of the next period, if there is anything new to anchor. -/
def nextPeriodEnd (latest : Option AuditAnchor) (now : Timestamp) : Option Timestamp :=
  match lagged now with
  | none => none
  | some periodEnd => if latest.any fun a => periodEnd ≤ a.periodEnd then none else some periodEnd

/-- `i64::try_from(rows.len()).unwrap_or(i64::MAX)` -/
def rowCount (rows : ℕ) : Int64 := if rows < 2 ^ 63 then Int64.ofNat rows else Int64.maxValue

section model
variable {F : Type} {fmt : FloatFormat F} (sha256 : List UInt8 → Digest)

/-- **What `run_at` writes** after `latest`, for the rows up to `periodEnd`. -/
def anchorInput (latest : Option AuditAnchor) (periodEnd : Timestamp) (rows : List (AuditRow fmt)) :
    CreateAuditAnchorInput :=
  let periodStart := latest.map AuditAnchor.periodEnd
  let rangeHash := hexEncode (foldRows sha256 rows).toList
  let prevChainHash := (latest.map AuditAnchor.chainHash).getD genesisHex
  { periodStart
    periodEnd
    rowCount := rowCount rows.length
    rangeHash
    prevChainHash
    chainHash := computeChainHashHex sha256 prevChainHash periodStart periodEnd
      (rowCount rows.length) rangeHash }

/-- Where a run of `run_at` is, with what it holds. -/
inductive Stage
  | idle
  | latestRead (now : Timestamp) (latest : Option AuditAnchor)
  | linkageVerified (now : Timestamp) (latest : Option AuditAnchor)
  | contentVerified (now : Timestamp) (latest : Option AuditAnchor)
  | rowsRead (latest : Option AuditAnchor) (input : CreateAuditAnchorInput)
  /-- Returned, with or without an error, or its process stopped. -/
  | ended
  deriving DecidableEq, Repr

/-- The errors a run logs. -/
inductive LogEntry
  | linkageBroken (detail : String)
  | contentMismatch (anchorId : String)
  deriving DecidableEq, Repr

variable (fmt) in
structure State where
  anchors : List AuditAnchor
  table : Option (AuditTable fmt)
  runs : ℕ → Stage
  log : List LogEntry

def State.setRun (s : State fmt) (p : ℕ) (stage : Stage) : State fmt :=
  { s with runs := Function.update s.runs p stage }

variable (fmt) in
inductive Action
  | readLatest (p : ℕ) (now : Timestamp)
  | verifyLinkage (p : ℕ)
  /-- A read that fails is logged as a warning, and the run goes on. -/
  | verifyContent (p : ℕ) (readFails : Bool)
  | readRows (p : ℕ)
  | create (p : ℕ) (id : String)
  /-- A statement fails, or the process stops. -/
  | stop (p : ℕ)
  /-- The program writes an audit row. -/
  | record (row : AuditRow fmt)

/-- What a check of the latest anchor's content logs. -/
def contentLog (table : Option (AuditTable fmt)) (latest : Option AuditAnchor) (readFails : Bool) :
    List LogEntry :=
  match latest with
  | none => []
  | some anchor =>
    if readFails || verifyPeriodContent sha256 table anchor then []
    else [.contentMismatch anchor.id]

theorem tableRows_nodup (table : Option (AuditTable fmt)) :
    ((tableRows table).map AuditRow.eventId).Nodup := by
  cases table with
  | none => exact List.nodup_nil
  | some table => exact table.primaryKey

/-- The table with one more row. -/
def recordRow (table : Option (AuditTable fmt)) (row : AuditRow fmt)
    (h : row.eventId ∉ (tableRows table).map AuditRow.eventId) : AuditTable fmt where
  rows := tableRows table ++ [row]
  primaryKey := by
    rw [List.map_append]
    refine List.nodup_append.mpr ⟨tableRows_nodup table, List.nodup_singleton _, ?_⟩
    rintro x hx y hy rfl
    obtain rfl := List.mem_singleton.mp hy
    exact h hx

/-- **One statement of a run**, or of the rest of the program. -/
def step (s : State fmt) : Action fmt → Option (State fmt)
  | .readLatest p now =>
    match s.runs p with
    | .idle => some (s.setRun p (.latestRead now (latestAnchor s.anchors)))
    | _ => none
  | .verifyLinkage p =>
    match s.runs p with
    | .latestRead now latest => some { s.setRun p (.linkageVerified now latest) with
        log := s.log ++
          (verifyChainLinkage sha256 (anchorsInOrder s.anchors)).map LogEntry.linkageBroken }
    | _ => none
  | .verifyContent p readFails =>
    match s.runs p with
    | .linkageVerified now latest => some { s.setRun p (.contentVerified now latest) with
        log := s.log ++ contentLog sha256 s.table latest readFails }
    | _ => none
  | .readRows p =>
    match s.runs p with
    | .contentVerified now latest =>
      match nextPeriodEnd latest now with
      | none => some (s.setRun p .ended)
      | some periodEnd => some (s.setRun p (.rowsRead latest (anchorInput sha256 latest periodEnd
          (rowsInPeriod s.table (latest.map AuditAnchor.periodEnd) periodEnd))))
    | _ => none
  | .create p id =>
    match s.runs p with
    | .rowsRead _ input =>
        some { s.setRun p .ended with anchors := insertAnchor s.anchors id input }
    | _ => none
  | .stop p => some (s.setRun p .ended)
  | .record row =>
    if h : row.eventId ∉ (tableRows s.table).map AuditRow.eventId then
      some { s with table := some (recordRow s.table row h) }
    else none

/-- No anchor has been written and no run begun. -/
def start (table : Option (AuditTable fmt)) : State fmt := ⟨[], table, fun _ => .idle, []⟩

end model

/-! ## The latest anchor -/

theorem latestAnchor_eq_none {anchors : List AuditAnchor} :
    latestAnchor anchors = none ↔ anchors = [] := by
  unfold latestAnchor
  rw [List.head?_eq_none_iff]
  constructor
  · intro h
    have hlen := List.length_insertionSort newestFirst anchors
    rw [h] at hlen
    exact List.length_eq_zero_iff.mp hlen.symm
  · rintro rfl
    rfl

theorem latestAnchor_mem {anchors : List AuditAnchor} {a : AuditAnchor}
    (h : latestAnchor anchors = some a) : a ∈ anchors :=
  (List.mem_insertionSort newestFirst).mp (List.mem_of_mem_head? h)

theorem latestAnchor_le {anchors : List AuditAnchor} {m : AuditAnchor}
    (h : latestAnchor anchors = some m) : ∀ a ∈ anchors, a.periodEnd ≤ m.periodEnd := by
  intro a ha
  have hsorted := List.pairwise_insertionSort newestFirst anchors
  obtain ⟨rest, hrest⟩ := List.head?_eq_some_iff.mp h
  have hmem : a ∈ anchors.insertionSort newestFirst := (List.mem_insertionSort newestFirst).mpr ha
  rw [hrest] at hsorted hmem
  rcases List.mem_cons.mp hmem with rfl | hmem
  · exact Int64.le_refl _
  · exact (List.pairwise_cons.mp hsorted).1 a hmem

/-! ## A chain -/

/-- Each anchor begins where the one before it ended. -/
def Contiguous : Option Timestamp → List AuditAnchor → Prop
  | _, [] => True
  | start, a :: anchors => a.periodStart = start ∧ Contiguous (some a.periodEnd) anchors

def Increasing (anchors : List AuditAnchor) : Prop :=
  anchors.Pairwise fun a b => a.periodEnd < b.periodEnd

variable (sha256 : List UInt8 → Digest)

/-- **A table whose anchors were written one after the other.** -/
structure Chained (anchors : List AuditAnchor) : Prop where
  increasing : Increasing anchors
  contiguous : Contiguous none anchors
  linked : verifyChainLinkage sha256 anchors = []

variable {sha256}

theorem Contiguous.concat {a : AuditAnchor} : ∀ {start : Option Timestamp}
    {anchors : List AuditAnchor}, Contiguous start anchors →
    a.periodStart = ((anchors.getLast?.map AuditAnchor.periodEnd).or start) →
    Contiguous start (anchors ++ [a])
  | _, [], _, ha => ⟨ha, trivial⟩
  | start, b :: anchors, h, ha => by
    refine ⟨h.1, Contiguous.concat h.2 ?_⟩
    rw [ha, List.getLast?_cons]
    cases anchors.getLast? <;> rfl

theorem linkageBreaks_concat (a : AuditAnchor) : ∀ (previous : Option String)
    (anchors : List AuditAnchor), linkageBreaks sha256 previous (anchors ++ [a]) =
      linkageBreaks sha256 previous anchors ++ linkBreaks sha256 a
        (((anchors.getLast?.map AuditAnchor.chainHash).or previous).getD genesisHex)
  | previous, [] => by simp [linkageBreaks]
  | previous, b :: anchors => by
    rw [List.cons_append, linkageBreaks, linkageBreaks, linkageBreaks_concat a, List.append_assoc,
      List.getLast?_cons]
    cases anchors.getLast? <;> rfl

theorem Increasing.latestAnchor_eq {anchors : List AuditAnchor} (h : Increasing anchors) :
    latestAnchor anchors = anchors.getLast? := by
  rcases List.eq_nil_or_concat anchors with rfl | ⟨before, last, rfl⟩
  · rfl
  · rw [List.concat_eq_append] at h ⊢
    rw [List.getLast?_concat]
    cases hm : latestAnchor (before ++ [last]) with
    | none => simp [latestAnchor_eq_none] at hm
    | some m =>
      have hle := latestAnchor_le hm last (by simp)
      rcases List.mem_append.mp (latestAnchor_mem hm) with hmem | hmem
      · have hlt : m.periodEnd < last.periodEnd :=
          (List.pairwise_append.mp h).2.2 m hmem last (List.mem_singleton_self _)
        exact absurd hlt (Int64.not_lt.mpr hle)
      · rw [List.mem_singleton.mp hmem]

theorem Increasing.anchorsInOrder_eq {anchors : List AuditAnchor} (h : Increasing anchors) :
    anchorsInOrder anchors = anchors :=
  List.Pairwise.insertionSort_eq (h.imp fun hlt => Int64.le_of_lt hlt)

/-- Every anchor of an increasing table is up to the latest. -/
theorem Increasing.concat {anchors : List AuditAnchor} {a : AuditAnchor} (h : Increasing anchors)
    (ha : ∀ l ∈ latestAnchor anchors, l.periodEnd < a.periodEnd) : Increasing (anchors ++ [a]) := by
  refine List.pairwise_append.mpr ⟨h, List.pairwise_singleton _ _, fun b hb c hc => ?_⟩
  obtain rfl := List.mem_singleton.mp hc
  cases hl : latestAnchor anchors with
  | none =>
    rw [latestAnchor_eq_none.mp hl] at hb
    cases hb
  | some l => exact Int64.lt_of_le_of_lt (latestAnchor_le hl b hb) (ha l hl)

/-- **The next anchor**, written after the latest. -/
theorem Chained.concat {F : Type} {fmt : FloatFormat F} {anchors : List AuditAnchor}
    (h : Chained sha256 anchors) {periodEnd : Timestamp} (rows : List (AuditRow fmt)) (id : String)
    (hnew : ∀ l ∈ latestAnchor anchors, l.periodEnd < periodEnd) :
    Chained sha256 (anchors ++
      [(anchorInput sha256 (latestAnchor anchors) periodEnd rows).row id]) := by
  refine ⟨h.increasing.concat hnew, h.contiguous.concat ?_, ?_⟩
  · rw [h.increasing.latestAnchor_eq, Option.or_none]
    rfl
  · unfold verifyChainLinkage
    rw [linkageBreaks_concat, Option.or_none, h.increasing.latestAnchor_eq]
    have hlinked : linkageBreaks sha256 none anchors = [] := h.linked
    rw [hlinked]
    simp [linkBreaks, anchorInput, CreateAuditAnchorInput.row]

theorem chained_nil : Chained sha256 [] := ⟨List.Pairwise.nil, trivial, rfl⟩

/-! ### Forks -/

/-- Without breaks, an anchor links to the one before it, and its hash is that of its fields. -/
theorem prevChainHash_eq : ∀ {previous : Option String} {anchors : List AuditAnchor},
    linkageBreaks sha256 previous anchors = [] →
    anchors.map AuditAnchor.prevChainHash =
        (previous.getD genesisHex :: anchors.map AuditAnchor.chainHash).dropLast ∧
      ∀ a ∈ anchors, link sha256 a.prevChainHash a.period = a.chainHash
  | _, [], _ => ⟨rfl, fun _ h => absurd h List.not_mem_nil⟩
  | previous, a :: anchors, h => by
    obtain ⟨hbreaks, hrest⟩ := List.append_eq_nil_iff.mp h
    obtain ⟨hprev, hchain⟩ := linkBreaks_nil hbreaks
    obtain ⟨hprevs, hchains⟩ := prevChainHash_eq hrest
    constructor
    · rw [List.map_cons, List.map_cons, hprevs, hprev]
      rfl
    · intro b hb
      rcases List.mem_cons.mp hb with rfl | hb
      · exact hchain
      · exact hchains b hb

/-- **Without breaks no two anchors link to the same one**, where hashes are unique and none is the
genesis value. -/
theorem prevChainHash_nodup (hgenesis : ∀ x, hexEncode (sha256 x).toList ≠ genesisHex)
    {anchors : List AuditAnchor} (hunique : (anchors.map AuditAnchor.chainHash).Nodup)
    (h : verifyChainLinkage sha256 (anchorsInOrder anchors) = []) :
    (anchors.map AuditAnchor.prevChainHash).Nodup := by
  have hperm : List.Perm (anchorsInOrder anchors) anchors := List.perm_insertionSort _ _
  obtain ⟨hprevs, hchains⟩ := prevChainHash_eq h
  rw [← (hperm.map _).nodup_iff, hprevs]
  refine List.Nodup.sublist (List.dropLast_sublist _) (List.nodup_cons.mpr ⟨?_, ?_⟩)
  · intro hmem
    obtain ⟨a, ha, heq⟩ := List.mem_map.mp hmem
    exact hgenesis _ ((hchains a ha).trans heq)
  · exact (hperm.map _).nodup_iff.mpr hunique

/-- An anchor that was read before and is not the latest has one after it. -/
theorem Chained.exists_next {anchors : List AuditAnchor} (h : Chained sha256 anchors)
    {latest : Option AuditAnchor} (hread : ∀ a ∈ latest, a ∈ anchors)
    (hstale : latest ≠ latestAnchor anchors) :
    (latest.map AuditAnchor.chainHash).getD genesisHex ∈ anchors.map AuditAnchor.prevChainHash := by
  rw [(prevChainHash_eq h.linked).1]
  rw [h.increasing.latestAnchor_eq] at hstale
  rcases List.eq_nil_or_concat anchors with rfl | ⟨before, last, rfl⟩
  · cases latest with
    | none => exact absurd rfl hstale
    | some a => exact absurd (hread a rfl) List.not_mem_nil
  · rw [List.concat_eq_append] at hread hstale ⊢
    rw [List.getLast?_concat] at hstale
    rw [List.map_append, List.map_singleton, ← List.cons_append, List.dropLast_concat]
    cases latest with
    | none => simp
    | some a =>
      rcases List.mem_append.mp (hread a rfl) with ha | ha
      · exact List.mem_cons_of_mem _ (List.mem_map_of_mem ha)
      · rw [List.mem_singleton.mp ha] at hstale
        exact absurd rfl hstale

/-! ## Runs -/

section system
variable {F : Type} {fmt : FloatFormat F}

/-- The anchor a run has read as the latest. -/
def Stage.read : Stage → Option AuditAnchor
  | .idle | .ended => none
  | .latestRead _ latest | .linkageVerified _ latest | .contentVerified _ latest
  | .rowsRead latest _ => latest

/-- **The chain verifies.** -/
def NoBreaks (sha256 : List UInt8 → Digest) (s : State fmt) : Prop :=
  verifyChainLinkage sha256 (anchorsInOrder s.anchors) = []

/-- **An anchor that is written follows the latest one**: no other run has written one since this
run read it. -/
def Fresh (s : State fmt) (a : Action fmt) (_ : State fmt) : Prop :=
  match a with
  | .create p id =>
    match s.runs p with
    | .rowsRead latest input => Accepts s.anchors id input → latest = latestAnchor s.anchors
    | _ => True
  | _ => True

instance (sha256 : List UInt8 → Digest) (s : State fmt) : Decidable (NoBreaks sha256 s) := by
  unfold NoBreaks
  infer_instance

instance (s : State fmt) (a : Action fmt) (s' : State fmt) : Decidable (Fresh s a s') := by
  unfold Fresh
  split
  · split <;> infer_instance
  · infer_instance

/-- What a run is about to write is the anchor after the one it has read. -/
def Prepared (sha256 : List UInt8 → Digest) (fmt : FloatFormat F) (stage : Stage) : Prop :=
  ∀ latest input, stage = .rowsRead latest input →
    ∃ (periodEnd : Timestamp) (rows : List (AuditRow fmt)),
      input = anchorInput sha256 latest periodEnd rows ∧ ∀ a ∈ latest, a.periodEnd < periodEnd

variable (sha256) in
structure Inv (s : State fmt) : Prop where
  chained : Chained sha256 s.anchors
  unique : (s.anchors.map AuditAnchor.chainHash).Nodup
  read_mem : ∀ p, ∀ a ∈ (s.runs p).read, a ∈ s.anchors
  prepared : ∀ p, Prepared sha256 fmt (s.runs p)

theorem Inv.noBreaks {s : State fmt} (h : Inv sha256 s) : NoBreaks sha256 s := by
  unfold NoBreaks
  rw [h.chained.increasing.anchorsInOrder_eq]
  exact h.chained.linked

theorem nextPeriodEnd_gt {latest : Option AuditAnchor} {now periodEnd : Timestamp}
    (h : nextPeriodEnd latest now = some periodEnd) : ∀ a ∈ latest, a.periodEnd < periodEnd := by
  unfold nextPeriodEnd at h
  split at h
  · cases h
  · split_ifs at h with hany
    cases h
    rintro a ⟨⟩
    simpa using hany

/-- The index keeps the hashes apart. -/
theorem insertAnchor_unique {anchors : List AuditAnchor}
    (h : (anchors.map AuditAnchor.chainHash).Nodup) (id : String) (input : CreateAuditAnchorInput) :
    ((insertAnchor anchors id input).map AuditAnchor.chainHash).Nodup := by
  unfold insertAnchor
  split_ifs with hacc
  · rw [List.map_append]
    refine List.nodup_append.mpr ⟨h, List.nodup_singleton _, ?_⟩
    rintro x hx y hy rfl
    obtain ⟨b, hb, hbx⟩ := List.mem_map.mp hx
    exact (hacc b hb).2 (hbx.trans (List.mem_singleton.mp hy))
  · exact h

theorem subset_insertAnchor (anchors : List AuditAnchor) (id : String)
    (input : CreateAuditAnchorInput) : anchors ⊆ insertAnchor anchors id input := by
  unfold insertAnchor
  split_ifs
  · exact List.subset_append_left _ _
  · exact List.Subset.refl _

/-- A run moves on without writing. -/
theorem Inv.setRun {s s' : State fmt} (h : Inv sha256 s) {p : ℕ} {stage : Stage}
    (hanchors : s'.anchors = s.anchors) (hruns : s'.runs = Function.update s.runs p stage)
    (hread : ∀ a ∈ stage.read, a ∈ s.anchors) (hprepared : Prepared sha256 fmt stage) :
    Inv sha256 s' := by
  obtain ⟨hchained, hunique, hmem, hall⟩ := h
  rw [← hanchors] at hchained hunique hmem hread
  refine ⟨hchained, hunique, fun q => ?_, fun q => ?_⟩ <;> rw [hruns] <;> by_cases hq : q = p
  · subst hq
    rwa [Function.update_self]
  · rw [Function.update_of_ne hq]
    exact hmem q
  · subst hq
    rwa [Function.update_self]
  · rw [Function.update_of_ne hq]
    exact hall q

/-- The next anchor is written, or refused. -/
theorem Inv.written {s : State fmt} (h : Inv sha256 s) {p : ℕ} {id : String}
    {latest : Option AuditAnchor} {input : CreateAuditAnchorInput}
    (hp : s.runs p = .rowsRead latest input)
    (hfresh : Accepts s.anchors id input → latest = latestAnchor s.anchors) :
    Inv sha256 { s.setRun p .ended with anchors := insertAnchor s.anchors id input } := by
  refine ⟨?_, insertAnchor_unique h.unique id input, fun q a ha => ?_, fun q => ?_⟩
  · change Chained sha256 (insertAnchor s.anchors id input)
    unfold insertAnchor
    split_ifs with hacc
    · obtain ⟨periodEnd, rows, rfl, hnew⟩ := h.prepared p latest input hp
      obtain rfl := hfresh hacc
      exact h.chained.concat rows id hnew
    · exact h.chained
  · refine subset_insertAnchor _ _ _ ?_
    rcases update_cases Stage.read (b := some a) ha with ⟨-, hr⟩ | ⟨-, hr⟩
    · cases hr
    · exact h.read_mem q a hr
  · intro latest' input' hq
    rcases update_cases (fun x => x) hq with ⟨-, hr⟩ | ⟨-, hr⟩
    · cases hr
    · exact h.prepared q latest' input' hr

/-- **A step keeps the chain**, if an anchor that it writes follows the latest. -/
theorem Inv.step_inv {s s' : State fmt} {a : Action fmt} (h : Inv sha256 s)
    (hs : step sha256 s a = some s') (hfresh : Fresh s a s') : Inv sha256 s' := by
  cases a with
  | readLatest p now =>
    simp only [step] at hs
    split at hs <;> cases hs
    refine h.setRun rfl rfl (fun a ha => latestAnchor_mem ha) ?_
    rintro latest input ⟨⟩
  | verifyLinkage p =>
    simp only [step] at hs
    split at hs <;> cases hs
    rename_i now latest hp
    refine h.setRun rfl rfl (fun a ha => h.read_mem p a (by rw [hp]; exact ha)) ?_
    rintro latest input ⟨⟩
  | verifyContent p readFails =>
    simp only [step] at hs
    split at hs <;> cases hs
    rename_i now latest hp
    refine h.setRun rfl rfl (fun a ha => h.read_mem p a (by rw [hp]; exact ha)) ?_
    rintro latest input ⟨⟩
  | readRows p =>
    simp only [step] at hs
    split at hs
    · rename_i now latest hp
      split at hs <;> cases hs
      · exact h.setRun rfl rfl (by rintro a ⟨⟩) (by rintro latest input ⟨⟩)
      · rename_i periodEnd he
        refine h.setRun rfl rfl (fun a ha => h.read_mem p a (by rw [hp]; exact ha)) ?_
        rintro _ _ ⟨⟩
        exact ⟨periodEnd, _, rfl, nextPeriodEnd_gt he⟩
    · cases hs
  | create p id =>
    simp only [step] at hs
    split at hs <;> cases hs
    rename_i latest input hp
    refine h.written hp ?_
    simpa only [Fresh, hp] using hfresh
  | stop p =>
    cases hs
    exact h.setRun rfl rfl (by rintro a ⟨⟩) (by rintro latest input ⟨⟩)
  | record row =>
    simp only [step] at hs
    split_ifs at hs
    cases hs
    exact ⟨h.chained, h.unique, h.read_mem, h.prepared⟩

/-- **A step that does not is a fork**, and the chain breaks. -/
theorem Inv.fork {s s' : State fmt} {a : Action fmt} (h : Inv sha256 s)
    (hgenesis : ∀ x, hexEncode (sha256 x).toList ≠ genesisHex)
    (hs : step sha256 s a = some s') (hnot : ¬ Fresh s a s') : ¬ NoBreaks sha256 s' := by
  intro hno
  cases a with
  | create p id =>
    simp only [step] at hs
    split at hs <;> cases hs
    rename_i latest input hp
    simp only [Fresh, hp, Classical.not_imp] at hnot
    obtain ⟨hacc, hstale⟩ := hnot
    obtain ⟨periodEnd, rows, rfl, -⟩ := h.prepared p latest input hp
    have hread : ∀ a ∈ latest, a ∈ s.anchors := fun a ha => h.read_mem p a (by rw [hp]; exact ha)
    have hnext := h.chained.exists_next hread hstale
    have hprevs := prevChainHash_nodup hgenesis (insertAnchor_unique h.unique id _) hno
    have hinsert : insertAnchor s.anchors id (anchorInput sha256 latest periodEnd rows) =
        s.anchors ++ [(anchorInput sha256 latest periodEnd rows).row id] := if_pos hacc
    rw [hinsert, List.map_append] at hprevs
    exact (List.nodup_append.mp hprevs).2.2 _ hnext _ (List.mem_singleton_self _) rfl
  | _ => exact hnot trivial

/-- **The chain is unbroken as long as no run is overtaken.** In every interleaving of runs, rows
being written all the while: if each anchor that is written follows the one that is the latest at
that moment, `verify_chain_linkage` never finds a break; and it does find one as soon as an anchor
is written that does not, where no hash is the genesis value. -/
theorem chain_unbroken (sha256 : List UInt8 → Digest) (table : Option (AuditTable fmt))
    (actions : List (Action fmt)) :
    (Along (step sha256) Fresh (start table) actions →
      Always (step sha256) (NoBreaks sha256) (start table) actions) ∧
    ((∀ x, hexEncode (sha256 x).toList ≠ genesisHex) →
      Always (step sha256) (NoBreaks sha256) (start table) actions →
      Along (step sha256) Fresh (start table) actions) := by
  have hstart : Inv sha256 (start table) :=
    ⟨chained_nil, List.nodup_nil, by rintro p a ⟨⟩, by rintro p latest input ⟨⟩⟩
  have hstep : ∀ (s : State fmt) a s', Inv sha256 s → step sha256 s a = some s' → Fresh s a s' →
      Inv sha256 s' := fun s a s' h hs hf => h.step_inv hs hf
  constructor
  · exact Along.always (I := Inv sha256) (fun s h => h.noBreaks) hstep hstart
  · intro hgenesis
    refine (always_iff (I := Inv sha256) (fun s h => h.noBreaks) ?_ hstep hstart).mp
    intro s a s' h hs
    constructor
    · intro hno
      by_contra hnot
      exact h.fork hgenesis hs hnot hno
    · intro hfresh
      exact (h.step_inv hs hfresh).noBreaks

end system

/-! ### Two runs -/

/-- The hash of the first anchor of a deployment without audit rows, written at
`2026-09-21T14:13:20Z`, of one that is written a second later instead, and of one that follows the
first. -/
def firstLink : Digest :=
  #v[0x5d, 0x53, 0x43, 0x22, 0x23, 0xb9, 0xf1, 0x06, 0x3f, 0xe2, 0x9a, 0xed, 0x45, 0x32, 0xe0, 0xee,
    0xc7, 0x5f, 0x38, 0x87, 0x0a, 0x6f, 0x3d, 0x23, 0x7a, 0x95, 0x7c, 0xef, 0xe6, 0x43, 0x9a, 0x35]

def forkedLink : Digest :=
  #v[0x35, 0x17, 0xb4, 0xa0, 0xb7, 0x61, 0xbd, 0x29, 0xe4, 0x18, 0xd4, 0x7f, 0xed, 0x24, 0x40, 0x56,
    0xf3, 0x77, 0x47, 0x8e, 0xf7, 0x64, 0xef, 0x26, 0xeb, 0xcc, 0x71, 0xb0, 0xbe, 0x2a, 0x23, 0xcf]

def nextLink : Digest :=
  #v[0x16, 0xdf, 0xa2, 0x9e, 0xba, 0x81, 0x5b, 0x13, 0xcd, 0x15, 0xa2, 0xd1, 0xbc, 0xef, 0xe3, 0x4c,
    0xd7, 0x47, 0x7c, 0x70, 0x70, 0xd2, 0x26, 0x8d, 0x3c, 0x94, 0x62, 0x15, 0x48, 0x92, 0xbb, 0x38]

/-- SHA-256 on what the runs below hash. -/
def runsSha256 (input : List UInt8) : Digest :=
  if input = chainBytes genesisHex none 1789999700000000 0 genesisHex then firstLink
  else if input = chainBytes genesisHex none 1789999701000000 0 genesisHex then forkedLink
  else if input = chainBytes (hexEncode firstLink.toList) (some 1789999700000000) 1789999701000000 0
    genesisHex then nextLink
  else Vector.replicate 32 1

/-- A run before its insert. -/
def upToInsert (p : ℕ) (now : Timestamp) : List (Action sampleFormat) :=
  [.readLatest p now, .verifyLinkage p, .verifyContent p false, .readRows p]

/-- The second run begins after the first has written its anchor. -/
def oneByOne : List (Action sampleFormat) :=
  upToInsert 0 1790000000000000 ++ [.create 0 "a"] ++ upToInsert 1 1790000001000000 ++
    [.create 1 "b"]

theorem runsSha256_ne_genesis (x : List UInt8) : hexEncode (runsSha256 x).toList ≠ genesisHex := by
  unfold runsSha256
  split_ifs <;> decide +kernel

theorem chain_unbroken_one_by_one :
    (exec (step runsSha256) (start none) oneByOne).map (fun s => s.anchors.length) = some 2 ∧
    Always (step runsSha256) (NoBreaks runsSha256) (start none) oneByOne ∧
    Along (step runsSha256) Fresh (start none) oneByOne := by
  have h := chain_unbroken runsSha256 none oneByOne
  have halways := h.1 (by decide +kernel)
  exact ⟨by decide +kernel, halways, h.2 runsSha256_ne_genesis halways⟩

/-- When a run reads its clock. -/
def Action.clock {F : Type} {fmt : FloatFormat F} : Action fmt → Option Timestamp
  | .readLatest _ now => some now
  | _ => none

/-- The second run begins before the first has written its anchor. -/
theorem overlapping_runs_fork : ¬ ∀ actions : List (Action sampleFormat),
    (actions.filterMap Action.clock).Nodup →
      Always (step runsSha256) (NoBreaks runsSha256) (start none) actions := by
  intro h
  have hfork := (h (upToInsert 0 1790000000000000 ++ upToInsert 1 1790000001000000 ++
    [.create 0 "a", .create 1 "b"]) (by decide +kernel)).2
  revert hfork
  decide +kernel

end Vsms.Audit.Anchors
