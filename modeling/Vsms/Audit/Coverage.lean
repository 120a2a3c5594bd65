import Vsms.Audit.Anchors
import Mathlib.Data.List.Pairwise

/-! # What the anchors cover

When the runs of `anchor_audit` do not overlap, the periods of the anchors follow on one another,
whatever the clock says in each run: a run whose period would end no later than the latest anchor's
writes nothing. A row that is written later than the latest anchor's period does not change what an
anchor has hashed. So every row up to the newest anchor is in one period and in no other, the chain
has no breaks and the content of every anchor verifies (`periods_cover`).

A row may be written while a run is under way. If that run has read its rows already, the row has to
be later than the period it is about to write: this is what `ANCHOR_LAG` is for. -/

namespace Vsms.Audit.Coverage

open Vsms.Lib.Runs Vsms.Lib.Framing Vsms.Lib.Json Vsms.Audit.Chain Vsms.Audit.Rows
    Vsms.Audit.Anchors

variable {F : Type} {fmt : FloatFormat F} {sha256 : List UInt8 → Digest}

/-! ## Periods -/

/-- Up to its last anchor, a table without gaps covers every time. -/
theorem Contiguous.exists_mem {t : Timestamp} : ∀ {start : Option Timestamp}
    {anchors : List AuditAnchor} {last : AuditAnchor}, Contiguous start anchors →
    anchors.getLast? = some last → start.all (· < t) → t ≤ last.periodEnd →
    ∃ a ∈ anchors, a.periodStart.all (· < t) ∧ t ≤ a.periodEnd
  | _, [], _, _, hlast, _, _ => by cases hlast
  | start, a :: anchors, last, h, hlast, hstart, ht => by
    by_cases hta : t ≤ a.periodEnd
    · exact ⟨a, List.mem_cons_self, by rwa [h.1], hta⟩
    · have hlt : a.periodEnd < t := Int64.not_le.mp hta
      cases hrest : anchors.getLast? with
      | none =>
        rw [List.getLast?_cons, hrest] at hlast
        cases hlast
        exact absurd ht hta
      | some last' =>
        rw [List.getLast?_cons, hrest] at hlast
        cases hlast
        obtain ⟨b, hb, hcover⟩ := Contiguous.exists_mem h.2 hrest (by simpa using hlt) ht
        exact ⟨b, List.mem_cons_of_mem _ hb, hcover⟩

/-- The anchors after a time begin at it or later. -/
theorem Contiguous.le_start {t : Timestamp} : ∀ {anchors : List AuditAnchor},
    Contiguous (some t) anchors → Increasing anchors → (∀ a ∈ anchors, t < a.periodEnd) →
    ∀ b ∈ anchors, ∃ s ∈ b.periodStart, t ≤ s
  | [], _, _, _ => by simp
  | a :: anchors, h, hinc, hlt => by
    intro b hb
    rcases List.mem_cons.mp hb with rfl | hb
    · exact ⟨t, h.1, Int64.le_refl t⟩
    · obtain ⟨hbefore, hrest⟩ := List.pairwise_cons.mp hinc
      obtain ⟨s, hs, hle⟩ := Contiguous.le_start h.2 hrest hbefore b hb
      exact ⟨s, hs, Int64.le_trans (Int64.le_of_lt (hlt a List.mem_cons_self)) hle⟩

/-- No two anchors cover the same time. -/
theorem Contiguous.pairwise : ∀ {start : Option Timestamp} {anchors : List AuditAnchor},
    Contiguous start anchors → Increasing anchors →
    anchors.Pairwise fun a b => ∃ s ∈ b.periodStart, a.periodEnd ≤ s
  | _, [], _, _ => List.Pairwise.nil
  | _, a :: anchors, h, hinc => by
    obtain ⟨hbefore, hrest⟩ := List.pairwise_cons.mp hinc
    exact List.pairwise_cons.mpr ⟨Contiguous.le_start h.2 hrest hbefore,
      Contiguous.pairwise h.2 hrest⟩

theorem not_inPeriod_of_le {a b : AuditAnchor} {row : AuditRow fmt}
    (hab : ∃ s ∈ b.periodStart, a.periodEnd ≤ s) (ha : InPeriod a.periodStart a.periodEnd row) :
    ¬ InPeriod b.periodStart b.periodEnd row := by
  obtain ⟨s, hs, hle⟩ := hab
  intro hb
  simp only [InPeriod, Bool.and_eq_true, decide_eq_true_eq] at ha hb
  have hlt : s < row.occurredAt := by
    have := hb.1
    rw [hs] at this
    simpa using this
  have := Int64.lt_of_le_of_lt (Int64.le_trans ha.2 hle) hlt
  exact Int64.lt_irrefl this

/-- **Every row up to the newest anchor is in one period.** -/
theorem existsUnique_period {anchors : List AuditAnchor} (h : Chained sha256 anchors)
    {newest : AuditAnchor} (hnewest : newest ∈ latestAnchor anchors) {row : AuditRow fmt}
    (hrow : row.occurredAt ≤ newest.periodEnd) :
    ∃! a, a ∈ anchors ∧ InPeriod a.periodStart a.periodEnd row := by
  rw [h.increasing.latestAnchor_eq] at hnewest
  obtain ⟨a, ha, hstart, hend⟩ := Contiguous.exists_mem h.contiguous hnewest rfl hrow
  have hin : InPeriod a.periodStart a.periodEnd row := by simp [InPeriod, hstart, hend]
  have hpairs : anchors.Pairwise fun a b => ¬ (InPeriod a.periodStart a.periodEnd row ∧
      InPeriod b.periodStart b.periodEnd row) := by
    refine (Contiguous.pairwise h.contiguous h.increasing).imp fun {a b} hab hboth => ?_
    exact not_inPeriod_of_le hab hboth.1 hboth.2
  have : Std.Symm fun a b : AuditAnchor => ¬ (InPeriod a.periodStart a.periodEnd row ∧
      InPeriod b.periodStart b.periodEnd row) := ⟨fun _ _ hnot hboth => hnot hboth.symm⟩
  refine ⟨a, ⟨ha, hin⟩, fun b hb => ?_⟩
  by_contra hne
  exact hpairs.forall hb.1 ha hne ⟨hb.2, hin⟩

/-! ## A row more -/

theorem rowsInPeriod_eq (table : Option (AuditTable fmt)) (periodStart : Option Timestamp)
    (periodEnd : Timestamp) : rowsInPeriod table periodStart periodEnd =
      ((tableRows table).filter (InPeriod periodStart periodEnd)).insertionSort rowLe := by
  cases table <;> rfl

/-- A row after the end of a period is not read for it. -/
theorem rowsInPeriod_recordRow {table : Option (AuditTable fmt)} {row : AuditRow fmt}
    (h : row.eventId ∉ (tableRows table).map AuditRow.eventId) (periodStart : Option Timestamp)
    {periodEnd : Timestamp} (hlt : periodEnd < row.occurredAt) :
    rowsInPeriod (some (recordRow table row h)) periodStart periodEnd =
      rowsInPeriod table periodStart periodEnd := by
  have hout : InPeriod periodStart periodEnd row = false := by
    unfold InPeriod
    rw [decide_eq_false (Int64.not_le.mpr hlt), Bool.and_false]
  rw [rowsInPeriod_eq, rowsInPeriod_eq]
  change List.insertionSort rowLe (List.filter _ (tableRows table ++ [row])) = _
  rw [List.filter_append, List.filter_cons_of_neg (by simp [hout]), List.filter_nil,
    List.append_nil]

/-! ## Runs one after the other -/

/-- The run has begun and not ended. -/
def Stage.InProgress : Stage → Prop
  | .idle | .ended => False
  | _ => True

instance : DecidablePred Stage.InProgress := fun stage => by
  unfold Stage.InProgress
  split <;> infer_instance

/-- **Runs do not overlap, and rows are not backdated**: a run begins when no other is under way,
and a row is later than the period of the latest anchor, counting one whose rows have been read. -/
def OneByOne (s : State fmt) (a : Action fmt) (_ : State fmt) : Prop :=
  match a with
  | .readLatest _ _ => ∀ q, ¬ Stage.InProgress (s.runs q)
  | .record row => (∀ l ∈ latestAnchor s.anchors, l.periodEnd < row.occurredAt) ∧
      ∀ q latest input, s.runs q = .rowsRead latest input → input.periodEnd < row.occurredAt
  | _ => True

variable (sha256) in
structure Inv (s : State fmt) : Prop where
  base : Anchors.Inv sha256 s
  content : ∀ a ∈ s.anchors, verifyPeriodContent sha256 s.table a
  only : ∀ p q, Stage.InProgress (s.runs p) → Stage.InProgress (s.runs q) → p = q
  latest : ∀ p, Stage.InProgress (s.runs p) → (s.runs p).read = latestAnchor s.anchors
  rows : ∀ p latest input, s.runs p = .rowsRead latest input →
    input.rangeHash = hexEncode (foldRows sha256
      (rowsInPeriod s.table input.periodStart input.periodEnd)).toList
  log : s.log = []

/-- Runs that do not overlap are not overtaken. -/
theorem Inv.fresh {s s' : State fmt} (h : Inv sha256 s) (a : Action fmt) : Fresh s a s' := by
  cases a with
  | create p id =>
    unfold Fresh
    dsimp only
    split
    · rename_i latest input hp
      intro _
      have hlatest := h.latest p (by rw [hp]; trivial)
      rw [hp] at hlatest
      exact hlatest
    · trivial
  | _ => trivial

/-- A run moves on without writing. -/
theorem Inv.setRun {s s' : State fmt} (h : Inv sha256 s) (hbase : Anchors.Inv sha256 s') {p : ℕ}
    {stage : Stage} (hanchors : s'.anchors = s.anchors) (htable : s'.table = s.table)
    (hruns : s'.runs = Function.update s.runs p stage)
    (honly : Stage.InProgress stage → ∀ q, Stage.InProgress (s.runs q) → q = p)
    (hlatest : Stage.InProgress stage → stage.read = latestAnchor s.anchors)
    (hrows : ∀ latest input, stage = .rowsRead latest input → input.rangeHash = hexEncode
      (foldRows sha256 (rowsInPeriod s.table input.periodStart input.periodEnd)).toList)
    (hlog : s'.log = []) : Inv sha256 s' := by
  refine ⟨hbase, ?_, fun q r hq hr => ?_, fun q hq => ?_, fun q latest input hq => ?_, hlog⟩
  · rw [hanchors, htable]
    exact h.content
  · rw [hruns] at hq hr
    by_cases hqp : q = p <;> by_cases hrp : r = p
    · rw [hqp, hrp]
    · rw [hqp, Function.update_self] at hq
      rw [Function.update_of_ne hrp] at hr
      exact absurd (honly hq r hr) hrp
    · rw [Function.update_of_ne hqp] at hq
      rw [hrp, Function.update_self] at hr
      exact absurd (honly hr q hq) hqp
    · rw [Function.update_of_ne hqp] at hq
      rw [Function.update_of_ne hrp] at hr
      exact h.only q r hq hr
  · rw [hruns] at hq ⊢
    rw [hanchors]
    by_cases hqp : q = p
    · rw [hqp, Function.update_self] at hq ⊢
      exact hlatest hq
    · rw [Function.update_of_ne hqp] at hq ⊢
      exact h.latest q hq
  · rw [hruns] at hq
    rw [htable]
    rcases update_cases (fun x => x) hq with ⟨-, hq⟩ | ⟨-, hq⟩
    · exact hrows latest input hq
    · exact h.rows q latest input hq

/-- The run that was under way moves on, with the anchor it has read. -/
theorem Inv.moveOn {s s' : State fmt} (h : Inv sha256 s) (hbase : Anchors.Inv sha256 s') {p : ℕ}
    {stage : Stage} (hp : Stage.InProgress (s.runs p)) (hanchors : s'.anchors = s.anchors)
    (htable : s'.table = s.table) (hruns : s'.runs = Function.update s.runs p stage)
    (hread : stage.read = (s.runs p).read)
    (hrows : ∀ latest input, stage = .rowsRead latest input → input.rangeHash = hexEncode
      (foldRows sha256 (rowsInPeriod s.table input.periodStart input.periodEnd)).toList)
    (hlog : s'.log = []) : Inv sha256 s' :=
  h.setRun hbase hanchors htable hruns (fun _ q hq => h.only q p hq hp)
    (fun _ => hread.trans (h.latest p hp)) hrows hlog

/-- A run ends. -/
theorem Inv.ends {s : State fmt} (h : Inv sha256 s) {p : ℕ}
    (hbase : Anchors.Inv sha256 (s.setRun p .ended)) : Inv sha256 (s.setRun p .ended) :=
  h.setRun hbase rfl rfl rfl (by rintro ⟨⟩) (by rintro ⟨⟩) (by rintro latest input ⟨⟩) h.log

/-- The run under way writes its anchor, or is refused. -/
theorem Inv.written {s : State fmt} (h : Inv sha256 s) {p : ℕ} {id : String}
    {latest : Option AuditAnchor} {input : CreateAuditAnchorInput}
    (hp : s.runs p = .rowsRead latest input)
    (hbase : Anchors.Inv sha256
      { s.setRun p .ended with anchors := insertAnchor s.anchors id input }) :
    Inv sha256 { s.setRun p .ended with anchors := insertAnchor s.anchors id input } := by
  have hprogress : Stage.InProgress (s.runs p) := by rw [hp]; trivial
  have hnone : ∀ q, ¬ Stage.InProgress (Function.update s.runs p Stage.ended q) := by
    intro q hq
    by_cases hqp : q = p
    · rw [hqp, Function.update_self] at hq
      exact hq
    · rw [Function.update_of_ne hqp] at hq
      exact hqp (h.only q p hq hprogress)
  refine ⟨hbase, fun a ha => ?_, fun q r hq => absurd hq (hnone q), fun q hq => absurd hq (hnone q),
    fun q latest' input' hq => ?_, h.log⟩
  · change a ∈ insertAnchor s.anchors id input at ha
    unfold insertAnchor at ha
    split_ifs at ha
    · rcases List.mem_append.mp ha with ha | ha
      · exact h.content a ha
      · rw [List.mem_singleton.mp ha]
        exact decide_eq_true (h.rows p latest input hp).symm
    · exact h.content a ha
  · have hcontra : ¬ Stage.InProgress (.rowsRead latest' input') := by
      rw [← hq]
      exact hnone q
    exact absurd trivial hcontra

/-- A row is written, later than every period. -/
theorem Inv.recorded {s : State fmt} (h : Inv sha256 s) {row : AuditRow fmt}
    (hrow : row.eventId ∉ (tableRows s.table).map AuditRow.eventId)
    (hbase : Anchors.Inv sha256 { s with table := some (recordRow s.table row hrow) })
    (hlatest : ∀ l ∈ latestAnchor s.anchors, l.periodEnd < row.occurredAt)
    (hread : ∀ q latest input, s.runs q = .rowsRead latest input →
      input.periodEnd < row.occurredAt) :
    Inv sha256 { s with table := some (recordRow s.table row hrow) } := by
  refine ⟨hbase, fun a ha => ?_, h.only, h.latest, fun q latest input hq => ?_, h.log⟩
  · cases hl : latestAnchor s.anchors with
    | none =>
      have ha : a ∈ s.anchors := ha
      rw [latestAnchor_eq_none.mp hl] at ha
      cases ha
    | some l =>
      have hlt := Int64.lt_of_le_of_lt (latestAnchor_le hl a ha) (hlatest l hl)
      have hcontent := h.content a ha
      unfold verifyPeriodContent at hcontent ⊢
      rwa [rowsInPeriod_recordRow hrow _ hlt]
  · have hrows := h.rows q latest input hq
    rwa [← rowsInPeriod_recordRow hrow _ (hread q latest input hq)] at hrows

/-- **A step of runs that do not overlap.** -/
theorem Inv.step_inv {s s' : State fmt} {a : Action fmt} (h : Inv sha256 s)
    (hs : step sha256 s a = some s') (hone : OneByOne s a s') : Inv sha256 s' := by
  have hbase := h.base.step_inv hs (h.fresh a)
  cases a with
  | readLatest p now =>
    simp only [step] at hs
    split at hs <;> cases hs
    refine h.setRun hbase rfl rfl rfl (fun _ q hq => absurd hq (hone q)) (fun _ => rfl) ?_ h.log
    rintro latest input ⟨⟩
  | verifyLinkage p =>
    simp only [step] at hs
    split at hs <;> cases hs
    rename_i now latest hp
    refine h.moveOn hbase (by rw [hp]; trivial) rfl rfl rfl (by rw [hp]; rfl)
      (by rintro latest input ⟨⟩) ?_
    have hno : verifyChainLinkage sha256 (anchorsInOrder s.anchors) = [] := h.base.noBreaks
    simp [hno, h.log]
  | verifyContent p readFails =>
    simp only [step] at hs
    split at hs <;> cases hs
    rename_i now latest hp
    refine h.moveOn hbase (by rw [hp]; trivial) rfl rfl rfl (by rw [hp]; rfl)
      (by rintro latest input ⟨⟩) ?_
    have hquiet : contentLog sha256 s.table latest readFails = [] := by
      cases latest with
      | none => rfl
      | some anchor =>
        have hverifies := h.content anchor (h.base.read_mem p anchor (by rw [hp]; rfl))
        simp [contentLog, hverifies]
    simp [hquiet, h.log]
  | readRows p =>
    simp only [step] at hs
    split at hs
    · rename_i now latest hp
      split at hs <;> cases hs
      · exact h.ends hbase
      · refine h.moveOn hbase (by rw [hp]; trivial) rfl rfl rfl (by rw [hp]; rfl) ?_ h.log
        rintro _ _ ⟨⟩
        rfl
    · cases hs
  | create p id =>
    simp only [step] at hs
    split at hs <;> cases hs
    rename_i latest input hp
    exact h.written hp hbase
  | stop p =>
    cases hs
    exact h.ends hbase
  | record row =>
    simp only [step] at hs
    split_ifs at hs with hrow
    cases hs
    exact h.recorded hrow hbase hone.1 hone.2

/-! ## Coverage -/

variable (sha256) in
/-- **The anchors account for the audit log.** -/
structure Complete (s : State fmt) : Prop where
  increasing : Increasing (anchorsInOrder s.anchors)
  contiguous : Contiguous none (anchorsInOrder s.anchors)
  covered : ∀ newest ∈ latestAnchor s.anchors, ∀ row ∈ tableRows s.table,
    row.occurredAt ≤ newest.periodEnd →
      ∃! a, a ∈ s.anchors ∧ InPeriod a.periodStart a.periodEnd row
  noBreaks : NoBreaks sha256 s
  content : ∀ a ∈ s.anchors, verifyPeriodContent sha256 s.table a
  /-- No run has had anything to report. -/
  quiet : s.log = []

theorem Inv.complete {s : State fmt} (h : Inv sha256 s) : Complete sha256 s := by
  have hchained := h.base.chained
  have horder := hchained.increasing.anchorsInOrder_eq
  refine ⟨?_, ?_, fun newest hn row _ hle => ?_, h.base.noBreaks, h.content, h.log⟩
  · rw [horder]
    exact hchained.increasing
  · rw [horder]
    exact hchained.contiguous
  · exact existsUnique_period hchained hn hle

/-- **Runs that do not overlap anchor every row once**, at whatever times they run: the periods
increase and follow on one another, every row up to the newest anchor is in one of them only, the
chain has no breaks and each anchor's content verifies. -/
theorem periods_cover (sha256 : List UInt8 → Digest) (table : Option (AuditTable fmt))
    (actions : List (Action fmt)) (h : Along (step sha256) OneByOne (start table) actions) :
    Always (step sha256) (Complete sha256) (start table) actions := by
  have hbase : Anchors.Inv sha256 (start table) :=
    ⟨chained_nil, List.nodup_nil, by rintro p a ⟨⟩, by rintro p latest input ⟨⟩⟩
  have hstart : Inv sha256 (start table) :=
    ⟨hbase, by rintro a ⟨⟩, by rintro p q ⟨⟩, by rintro p ⟨⟩, by rintro p latest input ⟨⟩, rfl⟩
  exact Along.always (I := Inv sha256) (fun s hs => hs.complete)
    (fun s a s' hs ht hone => hs.step_inv ht hone) hstart h

/-! ### A clock that is set back -/

/-- Of `n` runs, with rows written between them. -/
def Between (n : ℕ) (s : State fmt) (a : Action fmt) (_ : State fmt) : Prop :=
  match a with
  | .readLatest p _ => p < n ∧ ∀ q < n, ¬ Stage.InProgress (s.runs q)
  | .verifyLinkage p | .verifyContent p _ | .readRows p | .create p _ | .stop p => p < n
  | .record row => (∀ q < n, ¬ Stage.InProgress (s.runs q)) ∧
      ∀ l ∈ latestAnchor s.anchors, l.periodEnd < row.occurredAt

instance (n : ℕ) (s : State fmt) (a : Action fmt) (s' : State fmt) :
    Decidable (Between n s a s') :=
  match a with
  | .readLatest p _ => inferInstanceAs (Decidable (p < n ∧ ∀ q < n, ¬ Stage.InProgress (s.runs q)))
  | .verifyLinkage p => inferInstanceAs (Decidable (p < n))
  | .verifyContent p _ => inferInstanceAs (Decidable (p < n))
  | .readRows p => inferInstanceAs (Decidable (p < n))
  | .create p _ => inferInstanceAs (Decidable (p < n))
  | .stop p => inferInstanceAs (Decidable (p < n))
  | .record row => inferInstanceAs (Decidable ((∀ q < n, ¬ Stage.InProgress (s.runs q)) ∧
      ∀ l ∈ latestAnchor s.anchors, l.periodEnd < row.occurredAt))

theorem oneByOne_of_between {n : ℕ} {actions : List (Action fmt)} {table : Option (AuditTable fmt)}
    (h : Along (step sha256) (Between n) (start table) actions) :
    Along (step sha256) OneByOne (start table) actions := by
  refine h.of_invariant (I := fun s => ∀ q, n ≤ q → s.runs q = .idle) ?_ ?_ fun _ _ => rfl
  · intro s a s' hidle _ hb
    have hnone (hb : ∀ q < n, ¬ Stage.InProgress (s.runs q)) (q : ℕ) :
        ¬ Stage.InProgress (s.runs q) := by
      by_cases hq : q < n
      · exact hb q hq
      · rw [hidle q (by omega)]
        rintro ⟨⟩
    cases a with
    | readLatest p now => exact hnone hb.2
    | record row =>
      refine ⟨hb.2, fun q latest input hq => absurd ?_ (hnone hb.1 q)⟩
      rw [hq]
      trivial
    | _ => trivial
  · intro s a s' hidle hs hb q hq
    have hother {p : ℕ} (hp : p < n) (stage : Stage) :
        Function.update s.runs p stage q = .idle := by
      rw [Function.update_of_ne (by omega)]
      exact hidle q hq
    cases a with
    | record row =>
      simp only [step] at hs
      split_ifs at hs
      cases hs
      exact hidle q hq
    | readLatest p now =>
      simp only [step] at hs
      split at hs <;> cases hs
      exact hother hb.1 _
    | readRows p =>
      simp only [step] at hs
      split at hs
      · split at hs <;> cases hs <;> exact hother hb _
      · cases hs
    | stop p =>
      cases hs
      exact hother hb _
    | _ =>
      simp only [step] at hs
      split at hs <;> cases hs
      exact hother hb _

/-- The hash of an anchor with one row, written at `2026-09-21T14:13:20Z`. -/
def rowLink : Digest :=
  #v[0x7a, 0x86, 0xc6, 0xa4, 0x22, 0x42, 0x8f, 0xbe, 0x83, 0x8d, 0xbc, 0x97, 0x40, 0x3d, 0xe1, 0x5c,
    0xb1, 0x70, 0x21, 0x04, 0x68, 0xfd, 0xb8, 0x34, 0xdf, 0x38, 0x25, 0xf9, 0x87, 0xc0, 0x79, 0x51]

/-- SHA-256 on what is hashed for it. -/
def coverSha256 (input : List UInt8) : Digest :=
  if input = chainBytes genesisHex none 1789999700000000 1 sampleAnchor.rangeHash then rowLink
  else rowSha256 input

/-- A row is written and anchored; the next run is by a clock that is a second behind. -/
def setBack : List (Action sampleFormat) :=
  [.record updateRow] ++ upToInsert 0 1790000000000000 ++ [.create 0 "a"] ++
    upToInsert 1 1789999999000000

theorem periods_cover_set_back :
    (exec (step coverSha256) (start none) setBack).map (fun s => s.anchors.length) = some 1 ∧
    Along (step coverSha256) OneByOne (start none) setBack ∧
    Always (step coverSha256) (Complete coverSha256) (start none) setBack := by
  have hone : Along (step coverSha256) OneByOne (start none) setBack := by
    refine oneByOne_of_between (n := 2) ?_
    decide +kernel
  exact ⟨by decide +kernel, hone, periods_cover coverSha256 none setBack hone⟩

end Vsms.Audit.Coverage
