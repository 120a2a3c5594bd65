import Vsms.Audit.Chain
import Vsms.Lib.Json

/-! # The rows of a period

An anchor's `rangeHash` is the hash of the audit rows of its period, folded in the order of
`occurred_at` and `event_id`. The columns of a row are fed to the hash one after the other, each
text with its length before it, each optional one with a flag, and a JSON column as the text of the
value with its keys sorted. So a row's bytes determine it up to the order of keys in its JSON
columns (`sameRow_of_rowBytes`), the fold determines the rows (`sameRows_of_foldRows`), and a period
whose rows differ from those that were anchored does not verify (`rows_binding`).

A text of the program is shorter than 2 ^ 64 bytes, the text of a JSON column included. -/

namespace Vsms.Audit.Rows

open Vsms.Lib.Framing Vsms.Lib.HashChain Vsms.Lib.Json Vsms.Audit.Chain

/-! ## Rows -/

abbrev Uuid := BitVec 128

/-- A text that fits in memory. -/
abbrev Text := { s : String // (strBytes s).length < 2 ^ 64 }

section rows
variable {F : Type} (fmt : FloatFormat F)

/-- **`canonical_json`** -/
def canonicalJson (value : Value F) : String := String.ofList (render fmt (sortKeys value))

/-- A JSON value whose canonical text fits in memory. -/
abbrev Document := { v : Value F // (strBytes (canonicalJson fmt v)).length < 2 ^ 64 }

/-- A row of `cratestack_audit`. -/
structure AuditRow where
  eventId : Uuid
  schemaName : Text
  model : Text
  operation : Text
  primaryKey : Document fmt
  actor : Document fmt
  tenant : Option Text
  before : Option (Document fmt)
  after : Option (Document fmt)
  requestId : Option Text
  occurredAt : Timestamp

/-- The table: `event_id` is its primary key. -/
structure AuditTable where
  rows : List (AuditRow fmt)
  primaryKey : (rows.map AuditRow.eventId).Nodup

variable {fmt}

/-- `occurred_at` is after `periodStart`, if there is one, and not after `periodEnd`. -/
def InPeriod (periodStart : Option Timestamp) (periodEnd : Timestamp) (row : AuditRow fmt) : Bool :=
  periodStart.all (· < row.occurredAt) && row.occurredAt ≤ periodEnd

/-- The order of `occurred_at`, then of `event_id`. -/
def rowLe (r s : AuditRow fmt) : Prop :=
  r.occurredAt < s.occurredAt ∨ (r.occurredAt = s.occurredAt ∧ r.eventId ≤ s.eventId)

instance (r s : AuditRow fmt) : Decidable (rowLe r s) := by unfold rowLe; infer_instance

/-- **`rows_in_period`**. A table that was never created has no rows. -/
def rowsInPeriod (table : Option (AuditTable fmt)) (periodStart : Option Timestamp)
    (periodEnd : Timestamp) : List (AuditRow fmt) :=
  match table with
  | none => []
  | some table => (table.rows.filter (InPeriod periodStart periodEnd)).insertionSort rowLe

/-! ## Framing -/

def writeLenPrefixed (bytes : List UInt8) : List UInt8 :=
  u64Bytes (UInt64.ofNat bytes.length) ++ bytes

def writeText (text : Text) : List UInt8 := writeLenPrefixed (strBytes text.1)

def writeDocument (document : Document fmt) : List UInt8 :=
  writeLenPrefixed (strBytes (canonicalJson fmt document.1))

/-- The bytes `hash_audit_row` feeds to the hash. -/
def rowBytes (row : AuditRow fmt) : List UInt8 :=
  writeLenPrefixed (bigEndian 16 row.eventId.toNat) ++ (writeText row.schemaName ++
    (writeText row.model ++ (writeText row.operation ++ (writeDocument row.primaryKey ++
    (writeDocument row.actor ++ (optionBytes writeText row.tenant ++
    (optionBytes writeDocument row.before ++ (optionBytes writeDocument row.after ++
    (optionBytes writeText row.requestId ++ i64Bytes row.occurredAt)))))))))

/-! ## Hashes -/

def rowFoldGenesis : Digest := Vector.replicate 32 0

section sha
variable (sha256 : List UInt8 → Digest)

/-- **`hash_audit_row`** -/
def hashAuditRow (row : AuditRow fmt) : Digest := sha256 (rowBytes row)

/-- One turn of `fold_rows`. -/
def foldRow (acc : Digest) (row : AuditRow fmt) : Digest :=
  sha256 (acc.toList ++ (hashAuditRow sha256 row).toList)

/-- **`fold_rows`** -/
def foldRows (rows : List (AuditRow fmt)) : Digest := rows.foldl (foldRow sha256) rowFoldGenesis

/-- **`verify_period_content`** -/
def verifyPeriodContent (table : Option (AuditTable fmt)) (anchor : AuditAnchor) : Bool :=
  hexEncode (foldRows sha256 (rowsInPeriod table anchor.periodStart anchor.periodEnd)).toList =
    anchor.rangeHash

end sha

/-! ## A row's bytes -/

/-- **The same row up to the order of keys** in its JSON columns. -/
structure SameRow (r s : AuditRow fmt) : Prop where
  eventId : r.eventId = s.eventId
  schemaName : r.schemaName = s.schemaName
  model : r.model = s.model
  operation : r.operation = s.operation
  primaryKey : Same r.primaryKey.1 s.primaryKey.1
  actor : Same r.actor.1 s.actor.1
  tenant : r.tenant = s.tenant
  before : Option.Rel (fun v w : Document fmt => Same v.1 w.1) r.before s.before
  after : Option.Rel (fun v w : Document fmt => Same v.1 w.1) r.after s.after
  requestId : r.requestId = s.requestId
  occurredAt : r.occurredAt = s.occurredAt

theorem writeLenPrefixed_delimited {α : Type*} {R : α → α → Prop} {enc : α → List UInt8}
    (hlen : ∀ a, (enc a).length < 2 ^ 64) (hinj : ∀ a b, enc a = enc b → R a b) :
    SelfDelimiting R fun a => writeLenPrefixed (enc a) := by
  intro a b r s h
  simp only [writeLenPrefixed, List.append_assoc] at h
  obtain ⟨hlengths, h⟩ := List.append_inj h (by simp)
  have hlength : (enc a).length = (enc b).length := by
    have hnat := congrArg UInt64.toNat (u64Bytes_injective hlengths)
    rwa [UInt64.toNat_ofNat_of_lt' (hlen a), UInt64.toNat_ofNat_of_lt' (hlen b)] at hnat
  obtain ⟨henc, hrest⟩ := List.append_inj h hlength
  exact ⟨hinj a b henc, hrest⟩

theorem writeText_delimited : SelfDelimiting (· = ·) writeText :=
  writeLenPrefixed_delimited (fun text => text.2) fun _ _ h => Subtype.ext (strBytes_injective h)

theorem writeDocument_delimited :
    SelfDelimiting (fun v w : Document fmt => Same v.1 w.1) writeDocument := by
  refine writeLenPrefixed_delimited (fun document => document.2) fun v w h => ?_
  exact same_of_render_sortKeys (String.ofList_injective (strBytes_injective h))

theorem writeUuid_delimited :
    SelfDelimiting (· = ·) fun u : Uuid => writeLenPrefixed (bigEndian 16 u.toNat) := by
  refine writeLenPrefixed_delimited (fun u => by simp) fun u v h => ?_
  have hmod := bigEndian_eq h
  have hu : u.toNat < 256 ^ 16 := u.isLt
  have hv : v.toNat < 256 ^ 16 := v.isLt
  rw [Nat.mod_eq_of_lt hu, Nat.mod_eq_of_lt hv] at hmod
  exact BitVec.eq_of_toNat_eq hmod

/-- **The bytes of a row determine it**, up to the order of keys. -/
theorem sameRow_of_rowBytes {r s : AuditRow fmt} (h : rowBytes r = rowBytes s) : SameRow r s := by
  obtain ⟨heventId, h⟩ := writeUuid_delimited _ _ _ _ h
  obtain ⟨hschemaName, h⟩ := writeText_delimited _ _ _ _ h
  obtain ⟨hmodel, h⟩ := writeText_delimited _ _ _ _ h
  obtain ⟨hoperation, h⟩ := writeText_delimited _ _ _ _ h
  obtain ⟨hprimaryKey, h⟩ := writeDocument_delimited _ _ _ _ h
  obtain ⟨hactor, h⟩ := writeDocument_delimited _ _ _ _ h
  obtain ⟨htenant, h⟩ := optionBytes_delimited writeText_delimited _ _ _ _ h
  obtain ⟨hbefore, h⟩ := optionBytes_delimited writeDocument_delimited _ _ _ _ h
  obtain ⟨hafter, h⟩ := optionBytes_delimited writeDocument_delimited _ _ _ _ h
  obtain ⟨hrequestId, h⟩ := optionBytes_delimited writeText_delimited _ _ _ _ h
  exact ⟨heventId, hschemaName, hmodel, hoperation, hprimaryKey, hactor, eq_of_optionRel htenant,
    hbefore, hafter, eq_of_optionRel hrequestId, i64Bytes_injective h⟩

/-! ## The fold -/

section binding
variable (sha256 : List UInt8 → Digest)

/-- The inputs of the fold over some rows. -/
def foldInputs (rows : List (AuditRow fmt)) : List (List UInt8) :=
  (links (foldRow sha256) rowFoldGenesis rows).map fun l =>
    l.1.toList ++ (hashAuditRow sha256 l.2).toList

/-- Every input hashed for some rows. -/
def hashInputs (rows : List (AuditRow fmt)) : List (List UInt8) :=
  rows.map rowBytes ++ foldInputs sha256 rows

/-- **What is asked of SHA-256** for two lists of rows: it tells the inputs hashed for them apart,
and the fold never comes back to the genesis value. -/
structure Resists (rows rows' : List (AuditRow fmt)) : Prop where
  injective : Set.InjOn sha256 {x | x ∈ hashInputs sha256 rows ++ hashInputs sha256 rows'}
  genesis : ∀ x ∈ foldInputs sha256 rows ++ foldInputs sha256 rows', sha256 x ≠ rowFoldGenesis

variable {sha256} {rows rows' : List (AuditRow fmt)}

theorem mem_foldInputs {l : Digest × AuditRow fmt}
    (h : l ∈ links (foldRow sha256) rowFoldGenesis rows) :
    l.1.toList ++ (hashAuditRow sha256 l.2).toList ∈ foldInputs sha256 rows :=
  List.mem_map_of_mem h

theorem foldInputs_subset : foldInputs sha256 rows ⊆ hashInputs sha256 rows :=
  List.subset_append_right _ _

theorem mem_hashInputs_of_mem {row : AuditRow fmt} (h : row ∈ rows) :
    rowBytes row ∈ hashInputs sha256 rows :=
  List.mem_append_left _ (List.mem_map_of_mem h)

theorem Resists.eq (h : Resists sha256 rows rows') {x y : List UInt8}
    (hx : x ∈ hashInputs sha256 rows) (hy : y ∈ hashInputs sha256 rows')
    (he : sha256 x = sha256 y) : x = y :=
  h.injective (List.mem_append_left _ hx) (List.mem_append_right _ hy) he

/-- **The fold determines the rows.** -/
theorem sameRows_of_foldRows (hr : Resists sha256 rows rows')
    (h : foldRows sha256 rows = foldRows sha256 rows') : List.Forall₂ SameRow rows rows' := by
  have hfold : rows.foldl (foldRow sha256) rowFoldGenesis =
      rows'.foldl (foldRow sha256) rowFoldGenesis := h
  refine foldl_binding (fun l hl m hm heq => ?_) (fun l hl => ?_) (fun l hl => ?_) hfold
  · have hinput := hr.eq (foldInputs_subset (mem_foldInputs hl))
      (foldInputs_subset (mem_foldInputs hm)) heq
    obtain ⟨hacc, hdigest⟩ := List.append_inj hinput (by simp)
    have hbytes : rowBytes l.2 = rowBytes m.2 :=
      hr.eq (mem_hashInputs_of_mem (mem_of_mem_links hl))
        (mem_hashInputs_of_mem (mem_of_mem_links hm)) (Vector.toList_inj.mp hdigest)
    exact ⟨Vector.toList_inj.mp hacc, sameRow_of_rowBytes hbytes⟩
  · exact hr.genesis _ (List.mem_append_left _ (mem_foldInputs hl))
  · exact hr.genesis _ (List.mem_append_right _ (mem_foldInputs hl))

end binding

/-! ## A change of the table -/

/-- The rows of a table, of the whole of it. -/
def tableRows (table : Option (AuditTable fmt)) : List (AuditRow fmt) :=
  table.elim [] AuditTable.rows

/-- **A change in a period**: a row of the period is in one of the two tables and is the same as
none of the other. It was deleted, inserted or edited. -/
def Changed (periodStart : Option Timestamp) (periodEnd : Timestamp)
    (old new : Option (AuditTable fmt)) : Prop :=
  (∃ r ∈ tableRows old, InPeriod periodStart periodEnd r ∧ ∀ s ∈ tableRows new, ¬ SameRow r s) ∨
    ∃ s ∈ tableRows new, InPeriod periodStart periodEnd s ∧ ∀ r ∈ tableRows old, ¬ SameRow r s

theorem mem_rowsInPeriod {table : Option (AuditTable fmt)} {periodStart : Option Timestamp}
    {periodEnd : Timestamp} {row : AuditRow fmt} :
    row ∈ rowsInPeriod table periodStart periodEnd ↔
      row ∈ tableRows table ∧ InPeriod periodStart periodEnd row := by
  cases table with
  | none => simp [rowsInPeriod, tableRows]
  | some table => simp [rowsInPeriod, tableRows, List.mem_insertionSort]

/-- The rows read for a period show a change of the table in it. -/
theorem Changed.not_sameRows {periodStart : Option Timestamp} {periodEnd : Timestamp}
    {old new : Option (AuditTable fmt)} (h : Changed periodStart periodEnd old new) :
    ¬ List.Forall₂ SameRow (rowsInPeriod old periodStart periodEnd)
      (rowsInPeriod new periodStart periodEnd) := by
  intro hsame
  rcases h with ⟨r, hr, hin, hnone⟩ | ⟨s, hs, hin, hnone⟩
  · obtain ⟨s, hs, hrs⟩ := exists_of_forall₂_left hsame (mem_rowsInPeriod.mpr ⟨hr, hin⟩)
    exact hnone s (mem_rowsInPeriod.mp hs).1 hrs
  · obtain ⟨r, hr, hrs⟩ := exists_of_forall₂_left hsame.flip (mem_rowsInPeriod.mpr ⟨hs, hin⟩)
    exact hnone r (mem_rowsInPeriod.mp hr).1 hrs

/-- Where the rows read for an anchor's period are not those it was written for, they do not
verify. -/
theorem verifyPeriodContent_of_not_sameRows {sha256 : List UInt8 → Digest} {anchor : AuditAnchor}
    {old new : Option (AuditTable fmt)}
    (hr : Resists sha256 (rowsInPeriod old anchor.periodStart anchor.periodEnd)
      (rowsInPeriod new anchor.periodStart anchor.periodEnd))
    (hanchored : anchor.rangeHash = hexEncode (foldRows sha256
      (rowsInPeriod old anchor.periodStart anchor.periodEnd)).toList)
    (hchanged : ¬ List.Forall₂ SameRow (rowsInPeriod old anchor.periodStart anchor.periodEnd)
      (rowsInPeriod new anchor.periodStart anchor.periodEnd)) :
    verifyPeriodContent sha256 new anchor = false := by
  by_contra hverifies
  have hhex : hexEncode (foldRows sha256
      (rowsInPeriod new anchor.periodStart anchor.periodEnd)).toList = anchor.rangeHash := by
    simpa [verifyPeriodContent] using hverifies
  have hfold : foldRows sha256 (rowsInPeriod old anchor.periodStart anchor.periodEnd) =
      foldRows sha256 (rowsInPeriod new anchor.periodStart anchor.periodEnd) :=
    Vector.toList_inj.mp (hexEncode_injective (hanchored.symm.trans hhex.symm))
  exact hchanged (sameRows_of_foldRows hr hfold)

/-- **A changed period does not verify.** The bytes of a row determine it and the fold determines
the rows, up to the order of keys in JSON columns. So if an anchor was written for the rows a table
had in its period, and since then a row of the period was inserted, deleted or edited, or the rows
read for it are not the same in the same order for any other reason, then `verify_period_content` is
false. -/
theorem rows_binding (sha256 : List UInt8 → Digest) :
    (∀ r s : AuditRow fmt, rowBytes r = rowBytes s → SameRow r s) ∧
    (∀ rows rows' : List (AuditRow fmt), Resists sha256 rows rows' →
      foldRows sha256 rows = foldRows sha256 rows' → List.Forall₂ SameRow rows rows') ∧
    ∀ (anchor : AuditAnchor) (old new : Option (AuditTable fmt)),
      Resists sha256 (rowsInPeriod old anchor.periodStart anchor.periodEnd)
        (rowsInPeriod new anchor.periodStart anchor.periodEnd) →
      anchor.rangeHash = hexEncode (foldRows sha256
        (rowsInPeriod old anchor.periodStart anchor.periodEnd)).toList →
      Changed anchor.periodStart anchor.periodEnd old new ∨
        ¬ List.Forall₂ SameRow (rowsInPeriod old anchor.periodStart anchor.periodEnd)
          (rowsInPeriod new anchor.periodStart anchor.periodEnd) →
      verifyPeriodContent sha256 new anchor = false := by
  refine ⟨fun r s => sameRow_of_rowBytes, fun rows rows' hr => sameRows_of_foldRows hr,
    fun anchor old new hr hanchored hchanged => ?_⟩
  refine verifyPeriodContent_of_not_sameRows hr hanchored ?_
  exact hchanged.elim Changed.not_sameRows id

end rows

/-! ### An edited row -/

/-- The one floating-point number of the sample, 1.5. -/
def sampleFormat : FloatFormat Unit where
  text := fun _ => ['1', '.', '5']
  injective := fun _ _ _ => rfl
  chars := fun _ => List.all_eq_true.mp rfl
  marked := fun _ => by decide

/-- A row that records an operation on a message. -/
def sampleRow (operation : Text) : AuditRow sampleFormat where
  eventId := 1
  schemaName := ⟨"public", by decide⟩
  model := ⟨"Message", by decide⟩
  operation := operation
  primaryKey := ⟨.object [("id", .string "m1")], by decide⟩
  actor := ⟨.null, by decide⟩
  tenant := none
  before := none
  after := some ⟨.object [("b", .number (.float ())), ("a", .array [.bool true, .null])], by decide⟩
  requestId := none
  occurredAt := 5

def updateRow : AuditRow sampleFormat := sampleRow ⟨"update", by decide⟩

def deleteRow : AuditRow sampleFormat := sampleRow ⟨"delete", by decide⟩

def updateDigest : Digest :=
  #v[0x47, 0x4a, 0x8f, 0x07, 0xdf, 0x7f, 0x07, 0x0c, 0xb8, 0x7e, 0xdc, 0x92, 0xe0, 0x1c, 0x02, 0x0c,
    0x4e, 0x00, 0xe7, 0x5c, 0xcf, 0xfb, 0x92, 0x8e, 0x55, 0x5b, 0x82, 0x57, 0xa9, 0xfe, 0xda, 0xb4]

def deleteDigest : Digest :=
  #v[0xe3, 0xa2, 0x1b, 0xcf, 0x39, 0x8c, 0xc5, 0x03, 0x6e, 0x97, 0x09, 0x0d, 0x34, 0xa5, 0x67, 0x1e,
    0xe3, 0x00, 0x08, 0x33, 0x9f, 0x77, 0x35, 0x17, 0x73, 0x99, 0x6d, 0x32, 0x21, 0x57, 0x8c, 0x07]

def updateFold : Digest :=
  #v[0x75, 0xb0, 0x4b, 0xdb, 0x5c, 0x67, 0xb2, 0xe7, 0x32, 0x5e, 0x25, 0x8a, 0x8a, 0xc6, 0x6f, 0xe3,
    0x2d, 0xc4, 0x49, 0xdc, 0x78, 0x44, 0x0b, 0x33, 0xa9, 0xba, 0xf0, 0xd8, 0xeb, 0xac, 0x54, 0xc5]

def deleteFold : Digest :=
  #v[0x6a, 0x87, 0x43, 0xb1, 0xf3, 0x63, 0xa5, 0x8d, 0x88, 0xe5, 0x69, 0x01, 0xdf, 0x1e, 0x93, 0x29,
    0x89, 0x34, 0x60, 0xfd, 0xf1, 0xe4, 0xf1, 0xa1, 0xbd, 0x00, 0x45, 0xe4, 0x7d, 0xef, 0x5e, 0x13]

/-- SHA-256 on the inputs for the two rows. -/
def rowSha256 (input : List UInt8) : Digest :=
  if input = rowBytes updateRow then updateDigest
  else if input = rowBytes deleteRow then deleteDigest
  else if input = rowFoldGenesis.toList ++ updateDigest.toList then updateFold
  else if input = rowFoldGenesis.toList ++ deleteDigest.toList then deleteFold
  else rowFoldGenesis

/-- The anchor of the period up to 10, with the first row. -/
def sampleAnchor : AuditAnchor where
  id := "a"
  periodStart := none
  periodEnd := 10
  rowCount := 1
  rangeHash := "75b04bdb5c67b2e7325e258a8ac66fe32dc449dc78440b33a9baf0d8ebac54c5"
  prevChainHash := genesisHex
  chainHash := genesisHex

theorem rows_binding_edited :
    verifyPeriodContent rowSha256 (some ⟨[updateRow], by decide⟩) sampleAnchor = true ∧
    verifyPeriodContent rowSha256 (some ⟨[deleteRow], by decide⟩) sampleAnchor = false := by
  refine ⟨by decide +kernel, ?_⟩
  refine (@rows_binding Unit sampleFormat rowSha256).2.2 sampleAnchor
    (some ⟨[updateRow], by decide⟩) (some ⟨[deleteRow], by decide⟩) ⟨?_, ?_⟩ ?_ ?_
  · have hpairs : ∀ x ∈ hashInputs rowSha256 [updateRow] ++ hashInputs rowSha256 [deleteRow],
        ∀ y ∈ hashInputs rowSha256 [updateRow] ++ hashInputs rowSha256 [deleteRow],
        rowSha256 x = rowSha256 y → x = y := by
      decide +kernel
    exact fun x hx y hy h => hpairs x hx y hy h
  · decide +kernel
  · decide +kernel
  · left; left
    refine ⟨updateRow, List.mem_singleton.mpr rfl, by decide, fun s hs hsame => ?_⟩
    obtain rfl : s = deleteRow := List.mem_singleton.mp hs
    have hoperation : "update" = "delete" := congrArg Subtype.val hsame.operation
    revert hoperation
    decide

end Vsms.Audit.Rows
