import Vsms.Lib.Framing
import Vsms.Lib.HashChain

/-! # The chain of audit anchors

Each `AuditAnchor` commits to a period of the audit log and to the anchor before it: its `chainHash`
is the hash of the previous one, the bounds of the period, the number of its rows and their hash.
`verify_chain_linkage` walks the anchors, oldest first, and reports every anchor that does not link
to the one before it or whose hash is not that of its fields.

Two tables without breaks and with the same newest link agree in every field that is hashed
(`anchors_binding`), as far as SHA-256 tells the inputs apart. The hash function is a parameter.
Anchors are read in the order of `periodEnd`. -/

namespace Vsms.Audit.Chain

open Vsms.Lib.Framing Vsms.Lib.HashChain

/-! ## Anchors -/

/-- A `TIMESTAMPTZ`, in microseconds from the epoch. -/
abbrev Timestamp := Int64

/-- A SHA-256 digest. -/
abbrev Digest := Vector UInt8 32

structure AuditAnchor where
  id : String
  periodStart : Option Timestamp
  periodEnd : Timestamp
  rowCount : Int64
  rangeHash : String
  prevChainHash : String
  chainHash : String
  deriving DecidableEq, Repr

/-- What an anchor says of its period. -/
structure Period where
  periodStart : Option Timestamp
  periodEnd : Timestamp
  rowCount : Int64
  rangeHash : String
  deriving DecidableEq, Repr

def AuditAnchor.period (a : AuditAnchor) : Period :=
  ⟨a.periodStart, a.periodEnd, a.rowCount, a.rangeHash⟩

/-- `genesis_hex` -/
def genesisHex : String := String.ofList (List.replicate 64 '0')

/-- The bytes `compute_chain_hash_hex` feeds to the hash. -/
def chainBytes (prevChainHashHex : String) (periodStart : Option Timestamp)
    (periodEnd : Timestamp) (rowCount : Int64) (rangeHashHex : String) : List UInt8 :=
  strBytes prevChainHashHex ++ (optionBytes i64Bytes periodStart ++
    (i64Bytes periodEnd ++ (i64Bytes rowCount ++ strBytes rangeHashHex)))

section sha
variable (sha256 : List UInt8 → Digest)

/-- **`compute_chain_hash_hex`** -/
def computeChainHashHex (prevChainHashHex : String) (periodStart : Option Timestamp)
    (periodEnd : Timestamp) (rowCount : Int64) (rangeHashHex : String) : String :=
  hexEncode
    (sha256 (chainBytes prevChainHashHex periodStart periodEnd rowCount rangeHashHex)).toList

/-- What one anchor adds to the breaks. -/
def linkBreaks (anchor : AuditAnchor) (expectedPrev : String) : List String :=
  let recomputed := computeChainHashHex sha256 anchor.prevChainHash anchor.periodStart
    anchor.periodEnd anchor.rowCount anchor.rangeHash
  (if anchor.prevChainHash ≠ expectedPrev then
    ["anchor " ++ anchor.id ++ " prevChainHash (" ++ anchor.prevChainHash ++
      ") does not equal the expected previous link (" ++ expectedPrev ++ ")"] else []) ++
  (if recomputed ≠ anchor.chainHash then
    ["anchor " ++ anchor.id ++ " chainHash (" ++ anchor.chainHash ++
      ") does not match its own stored fields (recomputed " ++ recomputed ++ ")"] else [])

/-- The loop of `verify_chain_linkage`. -/
def linkageBreaks (previousChainHash : Option String) : List AuditAnchor → List String
  | [] => []
  | anchor :: anchors =>
    linkBreaks sha256 anchor (previousChainHash.getD genesisHex) ++
      linkageBreaks (some anchor.chainHash) anchors

/-- **`verify_chain_linkage`**, on the anchors in the order it reads them. -/
def verifyChainLinkage (anchors : List AuditAnchor) : List String :=
  linkageBreaks sha256 none anchors

/-- The newest link of a table: the `chainHash` of its last anchor, or the genesis value. -/
def newestLink (anchors : List AuditAnchor) : String :=
  (anchors.getLast?.map AuditAnchor.chainHash).getD genesisHex

/-! ## A table without breaks -/

/-- The link after `prev` for a period. -/
def link (prev : String) (x : Period) : String :=
  computeChainHashHex sha256 prev x.periodStart x.periodEnd x.rowCount x.rangeHash

variable {sha256}

theorem linkBreaks_nil {anchor : AuditAnchor} {expectedPrev : String}
    (h : linkBreaks sha256 anchor expectedPrev = []) :
    anchor.prevChainHash = expectedPrev ∧
      link sha256 anchor.prevChainHash anchor.period = anchor.chainHash := by
  obtain ⟨hprev, hchain⟩ := List.append_eq_nil_iff.mp h
  constructor
  · by_contra hne
    rw [if_pos hne] at hprev
    cases hprev
  · change computeChainHashHex sha256 anchor.prevChainHash anchor.periodStart anchor.periodEnd
      anchor.rowCount anchor.rangeHash = anchor.chainHash
    by_contra hne
    rw [if_pos hne] at hchain
    cases hchain

/-- **A table without breaks is a chain** over its periods. -/
theorem links_of_no_breaks {previous : Option String} {anchors : List AuditAnchor}
    (h : linkageBreaks sha256 previous anchors = []) :
    links (link sha256) (previous.getD genesisHex) (anchors.map AuditAnchor.period) =
        anchors.map (fun a => (a.prevChainHash, a.period)) ∧
      (anchors.map AuditAnchor.period).foldl (link sha256) (previous.getD genesisHex) =
        (anchors.getLast?.map AuditAnchor.chainHash).getD (previous.getD genesisHex) := by
  induction anchors generalizing previous with
  | nil => exact ⟨rfl, rfl⟩
  | cons anchor anchors ih =>
    obtain ⟨hbreaks, hrest⟩ := List.append_eq_nil_iff.mp h
    obtain ⟨hprev, hchain⟩ := linkBreaks_nil hbreaks
    obtain ⟨hlinks, hlast⟩ := ih hrest
    rw [hprev] at hchain
    rw [List.map_cons, List.map_cons, links, List.foldl_cons, hchain]
    constructor
    · rw [← hprev]
      exact congrArg _ hlinks
    · refine hlast.trans ?_
      rw [List.getLast?_cons]
      cases anchors.getLast? <;> rfl

/-- A link is 64 digits. -/
theorem length_link (prev : String) (x : Period) :
    (strBytes (link sha256 prev x)).length = 64 := by
  unfold link computeChainHashHex
  rw [length_hexEncode, Vector.length_toList]

theorem length_genesisHex : (strBytes genesisHex).length = 64 := by
  unfold genesisHex
  rw [strBytes_ofList]
  rfl

theorem length_of_mem_links {p : String} {xs : List Period} {l : String × Period}
    (hp : (strBytes p).length = 64) (h : l ∈ links (link sha256) p xs) :
    (strBytes l.1).length = 64 := by
  induction xs generalizing p with
  | nil => cases h
  | cons x xs ih =>
    rcases List.mem_cons.mp h with rfl | h
    · exact hp
    · exact ih (length_link p x) h

/-- **The framing of an anchor**: with links of one length, the bytes determine every field. -/
theorem chainBytes_inj {p q : String} {x y : Period}
    (hlen : (strBytes p).length = (strBytes q).length)
    (h : chainBytes p x.periodStart x.periodEnd x.rowCount x.rangeHash =
      chainBytes q y.periodStart y.periodEnd y.rowCount y.rangeHash) : p = q ∧ x = y := by
  obtain ⟨hp, h⟩ := List.append_inj h hlen
  obtain ⟨hstart, h⟩ := optionBytes_delimited i64Bytes_delimited _ _ _ _ h
  obtain ⟨hend, h⟩ := i64Bytes_delimited _ _ _ _ h
  obtain ⟨hcount, h⟩ := i64Bytes_delimited _ _ _ _ h
  refine ⟨strBytes_injective hp, ?_⟩
  cases x
  cases y
  simp only [Period.mk.injEq]
  exact ⟨eq_of_optionRel hstart, hend, hcount, strBytes_injective h⟩

/-! ## Binding -/

/-- The input of an anchor's hash. -/
def AuditAnchor.chainInput (a : AuditAnchor) : List UInt8 :=
  chainBytes a.prevChainHash a.periodStart a.periodEnd a.rowCount a.rangeHash

/-- Two links that are equal commit to the same period after the same link, where SHA-256 tells
their inputs apart. -/
theorem link_inj {p q : String} {x y : Period} (hlen : (strBytes p).length = (strBytes q).length)
    (hinj : sha256 (chainBytes p x.periodStart x.periodEnd x.rowCount x.rangeHash) =
        sha256 (chainBytes q y.periodStart y.periodEnd y.rowCount y.rangeHash) →
      chainBytes p x.periodStart x.periodEnd x.rowCount x.rangeHash =
        chainBytes q y.periodStart y.periodEnd y.rowCount y.rangeHash)
    (h : link sha256 p x = link sha256 q y) : p = q ∧ x = y :=
  chainBytes_inj hlen (hinj (Vector.toList_inj.mp (hexEncode_injective h)))

/-- **The newest link binds the periods** of two tables without breaks. -/
theorem periods_eq {as bs : List AuditAnchor}
    (hinj : Set.InjOn sha256 {x | ∃ a ∈ as ++ bs, x = a.chainInput})
    (hgenesis : ∀ a ∈ as ++ bs, hexEncode (sha256 a.chainInput).toList ≠ genesisHex)
    (has : verifyChainLinkage sha256 as = []) (hbs : verifyChainLinkage sha256 bs = [])
    (hnewest : newestLink as = newestLink bs) :
    as.map AuditAnchor.period = bs.map AuditAnchor.period := by
  obtain ⟨hlas, hfas⟩ := links_of_no_breaks has
  obtain ⟨hlbs, hfbs⟩ := links_of_no_breaks hbs
  rw [Option.getD_none] at hlas hfas hlbs hfbs
  have hlast : (as.map AuditAnchor.period).foldl (link sha256) genesisHex =
      (bs.map AuditAnchor.period).foldl (link sha256) genesisHex :=
    hfas.trans (hnewest.trans hfbs.symm)
  rw [← List.forall₂_eq_eq_eq]
  refine foldl_binding (fun l hl m hm heq => ?_) (fun l hl => ?_) (fun l hl => ?_) hlast
  · have hlen := (length_of_mem_links length_genesisHex hl).trans
      (length_of_mem_links length_genesisHex hm).symm
    rw [hlas] at hl
    rw [hlbs] at hm
    obtain ⟨a, ha, rfl⟩ := List.mem_map.mp hl
    obtain ⟨b, hb, rfl⟩ := List.mem_map.mp hm
    refine link_inj hlen ?_ heq
    exact hinj ⟨a, List.mem_append_left _ ha, rfl⟩ ⟨b, List.mem_append_right _ hb, rfl⟩
  · rw [hlas] at hl
    obtain ⟨a, ha, rfl⟩ := List.mem_map.mp hl
    exact hgenesis a (List.mem_append_left _ ha)
  · rw [hlbs] at hl
    obtain ⟨b, hb, rfl⟩ := List.mem_map.mp hl
    exact hgenesis b (List.mem_append_right _ hb)

/-- **The newest link binds the whole table.** Two tables without breaks that have the same newest
link have the same length, and agree at every position in the fields that are hashed; SHA-256 need
only tell the anchors' inputs apart and give none of them the genesis value. -/
theorem anchors_binding (as bs : List AuditAnchor)
    (hinj : Set.InjOn sha256 {x | ∃ a ∈ as ++ bs, x = a.chainInput})
    (hgenesis : ∀ a ∈ as ++ bs, hexEncode (sha256 a.chainInput).toList ≠ genesisHex)
    (has : verifyChainLinkage sha256 as = []) (hbs : verifyChainLinkage sha256 bs = [])
    (hnewest : newestLink as = newestLink bs) :
    as.length = bs.length ∧ ∀ (i : ℕ) (a b : AuditAnchor), as[i]? = some a → bs[i]? = some b →
      a.prevChainHash = b.prevChainHash ∧ a.periodStart = b.periodStart ∧
        a.periodEnd = b.periodEnd ∧ a.rowCount = b.rowCount ∧ a.rangeHash = b.rangeHash := by
  have hperiods := periods_eq hinj hgenesis has hbs hnewest
  have hlinks : as.map (fun a => (a.prevChainHash, a.period)) =
      bs.map (fun b => (b.prevChainHash, b.period)) := by
    rw [← (links_of_no_breaks has).1, ← (links_of_no_breaks hbs).1, hperiods]
  refine ⟨by simpa using congrArg List.length hlinks, fun i a b ha hb => ?_⟩
  have hi := congrArg (fun l => l[i]?) hlinks
  simp only [List.getElem?_map, ha, hb, Option.map_some, Option.some.injEq, Prod.mk.injEq,
    AuditAnchor.period, Period.mk.injEq] at hi
  exact hi

end sha

/-! ### Two anchors -/

/-- The first anchor of a deployment, and the next. -/
def firstAnchor (id : String) : AuditAnchor where
  id := id
  periodStart := none
  periodEnd := 1000000
  rowCount := 1
  rangeHash := "7692c3ad3540bb803c020b3aee66cd8887123234ea0c6e7143c0add73ff431ed"
  prevChainHash := genesisHex
  chainHash := "4c575daa2e14d5d04240bf76fc4ca961e65e5170ed8bb42408f5394742e92b3c"

def secondAnchor (id : String) : AuditAnchor where
  id := id
  periodStart := some 1000000
  periodEnd := 2000000
  rowCount := 2
  rangeHash := "3fc4ccfe745870e2c0d99f71f30ff0656c8dedd41cc1d7d3d376b0dbe685e2f3"
  prevChainHash := "4c575daa2e14d5d04240bf76fc4ca961e65e5170ed8bb42408f5394742e92b3c"
  chainHash := "ee036de1349f716b817b0901df3878535c4dc7641d7613495740c6a330cacf4d"

def firstDigest : Digest :=
  #v[0x4c, 0x57, 0x5d, 0xaa, 0x2e, 0x14, 0xd5, 0xd0, 0x42, 0x40, 0xbf, 0x76, 0xfc, 0x4c, 0xa9, 0x61,
    0xe6, 0x5e, 0x51, 0x70, 0xed, 0x8b, 0xb4, 0x24, 0x08, 0xf5, 0x39, 0x47, 0x42, 0xe9, 0x2b, 0x3c]

def secondDigest : Digest :=
  #v[0xee, 0x03, 0x6d, 0xe1, 0x34, 0x9f, 0x71, 0x6b, 0x81, 0x7b, 0x09, 0x01, 0xdf, 0x38, 0x78, 0x53,
    0x5c, 0x4d, 0xc7, 0x64, 0x1d, 0x76, 0x13, 0x49, 0x57, 0x40, 0xc6, 0xa3, 0x30, 0xca, 0xcf, 0x4d]

/-- SHA-256 on the inputs of the two anchors. -/
def anchorSha256 (input : List UInt8) : Digest :=
  if input = (firstAnchor "").chainInput then firstDigest
  else if input = (secondAnchor "").chainInput then secondDigest
  else Vector.replicate 32 0

/-- Two tables that differ in the ids of their anchors, which are not hashed. -/
theorem anchors_binding_two :
    verifyChainLinkage anchorSha256 [firstAnchor "a", secondAnchor "b"] = [] ∧
    [firstAnchor "a", secondAnchor "b"].length = [firstAnchor "c", secondAnchor "d"].length := by
  have has : verifyChainLinkage anchorSha256 [firstAnchor "a", secondAnchor "b"] = [] := by
    decide +kernel
  refine ⟨has, (@anchors_binding anchorSha256 [firstAnchor "a", secondAnchor "b"]
    [firstAnchor "c", secondAnchor "d"] ?_ ?_ has ?_ ?_).1⟩
  · have hpairs : ∀ a ∈ [firstAnchor "a", secondAnchor "b"] ++ [firstAnchor "c", secondAnchor "d"],
        ∀ b ∈ [firstAnchor "a", secondAnchor "b"] ++ [firstAnchor "c", secondAnchor "d"],
        anchorSha256 a.chainInput = anchorSha256 b.chainInput → a.chainInput = b.chainInput := by
      decide +kernel
    rintro x ⟨a, ha, rfl⟩ y ⟨b, hb, rfl⟩ h
    exact hpairs a ha b hb h
  · decide +kernel
  · decide +kernel
  · decide +kernel

end Vsms.Audit.Chain
