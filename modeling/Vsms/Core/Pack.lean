import Mathlib.Data.List.Basic
import Mathlib.Data.List.DropRight
import Mathlib.Data.List.Infix
import Mathlib.Tactic.SplitIfs
import Vsms.Lib.Framing
import Vsms.Lib.Words

/-! # Sentinel-delimited columns

A list of values in one text column, separated by single spaces, with a space at both ends
(`sms_core::pack`, `sms_core::unpack`). Reading splits on any run of Unicode white space, of which
`pack` refuses only the space, and the database searches for a value with a separator on each side.
The three agree exactly on values without white space (`packed_column_iff`). -/

namespace Vsms.Core.Pack

/-- The separator, which is also the sentinel. -/
def separator : Char := ' '

/-- The encoding of an empty collection: one separator, not the empty string. -/
def empty : String := " "

inductive PackError
  | containsSeparator (value : String)
  | empty
  deriving DecidableEq, Repr

/-- One round of the loop of `pack`. -/
def packOne (packed value : String) : Except PackError String :=
  if value = "" then .error .empty
  else if separator ∈ value.toList then .error (.containsSeparator value)
  else .ok (packed ++ value ++ " ")

/-- Encode values into the sentinel-delimited form. -/
def pack (values : List String) : Except PackError String := values.foldlM packOne empty

/-- The characters with the Unicode property `White_Space`. -/
def isWhitespace (c : Char) : Bool :=
  let n := c.toNat
  (9 ≤ n && n ≤ 13) || n = 32 || n = 133 || n = 160 || n = 5760 || (8192 ≤ n && n ≤ 8202) ||
    n = 8232 || n = 8233 || n = 8239 || n = 8287 || n = 12288

/-- `str::trim` -/
def trim (l : List Char) : List Char := (l.dropWhile isWhitespace).rdropWhile isWhitespace

theorem trim_of_all {l : List Char} (h : ∀ c ∈ l, isWhitespace c = false) : trim l = l :=
  Lib.Words.trim_eq_self h

/-- A text with a character that is not white space is not blank. -/
theorem trim_ne_nil {l : List Char} {c : Char} (hc : c ∈ l) (h : isWhitespace c = false) :
    trim l ≠ [] :=
  List.ne_nil_of_mem (Lib.Words.mem_trim hc h)

/-- `str::split_whitespace`; `word` holds the current word, last character first. -/
def splitWhitespace : List Char → List Char → List (List Char)
  | word, [] => if word = [] then [] else [word.reverse]
  | word, c :: cs =>
    if isWhitespace c then
      if word = [] then splitWhitespace [] cs else word.reverse :: splitWhitespace [] cs
    else splitWhitespace (c :: word) cs

/-- Decode a sentinel-delimited column back into its values. -/
def unpack (packed : String) : List String := (splitWhitespace [] packed.toList).map String.ofList

/-- Whether `value` is one of the packed values. -/
def contains (packed value : String) : Bool := value ≠ "" && value ∈ unpack packed

/-- The argument of `.contains(...)` that tests membership of `value` in a column. -/
def needle (value : String) : String := String.ofList (separator :: value.toList ++ [separator])

/-- `str::contains` of a string. -/
def HasSubstring (s t : String) : Prop := t.toList <:+: s.toList

instance (s t : String) : Decidable (HasSubstring s t) :=
  decidable_of_iff (s.toList.tails.any (t.toList.isPrefixOf ·) = true) <| by
    simp [HasSubstring, List.infix_iff_prefix_suffix, and_comm]

/-! ### What `pack` writes -/

/-- The values `pack` accepts. -/
def Packable (value : String) : Prop := value ≠ "" ∧ separator ∉ value.toList

/-- The values, each followed by a separator. -/
def terminated (values : List String) : List Char :=
  values.flatMap fun value => value.toList ++ [separator]

@[simp] theorem terminated_nil : terminated [] = [] := rfl

theorem terminated_cons (value : String) (values : List String) :
    terminated (value :: values) = value.toList ++ separator :: terminated values := by
  simp [terminated]

theorem packOne_ok {packed value s : String} :
    packOne packed value = .ok s ↔
      Packable value ∧ s.toList = packed.toList ++ (value.toList ++ [separator]) := by
  unfold packOne Packable
  split_ifs with he hs
  · simp [he]
  · simp [hs]
  · have htext : (packed ++ value ++ " ").toList =
        packed.toList ++ (value.toList ++ [separator]) := by simp [separator]
    rw [← htext, String.toList_inj, Except.ok.injEq]
    exact ⟨fun h => ⟨⟨he, hs⟩, h.symm⟩, fun h => h.2.symm⟩

theorem foldlM_packOne {values : List String} {packed s : String} :
    values.foldlM packOne packed = .ok s ↔
      (∀ v ∈ values, Packable v) ∧ s.toList = packed.toList ++ terminated values := by
  induction values generalizing packed with
  | nil =>
    change Except.ok packed = Except.ok s ↔ _
    rw [Except.ok.injEq, ← String.toList_inj]
    simp [eq_comm]
  | cons value values ih =>
    rw [List.foldlM_cons, List.forall_mem_cons, terminated_cons]
    cases hv : packOne packed value with
    | error e =>
      have hp : ¬ Packable value := fun hp => by
        have := packOne_ok.mpr ⟨hp, String.toList_ofList
          (l := packed.toList ++ (value.toList ++ [separator]))⟩
        rw [hv] at this
        cases this
      simp only [hp, false_and, iff_false]
      rintro ⟨⟩
    | ok t =>
      obtain ⟨hp, ht⟩ := packOne_ok.mp hv
      change values.foldlM packOne t = .ok s ↔ _
      rw [ih, ht]
      simp [hp]

/-- **What `pack` writes**: a separator, then the values, each followed by one. -/
theorem pack_ok {values : List String} {s : String} :
    pack values = .ok s ↔
      (∀ v ∈ values, Packable v) ∧ s.toList = separator :: terminated values := by
  unfold pack
  rw [foldlM_packOne]
  rfl

theorem packable_iff {value : String} : (∃ s, pack [value] = .ok s) ↔ Packable value := by
  constructor
  · rintro ⟨s, hs⟩
    exact (pack_ok.mp hs).1 value List.mem_cons_self
  · intro hv
    refine ⟨String.ofList (separator :: terminated [value]), pack_ok.mpr ⟨?_, ?_⟩⟩
    · simpa using hv
    · rw [String.toList_ofList]

/-! ### Splitting at white space -/

/-- The value has no white space of any kind. -/
def Unbroken (value : String) : Prop := ∀ c ∈ value.toList, isWhitespace c = false

/-- No word has white space in it. -/
theorem splitWhitespace_unbroken {cs word : List Char} (hw : ∀ c ∈ word, isWhitespace c = false) :
    ∀ x ∈ splitWhitespace word cs, ∀ c ∈ x, isWhitespace c = false := by
  induction cs generalizing word with
  | nil =>
    intro x hx c hc
    unfold splitWhitespace at hx
    split_ifs at hx
    · cases hx
    · rw [List.mem_singleton.mp hx, List.mem_reverse] at hc
      exact hw c hc
  | cons d cs ih =>
    intro x hx
    unfold splitWhitespace at hx
    split_ifs at hx with hd hword
    · exact ih (by simp) x hx
    · rcases List.mem_cons.mp hx with rfl | hx
      · intro c hc
        exact hw c (List.mem_reverse.mp hc)
      · exact ih (by simp) x hx
    · refine ih (fun c hc => ?_) x hx
      rcases List.mem_cons.mp hc with rfl | hc
      · simpa using hd
      · exact hw c hc

/-- No word is empty. -/
theorem splitWhitespace_ne_nil {cs word : List Char} : ∀ x ∈ splitWhitespace word cs, x ≠ [] := by
  induction cs generalizing word with
  | nil =>
    intro x hx
    unfold splitWhitespace at hx
    split_ifs at hx with hword
    · cases hx
    · rw [List.mem_singleton.mp hx]
      simpa using hword
  | cons d cs ih =>
    intro x hx
    unfold splitWhitespace at hx
    split_ifs at hx with hd hword
    · exact ih x hx
    · rcases List.mem_cons.mp hx with rfl | hx
      · simpa using hword
      · exact ih x hx
    · exact ih x hx

/-- A text without white space is one word. -/
theorem splitWhitespace_of_unbroken {v word : List Char} (hv : ∀ c ∈ v, isWhitespace c = false)
    (hne : word.reverse ++ v ≠ []) : splitWhitespace word v = [word.reverse ++ v] := by
  induction v generalizing word with
  | nil =>
    have hword : word ≠ [] := by
      rintro rfl
      exact hne rfl
    rw [splitWhitespace, if_neg hword, List.append_nil]
  | cons c v ih =>
    have hc : isWhitespace c = false := hv c List.mem_cons_self
    rw [splitWhitespace, if_neg (by simp [hc]),
      ih (fun d hd => hv d (List.mem_cons_of_mem _ hd)) (by simp)]
    simp

/-- A word without white space is read up to the separator after it. -/
theorem splitWhitespace_word {v word rest : List Char} (hv : ∀ c ∈ v, isWhitespace c = false)
    (hne : word.reverse ++ v ≠ []) :
    splitWhitespace word (v ++ separator :: rest) =
      (word.reverse ++ v) :: splitWhitespace [] rest := by
  induction v generalizing word with
  | nil =>
    have hword : word ≠ [] := by
      rintro rfl
      exact hne rfl
    have hsep : isWhitespace separator = true := by decide
    rw [List.nil_append, splitWhitespace, if_pos hsep, if_neg hword, List.append_nil]
  | cons c v ih =>
    have hc : isWhitespace c = false := hv c List.mem_cons_self
    rw [List.cons_append, splitWhitespace, if_neg (by simp [hc])]
    rw [ih (fun d hd => hv d (List.mem_cons_of_mem _ hd)) (by simp)]
    simp

theorem splitWhitespace_terminated {values : List String}
    (h : ∀ v ∈ values, Packable v ∧ Unbroken v) :
    splitWhitespace [] (terminated values) = values.map String.toList := by
  induction values with
  | nil => rfl
  | cons v values ih =>
    obtain ⟨hp, hu⟩ := h v List.mem_cons_self
    have hne : ([] : List Char).reverse ++ v.toList ≠ [] := by
      simpa using hp.1
    rw [terminated_cons, splitWhitespace_word hu hne]
    rw [ih fun w hw => h w (List.mem_cons_of_mem _ hw)]
    rfl

/-- **`unpack` undoes `pack` exactly if no value has white space in it.** -/
theorem unpack_eq_iff {values : List String} {s : String} (h : pack values = .ok s) :
    unpack s = values ↔ ∀ v ∈ values, Unbroken v := by
  obtain ⟨hp, hs⟩ := pack_ok.mp h
  constructor
  · intro hu v hv
    rw [← hu] at hv
    obtain ⟨x, hx, rfl⟩ := List.mem_map.mp hv
    unfold Unbroken
    rw [String.toList_ofList]
    exact splitWhitespace_unbroken (by simp) x hx
  · intro hu
    have hsplit : splitWhitespace [] s.toList = values.map String.toList := by
      rw [hs]
      exact splitWhitespace_terminated fun v hv => ⟨hp v hv, hu v hv⟩
    unfold unpack
    rw [hsplit, List.map_map]
    exact (List.map_congr_left fun v _ => String.ofList_toList).trans (List.map_id _)

/-- **What is read from a column** has no white space in it and is not empty. -/
theorem mem_unpack {packed value : String} (h : value ∈ unpack packed) :
    value ≠ "" ∧ Unbroken value := by
  obtain ⟨x, hx, rfl⟩ := List.mem_map.mp h
  have hne := splitWhitespace_ne_nil x hx
  refine ⟨fun hempty => ?_, ?_⟩
  · rw [← String.toList_inj, String.toList_ofList] at hempty
    exact hne hempty
  · unfold Unbroken
    rw [String.toList_ofList]
    exact splitWhitespace_unbroken (by simp) x hx

theorem contains_iff {packed value : String} : contains packed value = true ↔
    value ∈ unpack packed := by
  unfold contains
  rw [Bool.and_eq_true, decide_eq_true_eq, decide_eq_true_eq]
  exact ⟨And.right, fun h => ⟨(mem_unpack h).1, h⟩⟩

/-- A value without white space is read as itself. -/
theorem unpack_of_unbroken {value : String} (hne : value ≠ "") (h : Unbroken value) :
    unpack value = [value] := by
  unfold unpack
  rw [splitWhitespace_of_unbroken h (by simpa using hne)]
  simp

/-- **What was read can be packed again**, and is read as it was. -/
theorem exists_pack {values : List String} (h : ∀ v ∈ values, v ≠ "" ∧ Unbroken v) :
    ∃ s, pack values = .ok s ∧ unpack s = values := by
  have hpackable : ∀ v ∈ values, Packable v := by
    intro v hv
    refine ⟨(h v hv).1, fun hsep => ?_⟩
    have hspace := (h v hv).2 separator hsep
    exact absurd hspace (by decide)
  have hpack := pack_ok.mpr ⟨hpackable, String.toList_ofList (l := separator :: terminated values)⟩
  exact ⟨_, hpack, (unpack_eq_iff hpack).mpr fun v hv => (h v hv).2⟩

/-! ### Searching for a value -/

/-- Something that starts with a separator is not found before the first one. -/
theorem infix_after_word {x v rest : List Char} (hv : separator ∉ v)
    (h : separator :: x <:+: v ++ separator :: rest) : separator :: x <:+: separator :: rest := by
  induction v with
  | nil => exact h
  | cons c v ih =>
    rw [List.cons_append] at h
    rcases List.infix_cons_iff.mp h with h | h
    · have hc := (List.cons_prefix_cons.mp h).1
      exact absurd (hc ▸ List.mem_cons_self) hv
    · exact ih (fun hm => hv (List.mem_cons_of_mem _ hm)) h

/-- **The needle of a value is found exactly where the value was packed.** -/
theorem infix_terminated {value : String} {values : List String} (hv : Packable value)
    (h : ∀ v ∈ values, Packable v) :
    separator :: (value.toList ++ [separator]) <:+: separator :: terminated values ↔
      value ∈ values := by
  induction values with
  | nil =>
    simp only [List.not_mem_nil, iff_false]
    intro hin
    have hlen := hin.length_le
    simp at hlen
  | cons u values ih =>
    have hu : separator ∉ u.toList := (h u List.mem_cons_self).2
    have ih := ih fun w hw => h w (List.mem_cons_of_mem _ hw)
    rw [terminated_cons, List.mem_cons, ← ih]
    constructor
    · intro hin
      rcases List.infix_cons_iff.mp hin with hpre | hin
      · obtain ⟨t, ht⟩ := (List.cons_prefix_cons.mp hpre).2
        rw [List.append_assoc, List.singleton_append] at ht
        exact Or.inl (String.toList_inj.mp (Lib.Framing.word_unique hv.2 hu ht).1)
      · exact Or.inr (infix_after_word hu hin)
    · rintro (rfl | hin)
      · refine ⟨[], terminated values, ?_⟩
        simp
      · refine hin.trans ⟨separator :: u.toList, [], ?_⟩
        simp

/-- **The three ways to read a packed column agree exactly on values without white space.** For
every list that `pack` accepts: `unpack` gives the values back, and `contains` and a search for the
needle both find the packed values and no other, if and only if no value has white space. -/
theorem packed_column_iff {values : List String} {s : String} (h : pack values = .ok s) :
    (unpack s = values ∧ ∀ v, (∃ t, pack [v] = .ok t) →
      ((contains s v = true ↔ v ∈ values) ∧ (v ∈ values ↔ HasSubstring s (needle v)))) ↔
    ∀ v ∈ values, Unbroken v := by
  refine ⟨fun hall => (unpack_eq_iff h).mp hall.1, fun hu => ?_⟩
  have hunpack := (unpack_eq_iff h).mpr hu
  obtain ⟨hp, hs⟩ := pack_ok.mp h
  refine ⟨hunpack, fun v hv => ?_⟩
  have hv := packable_iff.mp hv
  constructor
  · unfold contains
    rw [hunpack]
    simp [hv.1]
  · unfold HasSubstring needle
    rw [hs, String.toList_ofList]
    exact (infix_terminated hv hp).symm

theorem packed_column_iff_two :
    pack ["sms:send", "sms:read"] = .ok " sms:send sms:read " ∧
      unpack " sms:send sms:read " = ["sms:send", "sms:read"] := by
  have h : pack ["sms:send", "sms:read"] = .ok " sms:send sms:read " := by decide
  have hall : ["sms:send", "sms:read"].all (fun v => v.toList.all fun c => !isWhitespace c) =
      true := by decide
  have hu : ∀ v ∈ ["sms:send", "sms:read"], Unbroken v := by
    intro v hv c hc
    simpa using List.all_eq_true.mp (List.all_eq_true.mp hall v hv) c hc
  exact ⟨h, ((packed_column_iff h).mpr hu).1⟩

/-- `pack` accepts a value with a tab in it, and `unpack` reads it as two. -/
theorem tab_splits_value : ¬ ∀ values s, pack values = .ok s →
    unpack s = values ∧ ∀ v, (∃ t, pack [v] = .ok t) →
      ((contains s v = true ↔ v ∈ values) ∧ (v ∈ values ↔ HasSubstring s (needle v))) := by
  intro hall
  have hread := (hall ["a\tb"] " a\tb " (by decide)).1
  revert hread
  decide

end Vsms.Core.Pack
