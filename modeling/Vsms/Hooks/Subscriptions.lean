import Vsms.Hooks.FanOut
import Vsms.Lib.Words

/-! # What an endpoint is subscribed to

The column of an endpoint's event types is read in three ways: the fan-out searches it for the type
with a space on each side, `contains` splits it at white space, and so does the console, which has
another idea of white space than the server: a byte order mark is one, U+0085 is none. Nothing puts
a column that is written through the API in the form that `pack` gives it.

The three agree on a type exactly if it stands between two spaces wherever it is read at all
(`readings_agree_iff`), so not on a column that is just the name of the type
(`bare_type_is_not_selected`). -/

namespace Vsms.Hooks.Subscriptions

open Vsms.Core.Pack Vsms.Lib.Words Vsms.Hooks.FanOut

/-! ## The console -/

/-- `WEBHOOK_EVENT_TYPES`. -/
def webhookEventTypes : List String :=
  ["message.accepted", "message.submitted", "message.delivered", "message.failed",
    "message.expired", "message.uncertain", "message.cancelled"]

/-- `\s` of a regular expression, which is what `String.prototype.trim` takes off. -/
def isJsSpace (c : Char) : Bool :=
  let n := c.toNat
  (9 ≤ n && n ≤ 13) || n = 32 || n = 160 || n = 5760 || (8192 ≤ n && n ≤ 8202) ||
    n = 8232 || n = 8233 ||
    n = 8239 || n = 8287 || n = 12288 || n = 65279

/-- `split(/\s+/)`; `word` holds the current part, last character first, and `run` says that the
character before was white space. -/
def splitRuns : Bool → List Char → List Char → List (List Char)
  | _, word, [] => [word.reverse]
  | run, word, c :: cs =>
    if isJsSpace c then
      if run then splitRuns true [] cs else word.reverse :: splitRuns true [] cs
    else splitRuns false (c :: word) cs

/-- `s.trim()` -/
def jsTrim (l : List Char) : List Char := (l.dropWhile isJsSpace).rdropWhile isJsSpace

def unpackEventTypes (packed : String) : List String :=
  (((splitRuns false [] packed.toList).map jsTrim).filter (· ≠ [])).map String.ofList

/-! ## The readings -/

/-- The words are the parts that are not empty. -/
theorem splitWhitespace_eq (word text : List Char) :
    splitWhitespace word text = (text.splitOnPPrepend isWhitespace word).filter (· ≠ []) := by
  induction text generalizing word with
  | nil =>
    rw [List.splitOnPPrepend_nil, splitWhitespace]
    by_cases hword : word = [] <;> simp [hword]
  | cons c text ih =>
    rw [List.splitOnPPrepend_cons_eq_if, splitWhitespace]
    by_cases hc : isWhitespace c = true
    · rw [if_pos hc, if_pos hc, ih, List.splitOnPPrepend_nil_right]
      by_cases hword : word = [] <;> simp [hword]
    · rw [if_neg hc, if_neg hc, ih]

/-- The parts of the regular expression are the same, but for empty ones. -/
theorem splitRuns_eq (run : Bool) (word text : List Char) (hrun : run = true → word = []) :
    (splitRuns run word text).filter (· ≠ []) =
      (text.splitOnPPrepend isJsSpace word).filter (· ≠ []) := by
  induction text generalizing run word with
  | nil => rfl
  | cons c text ih =>
    rw [List.splitOnPPrepend_cons_eq_if, splitRuns]
    by_cases hc : isJsSpace c = true
    · rw [if_pos hc, if_pos hc]
      have hrest := ih true [] fun _ => rfl
      rw [List.splitOnPPrepend_nil_right] at hrest
      cases run with
      | true => rw [if_pos rfl, hrest, hrun rfl]; rfl
      | false => rw [if_neg (by simp), List.filter_cons, List.filter_cons, hrest]
    · rw [if_neg hc, if_neg hc]
      exact ih false (c :: word) (by simp)

/-- There is nothing to trim off a part. -/
theorem jsTrim_of_mem {run : Bool} {word text x : List Char}
    (hword : ∀ c ∈ word, isJsSpace c = false) (hx : x ∈ splitRuns run word text) :
    jsTrim x = x := by
  have hall : ∀ c ∈ x, isJsSpace c = false := by
    induction text generalizing run word with
    | nil =>
      rw [splitRuns, List.mem_singleton] at hx
      intro c hc
      exact hword c (List.mem_reverse.mp (hx ▸ hc))
    | cons d text ih =>
      unfold splitRuns at hx
      split_ifs at hx with hd hrun
      · exact ih (by simp) hx
      · rcases List.mem_cons.mp hx with rfl | hx
        · exact fun c hc => hword c (List.mem_reverse.mp hc)
        · exact ih (by simp) hx
      · refine ih (fun c hc => ?_) hx
        rcases List.mem_cons.mp hc with rfl | hc
        · simpa using hd
        · exact hword c hc
  exact trim_eq_self hall

/-- No event type has white space in it, of either idea. -/
theorem unbroken_of_mem {t : String} (ht : t ∈ webhookEventTypes) :
    t ≠ "" ∧ (∀ c ∈ t.toList, isWhitespace c = false) ∧ ∀ c ∈ t.toList, isJsSpace c = false := by
  have hall : webhookEventTypes.all (fun t =>
      t ≠ "" ∧ t.toList.all fun c => !isWhitespace c && !isJsSpace c) = true := by decide +kernel
  obtain ⟨hne, hchars⟩ := of_decide_eq_true (List.all_eq_true.mp hall t ht)
  have hc := fun c hc => Bool.and_eq_true_iff.mp (List.all_eq_true.mp hchars c hc)
  exact ⟨hne, fun c h => by simpa using (hc c h).1, fun c h => by simpa using (hc c h).2⟩

/-- The texts that are not empty, of a list of parts. -/
theorem mem_map_ofList {t : String} (hne : t ≠ "") {parts : List (List Char)} :
    t ∈ (parts.filter (· ≠ [])).map String.ofList ↔ t.toList ∈ parts := by
  have hchars : t.toList ≠ [] := by simpa using hne
  constructor
  · intro h
    obtain ⟨x, hx, rfl⟩ := List.mem_map.mp h
    rw [String.toList_ofList]
    exact (List.mem_filter.mp hx).1
  · intro h
    exact List.mem_map.mpr ⟨t.toList, List.mem_filter.mpr ⟨h, by simpa using hchars⟩,
      String.ofList_toList⟩

/-- **The server reads a type** where it stands between what the server splits at. -/
theorem contains_iff_stands {column t : String} (ht : t ∈ webhookEventTypes) :
    contains column t = true ↔ Stands isWhitespace t.toList column.toList := by
  obtain ⟨hne, hunbroken, -⟩ := unbroken_of_mem ht
  rw [contains_iff, unpack, splitWhitespace_eq, List.splitOnPPrepend_nil_right, mem_map_ofList hne,
    mem_splitOnP hunbroken]

/-- **The console reads it** where it stands between what the console splits at. -/
theorem mem_unpackEventTypes {column t : String} (ht : t ∈ webhookEventTypes) :
    t ∈ unpackEventTypes column ↔ Stands isJsSpace t.toList column.toList := by
  obtain ⟨hne, -, hunbroken⟩ := unbroken_of_mem ht
  have htrim : (splitRuns false [] column.toList).map jsTrim = splitRuns false [] column.toList :=
    (List.map_congr_left fun x hx => jsTrim_of_mem (by simp) hx).trans (List.map_id _)
  rw [unpackEventTypes, htrim, splitRuns_eq false [] column.toList (fun _ => rfl),
    List.splitOnPPrepend_nil_right, mem_map_ofList hne, mem_splitOnP hunbroken]

/-- **The fan-out finds it** where it stands between two spaces. -/
def Spaced (t column : String) : Prop :=
  ∃ before after, column.toList = before ++ separator :: (t.toList ++ separator :: after)

theorem hasSubstring_needle {column t : String} : HasSubstring column (needle t) ↔
    Spaced t column := by
  unfold HasSubstring needle Spaced
  rw [String.toList_ofList]
  constructor
  · rintro ⟨before, after, h⟩
    exact ⟨before, after, by rw [← h]; simp⟩
  · rintro ⟨before, after, h⟩
    exact ⟨before, after, by rw [h]; simp⟩

/-- A space is white space for everyone. -/
theorem Spaced.stands {p : Char → Bool} (hp : p separator = true) {t column : String}
    (h : Spaced t column) :
    Stands p t.toList column.toList := by
  obtain ⟨before, after, h⟩ := h
  refine ⟨before ++ [separator], separator :: after, by rw [h]; simp, ?_, ?_⟩
  · intro c hc
    rw [List.getLast?_append_cons, List.getLast?_singleton] at hc
    exact Option.some.inj hc ▸ hp
  · intro c hc
    exact Option.some.inj hc ▸ hp

/-- The three readings agree about a type: the filter of the fan-out, `contains`, and the console.
-/
def Agree (column t : String) : Prop :=
  (HasSubstring column (needle t) ↔ contains column t = true) ∧
    (contains column t = true ↔ t ∈ unpackEventTypes column)

/-- **Where the readings agree.** A column is read alike for an event type exactly if the type
stands between two spaces somewhere in it, or stands nowhere in it by itself: between white space,
of either idea, or the ends of the column. -/
theorem readings_agree_iff (column t : String) (ht : t ∈ webhookEventTypes) :
    Agree column t ↔
      (Stands isWhitespace t.toList column.toList ∨ Stands isJsSpace t.toList column.toList →
        ∃ before after,
        column.toList = before ++ separator :: (t.toList ++ separator :: after)) := by
  have hserver : Spaced t column → Stands isWhitespace t.toList column.toList :=
    Spaced.stands (by decide)
  have hconsole : Spaced t column → Stands isJsSpace t.toList column.toList :=
    Spaced.stands (by decide)
  unfold Agree
  rw [hasSubstring_needle, contains_iff_stands ht, mem_unpackEventTypes ht]
  change _ ↔ (_ → Spaced t column)
  constructor
  · rintro ⟨hfilter, hread⟩ (h | h)
    · exact hfilter.mpr h
    · exact hfilter.mpr (hread.mpr h)
  · intro h
    refine ⟨⟨hserver, fun hs => h (.inl hs)⟩, ?_, ?_⟩
    · exact fun hs => hconsole (h (.inl hs))
    · exact fun hs => hserver (h (.inr hs))

theorem readings_agree_packed : Agree " message.failed message.delivered " "message.delivered" := by
  refine (readings_agree_iff _ _ (by decide)).mpr fun _ => ?_
  exact ⟨" message.failed".toList, [], by decide⟩

/-- **A column that is just the name of the type** shows the endpoint as subscribed, and the fan-out
does not select it. -/
theorem bare_type_is_not_selected :
    ¬ ∀ column t, t ∈ webhookEventTypes →
      (HasSubstring column (needle t) ↔ contains column t = true) ∧
        (contains column t = true ↔ t ∈ unpackEventTypes column) := by
  intro hall
  have h := (hall "message.delivered" "message.delivered" (by decide)).1
  revert h
  decide +kernel

end Vsms.Hooks.Subscriptions
