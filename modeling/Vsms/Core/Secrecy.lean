import Vsms.Core.Placeholders
import Mathlib.Data.List.Forall2

/-! # Errors and secrets

The keys of the secrets are collected before the walk and compared with the keys that the walk makes
up as it goes, in which a provider is named by its code. Two documents that differ only in strings
that the walk takes for secrets, blank in the one, give the same error, unless the error is one of a
secret (`findSome_blanks`). Blanking a code changes the label of its provider, but then all of that
provider is taken for a secret (`hidden_of_code`).

So an error about a secret names a key, or the variable that a secret refers to, and every other
error is the one that the document gives with its secrets blanked (`errors_hide_secrets`). -/

namespace Vsms.Core.Secrecy

open Vsms.Lib.Words Vsms.Core.Placeholders

/-! ## Blanked documents -/

section blank
variable (secretKeys : List String)

mutual

/-- **The document with the strings at and under the keys of secrets blanked**, of which `path` is
the key. -/
def blankAt : String → Value → Value
  | path, .string text => .string (if secretPlace path secretKeys = .outside then text else "")
  | path, .array items => .array (blankItems path 0 items)
  | path, .dict entries => .dict (blankEntries path entries)
  | _, .char c => .char c
  | _, .bool b => .bool b
  | _, .num text => .num text
  | _, .empty => .empty

def blankItems (path : String) : ℕ → List Value → List Value
  | _, [] => []
  | index, item :: items =>
      blankAt (itemPath path index item) item :: blankItems path (index + 1) items

def blankEntries (path : String) : List (String × Value) → List (String × Value)
  | [] => []
  | (name, child) :: entries =>
      (name, blankAt (entryPath path name) child) :: blankEntries path entries

end

/-- One leaf stands for another: it is the same, or blank where the other is a secret. -/
def Blanks (leaf leaf' : String × String) : Prop :=
  leaf' = leaf ∨ (secretPlace leaf.1 secretKeys ≠ .outside ∧ leaf'.2 = "")

end blank

section blanks
variable {env : String → Option String} {secretKeys : List String}

/-- **Two runs on leaves that stand for each other** end with the same error, unless it is one of a
secret. -/
theorem findSome_blanks {ls ls' : List (String × String)}
    (h : List.Forall₂ (Blanks secretKeys) ls ls') {error : ConfigError}
    (herror : ls.findSome? (leafError env secretKeys) = some error) :
    (∃ leaf ∈ ls, secretPlace leaf.1 secretKeys ≠ .outside ∧
      leafError env secretKeys leaf = some error) ∨
      ls'.findSome? (leafError env secretKeys) = some error := by
  induction h with
  | nil => cases herror
  | @cons leaf leaf' ls ls' hleaf _ ih =>
    rw [List.findSome?_cons] at herror
    cases hfirst : leafError env secretKeys leaf with
    | some e =>
      rw [hfirst] at herror
      obtain rfl := Option.some.inj herror
      rcases hleaf with rfl | ⟨hplace, -⟩
      · exact .inr (by rw [List.findSome?_cons, hfirst])
      · exact .inl ⟨leaf, List.mem_cons_self, hplace, hfirst⟩
    | none =>
      rw [hfirst] at herror
      have hfirst' : leafError env secretKeys leaf' = none := by
        rcases hleaf with rfl | ⟨-, hblank⟩
        · exact hfirst
        · obtain ⟨key, text⟩ := leaf'
          obtain rfl : text = "" := hblank
          exact leafError_empty key
      rcases ih herror with ⟨l, hl, hplace, hle⟩ | hrest
      · exact .inl ⟨l, List.mem_cons_of_mem _ hl, hplace, hle⟩
      · exact .inr (by rw [List.findSome?_cons, hfirst']; exact hrest)

mutual

/-- Where every leaf is a secret, it does not matter what the keys are afterwards. -/
theorem blanks_of_hidden (path path' : String) : (value : Value) →
    (∀ leaf ∈ leavesAt path value, secretPlace leaf.1 secretKeys ≠ .outside) →
    List.Forall₂ (Blanks secretKeys) (leavesAt path value)
      (leavesAt path' (blankAt secretKeys path value))
  | .string text, h => by
    have hplace := h (path, text) (by simp [leavesAt])
    rw [blankAt, if_neg hplace, leavesAt, leavesAt]
    exact .cons (.inr ⟨hplace, rfl⟩) .nil
  | .array items, h => by
    rw [blankAt, leavesAt, leavesAt]
    exact blanks_of_hiddenItems path path' 0 items h
  | .dict entries, h => by
    rw [blankAt, leavesAt, leavesAt]
    exact blanks_of_hiddenEntries path path' entries h
  | .char _, _ => .nil
  | .bool _, _ => .nil
  | .num _, _ => .nil
  | .empty, _ => .nil

theorem blanks_of_hiddenItems (path path' : String) : (index : ℕ) → (items : List Value) →
    (∀ leaf ∈ leavesItems path index items, secretPlace leaf.1 secretKeys ≠ .outside) →
    List.Forall₂ (Blanks secretKeys) (leavesItems path index items)
      (leavesItems path' index (blankItems secretKeys path index items))
  | _, [], _ => .nil
  | index, item :: items, h => by
    rw [leavesItems] at h
    rw [blankItems, leavesItems, leavesItems]
    refine List.rel_append ?_ ?_
    · exact blanks_of_hidden _ _ item fun leaf hleaf => h leaf (List.mem_append_left _ hleaf)
    · exact blanks_of_hiddenItems path path' (index + 1) items fun leaf hleaf =>
        h leaf (List.mem_append_right _ hleaf)

theorem blanks_of_hiddenEntries (path path' : String) : (entries : List (String × Value)) →
    (∀ leaf ∈ leavesEntries path entries, secretPlace leaf.1 secretKeys ≠ .outside) →
    List.Forall₂ (Blanks secretKeys) (leavesEntries path entries)
      (leavesEntries path' (blankEntries secretKeys path entries))
  | [], _ => .nil
  | (name, child) :: entries, h => by
    rw [leavesEntries] at h
    rw [blankEntries, leavesEntries, leavesEntries]
    refine List.rel_append ?_ ?_
    · exact blanks_of_hidden _ _ child fun leaf hleaf => h leaf (List.mem_append_left _ hleaf)
    · exact blanks_of_hiddenEntries path path' entries fun leaf hleaf =>
        h leaf (List.mem_append_right _ hleaf)

end

end blanks

/-! ## Keys -/

/-- The rest of a key goes on below what comes before it. -/
def Below (rest : List Char) : Prop := rest.head? = some '.' ∨ rest.head? = some '['

theorem below_append {rest more : List Char} (h : Below rest) : Below (rest ++ more) := by
  cases rest with
  | nil => rcases h with h | h <;> cases h
  | cons c rest => exact h

/-- **What stands at the key of a secret or under it.** -/
theorem secretPlace_ne_outside {key : String} {secretKeys : List String} :
    secretPlace key secretKeys ≠ .outside ↔
      key ∈ secretKeys ∨ ∃ secret ∈ secretKeys, ∃ rest,
      key.toList = secret.toList ++ rest ∧ Below rest := by
  have hunder : (secretKeys.any fun secret => (secret.toList.isPrefixOf? key.toList).any fun rest =>
      rest.head? = some '.' || rest.head? = some '[') = true ↔
      ∃ secret ∈ secretKeys, ∃ rest, key.toList = secret.toList ++ rest ∧ Below rest := by
    rw [List.any_eq_true]
    refine exists_congr fun secret => and_congr_right fun _ => ?_
    rw [Option.any_eq_true]
    refine exists_congr fun rest => ?_
    rw [isPrefixOf_eq_some]
    simp [Below]
  unfold secretPlace
  rw [← hunder]
  split_ifs with hmem hunder' <;> simp_all

theorem entryPath_toList {path : String} (hpath : path ≠ "") (name : String) :
    (entryPath path name).toList = path.toList ++ '.' :: name.toList := by
  unfold entryPath
  rw [if_neg hpath]
  simp

theorem toList_label : "providers[code=".toList = "providers".toList ++ "[code=".toList := rfl

theorem label_rest (entry : List (String × Value)) :
    "providers".toList.isPrefixOf? (providerLabel entry).toList =
      some ("[code=" ++ ((entry.lookup "code").bind Value.asStr).getD "?" ++ "]").toList := by
  refine isPrefixOf_eq_some.mpr ?_
  unfold providerLabel
  rw [String.toList_append, String.toList_append, toList_label, String.toList_append,
    String.toList_append]
  simp only [List.append_assoc]

theorem itemPath_toList (path : String) (index : ℕ) (item : Value) :
    ∃ rest, (itemPath path index item).toList = path.toList ++ rest ∧ Below rest := by
  have hindex : ∃ rest, (path ++ "[" ++ toString index ++ "]").toList = path.toList ++ rest ∧
      Below rest :=
    ⟨'[' :: ((toString index).toList ++ [']']), by simp, .inr rfl⟩
  unfold itemPath
  split
  · rename_i entry _
    split_ifs with hproviders
    · refine ⟨_, String.toList_append, ?_⟩
      rw [label_rest, String.toList_ofList]
      exact .inr (by simp)
    · exact hindex
  · exact hindex

/-- A provider is under its label. -/
theorem itemPath_provider (index : ℕ) (entry : List (String × Value)) :
    itemPath "providers" index (.dict entry) = providerLabel entry := by
  unfold itemPath
  dsimp only [Value.asDict]
  rw [if_pos rfl, label_rest, Option.getD_some, String.ofList_toList, ← String.toList_inj,
    String.toList_append]
  exact (isPrefixOf_eq_some.mp (label_rest entry)).symm

theorem path_ne_empty {path path' : String} {rest : List Char}
    (h : path'.toList = path.toList ++ rest) (hpath : path ≠ "") : path' ≠ "" := by
  rintro rfl
  rw [String.toList_empty] at h
  exact hpath (String.toList_inj.mp (List.append_eq_nil_iff.mp h.symm).1)

mutual

/-- **The keys of the leaves** of what is at a key are that key or below it. -/
theorem leaves_below {path : String} (hpath : path ≠ "") :
    (value : Value) → ∀ leaf ∈ leavesAt path value,
    ∃ rest, leaf.1.toList = path.toList ++ rest ∧ (rest = [] ∨ Below rest)
  | .string text, leaf, hleaf => by
    obtain rfl := List.mem_singleton.mp hleaf
    exact ⟨[], by simp, .inl rfl⟩
  | .array items, leaf, hleaf => by
    obtain ⟨rest, hrest, hbelow⟩ := leaves_belowItems hpath 0 items leaf hleaf
    exact ⟨rest, hrest, .inr hbelow⟩
  | .dict entries, leaf, hleaf => by
    obtain ⟨rest, hrest⟩ := leaves_belowEntries hpath entries leaf hleaf
    exact ⟨'.' :: rest, hrest, .inr (.inl rfl)⟩
  | .char _, _, hleaf => by cases hleaf
  | .bool _, _, hleaf => by cases hleaf
  | .num _, _, hleaf => by cases hleaf
  | .empty, _, hleaf => by cases hleaf

theorem leaves_belowItems {path : String} (hpath : path ≠ "") : (index : ℕ) → (items : List Value) →
    ∀ leaf ∈ leavesItems path index items, ∃ rest, leaf.1.toList = path.toList ++ rest ∧ Below rest
  | _, [], _, hleaf => by cases hleaf
  | index, item :: items, leaf, hleaf => by
    rcases List.mem_append.mp hleaf with hleaf | hleaf
    · obtain ⟨step, hstep, hbelow⟩ := itemPath_toList path index item
      obtain ⟨rest, hrest, -⟩ := leaves_below (path_ne_empty hstep hpath) item leaf hleaf
      exact ⟨step ++ rest, by rw [hrest, hstep, List.append_assoc], below_append hbelow⟩
    · exact leaves_belowItems hpath (index + 1) items leaf hleaf

theorem leaves_belowEntries {path : String} (hpath : path ≠ "") :
    (entries : List (String × Value)) →
    ∀ leaf ∈ leavesEntries path entries, ∃ rest, leaf.1.toList = path.toList ++ '.' :: rest
  | [], _, hleaf => by cases hleaf
  | (name, child) :: entries, leaf, hleaf => by
    rcases List.mem_append.mp hleaf with hleaf | hleaf
    · have hstep := entryPath_toList hpath name
      obtain ⟨rest, hrest, -⟩ := leaves_below (path_ne_empty hstep hpath) child leaf hleaf
      exact ⟨name.toList ++ rest, by rw [hrest, hstep, List.append_assoc, List.cons_append]⟩
    · exact leaves_belowEntries hpath entries leaf hleaf

end

/-! ## A provider whose code is blanked -/

section provider
variable {secretKeys : List String}

theorem lookup_blankEntries (path name : String) (entries : List (String × Value)) :
    (blankEntries secretKeys path entries).lookup name =
      (entries.lookup name).map (blankAt secretKeys (entryPath path name)) := by
  induction entries with
  | nil => rfl
  | cons entry entries ih =>
    obtain ⟨name', child⟩ := entry
    rw [blankEntries, List.lookup_cons, List.lookup_cons]
    by_cases hname : name = name'
    · subst hname
      simp
    · have hne : (name == name') = false := by simpa using hname
      simp [hne, ih]

theorem providerLabel_ne_empty (entry : List (String × Value)) : providerLabel entry ≠ "" := by
  intro h
  have hchars := isPrefixOf_eq_some.mp (label_rest entry)
  rw [h] at hchars
  simp at hchars

/-- **If the code of a provider is a secret, all of it is**: the key of a secret that `.code` is
below is one that the whole provider is below. -/
theorem hidden_of_code (hkeys : ∀ secret ∈ secretKeys, secret.toList.getLast? ≠ some 'e')
    {entries : List (String × Value)} {path : String} (hpath : path ≠ "")
    (hcode : secretPlace (entryPath path "code") secretKeys ≠ .outside) :
    ∀ leaf ∈ leavesEntries path entries, secretPlace leaf.1 secretKeys ≠ .outside := by
  intro leaf hleaf
  obtain ⟨below, hleaf⟩ := leaves_belowEntries hpath entries leaf hleaf
  rw [secretPlace_ne_outside, entryPath_toList hpath] at hcode
  rcases hcode with hmem | ⟨secret, hsecret, rest, hrest, hbelow⟩
  · refine absurd ?_ (hkeys _ hmem)
    rw [entryPath_toList hpath, show "code".toList = ['c', 'o', 'd', 'e'] from rfl]
    simp
  · refine secretPlace_ne_outside.mpr (.inr ⟨secret, hsecret, ?_⟩)
    rcases List.append_eq_append_iff.mp hrest with ⟨mid, hmid, hcode⟩ | ⟨mid, hmid, hcode⟩
    · cases mid with
      | nil =>
        rw [List.append_nil] at hmid
        exact ⟨'.' :: below, by rw [hleaf, hmid], .inl rfl⟩
      | cons c mid =>
        -- What is below the key would be in `code`.
        have hhead : ∀ c ∈ rest.head?, c ∈ "code".toList := by
          intro c hc
          rw [(List.cons.inj hcode).2]
          exact List.mem_append_right _ (List.mem_of_mem_head? hc)
        rcases hbelow with hbelow | hbelow
        · exact absurd (hhead _ hbelow) (by decide)
        · exact absurd (hhead _ hbelow) (by decide)
    · refine ⟨mid ++ '.' :: below, by rw [hleaf, hmid, List.append_assoc], ?_⟩
      cases mid with
      | nil => exact .inl rfl
      | cons c mid =>
        rw [hcode] at hbelow
        exact hbelow

/-- **The key of an item is the same after blanking**, or all of the item is a secret. -/
theorem itemPath_blank (hkeys : ∀ secret ∈ secretKeys, secret.toList.getLast? ≠ some 'e')
    (path : String) (index : ℕ) (item : Value) :
    itemPath path index (blankAt secretKeys (itemPath path index item) item) =
      itemPath path index item ∨
      ∀ leaf ∈ leavesAt (itemPath path index item) item,
      secretPlace leaf.1 secretKeys ≠ .outside := by
  cases item with
  | dict entries =>
    by_cases hproviders : path = "providers"
    · subst hproviders
      rw [itemPath_provider, blankAt, itemPath_provider]
      by_cases hcode : secretPlace (entryPath (providerLabel entries) "code") secretKeys = .outside
      · left
        have hsame :
          ((blankEntries secretKeys (providerLabel entries) entries).lookup "code").bind
          Value.asStr =
            (entries.lookup "code").bind Value.asStr := by
          rw [lookup_blankEntries]
          cases entries.lookup "code" with
          | none => rfl
          | some code => cases code <;> simp [blankAt, Value.asStr, hcode]
        unfold providerLabel at hsame ⊢
        rw [hsame]
      · exact .inr (hidden_of_code hkeys (providerLabel_ne_empty entries) hcode)
    · left
      simp [itemPath, blankAt, Value.asDict, hproviders]
  | string text => exact .inl rfl
  | array items => exact .inl rfl
  | char c => exact .inl rfl
  | bool b => exact .inl rfl
  | num text => exact .inl rfl
  | empty => exact .inl rfl

mutual

/-- **The blanked document** has blanks for its secrets, and otherwise the same leaves. -/
theorem blanks_blankAt (hkeys : ∀ secret ∈ secretKeys, secret.toList.getLast? ≠ some 'e')
    (path : String) :
    (value : Value) →
    List.Forall₂ (Blanks secretKeys) (leavesAt path value)
      (leavesAt path (blankAt secretKeys path value))
  | .string text => by
    rw [blankAt, leavesAt, leavesAt]
    split_ifs with hplace
    · exact .cons (.inl rfl) .nil
    · exact .cons (.inr ⟨hplace, rfl⟩) .nil
  | .array items => by
    rw [blankAt, leavesAt, leavesAt]
    exact blanks_blankItems hkeys path 0 items
  | .dict entries => by
    rw [blankAt, leavesAt, leavesAt]
    exact blanks_blankEntries hkeys path entries
  | .char _ => .nil
  | .bool _ => .nil
  | .num _ => .nil
  | .empty => .nil

theorem blanks_blankItems (hkeys : ∀ secret ∈ secretKeys, secret.toList.getLast? ≠ some 'e')
    (path : String) :
    (index : ℕ) → (items : List Value) →
    List.Forall₂ (Blanks secretKeys) (leavesItems path index items)
      (leavesItems path index (blankItems secretKeys path index items))
  | _, [] => .nil
  | index, item :: items => by
    rw [blankItems, leavesItems, leavesItems]
    refine List.rel_append ?_ (blanks_blankItems hkeys path (index + 1) items)
    rcases itemPath_blank hkeys path index item with hsame | hhidden
    · rw [hsame]
      exact blanks_blankAt hkeys _ item
    · exact blanks_of_hidden _ _ item hhidden

theorem blanks_blankEntries (hkeys : ∀ secret ∈ secretKeys, secret.toList.getLast? ≠ some 'e')
    (path : String) :
    (entries : List (String × Value)) →
    List.Forall₂ (Blanks secretKeys) (leavesEntries path entries)
      (leavesEntries path (blankEntries secretKeys path entries))
  | [] => .nil
  | (name, child) :: entries => by
    rw [blankEntries, leavesEntries, leavesEntries]
    exact List.rel_append (blanks_blankAt hkeys _ child) (blanks_blankEntries hkeys path entries)

end

end provider

/-! ## The keys collected and the keys of the walk -/

theorem leavesEntries_of_lookup (path : String) {name : String} {child : Value}
    {entries : List (String × Value)} (h : entries.lookup name = some child) :
    leavesAt (entryPath path name) child ⊆ leavesEntries path entries := by
  induction entries with
  | nil => cases h
  | cons entry entries ih =>
    obtain ⟨name', child'⟩ := entry
    rw [List.lookup_cons] at h
    rw [leavesEntries]
    cases hne : name == name' with
    | true =>
      rw [hne] at h
      obtain rfl : name = name' := by simpa using hne
      obtain rfl := Option.some.inj h
      exact List.subset_append_left _ _
    | false =>
      rw [hne] at h
      exact fun leaf hleaf => List.mem_append_right _ (ih h hleaf)

theorem eq_dict {value : Value} {entries : List (String × Value)}
    (h : value.asDict = some entries) :
    value = .dict entries := by
  cases value with
  | dict entries' => exact congrArg Value.dict (Option.some.inj h)
  | _ => cases h

theorem leavesAt_of_findRef (path : String) {keys : List String} {value found : Value}
    (h : value.findRef keys = some found) :
    leavesAt (keys.foldl entryPath path) found ⊆ leavesAt path value := by
  induction keys generalizing path value with
  | nil =>
    obtain rfl := Option.some.inj h
    exact List.Subset.refl _
  | cons key keys ih =>
    obtain ⟨entries, hentries, hrest⟩ := Option.bind_eq_some_iff.mp h
    obtain ⟨child, hchild, hfound⟩ := Option.bind_eq_some_iff.mp hrest
    obtain rfl := eq_dict hentries
    exact fun leaf hleaf => leavesEntries_of_lookup path hchild (ih _ hfound hleaf)

theorem leavesItems_of_mem (path : String) {item : Value} {items : List Value} (h : item ∈ items)
    (start : ℕ) :
    ∃ index, leavesAt (itemPath path index item) item ⊆ leavesItems path start items := by
  induction items generalizing start with
  | nil => cases h
  | cons item' items ih =>
    rw [leavesItems]
    rcases List.mem_cons.mp h with rfl | h
    · exact ⟨start, List.subset_append_left _ _⟩
    · obtain ⟨index, hindex⟩ := ih h (start + 1)
      exact ⟨index, fun leaf hleaf => List.mem_append_right _ (hindex hleaf)⟩

/-- A secret of a provider, with the steps that lead to it. -/
theorem mem_providerSecrets {provider : Value} {entry : String × Value}
    (h : entry ∈ providerSecrets provider) :
    ∃ fields credentials key, provider = .dict fields ∧
      fields.lookup "credentials" = some (.dict credentials) ∧
      key ∈ secretCredentialKeys ∧ credentials.lookup key = some entry.2 ∧
      entry.1 = providerLabel fields ++ ".credentials." ++ key := by
  unfold providerSecrets at h
  split at h
  · cases h
  · rename_i fields hfields
    split at h
    · cases h
    · rename_i credentials hcredentials
      obtain ⟨found, hfound, hdict⟩ := Option.bind_eq_some_iff.mp hcredentials
      obtain ⟨key, hkey, h⟩ := List.mem_filterMap.mp h
      obtain ⟨value, hvalue, rfl⟩ := Option.map_eq_some_iff.mp h
      obtain rfl := eq_dict hfields
      obtain rfl := eq_dict hdict
      exact ⟨fields, credentials, key, rfl, hfound, hkey, hvalue, rfl⟩

/-- The three kinds of secrets. -/
theorem mem_secretEntries {document : Value} {entry : String × Value}
    (h : entry ∈ secretEntries document) :
    (entry.1 = "security.hash_pepper" ∧
      document.findRef ["security", "hash_pepper"] = some entry.2) ∨
    (entry.1 = "human_login.sso.client_secret" ∧
      document.findRef ["human_login", "sso", "client_secret"] = some entry.2) ∨
    ∃ items, document.findRef ["providers"] = some (.array items) ∧
      ∃ provider ∈ items, entry ∈ providerSecrets provider := by
  unfold secretEntries at h
  rcases List.mem_append.mp h with h | h
  · rcases List.mem_append.mp h with h | h
    · rw [Option.mem_toList] at h
      obtain ⟨value, hvalue, rfl⟩ := Option.map_eq_some_iff.mp h
      exact .inl ⟨rfl, hvalue⟩
    · rw [Option.mem_toList] at h
      obtain ⟨value, hvalue, rfl⟩ := Option.map_eq_some_iff.mp h
      exact .inr (.inl ⟨rfl, hvalue⟩)
  · obtain ⟨provider, hprovider, h⟩ := List.mem_flatMap.mp h
    cases hfound : document.findRef ["providers"] with
    | none =>
      rw [hfound] at hprovider
      cases hprovider
    | some found =>
      rw [hfound] at hprovider
      cases found with
      | array items => exact .inr (.inr ⟨items, rfl, provider, hprovider, h⟩)
      | _ => cases hprovider

/-- No key of a secret ends in an `e`. -/
theorem getLast_secretKeys (document : Value) :
    ∀ secret ∈ secretKeys document, secret.toList.getLast? ≠ some 'e' := by
  intro secret hsecret
  obtain ⟨entry, hentry, rfl⟩ := List.mem_map.mp hsecret
  rcases mem_secretEntries hentry with ⟨hkey, -⟩ | ⟨hkey, -⟩ | ⟨items, -, provider, -, hentry⟩
  · rw [hkey]
    decide
  · rw [hkey]
    decide
  · obtain ⟨fields, credentials, key, -, -, hkey, -, hlabel⟩ := mem_providerSecrets hentry
    rw [hlabel, String.toList_append]
    rcases List.mem_pair.mp hkey with rfl | rfl <;> simp

/-- **The walk comes to every secret under the key it was collected with.** -/
theorem leaves_of_secretEntry {document : Value} {entry : String × Value}
    (h : entry ∈ secretEntries document) : leavesAt entry.1 entry.2 ⊆ leaves document := by
  unfold leaves
  rcases mem_secretEntries h with
    ⟨hkey, hfound⟩ | ⟨hkey, hfound⟩ | ⟨items, hitems, provider, hprovider, h⟩
  · have hpath : ["security", "hash_pepper"].foldl entryPath "" = "security.hash_pepper" := by
      decide
    rw [hkey, ← hpath]
    exact leavesAt_of_findRef "" hfound
  · have hpath : ["human_login", "sso", "client_secret"].foldl entryPath "" =
        "human_login.sso.client_secret" := by decide
    rw [hkey, ← hpath]
    exact leavesAt_of_findRef "" hfound
  · obtain ⟨fields, credentials, key, rfl, hcredentials, -, hkey, hlabel⟩ := mem_providerSecrets h
    have hdocument := leavesAt_of_findRef "" hitems
    obtain ⟨index, hindex⟩ := leavesItems_of_mem "providers" hprovider 0
    rw [itemPath_provider] at hindex
    have hentry := leavesEntries_of_lookup (providerLabel fields) hcredentials
    have hsecret := leavesEntries_of_lookup (entryPath (providerLabel fields) "credentials") hkey
    have hpath : entryPath (entryPath (providerLabel fields) "credentials") key = entry.1 := by
      have hlabel' := providerLabel_ne_empty fields
      have hcredentials' := path_ne_empty (entryPath_toList hlabel' "credentials") hlabel'
      rw [hlabel, ← String.toList_inj, entryPath_toList hcredentials', entryPath_toList hlabel']
      simp
    rw [hpath] at hsecret
    exact fun leaf hleaf => hdocument (hindex (hentry (hsecret hleaf)))

/-- **What is in a secret is hidden**, at any depth. -/
theorem hidden_of_secretEntry {document : Value} {entry : String × Value}
    (h : entry ∈ secretEntries document) :
    ∀ leaf ∈ leavesAt entry.1 entry.2, secretPlace leaf.1 (secretKeys document) ≠ .outside := by
  intro leaf hleaf
  have hmem : entry.1 ∈ secretKeys document := List.mem_map_of_mem h
  have hne : entry.1 ≠ "" := by
    intro hempty
    rcases mem_secretEntries h with ⟨hkey, -⟩ | ⟨hkey, -⟩ | ⟨items, -, provider, -, h⟩
    · exact absurd (hkey.symm.trans hempty) (by decide)
    · exact absurd (hkey.symm.trans hempty) (by decide)
    · obtain ⟨fields, credentials, key, -, -, -, -, hlabel⟩ := mem_providerSecrets h
      rw [hlabel, String.append_eq_empty_iff, String.append_eq_empty_iff] at hempty
      exact providerLabel_ne_empty fields hempty.1.1
  obtain ⟨rest, hrest, hbelow⟩ := leaves_below hne entry.2 leaf hleaf
  rw [secretPlace_ne_outside]
  rcases hbelow with rfl | hbelow
  · rw [List.append_nil] at hrest
    exact .inl (String.toList_inj.mp hrest ▸ hmem)
  · exact .inr ⟨entry.1, hmem, rest, hrest, hbelow⟩

/-- **An error never shows a secret.** For every document and every environment: the error of the
walk has the key of a leaf at or under a secret and nothing else, or the name of the variable of a
secret that is one whole placeholder, or it is the error that the document gives when every string
at or under the key of a secret is blank. And all that is in a secret is such a string. -/
theorem errors_hide_secrets (document : Value) (env : String → Option String) :
    (∀ error, resolvePlaceholders env (secretKeys document) document = .error error →
      (∃ key text, (key, text) ∈ leaves document ∧
        secretPlace key (secretKeys document) ≠ .outside ∧
        error = .secretNotAPlaceholder key) ∨
      (∃ key ∈ secretKeys document, ∃ name, isEnvVarName name.toList = true ∧
        (key, "$\x7b" ++ name ++ "\x7d") ∈ leaves document ∧ error = .unresolvedPlaceholder name) ∨
      resolvePlaceholders env (secretKeys document) (blankAt (secretKeys document) "" document) =
        .error error) ∧
    ∀ entry ∈ secretEntries document, ∀ leaf ∈ leavesAt entry.1 entry.2, leaf ∈ leaves document ∧
      secretPlace leaf.1 (secretKeys document) ≠ .outside := by
  refine ⟨fun error h => ?_, fun entry hentry leaf hleaf =>
    ⟨leaves_of_secretEntry hentry hleaf, hidden_of_secretEntry hentry leaf hleaf⟩⟩
  have herror := errorOf_resolveAt env (secretKeys document) "" document
  change errorOf (resolvePlaceholders env (secretKeys document) document) = _ at herror
  rw [h] at herror
  have hblanks := blanks_blankAt (getLast_secretKeys document) "" document
  rcases findSome_blanks hblanks herror.symm with ⟨leaf, hleaf, hplace, hfails⟩ | hsame
  · rcases leafError_of_secret hplace hfails with hkey | ⟨hkey, name, hname, htext, hunset⟩
    · exact .inl ⟨leaf.1, leaf.2, hleaf, hplace, hkey⟩
    · refine .inr
        (.inl ⟨leaf.1, hkey, String.ofList name, by rwa [String.toList_ofList], ?_, hunset⟩)
      have hwhole : "$\x7b" ++ String.ofList name ++ "\x7d" = leaf.2 := by
        rw [← String.toList_inj, htext]
        simp
      rw [hwhole]
      exact hleaf
  · refine .inr (.inr ?_)
    rw [← errorOf_resolveAt] at hsame
    exact error_of_errorOf hsame

/-! ### A secret with a placeholder that does not close -/

def sampleDocument : Value :=
  .dict [("providers", .array [.dict [("code", .string "orange_cm"),
      ("credentials", .dict [("client_secret", .string "s3cr3t-$\x7b")])]]),
    ("security", .dict [("hash_pepper", .string "$\x7bHASH_PEPPER\x7d")])]

theorem errors_hide_secrets_sample :
    (∃ key text, (key, text) ∈ leaves sampleDocument ∧
      secretPlace key (secretKeys sampleDocument) ≠ .outside ∧
      ConfigError.secretNotAPlaceholder "providers[code=orange_cm].credentials.client_secret" =
        .secretNotAPlaceholder key) ∧
    ("security.hash_pepper", "$\x7bHASH_PEPPER\x7d") ∈ leaves sampleDocument := by
  obtain ⟨herror, hentry⟩ := errors_hide_secrets sampleDocument fun _ => none
  constructor
  · rcases herror (.secretNotAPlaceholder "providers[code=orange_cm].credentials.client_secret")
      (error_of_errorOf (by decide +kernel)) with h | ⟨_, _, _, _, _, h⟩ | h
    · exact h
    · cases h
    · exact absurd (congrArg errorOf h) (by decide +kernel)
  · exact (hentry ("security.hash_pepper", .string "$\x7bHASH_PEPPER\x7d") (.head _)
      ("security.hash_pepper", "$\x7bHASH_PEPPER\x7d") (.head _)).1

end Vsms.Core.Secrecy
