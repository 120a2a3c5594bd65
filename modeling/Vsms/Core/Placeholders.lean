import Vsms.Lib.Words

/-! # Placeholders in the configuration

The strings of the configuration have placeholders in them, `$` and the name of a variable in
braces, which are replaced by what the environment has. An error says where a placeholder is wrong
and shows it, but a secret is not shown: what stands at the key of a secret, or under it, is named
by its key alone, unless it is one whole placeholder with the name of a variable.

The error of a document is that of the first of its strings that has one (`errorOf_resolveAt`), and
of a string that is a secret it is one of two (`leafError_of_secret`). -/

namespace Vsms.Core.Placeholders

open Vsms.Lib.Words

/-! ## Documents -/

/-- A map is the list of its entries in their order. -/
inductive Value
  | string (text : String)
  | char (c : Char)
  | bool (b : Bool)
  | num (text : String)
  | empty
  | dict (entries : List (String × Value))
  | array (items : List Value)

namespace Value

def asStr : Value → Option String
  | string text => some text
  | _ => none

def asDict : Value → Option (List (String × Value))
  | dict entries => some entries
  | _ => none

def asArray : Value → Option (List Value)
  | array items => some items
  | _ => none

/-- `find_ref`, with the keys between the dots. -/
def findRef : List String → Value → Option Value
  | [], value => some value
  | key :: keys, value => do
    let entries ← value.asDict
    let child ← entries.lookup key
    findRef keys child

end Value

inductive ConfigError
  | malformedPlaceholder (key fragment : String)
  | unresolvedPlaceholder (name : String)
  | secretNotAPlaceholder (key : String)
  deriving DecidableEq, Repr

/-! ## Secrets -/

/-- **`provider_label`** -/
def providerLabel (entry : List (String × Value)) : String :=
  "providers[code=" ++ ((entry.lookup "code").bind Value.asStr).getD "?" ++ "]"

def secretCredentialKeys : List String := ["client_secret", "secret_access_key"]

/-- The secrets of one provider. -/
def providerSecrets (provider : Value) : List (String × Value) :=
  match provider.asDict with
  | none => []
  | some entry =>
    match (entry.lookup "credentials").bind Value.asDict with
    | none => []
    | some credentials =>
      secretCredentialKeys.filterMap fun key =>
        (credentials.lookup key).map (providerLabel entry ++ ".credentials." ++ key, ·)

/-- **`secret_entries`** -/
def secretEntries (document : Value) : List (String × Value) :=
  ((document.findRef ["security", "hash_pepper"]).map ("security.hash_pepper", ·)).toList ++
    ((document.findRef ["human_login", "sso", "client_secret"]).map
      ("human_login.sso.client_secret", ·)).toList ++
    (((document.findRef ["providers"]).bind Value.asArray).getD []).flatMap providerSecrets

/-- The keys of the secrets. -/
def secretKeys (document : Value) : List String := (secretEntries document).map (·.1)

inductive SecretPlace
  | outside
  | exact
  | inside
  deriving DecidableEq, Repr

/-- **`secret_place`** -/
def secretPlace (key : String) (secretKeys : List String) : SecretPlace :=
  if key ∈ secretKeys then .exact
  else if secretKeys.any fun secret =>
      (secret.toList.isPrefixOf? key.toList).any fun rest => rest.head? = some '.' || rest.head? =
        some '[' then
    .inside
  else .outside

/-! ## Strings -/

/-- `[A-Za-z0-9_]` -/
def isNameChar (c : Char) : Bool := c.isAlphanum || c = '_'

/-- **`whole_placeholder_name`** -/
def wholePlaceholderName (text : List Char) : Option (List Char) :=
  (("$\x7b".toList.isPrefixOf? text).bind fun rest => "\x7d".toList.isSuffixOf? rest).filter
    fun name => name ≠ [] && name.all isNameChar

/-- **`is_env_var_name`** -/
def isEnvVarName : List Char → Bool
  | [] => false
  | first :: rest => (first.isUpper || first = '_') && rest.all fun c =>
      c.isUpper || c.isDigit || c = '_'

/-- **`is_whole_secret_placeholder`** -/
def isWholeSecretPlaceholder (text : List Char) : Bool :=
  (wholePlaceholderName text).any isEnvVarName

def fragmentLimit : ℕ := 32

/-- What the placeholder `name` stands for, or why it stands for nothing. -/
def resolveName (env : String → Option String) (hidden : Bool) (key : String) (name : List Char) :
    Except ConfigError (List Char) :=
  if name = [] ∨ name.all isNameChar = false then
    if hidden then .error (.secretNotAPlaceholder key)
    else
      let shown := name.take fragmentLimit
      let ellipsis := if name.length > fragmentLimit then "..." else ""
      .error (.malformedPlaceholder key ("$\x7b" ++ String.ofList shown ++ ellipsis ++ "\x7d"))
  else if hidden ∧ isEnvVarName name = false then .error (.secretNotAPlaceholder key)
  else
    match env (String.ofList name) with
    | some resolved => .ok resolved.toList
    | none =>
      if hidden then .error (.secretNotAPlaceholder key)
      else .error (.unresolvedPlaceholder (String.ofList name))

/-- The loop of `resolve_string`. In a placeholder, `name` is what has been read of its name, last
character first. -/
def resolveLoop (env : String → Option String) (hidden : Bool) (key : String) :
    Option (List Char) → List Char → Except ConfigError (List Char)
  | none, [] => .ok []
  | none, [c] => .ok [c]
  | none, c :: d :: rest =>
    if c = '$' ∧ d = '\x7b' then resolveLoop env hidden key (some []) rest
    else do
      let out ← resolveLoop env hidden key none (d :: rest)
      .ok (c :: out)
  | some _, [] =>
    if hidden then .error (.secretNotAPlaceholder key)
    else .error (.malformedPlaceholder key "$\x7b with no closing \x7d")
  | some name, c :: rest =>
    if c = '\x7d' then do
      let resolved ← resolveName env hidden key name.reverse
      let out ← resolveLoop env hidden key none rest
      .ok (resolved ++ out)
    else resolveLoop env hidden key (some (c :: name)) rest

/-- **`resolve_string`** -/
def resolveString (env : String → Option String) (secretKeys : List String) (key text : String) :
    Except ConfigError String :=
  let hidden : Bool :=
    match secretPlace key secretKeys with
    | .outside => false
    | .exact => !isWholeSecretPlaceholder text.toList
    | .inside => true
  (resolveLoop env hidden key none text.toList).map String.ofList

/-! ## The walk -/

/-- The key of an item: a provider is named by its code. -/
def itemPath (path : String) (index : ℕ) (item : Value) : String :=
  match item.asDict with
  | some entry =>
    if path = "providers" then
      path ++ String.ofList (("providers".toList.isPrefixOf? (providerLabel entry).toList).getD [])
    else path ++ "[" ++ toString index ++ "]"
  | none => path ++ "[" ++ toString index ++ "]"

/-- The key of an entry. -/
def entryPath (path name : String) : String := (if path = "" then path else path ++ ".") ++ name

section walk
variable (env : String → Option String) (secretKeys : List String)

mutual

/-- **`resolve_at`** -/
def resolveAt : String → Value → Except ConfigError Value
  | path, .string text => do
    let text ← resolveString env secretKeys path text
    .ok (.string text)
  | path, .array items => do
    let items ← resolveItems path 0 items
    .ok (.array items)
  | path, .dict entries => do
    let entries ← resolveEntries path entries
    .ok (.dict entries)
  | _, .char c => .ok (.char c)
  | _, .bool b => .ok (.bool b)
  | _, .num text => .ok (.num text)
  | _, .empty => .ok .empty

def resolveItems (path : String) : ℕ → List Value → Except ConfigError (List Value)
  | _, [] => .ok []
  | index, item :: items => do
    let resolved ← resolveAt (itemPath path index item) item
    let rest ← resolveItems path (index + 1) items
    .ok (resolved :: rest)

def resolveEntries (path : String) :
    List (String × Value) → Except ConfigError (List (String × Value))
  | [] => .ok []
  | (name, child) :: entries => do
    let resolved ← resolveAt (entryPath path name) child
    let rest ← resolveEntries path entries
    .ok ((name, resolved) :: rest)

end

/-- **`resolve_placeholders`** -/
def resolvePlaceholders (document : Value) : Except ConfigError Value :=
  resolveAt env secretKeys "" document

end walk

/-! ## Leaves -/

mutual

/-- The strings of a document with their keys, in the order of the walk. -/
def leavesAt : String → Value → List (String × String)
  | path, .string text => [(path, text)]
  | path, .array items => leavesItems path 0 items
  | path, .dict entries => leavesEntries path entries
  | _, .char _ => []
  | _, .bool _ => []
  | _, .num _ => []
  | _, .empty => []

def leavesItems (path : String) : ℕ → List Value → List (String × String)
  | _, [] => []
  | index, item :: items =>
      leavesAt (itemPath path index item) item ++ leavesItems path (index + 1) items

def leavesEntries (path : String) : List (String × Value) → List (String × String)
  | [] => []
  | (name, child) :: entries => leavesAt (entryPath path name) child ++ leavesEntries path entries

end

def leaves (document : Value) : List (String × String) := leavesAt "" document

def errorOf {ε α : Type} : Except ε α → Option ε
  | .error e => some e
  | .ok _ => none

/-- The error of two computations one after the other. -/
theorem errorOf_bind {ε α β γ : Type} (x : Except ε α) (y : Except ε β) (f : α → β → γ) :
    errorOf (do let a ← x; let b ← y; .ok (f a b)) = (errorOf x).or (errorOf y) := by
  cases x with
  | error e => rfl
  | ok a => cases y <;> rfl

theorem errorOf_map {ε α β : Type} (x : Except ε α) (f : α → β) :
    errorOf (do let a ← x; .ok (f a)) = errorOf x := by cases x <;> rfl

section leaves
variable (env : String → Option String) (secretKeys : List String)

/-- What goes wrong with a leaf. -/
def leafError (leaf : String × String) : Option ConfigError :=
  errorOf (resolveString env secretKeys leaf.1 leaf.2)

mutual

/-- **The error of the walk** is that of the first leaf that has one. -/
theorem errorOf_resolveAt (path : String) : (value : Value) →
    errorOf (resolveAt env secretKeys path value) =
      (leavesAt path value).findSome? (leafError env secretKeys)
  | .string text => by
    rw [resolveAt, errorOf_map, leavesAt, List.findSome?_singleton, leafError]
  | .array items => by rw [resolveAt, errorOf_map, leavesAt, errorOf_resolveItems]
  | .dict entries => by rw [resolveAt, errorOf_map, leavesAt, errorOf_resolveEntries]
  | .char _ => rfl
  | .bool _ => rfl
  | .num _ => rfl
  | .empty => rfl

theorem errorOf_resolveItems (path : String) : (index : ℕ) → (items : List Value) →
    errorOf (resolveItems env secretKeys path index items) =
      (leavesItems path index items).findSome? (leafError env secretKeys)
  | _, [] => rfl
  | index, item :: items => by
    rw [resolveItems, errorOf_bind, leavesItems, List.findSome?_append, errorOf_resolveAt,
      errorOf_resolveItems]

theorem errorOf_resolveEntries (path : String) : (entries : List (String × Value)) →
    errorOf (resolveEntries env secretKeys path entries) =
      (leavesEntries path entries).findSome? (leafError env secretKeys)
  | [] => rfl
  | (name, child) :: entries => by
    rw [resolveEntries, errorOf_bind, leavesEntries, List.findSome?_append, errorOf_resolveAt,
      errorOf_resolveEntries]

end

end leaves

/-! ## What an error of a secret shows -/

section secret
variable {env : String → Option String} {secretKeys : List String} {key : String}

theorem resolveName_hidden {name : List Char} {error : ConfigError}
    (h : resolveName env true key name = .error error) : error = .secretNotAPlaceholder key := by
  unfold resolveName at h
  simp only [if_true] at h
  split_ifs at h
  · exact (Except.error.inj h).symm
  · exact (Except.error.inj h).symm
  · split at h
    · cases h
    · exact (Except.error.inj h).symm

theorem bind_eq_error {ε α β : Type} {x : Except ε α} {f : α → Except ε β} {error : ε}
    (h : x >>= f = .error error) : x = .error error ∨ ∃ a, x = .ok a ∧ f a = .error error := by
  cases x with
  | error e => exact .inl (congrArg Except.error (Except.error.inj h))
  | ok a => exact .inr ⟨a, rfl, h⟩

/-- **Where the text is hidden**, an error has the key and nothing else. -/
theorem resolveLoop_hidden {name : Option (List Char)} {text : List Char} {error : ConfigError}
    (h : resolveLoop env true key name text = .error error) :
    error = .secretNotAPlaceholder key := by
  induction name, text using resolveLoop.induct true with
  | case1 => cases h
  | case2 => cases h
  | case3 c d rest hopen ih =>
    rw [resolveLoop, if_pos hopen] at h
    exact ih h
  | case4 c d rest hopen ih =>
    rw [resolveLoop, if_neg hopen] at h
    rcases bind_eq_error h with h | ⟨out, -, h⟩
    · exact ih h
    · cases h
  | case5 => exact (Except.error.inj h).symm
  | case6 _ hnot => exact absurd rfl hnot
  | case7 name rest ih =>
    rw [resolveLoop, if_pos rfl] at h
    rcases bind_eq_error h with h | ⟨resolved, -, h⟩
    · exact resolveName_hidden h
    · rcases bind_eq_error h with h | ⟨out, -, h⟩
      · exact ih h
      · cases h
  | case8 name c rest hclose ih =>
    rw [resolveLoop, if_neg hclose] at h
    exact ih h

/-- The name of a placeholder is read up to its end. -/
theorem resolveLoop_name {hidden : Bool} {name acc rest : List Char} (hname : '\x7d' ∉ name) :
    resolveLoop env hidden key (some acc) (name ++ '\x7d' :: rest) =
      resolveLoop env hidden key (some (name.reverse ++ acc)) ('\x7d' :: rest) := by
  induction name generalizing acc with
  | nil => rfl
  | cons c name ih =>
    have hc : c ≠ '\x7d' := fun h => hname (h ▸ List.mem_cons_self)
    rw [List.cons_append, resolveLoop, if_neg hc, ih fun h => hname (List.mem_cons_of_mem _ h)]
    simp

theorem whole_of_isWholeSecretPlaceholder {text : List Char}
    (h : isWholeSecretPlaceholder text = true) :
    ∃ name, isEnvVarName name = true ∧ text = '$' :: '\x7b' :: (name ++ ['\x7d']) := by
  unfold isWholeSecretPlaceholder at h
  cases hname : wholePlaceholderName text with
  | none =>
    rw [hname] at h
    cases h
  | some name =>
    rw [hname, Option.any_some] at h
    refine ⟨name, h, ?_⟩
    obtain ⟨hstrip, -⟩ := Option.filter_eq_some_iff.mp hname
    obtain ⟨rest, hrest, hname⟩ := Option.bind_eq_some_iff.mp hstrip
    rw [isPrefixOf_eq_some.mp hrest, isSuffixOf_eq_some.mp hname]
    rfl

theorem isNameChar_of_isEnvVarName {name : List Char} (h : isEnvVarName name = true) :
    name ≠ [] ∧ name.all isNameChar = true := by
  cases name with
  | nil => cases h
  | cons first rest =>
    simp only [isEnvVarName, Bool.and_eq_true, Bool.or_eq_true, decide_eq_true_eq, List.all_eq_true]
      at h
    obtain ⟨hfirst, hrest⟩ := h
    have hchar : ∀ c : Char, c.isUpper = true ∨ c.isDigit = true ∨ c = '_' →
        isNameChar c = true := by
      intro c hc
      unfold isNameChar Char.isAlphanum Char.isAlpha
      rcases hc with hc | hc | hc <;> simp [hc]
    refine ⟨by simp, List.all_eq_true.mpr (List.forall_mem_cons.mpr ⟨?_, fun c hc => ?_⟩)⟩
    · exact hchar first (hfirst.imp id .inr)
    · refine hchar c ?_
      rcases hrest c hc with (hc | hc) | hc
      · exact .inl hc
      · exact .inr (.inl hc)
      · exact .inr (.inr hc)

/-- **A whole placeholder** of a variable fails only if the environment does not set it. -/
theorem resolveLoop_whole {name : List Char} (hname : isEnvVarName name = true)
    {error : ConfigError}
    (h : resolveLoop env false key none ('$' :: '\x7b' :: (name ++ ['\x7d'])) = .error error) :
    error = .unresolvedPlaceholder (String.ofList name) := by
  obtain ⟨hne, hall⟩ := isNameChar_of_isEnvVarName hname
  have hclose : '\x7d' ∉ name := fun hmem => absurd (List.all_eq_true.mp hall _ hmem) (by decide)
  rw [resolveLoop, if_pos ⟨rfl, rfl⟩, resolveLoop_name hclose, resolveLoop, if_pos rfl,
    List.append_nil, List.reverse_reverse] at h
  rcases bind_eq_error h with h | ⟨resolved, -, h⟩
  · unfold resolveName at h
    rw [if_neg (by simp [hne, hall]), if_neg (by simp)] at h
    split at h
    · cases h
    · exact (Except.error.inj h).symm
  · cases h

theorem error_of_errorOf {ε α : Type} {x : Except ε α} {error : ε} (h : errorOf x = some error) :
    x = .error error := by
  cases x with
  | error e => exact congrArg Except.error (Option.some.inj h)
  | ok a => cases h

theorem error_of_map {ε α β : Type} {x : Except ε α} {f : α → β} {error : ε}
    (h : errorOf (x.map f) = some error) : x = .error error := by
  cases x with
  | error e => exact congrArg Except.error (Option.some.inj h)
  | ok a => cases h

theorem mem_of_exact (h : secretPlace key secretKeys = .exact) : key ∈ secretKeys := by
  unfold secretPlace at h
  split_ifs at h with hmem
  · exact hmem

/-- **What goes wrong with a secret**: the error has its key alone, or the secret is one whole
placeholder and the error has the name of its variable. -/
theorem leafError_of_secret {leaf : String × String}
    (hplace : secretPlace leaf.1 secretKeys ≠ .outside) {error : ConfigError}
    (h : leafError env secretKeys leaf = some error) :
    error = .secretNotAPlaceholder leaf.1 ∨
    (leaf.1 ∈ secretKeys ∧ ∃ name, isEnvVarName name = true ∧
      leaf.2.toList = '$' :: '\x7b' :: (name ++ ['\x7d']) ∧
      error = .unresolvedPlaceholder (String.ofList name)) := by
  unfold leafError resolveString at h
  dsimp only at h
  cases hplace' : secretPlace leaf.1 secretKeys with
  | outside => exact absurd hplace' hplace
  | inside =>
    rw [hplace'] at h
    exact .inl (resolveLoop_hidden (error_of_map h))
  | exact =>
    rw [hplace'] at h
    dsimp only at h
    cases hwhole : isWholeSecretPlaceholder leaf.2.toList with
    | false =>
      rw [hwhole] at h
      exact .inl (resolveLoop_hidden (error_of_map h))
    | true =>
      rw [hwhole] at h
      obtain ⟨name, hname, htext⟩ := whole_of_isWholeSecretPlaceholder hwhole
      rw [htext] at h
      exact .inr ⟨mem_of_exact hplace', name, hname, htext,
        resolveLoop_whole hname (error_of_map h)⟩

/-- An empty text has nothing to resolve. -/
theorem leafError_empty (key : String) : leafError env secretKeys (key, "") = none := rfl

end secret

end Vsms.Core.Placeholders
