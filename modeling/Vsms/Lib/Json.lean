import Vsms.Lib.Framing
import Mathlib.Data.List.Sort

/-! # JSON texts

JSON values as a program holds them, and their compact text. An object is the list of its entries in
some order; `sortKeys` puts the entries of every object in the order of their keys. The text
determines the value (`render_injective`), so the text of the sorted value determines it up to the
order of entries (`same_of_render_sortKeys`).

How a floating-point number is written is a parameter, `FloatFormat`: its texts are distinct, and
never those of integers. -/

namespace Vsms.Lib.Json

open Vsms.Lib.Framing

/-! ## Values -/

/-- A number: an integer that fits in 64 bits, or a floating-point number. -/
inductive Number (F : Type)
  | posInt (n : UInt64)
  | negInt (n : Int64) (h : n.toInt < 0)
  | float (x : F)

inductive Value (F : Type)
  | null
  | bool (b : Bool)
  | number (n : Number F)
  | string (s : String)
  | array (items : List (Value F))
  | object (entries : List (String × Value F))

/-- The characters of a number's text. -/
def isNumberChar (c : Char) : Bool := c.isDigit || c ∈ ['-', '+', '.', 'e', 'E']

/-- How floating-point numbers are written. -/
structure FloatFormat (F : Type) where
  text : F → List Char
  injective : Function.Injective text
  chars : ∀ x, ∀ c ∈ text x, isNumberChar c = true
  marked : ∀ x, '.' ∈ text x ∨ 'e' ∈ text x

/-! ## Texts -/

/-- One character of a string. -/
def escape (c : Char) : List Char :=
  if c = '"' then ['\\', '"']
  else if c = '\\' then ['\\', '\\']
  else if c = Char.ofNat 8 then ['\\', 'b']
  else if c = Char.ofNat 12 then ['\\', 'f']
  else if c = '\n' then ['\\', 'n']
  else if c = '\r' then ['\\', 'r']
  else if c = '\t' then ['\\', 't']
  else if c.toNat < 32 then
    ['\\', 'u', '0', '0', Nat.digitChar (c.toNat / 16), Nat.digitChar (c.toNat % 16)]
  else [c]

def quote (s : String) : List Char := '"' :: (s.toList.flatMap escape ++ ['"'])

section render
variable {F : Type} (fmt : FloatFormat F)

def numberText : Number F → List Char
  | .posInt n => n.toNat.repr.toList
  | .negInt n _ => '-' :: n.toInt.natAbs.repr.toList
  | .float x => fmt.text x

mutual

/-- **The compact text of a value.** -/
def render : Value F → List Char
  | .null => ['n', 'u', 'l', 'l']
  | .bool true => ['t', 'r', 'u', 'e']
  | .bool false => ['f', 'a', 'l', 's', 'e']
  | .number n => numberText fmt n
  | .string s => quote s
  | .array [] => ['[', ']']
  | .array (v :: vs) => '[' :: (render v ++ renderItems vs)
  | .object [] => ['\x7b', '\x7d']
  | .object ((k, v) :: es) => '\x7b' :: (quote k ++ ':' :: (render v ++ renderEntries es))

/-- The items after the first, and the bracket. -/
def renderItems : List (Value F) → List Char
  | [] => [']']
  | v :: vs => ',' :: (render v ++ renderItems vs)

/-- The entries after the first, and the brace. -/
def renderEntries : List (String × Value F) → List Char
  | [] => ['\x7d']
  | (k, v) :: es => ',' :: (quote k ++ ':' :: (render v ++ renderEntries es))

end

end render

/-! ## Sorting -/

section sort
variable {F : Type}

/-- Entries by their keys. -/
def keyLe (e f : String × Value F) : Prop := e.1 ≤ f.1

instance : DecidableRel (keyLe (F := F)) := fun e f => inferInstanceAs (Decidable (e.1 ≤ f.1))

mutual

/-- Every object's entries in the order of their keys. -/
def sortKeys : Value F → Value F
  | .array vs => .array (sortItems vs)
  | .object es => .object ((sortValues es).insertionSort keyLe)
  | .null => .null
  | .bool b => .bool b
  | .number n => .number n
  | .string s => .string s

def sortItems : List (Value F) → List (Value F)
  | [] => []
  | v :: vs => sortKeys v :: sortItems vs

def sortValues : List (String × Value F) → List (String × Value F)
  | [] => []
  | (k, v) :: es => (k, sortKeys v) :: sortValues es

end

/-- **The same value up to the order of the entries** of any object in it. -/
inductive Same : Value F → Value F → Prop
  | refl (v : Value F) : Same v v
  | symm {v w : Value F} : Same v w → Same w v
  | trans {u v w : Value F} : Same u v → Same v w → Same u w
  | perm {es fs : List (String × Value F)} : es.Perm fs → Same (.object es) (.object fs)
  | item {v w : Value F} (us vs : List (Value F)) :
      Same v w → Same (.array (us ++ v :: vs)) (.array (us ++ w :: vs))
  | entry {v w : Value F} (k : String) (es fs : List (String × Value F)) :
      Same v w → Same (.object (es ++ (k, v) :: fs)) (.object (es ++ (k, w) :: fs))

end sort

/-! ## The text determines the value -/

/-! ### Strings -/

/-- The character a letter after the backslash stands for. -/
def unescaped (c : Char) : Char :=
  if c = 'b' then Char.ofNat 8
  else if c = 'f' then Char.ofNat 12
  else if c = 'n' then '\n'
  else if c = 'r' then '\r'
  else if c = 't' then '\t'
  else c

/-- Read one character of a string. -/
def unescape : List Char → Option (Char × List Char)
  | [] => none
  | c :: r =>
    if c = '\\' then
      match r with
      | [] => none
      | d :: r =>
        if d = 'u' then
          let high := (hexValue (r.getD 2 '0')).getD 0
          let low := (hexValue (r.getD 3 '0')).getD 0
          some (Char.ofNat (16 * high + low), r.drop 4)
        else some (unescaped d, r)
    else some (c, r)

/-- A character is escaped by a letter, or by its number, or not at all. -/
theorem escape_cases (c : Char) :
    (∃ d, escape c = ['\\', d] ∧ d ≠ 'u' ∧ unescaped d = c) ∨
      (c.toNat < 32 ∧ escape c =
        ['\\', 'u', '0', '0', Nat.digitChar (c.toNat / 16), Nat.digitChar (c.toNat % 16)]) ∨
      (c ≠ '"' ∧ c ≠ '\\' ∧ escape c = [c]) := by
  unfold escape
  by_cases h1 : c = '"'
  · exact Or.inl ⟨'"', if_pos h1, by decide, by rw [h1]; rfl⟩
  rw [if_neg h1]
  by_cases h2 : c = '\\'
  · exact Or.inl ⟨'\\', if_pos h2, by decide, by rw [h2]; rfl⟩
  rw [if_neg h2]
  by_cases h3 : c = Char.ofNat 8
  · exact Or.inl ⟨'b', if_pos h3, by decide, by rw [h3]; rfl⟩
  rw [if_neg h3]
  by_cases h4 : c = Char.ofNat 12
  · exact Or.inl ⟨'f', if_pos h4, by decide, by rw [h4]; rfl⟩
  rw [if_neg h4]
  by_cases h5 : c = '\n'
  · exact Or.inl ⟨'n', if_pos h5, by decide, by rw [h5]; rfl⟩
  rw [if_neg h5]
  by_cases h6 : c = '\r'
  · exact Or.inl ⟨'r', if_pos h6, by decide, by rw [h6]; rfl⟩
  rw [if_neg h6]
  by_cases h7 : c = '\t'
  · exact Or.inl ⟨'t', if_pos h7, by decide, by rw [h7]; rfl⟩
  rw [if_neg h7]
  by_cases h8 : c.toNat < 32
  · exact Or.inr (Or.inl ⟨h8, if_pos h8⟩)
  · exact Or.inr (Or.inr ⟨h1, h2, if_neg h8⟩)

theorem unescape_escape (c : Char) (r : List Char) : unescape (escape c ++ r) = some (c, r) := by
  rcases escape_cases c with ⟨d, hescape, hd, hread⟩ | ⟨hlt, hescape⟩ | ⟨-, hne, hescape⟩
  · rw [hescape]
    simp [unescape, hd, hread]
  · have hhigh := hexValue_digitChar (c.toNat / 16) (by omega)
    have hlow := hexValue_digitChar (c.toNat % 16) (by omega)
    have hc : 16 * (c.toNat / 16) + c.toNat % 16 = c.toNat := by omega
    rw [hescape]
    simp [unescape, hhigh, hlow, hc, Char.ofNat_toNat]
  · rw [hescape]
    simp [unescape, hne]

theorem escape_delimited : SelfDelimiting (· = ·) escape := by
  intro c d r s h
  have hread := congrArg unescape h
  rw [unescape_escape, unescape_escape] at hread
  exact Prod.mk.inj (Option.some.inj hread)

/-- The quotation mark ends a string. -/
theorem escape_ne_quote (c : Char) (r s : List Char) : escape c ++ r ≠ '"' :: s := by
  rcases escape_cases c with ⟨d, hescape, -⟩ | ⟨-, hescape⟩ | ⟨hne, -, hescape⟩
  · rw [hescape]
    simp
  · rw [hescape]
    simp
  · rw [hescape]
    simp [hne]

theorem body_inj {cs ds r s : List Char}
    (h : cs.flatMap escape ++ '"' :: r = ds.flatMap escape ++ '"' :: s) : cs = ds ∧ r = s := by
  induction cs generalizing ds with
  | nil =>
    cases ds with
    | nil => exact ⟨rfl, (List.cons.inj h).2⟩
    | cons d ds =>
      rw [List.flatMap_cons, List.append_assoc] at h
      exact absurd h.symm (escape_ne_quote d _ _)
  | cons c cs ih =>
    cases ds with
    | nil =>
      rw [List.flatMap_cons, List.append_assoc] at h
      exact absurd h (escape_ne_quote c _ _)
    | cons d ds =>
      rw [List.flatMap_cons, List.flatMap_cons, List.append_assoc, List.append_assoc] at h
      obtain ⟨hcd, hrest⟩ := escape_delimited c d _ _ h
      obtain ⟨hcs, hrs⟩ := ih hrest
      exact ⟨by rw [hcd, hcs], hrs⟩

theorem quote_delimited : SelfDelimiting (· = ·) quote := by
  intro s t r r' h
  simp only [quote, List.cons_append, List.append_assoc, List.nil_append] at h
  obtain ⟨hst, hr⟩ := body_inj (List.cons.inj h).2
  exact ⟨String.toList_inj.mp hst, hr⟩

/-! ### Numbers -/

section read
variable {F : Type} {fmt : FloatFormat F}

theorem repr_toList_inj {m n : ℕ} (h : m.repr.toList = n.repr.toList) : m = n := by
  rw [Nat.toList_repr, Nat.toList_repr] at h
  have hvalue := congrArg (fun l => Nat.ofDigitChars 10 l 0) h
  simpa [Nat.ofDigitChars_toDigits] using hvalue

theorem isNumberChar_numberText (n : Number F) :
    ∀ c ∈ numberText fmt n, isNumberChar c = true := by
  intro c hc
  cases n with
  | posInt n => simp [isNumberChar, isDigit_of_mem_repr hc]
  | negInt n h =>
    rcases List.mem_cons.mp hc with rfl | hc
    · decide
    · simp [isNumberChar, isDigit_of_mem_repr hc]
  | float x => exact fmt.chars x c hc

theorem numberText_ne_nil (n : Number F) : numberText fmt n ≠ [] := by
  cases n with
  | posInt n =>
    change n.toNat.repr.toList ≠ []
    rw [Nat.toList_repr]
    exact Nat.toDigits_ne_nil
  | negInt n h => exact List.cons_ne_nil _ _
  | float x =>
    change fmt.text x ≠ []
    intro hnil
    rcases fmt.marked x with h | h
    · rw [hnil] at h
      cases h
    · rw [hnil] at h
      cases h

/-- The text of a floating-point number is not that of an integer. -/
theorem float_ne_digits {x : F} {l : List Char} (hl : ∀ c ∈ l, c.isDigit = true ∨ c = '-') :
    fmt.text x ≠ l := by
  intro h
  rcases fmt.marked x with hm | hm <;> rw [h] at hm <;> rcases hl _ hm with hd | hd <;>
    revert hd <;> decide

theorem repr_ne_neg {m : ℕ} {l : List Char} : m.repr.toList ≠ '-' :: l := by
  intro h
  have hneg := notMem_repr (c := '-') rfl m
  rw [h] at hneg
  exact hneg List.mem_cons_self

theorem repr_digits {m : ℕ} : ∀ c ∈ m.repr.toList, c.isDigit = true ∨ c = '-' :=
  fun _ hc => Or.inl (isDigit_of_mem_repr hc)

theorem neg_repr_digits {m : ℕ} : ∀ c ∈ '-' :: m.repr.toList, c.isDigit = true ∨ c = '-' := by
  intro c hc
  rcases List.mem_cons.mp hc with hc | hc
  · exact Or.inr hc
  · exact Or.inl (isDigit_of_mem_repr hc)

theorem numberText_injective : Function.Injective (numberText fmt) := by
  intro m n h
  cases m with
  | posInt m =>
    cases n with
    | posInt n =>
      have hnat : m.toNat = n.toNat := repr_toList_inj h
      rw [UInt64.toNat_inj.mp hnat]
    | negInt n hn => exact absurd h repr_ne_neg
    | float x => exact absurd h.symm (float_ne_digits repr_digits)
  | negInt m hm =>
    cases n with
    | posInt n => exact absurd h.symm repr_ne_neg
    | negInt n hn =>
      have habs : m.toInt.natAbs = n.toInt.natAbs :=
        repr_toList_inj (List.cons.inj h).2
      have hint : m.toInt = n.toInt := by omega
      obtain rfl : m = n := Int64.toInt_inj.mp hint
      rfl
    | float x => exact absurd h.symm (float_ne_digits neg_repr_digits)
  | float x =>
    cases n with
    | posInt n => exact absurd h (float_ne_digits repr_digits)
    | negInt n hn => exact absurd h (float_ne_digits neg_repr_digits)
    | float y => rw [fmt.injective h]

/-! ### Values -/

/-- What follows does not continue a number. -/
def Stops (r : List Char) : Prop := ∀ c t, r = c :: t → isNumberChar c = false

theorem stops_cons {c : Char} {r : List Char} (h : isNumberChar c = false) : Stops (c :: r) := by
  intro d t hd
  cases hd
  exact h

theorem stops_renderItems (vs : List (Value F)) (r : List Char) :
    Stops (renderItems fmt vs ++ r) := by
  cases vs with
  | nil => exact stops_cons (by decide)
  | cons v vs => exact stops_cons (by decide)

theorem stops_renderEntries (es : List (String × Value F)) (r : List Char) :
    Stops (renderEntries fmt es ++ r) := by
  cases es with
  | nil => exact stops_cons (by decide)
  | cons e es => exact stops_cons (by decide)

/-- A number ends where it stops. -/
theorem span_inj {l m r s : List Char} (hl : ∀ c ∈ l, isNumberChar c = true)
    (hm : ∀ c ∈ m, isNumberChar c = true) (hr : Stops r) (hs : Stops s) (h : l ++ r = m ++ s) :
    l = m ∧ r = s := by
  induction l generalizing m with
  | nil =>
    cases m with
    | nil => exact ⟨rfl, h⟩
    | cons d m =>
      have hd := hm d List.mem_cons_self
      rw [hr d _ h] at hd
      cases hd
  | cons c l ih =>
    cases m with
    | nil =>
      have hc := hl c List.mem_cons_self
      rw [hs c _ h.symm] at hc
      cases hc
    | cons d m =>
      obtain ⟨hcd, h⟩ := List.cons.inj h
      obtain ⟨hlm, hrs⟩ := ih (fun c hc => hl c (List.mem_cons_of_mem _ hc))
        (fun c hc => hm c (List.mem_cons_of_mem _ hc)) h
      exact ⟨by rw [hcd, hlm], hrs⟩

/-- The first character of a value's text, one for all numbers. -/
def lead : Value F → Char
  | .null => 'n'
  | .bool true => 't'
  | .bool false => 'f'
  | .number _ => '0'
  | .string _ => '"'
  | .array _ => '['
  | .object _ => '\x7b'

def leadOf (c : Char) : Char := if isNumberChar c then '0' else c

theorem leadOf_render (v : Value F) : ∃ c l, render fmt v = c :: l ∧ leadOf c = lead v := by
  match v with
  | .null => exact ⟨_, _, by rw [render], rfl⟩
  | .bool true => exact ⟨_, _, by rw [render], rfl⟩
  | .bool false => exact ⟨_, _, by rw [render], rfl⟩
  | .number n =>
    obtain ⟨c, l, hcl⟩ := List.exists_cons_of_ne_nil (@numberText_ne_nil F fmt n)
    refine ⟨c, l, by rw [render, hcl], ?_⟩
    have hc := @isNumberChar_numberText F fmt n c (by rw [hcl]; exact List.mem_cons_self)
    unfold leadOf
    rw [if_pos hc]
    rfl
  | .string s => exact ⟨_, _, by rw [render, quote], rfl⟩
  | .array [] => exact ⟨_, _, by rw [render], rfl⟩
  | .array (v :: vs) => exact ⟨_, _, by rw [render], rfl⟩
  | .object [] => exact ⟨_, _, by rw [render], rfl⟩
  | .object ((k, v) :: es) => exact ⟨_, _, by rw [render], rfl⟩

/-- Texts that begin alike are of values of one kind. -/
theorem lead_eq {v w : Value F} {r s : List Char} (h : render fmt v ++ r = render fmt w ++ s) :
    lead v = lead w := by
  obtain ⟨c, l, hv, hc⟩ := @leadOf_render F fmt v
  obtain ⟨d, m, hw, hd⟩ := @leadOf_render F fmt w
  rw [hv, hw] at h
  rw [← hc, ← hd, (List.cons.inj h).1]

section kinds
variable {w : Value F}

theorem eq_null_of_lead (h : lead (.null : Value F) = lead w) : w = .null := by
  match w with
  | .null => rfl
  | .bool true | .bool false | .number _ | .string _ | .array _ | .object _ => simp [lead] at h

theorem eq_bool_of_lead {b : Bool} (h : lead (.bool b : Value F) = lead w) : w = .bool b := by
  match b, w with
  | true, .bool true | false, .bool false => rfl
  | true, .bool false | false, .bool true => simp [lead] at h
  | true, .null | true, .number _ | true, .string _ | true, .array _ | true, .object _ =>
    simp [lead] at h
  | false, .null | false, .number _ | false, .string _ | false, .array _ | false, .object _ =>
    simp [lead] at h

theorem eq_number_of_lead {m : Number F} (h : lead (.number m) = lead w) : ∃ n, w = .number n := by
  match w with
  | .number n => exact ⟨n, rfl⟩
  | .null | .bool true | .bool false | .string _ | .array _ | .object _ => simp [lead] at h

theorem eq_string_of_lead {a : String} (h : lead (.string a : Value F) = lead w) :
    ∃ b, w = .string b := by
  match w with
  | .string b => exact ⟨b, rfl⟩
  | .null | .bool true | .bool false | .number _ | .array _ | .object _ => simp [lead] at h

theorem eq_array_of_lead {vs : List (Value F)} (h : lead (.array vs) = lead w) :
    ∃ ws, w = .array ws := by
  match w with
  | .array ws => exact ⟨ws, rfl⟩
  | .null | .bool true | .bool false | .number _ | .string _ | .object _ => simp [lead] at h

theorem eq_object_of_lead {es : List (String × Value F)} (h : lead (.object es) = lead w) :
    ∃ fs, w = .object fs := by
  match w with
  | .object fs => exact ⟨fs, rfl⟩
  | .null | .bool true | .bool false | .number _ | .string _ | .array _ => simp [lead] at h

end kinds

/-- No value begins with the bracket that closes an array. -/
theorem render_ne_bracket (v : Value F) (r s : List Char) : render fmt v ++ r ≠ ']' :: s := by
  intro h
  obtain ⟨c, l, hv, hc⟩ := @leadOf_render F fmt v
  rw [hv] at h
  rw [(List.cons.inj h).1] at hc
  revert hc
  match v with
  | .null | .bool true | .bool false | .number _ | .string _ | .array _ | .object _ =>
    simp [lead, leadOf, isNumberChar]

mutual

/-- **Reading a value**: its text, followed by what does not continue a number, determines it and
what follows. -/
theorem render_inj : ∀ (v w : Value F) (r s : List Char), Stops r → Stops s →
    render fmt v ++ r = render fmt w ++ s → v = w ∧ r = s
  | .null, w, r, s, _, _, h => by
    obtain rfl := eq_null_of_lead (lead_eq h)
    exact ⟨rfl, List.append_cancel_left h⟩
  | .bool b, w, r, s, _, _, h => by
    obtain rfl := eq_bool_of_lead (lead_eq h)
    exact ⟨rfl, List.append_cancel_left h⟩
  | .number m, w, r, s, hr, hs, h => by
    obtain ⟨n, rfl⟩ := eq_number_of_lead (lead_eq h)
    rw [render, render] at h
    obtain ⟨htext, hrs⟩ := span_inj (isNumberChar_numberText m) (isNumberChar_numberText n) hr hs h
    exact ⟨by rw [numberText_injective htext], hrs⟩
  | .string a, w, r, s, _, _, h => by
    obtain ⟨b, rfl⟩ := eq_string_of_lead (lead_eq h)
    rw [render, render] at h
    obtain ⟨hab, hrs⟩ := quote_delimited a b r s h
    exact ⟨by rw [hab], hrs⟩
  | .array [], w, r, s, _, _, h => by
    obtain ⟨ws, rfl⟩ := eq_array_of_lead (lead_eq h)
    cases ws with
    | nil => exact ⟨rfl, List.append_cancel_left h⟩
    | cons w ws =>
      simp only [render, List.cons_append, List.nil_append, List.append_assoc, List.cons.injEq,
        true_and] at h
      exact absurd h.symm (render_ne_bracket w _ _)
  | .array (v :: vs), w, r, s, _, _, h => by
    obtain ⟨ws, rfl⟩ := eq_array_of_lead (lead_eq h)
    cases ws with
    | nil =>
      simp only [render, List.cons_append, List.nil_append, List.append_assoc, List.cons.injEq,
        true_and] at h
      exact absurd h (render_ne_bracket v _ _)
    | cons w ws =>
      simp only [render, List.cons_append, List.append_assoc, List.cons.injEq, true_and] at h
      obtain ⟨hvw, h⟩ := render_inj v w _ _ (stops_renderItems vs r) (stops_renderItems ws s) h
      obtain ⟨hvs, hrs⟩ := renderItems_inj vs ws r s h
      exact ⟨by rw [hvw, hvs], hrs⟩
  | .object [], w, r, s, _, _, h => by
    obtain ⟨fs, rfl⟩ := eq_object_of_lead (lead_eq h)
    cases fs with
    | nil => exact ⟨rfl, List.append_cancel_left h⟩
    | cons f fs => simp [render, quote] at h
  | .object ((k, v) :: es), w, r, s, _, _, h => by
    obtain ⟨fs, rfl⟩ := eq_object_of_lead (lead_eq h)
    cases fs with
    | nil => simp [render, quote] at h
    | cons f fs =>
      obtain ⟨l, w⟩ := f
      simp only [render, List.cons_append, List.append_assoc, List.cons.injEq, true_and] at h
      obtain ⟨hkl, h⟩ := quote_delimited k l _ _ h
      obtain ⟨hvw, h⟩ := render_inj v w _ _ (stops_renderEntries es r) (stops_renderEntries fs s)
        (List.cons.inj h).2
      obtain ⟨hes, hrs⟩ := renderEntries_inj es fs r s h
      exact ⟨by rw [hkl, hvw, hes], hrs⟩

theorem renderItems_inj : ∀ (vs ws : List (Value F)) (r s : List Char),
    renderItems fmt vs ++ r = renderItems fmt ws ++ s → vs = ws ∧ r = s
  | [], [], r, s, h => by
    simp only [renderItems, List.cons_append, List.nil_append, List.cons.injEq, true_and] at h
    exact ⟨rfl, h⟩
  | [], w :: ws, r, s, h => by simp [renderItems] at h
  | v :: vs, [], r, s, h => by simp [renderItems] at h
  | v :: vs, w :: ws, r, s, h => by
    simp only [renderItems, List.cons_append, List.append_assoc, List.cons.injEq, true_and] at h
    obtain ⟨hvw, h⟩ := render_inj v w _ _ (stops_renderItems vs r) (stops_renderItems ws s) h
    obtain ⟨hvs, hrs⟩ := renderItems_inj vs ws r s h
    exact ⟨by rw [hvw, hvs], hrs⟩

theorem renderEntries_inj : ∀ (es fs : List (String × Value F)) (r s : List Char),
    renderEntries fmt es ++ r = renderEntries fmt fs ++ s → es = fs ∧ r = s
  | [], [], r, s, h => by
    simp only [renderEntries, List.cons_append, List.nil_append, List.cons.injEq, true_and] at h
    exact ⟨rfl, h⟩
  | [], (k, w) :: fs, r, s, h => by simp [renderEntries] at h
  | (k, v) :: es, [], r, s, h => by simp [renderEntries] at h
  | (k, v) :: es, (l, w) :: fs, r, s, h => by
    simp only [renderEntries, List.cons_append, List.append_assoc, List.cons.injEq, true_and] at h
    obtain ⟨hkl, h⟩ := quote_delimited k l _ _ h
    obtain ⟨hvw, h⟩ := render_inj v w _ _ (stops_renderEntries es r) (stops_renderEntries fs s)
      (List.cons.inj h).2
    obtain ⟨hes, hrs⟩ := renderEntries_inj es fs r s h
    exact ⟨by rw [hkl, hvw, hes], hrs⟩

end

/-- **The text determines the value.** -/
theorem render_injective : Function.Injective (render fmt) := by
  intro v w h
  have hnil : Stops [] := fun c t ht => nomatch ht
  refine (@render_inj F fmt v w [] [] hnil hnil ?_).1
  rw [h]

/-! ## The sorted text -/

mutual

theorem same_sortKeys : ∀ v : Value F, Same v (sortKeys v)
  | .null => .refl _
  | .bool _ => .refl _
  | .number _ => .refl _
  | .string _ => .refl _
  | .array vs => by
    rw [sortKeys]
    exact same_sortItems vs []
  | .object es => by
    rw [sortKeys]
    exact (same_sortValues es []).trans (.perm (List.perm_insertionSort keyLe _).symm)

/-- The items are sorted one after the other; `us` are those done. -/
theorem same_sortItems : ∀ vs us : List (Value F),
    Same (.array (us ++ vs)) (.array (us ++ sortItems vs))
  | [], us => .refl _
  | v :: vs, us => by
    rw [sortItems]
    have hrest := same_sortItems vs (us ++ [sortKeys v])
    rw [List.append_assoc, List.append_assoc] at hrest
    exact (Same.item us vs (same_sortKeys v)).trans hrest

theorem same_sortValues : ∀ es ds : List (String × Value F),
    Same (.object (ds ++ es)) (.object (ds ++ sortValues es))
  | [], ds => .refl _
  | (k, v) :: es, ds => by
    rw [sortValues]
    have hrest := same_sortValues es (ds ++ [(k, sortKeys v)])
    rw [List.append_assoc, List.append_assoc] at hrest
    exact (Same.entry k ds es (same_sortKeys v)).trans hrest

end

/-- **The sorted text determines the value up to the order of entries.** -/
theorem same_of_render_sortKeys {v w : Value F}
    (h : render fmt (sortKeys v) = render fmt (sortKeys w)) : Same v w := by
  have hsorted : sortKeys v = sortKeys w := render_injective h
  have hw := (same_sortKeys w).symm
  rw [← hsorted] at hw
  exact (same_sortKeys v).trans hw

end read

end Vsms.Lib.Json
