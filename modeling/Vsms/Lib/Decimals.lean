import Mathlib.Algebra.Order.Field.Rat
import Mathlib.Data.Char
import Mathlib.Data.List.Lex
import Mathlib.Tactic.FieldSimp
import Mathlib.Tactic.Linarith
import Mathlib.Tactic.Positivity
import Mathlib.Tactic.SplitIfs

/-! # Decimals and the order of texts

Numbers of a fixed width are in the order of their decimals. A fraction has as many digits as it
likes, and there the order of texts and that of values part: of two texts that end with a character
above all their others, the longer one comes first where one goes on where the other ends. `Agrees`
says that the two orders part nowhere else. It holds of the fractions, of a text that has ended
(`Agrees.nil_left`, `Agrees.nil_right`), and it is kept when texts of one length are put in front
(`Agrees.append`). -/

namespace Vsms.Lib.Decimals

/-! ### Texts of one length -/

theorem append_lt_append_iff {α : Type*} [LinearOrder α] {h k s t : List α}
    (hlen : h.length = k.length) :
    h ++ s < k ++ t ↔ h < k ∨ h = k ∧ s < t := by
  induction h generalizing k with
  | nil =>
    obtain rfl := List.eq_nil_of_length_eq_zero hlen.symm
    simp
  | cons a h ih =>
    obtain ⟨b, k, rfl⟩ := List.exists_cons_of_length_eq_add_one hlen.symm
    simp only [List.cons_append, List.cons_lt_cons_iff, List.cons.injEq,
      ih (Nat.succ.inj hlen)]
    tauto

/-! ### Digits -/

/-- The character of a digit. -/
def digitChar (d : Fin 10) : Char := Char.ofNat (48 + d)

def digitOf (c : Char) : Option (Fin 10) :=
  if h : 48 ≤ c.toNat ∧ c.toNat ≤ 57 then some ⟨c.toNat - 48, by omega⟩ else none

theorem digitChar_strictMono : StrictMono digitChar := by
  intro d e h
  revert d e
  decide

@[simp] theorem digitOf_digitChar (d : Fin 10) : digitOf (digitChar d) = some d := by
  revert d
  decide

theorem digitOf_eq_some {c : Char} {d : Fin 10} : digitOf c = some d ↔ c = digitChar d := by
  refine ⟨fun h => ?_, fun h => h ▸ digitOf_digitChar d⟩
  unfold digitOf at h
  split_ifs at h with hc
  obtain rfl := Option.some.inj h
  unfold digitChar
  rw [Nat.add_sub_cancel' hc.1, Char.ofNat_toNat]

/-! ### Numbers of a fixed width -/

/-- The digits of a number, the most significant one first. -/
def decimals : ℕ → ℕ → List (Fin 10)
  | 0, _ => []
  | w + 1, n => Fin.ofNat 10 (n / 10 ^ w) :: decimals w (n % 10 ^ w)

def numeral (w n : ℕ) : List Char := (decimals w n).map digitChar

@[simp] theorem length_decimals (w n : ℕ) : (decimals w n).length = w := by
  induction w generalizing n with
  | zero => rfl
  | succ w ih => rw [decimals, List.length_cons, ih]

@[simp] theorem length_numeral (w n : ℕ) : (numeral w n).length = w := by simp [numeral]

/-- The first digit of a number. -/
theorem div_lt_ten {w n : ℕ} (h : n < 10 ^ (w + 1)) : n / 10 ^ w < 10 :=
  Nat.div_lt_of_lt_mul (by rwa [pow_succ] at h)

theorem numeral_succ (w n : ℕ) :
    numeral (w + 1) n = digitChar (Fin.ofNat 10 (n / 10 ^ w)) :: numeral w (n % 10 ^ w) := rfl

/-- **Numbers are in the order of their decimals.** -/
theorem numeral_lt_iff {w m n : ℕ} (hm : m < 10 ^ w) (hn : n < 10 ^ w) :
    numeral w m < numeral w n ↔ m < n := by
  induction w generalizing m n with
  | zero =>
    obtain rfl : m = 0 := by simpa using hm
    obtain rfl : n = 0 := by simpa using hn
    simp
  | succ w ih =>
    have hpos : 0 < 10 ^ w := by positivity
    have hhead : ∀ {k}, k < 10 ^ (w + 1) → (Fin.ofNat 10 (k / 10 ^ w)).val = k / 10 ^ w := fun hk =>
      Nat.mod_eq_of_lt (div_lt_ten hk)
    rw [numeral_succ, numeral_succ, List.cons_lt_cons_iff, digitChar_strictMono.lt_iff_lt,
      digitChar_strictMono.injective.eq_iff, ih (Nat.mod_lt _ hpos) (Nat.mod_lt _ hpos), Fin.lt_def,
        Fin.ext_iff,
      hhead hm, hhead hn]
    have hm' := Nat.div_add_mod m (10 ^ w)
    have hn' := Nat.div_add_mod n (10 ^ w)
    constructor
    · rintro (h | ⟨heq, h⟩)
      · exact lt_of_not_ge fun hle => absurd h (not_lt.mpr (Nat.div_le_div_right hle))
      · rw [heq] at hm'
        omega
    · intro h
      rcases (Nat.div_le_div_right (c := 10 ^ w) h.le).lt_or_eq with hlt | heq
      · exact .inl hlt
      · rw [heq] at hm'
        exact .inr ⟨heq, by omega⟩

theorem numeral_inj {w m n : ℕ} (hm : m < 10 ^ w) (hn : n < 10 ^ w) :
    numeral w m = numeral w n ↔ m = n := by
  refine ⟨fun h => ?_, fun h => h ▸ rfl⟩
  have hlt := mt (numeral_lt_iff hm hn).mpr (h ▸ lt_irrefl _)
  have hgt := mt (numeral_lt_iff hn hm).mpr (h ▸ lt_irrefl _)
  omega

/-- So many digits. -/
def readNumeral : ℕ → List Char → Option (ℕ × List Char)
  | 0, s => some (0, s)
  | _ + 1, [] => none
  | w + 1, c :: s => do
    let d ← digitOf c
    let (n, r) ← readNumeral w s
    some (d.val * 10 ^ w + n, r)

theorem readNumeral_eq_some {w n : ℕ} {s r : List Char} :
    readNumeral w s = some (n, r) ↔ n < 10 ^ w ∧ s = numeral w n ++ r := by
  induction w generalizing n s r with
  | zero =>
    simp only [readNumeral, Option.some.injEq, Prod.mk.injEq, pow_zero, Nat.lt_one_iff,
      numeral, decimals, List.map_nil, List.nil_append]
    exact and_congr_left' eq_comm
  | succ w ih =>
    have hpos : 0 < 10 ^ w := by positivity
    cases s with
    | nil => simp [readNumeral, numeral_succ]
    | cons c s =>
      simp only [readNumeral, Option.bind_eq_bind, Option.bind_eq_some_iff, digitOf_eq_some,
        Prod.exists, ih, Option.some.injEq, Prod.mk.injEq, numeral_succ, List.cons_append,
        List.cons.injEq]
      constructor
      · rintro ⟨d, rfl, m, _, ⟨hm, rfl⟩, rfl, rfl⟩
        have hd : (d * 10 ^ w + m) / 10 ^ w = d := by
          rw [mul_comm, Nat.mul_add_div hpos, Nat.div_eq_of_lt hm, Nat.add_zero]
        have hmod : (d * 10 ^ w + m) % 10 ^ w = m := by
          rw [mul_comm, Nat.mul_add_mod, Nat.mod_eq_of_lt hm]
        refine ⟨?_, ?_, by rw [hmod]⟩
        · have hle : ((d : ℕ) + 1) * 10 ^ w ≤ 10 * 10 ^ w := Nat.mul_le_mul_right _ d.isLt
          rw [pow_succ']
          linarith
        · rw [hd]
          exact congrArg digitChar (Fin.ext (Nat.mod_eq_of_lt d.isLt).symm)
      · rintro ⟨hn, rfl, rfl⟩
        refine ⟨_, rfl, n % 10 ^ w, r, ⟨Nat.mod_lt _ hpos, rfl⟩, ?_, rfl⟩
        rw [show (Fin.ofNat 10 (n / 10 ^ w)).val = n / 10 ^ w from Nat.mod_eq_of_lt (div_lt_ten hn),
          mul_comm]
        exact Nat.div_add_mod n _

/-! ### Fractions -/

/-- The value of the digits after the point. -/
def fraction : List (Fin 10) → ℚ
  | [] => 0
  | d :: ds => (d + fraction ds) / 10

theorem fraction_nonneg (ds : List (Fin 10)) : 0 ≤ fraction ds := by
  induction ds with
  | nil => exact le_rfl
  | cons d ds ih =>
    rw [fraction]
    positivity

theorem fraction_lt_one (ds : List (Fin 10)) : fraction ds < 1 := by
  induction ds with
  | nil => exact one_pos
  | cons d ds ih =>
    have hd : (d : ℚ) ≤ 9 := by exact_mod_cast Nat.le_of_lt_succ d.isLt
    rw [fraction]
    linarith

/-- The fraction that the decimals of a number are. -/
theorem fraction_decimals {w n : ℕ} (h : n < 10 ^ w) : fraction (decimals w n) = n / 10 ^ w := by
  induction w generalizing n with
  | zero =>
    obtain rfl : n = 0 := by simpa using h
    simp [decimals, fraction]
  | succ w ih =>
    have hpos : (0 : ℚ) < 10 ^ w := by positivity
    have hdiv : ((n / 10 ^ w : ℕ) : ℚ) * 10 ^ w + (n % 10 ^ w : ℕ) = n := by
      rw [mul_comm]
      exact_mod_cast Nat.div_add_mod n (10 ^ w)
    rw [decimals, fraction, ih (Nat.mod_lt _ (by positivity)),
      show (Fin.ofNat 10 (n / 10 ^ w)).val = n / 10 ^ w from Nat.mod_eq_of_lt (div_lt_ten h),
      pow_succ, ← hdiv]
    field_simp

/-- The digits that a text begins with. -/
def readFraction : List Char → List (Fin 10) × List Char
  | [] => ([], [])
  | c :: s =>
    match digitOf c with
    | some d => (d :: (readFraction s).1, (readFraction s).2)
    | none => ([], c :: s)

theorem readFraction_append (ds : List (Fin 10)) {c : Char} (hc : digitOf c = none)
    (s : List Char) :
    readFraction (ds.map digitChar ++ c :: s) = (ds, c :: s) := by
  induction ds with
  | nil => simp [readFraction, hc]
  | cons d ds ih => simp [readFraction, ih]

theorem readFraction_spec (s : List Char) :
    (readFraction s).1.map digitChar ++ (readFraction s).2 = s := by
  induction s with
  | nil => rfl
  | cons c s ih =>
    rw [readFraction]
    cases hc : digitOf c with
    | none => rfl
    | some d =>
      rw [digitOf_eq_some.mp hc]
      simpa using ih

/-! ### The order of the texts against that of the values -/

section Agrees
variable {α : Type*} [LinearOrder α] {z : α} {h k s t : List α} {v w : ℚ}

/-- **The texts are in the order of the values**, but where one of them goes on where the other
ends: its value is not the less, and it comes first, as they both end with `z`. -/
structure Agrees (z : α) (s t : List α) (v w : ℚ) : Prop where
  lt_iff : s ++ [z] < t ++ [z] ↔ v < w ∧ ¬ s <+: t ∨ t <+: s ∧ t ≠ s
  le_right : s <+: t → v ≤ w
  le_left : t <+: s → w ≤ v

theorem Agrees.congr {v' w' : ℚ} (hagrees : Agrees z s t v w) (hlt : v' < w' ↔ v < w)
    (hgt : w' < v' ↔ w < v) :
    Agrees z s t v' w' where
  lt_iff := by
    rw [hlt]
    exact hagrees.lt_iff
  le_right hleads := not_lt.mp (mt hgt.mp (not_lt.mpr (hagrees.le_right hleads)))
  le_left hleads := not_lt.mp (mt hlt.mp (not_lt.mpr (hagrees.le_left hleads)))

theorem Agrees.nil : Agrees z [] [] v v := ⟨by simp, fun _ => le_rfl, fun _ => le_rfl⟩

/-- The other one goes on. -/
theorem Agrees.nil_left {b : α} (hb : b < z) (hle : v ≤ w) : Agrees z [] (b :: t) v w :=
  ⟨by simp [List.cons_lt_cons_iff, hb.le, hb.ne'], fun _ => hle, by simp⟩

theorem Agrees.nil_right {a : α} (ha : a < z) (hle : w ≤ v) : Agrees z (a :: s) [] v w :=
  ⟨by simp [List.cons_lt_cons_iff, ha], by simp, fun _ => hle⟩

/-- The same character in front. -/
theorem Agrees.cons (a : α) (hagrees : Agrees z s t v w) : Agrees z (a :: s) (a :: t) v w where
  lt_iff := by
    rw [List.cons_append, List.cons_append, List.cons_lt_cons_self, hagrees.lt_iff]
    simp
  le_right hleads := hagrees.le_right ((List.prefix_cons_inj a).mp hleads)
  le_left hleads := hagrees.le_left ((List.prefix_cons_inj a).mp hleads)

/-- **Texts of one length in front**, of numbers that count before the rest. -/
theorem Agrees.append (hlen : h.length = k.length) {p q : ℤ} (hlt : h < k ↔ p < q)
    (hgt : k < h ↔ q < p) {c : ℚ} (hv : 0 ≤ v ∧ v < c) (hw : 0 ≤ w ∧ w < c)
    (hagrees : Agrees z s t v w) :
    Agrees z (h ++ s) (k ++ t) (p * c + v) (q * c + w) := by
  have hstep : ∀ {a b : ℤ} {x y : ℚ}, x < c → 0 ≤ y → a < b → a * c + x < b * c + y := by
    intro a b x y hx hy hab
    have hc : 0 < c := hv.1.trans_lt hv.2
    have hle : ((a : ℚ) + 1) * c ≤ b * c := by
      have : ((a + 1 : ℤ) : ℚ) ≤ b := by exact_mod_cast hab
      push_cast at this
      exact mul_le_mul_of_nonneg_right this hc.le
    linarith
  have hsame : h = k → p = q := by
    rintro rfl
    exact le_antisymm (not_lt.mp (mt hgt.mpr (lt_irrefl h))) (not_lt.mp (mt hlt.mpr (lt_irrefl h)))
  constructor
  · rw [List.append_assoc, List.append_assoc, append_lt_append_iff hlen, hagrees.lt_iff,
      List.prefix_append_inj_of_length_eq hlen, List.prefix_append_inj_of_length_eq hlen.symm]
    rcases lt_trichotomy p q with hpq | rfl | hpq
    · have hhk := hlt.mpr hpq
      simp [hhk, hhk.ne, hhk.ne', hstep hv.2 hw.1 hpq]
    · obtain rfl : h = k :=
        le_antisymm (not_lt.mp (mt hgt.mp (lt_irrefl _))) (not_lt.mp (mt hlt.mp (lt_irrefl _)))
      simp
    · have hkh := hgt.mpr hpq
      simp [hkh.not_gt, hkh.ne, hkh.ne', (hstep hw.2 hv.1 hpq).not_gt]
  · intro hleads
    obtain ⟨hhk, hst⟩ := (List.prefix_append_inj_of_length_eq hlen).mp hleads
    rw [hsame hhk]
    exact add_le_add_right (hagrees.le_right hst) _
  · intro hleads
    obtain ⟨hkh, hts⟩ := (List.prefix_append_inj_of_length_eq hlen.symm).mp hleads
    rw [hsame hkh.symm]
    exact add_le_add_right (hagrees.le_left hts) _

/-- A number of a fixed width in front. -/
theorem Agrees.numeral {z : Char} {s t : List Char} {width m n : ℕ} (hm : m < 10 ^ width)
    (hn : n < 10 ^ width) {c : ℚ} (hv : 0 ≤ v ∧ v < c) (hw : 0 ≤ w ∧ w < c)
    (hagrees : Agrees z s t v w) :
    Agrees z (numeral width m ++ s) (numeral width n ++ t) (m * c + v) (n * c + w) := by
  have hlt : ∀ {i j}, i < 10 ^ width → j < 10 ^ width →
    (Decimals.numeral width i < Decimals.numeral width j ↔
      ((i : ℕ) : ℤ) < (j : ℕ)) := fun hi hj => (numeral_lt_iff hi hj).trans Nat.cast_lt.symm
  simpa using Agrees.append (by simp) (hlt hm hn) (hlt hn hm) hv hw hagrees

/-- **Fractions.** -/
theorem agrees_fraction {sym : Fin 10 → α} (hsym : StrictMono sym) (hbelow : ∀ d, sym d < z)
    (ds es : List (Fin 10)) : Agrees z (ds.map sym) (es.map sym) (fraction ds) (fraction es) := by
  induction ds generalizing es with
  | nil =>
    cases es with
    | nil => exact .nil
    | cons e es => exact .nil_left (hbelow e) (fraction_nonneg (e :: es))
  | cons d ds ih =>
    cases es with
    | nil => exact .nil_right (hbelow d) (fraction_nonneg (d :: ds))
    | cons e es =>
      have hfirst : ∀ {a b : Fin 10}, [sym a] < [sym b] ↔ ((a : ℕ) : ℤ) < (b : ℕ) := by
        intro a b
        simp [List.cons_lt_cons_iff, hsym.lt_iff_lt]
      have htenth : ∀ {a b : Fin 10} {fs gs : List (Fin 10)},
        fraction (a :: fs) < fraction (b :: gs) ↔
          ((a : ℕ) : ℤ) * 1 + fraction fs < ((b : ℕ) : ℤ) * 1 + fraction gs := by
        intro a b fs gs
        rw [fraction, fraction, div_lt_div_iff_of_pos_right (by norm_num)]
        push_cast
        rw [mul_one, mul_one]
      have happend := Agrees.append (h := [sym d]) (k := [sym e]) rfl hfirst hfirst
        ⟨fraction_nonneg ds, fraction_lt_one ds⟩ ⟨fraction_nonneg es, fraction_lt_one es⟩ (ih es)
      exact happend.congr htenth htenth

end Agrees

end Vsms.Lib.Decimals
