import AiBackend.Support.Printf
import Mathlib.Tactic.FieldSimp
import Mathlib.Tactic.Linarith
import Mathlib.Tactic.Positivity

/-!
# Texts of floats

`float.__repr__` writes the shortest decimal number that is read back as the
same double, and reading rounds to the nearest double.  Doubles are the
rational numbers that rounding leaves alone.
-/

namespace AiBackend.FloatText

open Printf

/-! ## Doubles -/

/-- The exponent of the last binary place of the doubles around a number. -/
def ulpExponent (q : ℚ) : ℤ := max (Int.log 2 q - 52) (-1074)

/-- The nearest double to a number that is not negative, were there no bound
above. -/
def nearest (q : ℚ) : ℚ :=
  roundHalfEven (q / 2 ^ ulpExponent q) * 2 ^ ulpExponent q

/-- A finite `float`. -/
def IsDouble (q : ℚ) : Prop := nearest |q| = |q| ∧ |q| < 2 ^ 1024

instance (q : ℚ) : Decidable (IsDouble q) := inferInstanceAs (Decidable (_ ∧ _))

/-- `float(text)` for a text that denotes `q`, which is not negative; none if
the result is infinite. -/
def readDouble (q : ℚ) : Option ℚ :=
  if nearest q < 2 ^ 1024 then some (nearest q) else none

/-! ## Rounding to decimal digits -/

/-- The `n` leading decimal digits of a positive number, as one number, and the
exponent of the first of them. -/
def roundTo (n : ℕ) (q : ℚ) : ℕ × ℤ :=
  let exponent := Int.log 10 q
  let digits := (roundHalfEven (q * 10 ^ ((n : ℤ) - 1 - exponent))).toNat
  if digits = 10 ^ n then (10 ^ (n - 1), exponent + 1) else (digits, exponent)

/-- The number that has `n` given leading digits. -/
def decimalValue (n : ℕ) (decimal : ℕ × ℤ) : ℚ :=
  decimal.1 * 10 ^ (decimal.2 - ((n : ℤ) - 1))

/-- So many digits always suffice. -/
def digitsBound (q : ℚ) : ℕ :=
  (-ulpExponent q).toNat + (Int.log 10 q + 1).toNat + 1

/-- The least number of digits with which `q` is read back. -/
def digitsNeeded (q : ℚ) : ℕ :=
  (((List.range (digitsBound q)).map (· + 1)).find? fun n =>
    nearest (decimalValue n (roundTo n q)) = q).getD 17

/-! ## Numerals -/

/-- The parts of an unsigned number: digits, the digits of a fraction, which
may be missing, and an exponent, which may be missing as well. -/
structure Numeral where
  whole : List Char
  fraction : List Char := []
  exponent : Option ℤ := none

namespace Numeral

def text (n : Numeral) : List Char :=
  n.whole ++ ((if n.fraction.isEmpty then [] else '.' :: n.fraction) ++
    n.exponent.elim [] exponentText)

/-- The number that the text denotes. -/
def value (n : Numeral) : ℚ :=
  Nat.ofDigitChars 10 (n.whole ++ n.fraction) 0 *
    10 ^ (n.exponent.getD 0 - n.fraction.length)

/-- There are digits only, and no leading zeros. -/
structure WellFormed (n : Numeral) : Prop where
  whole_digits : ∀ c ∈ n.whole, c.isDigit = true
  no_leading_zero : n.whole = ['0'] ∨ ∃ c cs, n.whole = c :: cs ∧ c ≠ '0'
  fraction_digits : ∀ c ∈ n.fraction, c.isDigit = true

end Numeral

/-- Digits with the decimal point behind the first of them and an exponent. -/
def scientific (digits : List Char) (e : ℤ) : Numeral where
  whole := digits.take 1
  fraction := digits.drop 1
  exponent := some e

/-- Digits behind a decimal point and some zeros. -/
def small (digits : List Char) (zeros : ℕ) : Numeral where
  whole := ['0']
  fraction := List.replicate zeros '0' ++ digits

/-- Digits with the decimal point behind `places` of them; zeros fill up. -/
def positional (digits : List Char) (places : ℕ) : Numeral where
  whole := digits.take places ++ List.replicate (places - digits.length) '0'
  fraction := if (digits.drop places).isEmpty then ['0'] else digits.drop places

/-- The numeral `float.__repr__` writes for a positive number. -/
def positiveNumeral (q : ℚ) : Numeral :=
  let (number, e) := roundTo (digitsNeeded q) q
  let digits := Nat.toDigits 10 number
  if e < -4 ∨ 16 ≤ e then scientific digits e
  else if e < 0 then small digits (-e - 1).toNat
  else positional digits (e + 1).toNat

/-- `float.__repr__`. -/
def repr (q : ℚ) : List Char :=
  if q = 0 then ['0', '.', '0']
  else if q < 0 then '-' :: (positiveNumeral (-q)).text
  else (positiveNumeral q).text

example : repr (5764607523034235 / 2 ^ 59) = "0.01".toList := by decide +kernel

/-! ## Rounding -/

section Rounding

theorem roundHalfEven_intCast (k : ℤ) : roundHalfEven k = k := by
  rw [roundHalfEven]
  simp

theorem floor_le_roundHalfEven (q : ℚ) : ⌊q⌋ ≤ roundHalfEven q := by
  unfold roundHalfEven
  dsimp only
  split_ifs
  all_goals omega

theorem le_roundHalfEven {k : ℤ} {q : ℚ} (h : (k : ℚ) ≤ q) : k ≤ roundHalfEven q :=
  (Int.le_floor.mpr h).trans (floor_le_roundHalfEven q)

theorem roundHalfEven_le {k : ℤ} {q : ℚ} (h : q ≤ k) : roundHalfEven q ≤ k := by
  rcases h.lt_or_eq with hlt | rfl
  · have hfloor : ⌊q⌋ + 1 ≤ k := Int.floor_lt.mpr hlt
    unfold roundHalfEven
    dsimp only
    split_ifs
    all_goals omega
  · exact (roundHalfEven_intCast k).le

/-- A number that is rounded to itself is a multiple of a power of two. -/
theorem exists_eq_mul_of_nearest {q : ℚ} (h : nearest q = q) :
    ∃ k : ℤ, q = k * 2 ^ ulpExponent q := ⟨_, h.symm⟩

variable {q : ℚ} {n : ℕ}

theorem decimalValue_roundTo (hn : 1 ≤ n) :
    decimalValue n (roundTo n q) =
      (roundHalfEven (q * 10 ^ ((n : ℤ) - 1 - Int.log 10 q))).toNat *
        10 ^ (Int.log 10 q - ((n : ℤ) - 1)) := by
  have hten : (10 : ℚ) ≠ 0 := by norm_num
  unfold roundTo
  dsimp only
  split
  next hcarry =>
    have hexponent : Int.log 10 q + 1 - ((n : ℤ) - 1) =
        Int.log 10 q - ((n : ℤ) - 1) + 1 := by ring
    have hpow : (10 : ℚ) ^ n = 10 ^ (n - 1) * 10 := by
      rw [← pow_succ, Nat.sub_add_cancel hn]
    rw [hcarry, decimalValue, hexponent, zpow_add_one₀ hten]
    push_cast
    rw [hpow]
    ring
  next => rfl

/-- The scaled number lies between two powers of ten. -/
theorem scaled_bounds (hq : 0 < q) (hn : 1 ≤ n) :
    ((10 ^ (n - 1) : ℕ) : ℚ) ≤ q * 10 ^ ((n : ℤ) - 1 - Int.log 10 q) ∧
      q * 10 ^ ((n : ℤ) - 1 - Int.log 10 q) < ((10 ^ n : ℕ) : ℚ) := by
  have hten : (10 : ℚ) ≠ 0 := by norm_num
  have hscale : (0 : ℚ) < 10 ^ ((n : ℤ) - 1 - Int.log 10 q) :=
    zpow_pos (by norm_num) _
  have hlower : (10 : ℚ) ^ Int.log 10 q ≤ q := by
    have h := Int.zpow_log_le_self (R := ℚ) (b := 10) (by norm_num) hq
    exact_mod_cast h
  have hupper : q < (10 : ℚ) ^ (Int.log 10 q + 1) := by
    have h := Int.lt_zpow_succ_log_self (R := ℚ) (b := 10) (by norm_num) q
    exact_mod_cast h
  have hpred : ((10 ^ (n - 1) : ℕ) : ℚ) =
      10 ^ Int.log 10 q * 10 ^ ((n : ℤ) - 1 - Int.log 10 q) := by
    rw [← zpow_add₀ hten, Nat.cast_pow, ← zpow_natCast, Nat.cast_sub hn]
    congr 1
    push_cast
    ring
  have hself : ((10 ^ n : ℕ) : ℚ) =
      10 ^ (Int.log 10 q + 1) * 10 ^ ((n : ℤ) - 1 - Int.log 10 q) := by
    rw [← zpow_add₀ hten, Nat.cast_pow, ← zpow_natCast]
    congr 1
    ring
  constructor
  · rw [hpred]
    exact mul_le_mul_of_nonneg_right hlower hscale.le
  · rw [hself]
    exact mul_lt_mul_of_pos_right hupper hscale

/-- The number has exactly `n` digits. -/
theorem roundTo_bounds (hq : 0 < q) (hn : 1 ≤ n) :
    10 ^ (n - 1) ≤ (roundTo n q).1 ∧ (roundTo n q).1 < 10 ^ n := by
  obtain ⟨hlower, hupper⟩ := scaled_bounds hq hn
  have hlow : ((10 ^ (n - 1) : ℕ) : ℤ) ≤
      roundHalfEven (q * 10 ^ ((n : ℤ) - 1 - Int.log 10 q)) :=
    le_roundHalfEven (by exact_mod_cast hlower)
  have hhigh : roundHalfEven (q * 10 ^ ((n : ℤ) - 1 - Int.log 10 q)) ≤
      ((10 ^ n : ℕ) : ℤ) :=
    roundHalfEven_le (by exact_mod_cast hupper.le)
  have hpow : 10 ^ (n - 1) < 10 ^ n :=
    Nat.pow_lt_pow_right (by norm_num) (Nat.sub_lt hn Nat.one_pos)
  unfold roundTo
  dsimp only
  generalize 10 ^ (n - 1) = low, 10 ^ n = high at hlow hhigh hpow ⊢
  split
  · exact ⟨Nat.le_refl _, hpow⟩
  · constructor
    · omega
    · omega

theorem one_le_digitsBound (q : ℚ) : 1 ≤ digitsBound q := Nat.le_add_left 1 _

/-- With as many digits as the bound allows nothing is lost. -/
theorem decimalValue_digitsBound (hq : 0 < q) (hdouble : nearest q = q) :
    decimalValue (digitsBound q) (roundTo (digitsBound q) q) = q := by
  have htwo : (2 : ℚ) ≠ 0 := by norm_num
  have hten : (10 : ℚ) ≠ 0 := by norm_num
  obtain ⟨k, hk⟩ := exists_eq_mul_of_nearest hdouble
  obtain ⟨j, hj⟩ : ∃ j : ℕ, (digitsBound q : ℤ) - 1 - Int.log 10 q = j :=
    Int.eq_ofNat_of_zero_le (by unfold digitsBound; omega)
  obtain ⟨i, hi⟩ : ∃ i : ℕ, ulpExponent q + j = i :=
    Int.eq_ofNat_of_zero_le (by unfold digitsBound at hj; omega)
  have hinteger : q * 10 ^ ((digitsBound q : ℤ) - 1 - Int.log 10 q) =
      ((k * 2 ^ i * 5 ^ j : ℤ) : ℚ) := by
    have hsplit : (10 : ℚ) ^ (j : ℤ) = 2 ^ (j : ℤ) * 5 ^ (j : ℤ) := by
      rw [← mul_zpow]
      norm_num
    have hpow : (2 : ℚ) ^ ulpExponent q * 2 ^ (j : ℤ) = 2 ^ i := by
      rw [← zpow_add₀ htwo, hi, zpow_natCast]
    calc q * 10 ^ ((digitsBound q : ℤ) - 1 - Int.log 10 q)
        = k * 2 ^ ulpExponent q * 10 ^ (j : ℤ) := by rw [hj, ← hk]
      _ = k * (2 ^ ulpExponent q * 2 ^ (j : ℤ)) * 5 ^ (j : ℤ) := by
          rw [hsplit]
          ring
      _ = ((k * 2 ^ i * 5 ^ j : ℤ) : ℚ) := by
          rw [hpow, zpow_natCast]
          push_cast
          ring
  have hnonneg : (0 : ℤ) ≤ k * 2 ^ i * 5 ^ j := by
    have hscale : (0 : ℚ) < 10 ^ ((digitsBound q : ℤ) - 1 - Int.log 10 q) :=
      zpow_pos (by norm_num) _
    have hpos := mul_pos hq hscale
    rw [hinteger] at hpos
    exact_mod_cast hpos.le
  have hnumber : (((k * 2 ^ i * 5 ^ j : ℤ).toNat : ℕ) : ℚ) =
      ((k * 2 ^ i * 5 ^ j : ℤ) : ℚ) := by
    exact_mod_cast congrArg (Int.cast (R := ℚ)) (Int.toNat_of_nonneg hnonneg)
  have hback : (10 : ℚ) ^ ((digitsBound q : ℤ) - 1 - Int.log 10 q) *
      10 ^ (Int.log 10 q - ((digitsBound q : ℤ) - 1)) = 1 := by
    rw [← zpow_add₀ hten]
    simp
  rw [decimalValue_roundTo (one_le_digitsBound q), hinteger, roundHalfEven_intCast,
    hnumber, ← hinteger, mul_assoc, hback, mul_one]

/-- The digits that are written are read back as the same double. -/
theorem digitsNeeded_spec (hq : 0 < q) (hdouble : nearest q = q) :
    1 ≤ digitsNeeded q ∧
      nearest (decimalValue (digitsNeeded q) (roundTo (digitsNeeded q) q)) = q := by
  have hbound := one_le_digitsBound q
  have hmem : digitsBound q ∈ (List.range (digitsBound q)).map (· + 1) :=
    List.mem_map.mpr ⟨digitsBound q - 1, List.mem_range.mpr (by omega),
      Nat.sub_add_cancel hbound⟩
  have hfound : nearest (decimalValue (digitsBound q) (roundTo (digitsBound q) q)) =
      q := by
    rw [decimalValue_digitsBound hq hdouble, hdouble]
  unfold digitsNeeded
  cases hfind : ((List.range (digitsBound q)).map (· + 1)).find? fun n =>
      nearest (decimalValue n (roundTo n q)) = q with
  | none =>
      have hnone := List.find?_eq_none.mp hfind _ hmem
      simp [hfound] at hnone
  | some n =>
      obtain ⟨m, -, hm⟩ := List.mem_map.mp (List.mem_of_find?_eq_some hfind)
      have hn := List.find?_some hfind
      rw [Option.getD_some]
      exact ⟨by omega, by simpa using hn⟩

end Rounding

/-! ## What is written -/

section Written

variable {digits : List Char} {number : ℕ}

theorem head_toDigits_ne_zero {number : ℕ} (h : 0 < number) :
    ∃ c cs, Nat.toDigits 10 number = c :: cs ∧ c ≠ '0' := by
  induction number using Nat.strong_induction_on with
  | _ number ih =>
      by_cases hlt : number < 10
      · refine ⟨_, [], Nat.toDigits_of_lt_base hlt, ?_⟩
        have hall : ∀ d < 10, 0 < d → Nat.digitChar d ≠ '0' := by decide
        exact hall number hlt h
      · have hdiv : 0 < number / 10 := Nat.div_pos (not_lt.mp hlt) (by norm_num)
        obtain ⟨c, cs, hdigits, hc⟩ :=
          ih (number / 10) (Nat.div_lt_self h (by norm_num)) hdiv
        refine ⟨c, cs ++ [Nat.digitChar (number % 10)], ?_, hc⟩
        rw [Nat.toDigits_of_base_le (by norm_num) (not_lt.mp hlt), hdigits]
        rfl

/-- The digits of a number behind those of a multiple of a power of ten. -/
theorem length_toDigits {n number : ℕ} (hn : 1 ≤ n) (hlow : 10 ^ (n - 1) ≤ number)
    (hhigh : number < 10 ^ n) : (Nat.toDigits 10 number).length = n := by
  have hle : (Nat.toDigits 10 number).length ≤ n :=
    (Nat.length_toDigits_le_iff (by norm_num) hn).mpr hhigh
  have hpos : 0 < (Nat.toDigits 10 number).length := Nat.length_toDigits_pos
  by_cases hone : n = 1
  · omega
  · have hnot : ¬ (Nat.toDigits 10 number).length ≤ n - 1 := by
      rw [Nat.length_toDigits_le_iff (by norm_num) (by omega)]
      exact not_lt.mpr hlow
    omega

theorem ofDigitChars_zeros (zeros : ℕ) (digits : List Char) :
    Nat.ofDigitChars 10 (List.replicate zeros '0' ++ digits) 0 =
      Nat.ofDigitChars 10 digits 0 := by
  rw [Nat.ofDigitChars_append, Nat.ofDigitChars_replicate_zero, Nat.mul_zero]

theorem value_scientific (digits : List Char) (e : ℤ) (h : 1 ≤ digits.length) :
    (scientific digits e).value =
      Nat.ofDigitChars 10 digits 0 * 10 ^ (e - ((digits.length : ℤ) - 1)) := by
  have hlength : ((digits.drop 1).length : ℤ) = (digits.length : ℤ) - 1 := by
    rw [List.length_drop]
    omega
  simp only [scientific, Numeral.value, List.take_append_drop, Option.getD_some,
    hlength]

theorem value_small (digits : List Char) (zeros : ℕ) :
    (small digits zeros).value = Nat.ofDigitChars 10 digits 0 *
      10 ^ (-(zeros : ℤ) - 1 - ((digits.length : ℤ) - 1)) := by
  have hdigits : Nat.ofDigitChars 10
      (['0'] ++ (List.replicate zeros '0' ++ digits)) 0 =
      Nat.ofDigitChars 10 digits 0 := by
    rw [← List.append_assoc]
    exact ofDigitChars_zeros (zeros + 1) digits
  have hexponent : (0 : ℤ) - ((List.replicate zeros '0' ++ digits).length : ℤ) =
      -(zeros : ℤ) - 1 - ((digits.length : ℤ) - 1) := by
    rw [List.length_append, List.length_replicate]
    omega
  simp only [small, Numeral.value, hdigits, Option.getD_none, hexponent]

theorem value_positional (digits : List Char) (places : ℕ) :
    (positional digits places).value = Nat.ofDigitChars 10 digits 0 *
      10 ^ ((places : ℤ) - 1 - ((digits.length : ℤ) - 1)) := by
  have hten : (10 : ℚ) ≠ 0 := by norm_num
  by_cases hfew : digits.length ≤ places
  · obtain ⟨zeros, rfl⟩ := Nat.exists_eq_add_of_le hfew
    have htext : digits.take (digits.length + zeros) ++
        List.replicate (digits.length + zeros - digits.length) '0' ++ ['0'] =
        digits ++ List.replicate (zeros + 1) '0' := by
      rw [List.take_of_length_le hfew, Nat.add_sub_cancel_left, List.append_assoc,
        List.replicate_succ']
    have hfraction : digits.drop (digits.length + zeros) = [] :=
      List.drop_eq_nil_of_le hfew
    have hexponent : ((digits.length + zeros : ℕ) : ℤ) - 1 -
        ((digits.length : ℤ) - 1) = zeros := by
      omega
    simp only [positional, Numeral.value, hfraction, List.isEmpty_nil, ↓reduceIte,
      htext, Nat.ofDigitChars_append, Nat.ofDigitChars_replicate_zero, hexponent,
      Option.getD_none, List.length_singleton]
    rw [zpow_natCast]
    push_cast
    rw [pow_succ, zpow_neg_one]
    field_simp
  · have hsome : (digits.drop places).isEmpty = false := by
      rw [List.isEmpty_eq_false_iff]
      intro hempty
      exact hfew (List.drop_eq_nil_iff.mp hempty)
    have hzeros : places - digits.length = 0 := by omega
    have hexponent : (0 : ℤ) - ((digits.drop places).length : ℤ) =
        (places : ℤ) - 1 - ((digits.length : ℤ) - 1) := by
      rw [List.length_drop]
      omega
    simp only [positional, Numeral.value, hsome, Bool.false_eq_true, ↓reduceIte,
      hzeros, List.replicate_zero, List.append_nil, List.take_append_drop,
      Option.getD_none, hexponent]

/-- The numeral of a positive double denotes a number that is read back as that
double. -/
theorem value_positiveNumeral {q : ℚ} (hq : 0 < q) (hdouble : nearest q = q) :
    nearest (positiveNumeral q).value = q := by
  obtain ⟨hn, hnearest⟩ := digitsNeeded_spec hq hdouble
  obtain ⟨hlow, hhigh⟩ := roundTo_bounds hq hn
  have hlength := length_toDigits hn hlow hhigh
  have hnumber : Nat.ofDigitChars 10
      (Nat.toDigits 10 (roundTo (digitsNeeded q) q).1) 0 =
      (roundTo (digitsNeeded q) q).1 :=
    Nat.ofDigitChars_ten_toDigits
  have hvalue : (positiveNumeral q).value =
      decimalValue (digitsNeeded q) (roundTo (digitsNeeded q) q) := by
    unfold positiveNumeral decimalValue
    generalize roundTo (digitsNeeded q) q = decimal at hlength hnumber ⊢
    dsimp only
    split_ifs with hwide hnegative
    · rw [value_scientific _ _ (by omega), hnumber, hlength]
    · have hzeros : -((-decimal.2 - 1).toNat : ℤ) - 1 = decimal.2 := by omega
      rw [value_small, hnumber, hlength, hzeros]
    · have hplaces : ((decimal.2 + 1).toNat : ℤ) - 1 = decimal.2 := by omega
      rw [value_positional, hnumber, hlength, hplaces]
  rw [hvalue, hnearest]

theorem wellFormed_positiveNumeral {q : ℚ} (hq : 0 < q) (hdouble : nearest q = q) :
    (positiveNumeral q).WellFormed := by
  obtain ⟨hn, -⟩ := digitsNeeded_spec hq hdouble
  obtain ⟨hlow, -⟩ := roundTo_bounds hq hn
  have hpos : 0 < (roundTo (digitsNeeded q) q).1 :=
    Nat.lt_of_lt_of_le (Nat.pow_pos (by norm_num)) hlow
  obtain ⟨c, cs, hdigits, hc⟩ := head_toDigits_ne_zero hpos
  have hall : ∀ d ∈ Nat.toDigits 10 (roundTo (digitsNeeded q) q).1,
      d.isDigit = true :=
    fun d hd => Nat.isDigit_of_mem_toDigits (by decide) (by decide) hd
  have hzeros : ∀ n d, d ∈ List.replicate n '0' → d.isDigit = true := by
    intro n d hd
    rw [List.eq_of_mem_replicate hd]
    rfl
  unfold positiveNumeral
  generalize roundTo (digitsNeeded q) q = decimal at hall hdigits ⊢
  dsimp only
  split_ifs with hwide hnegative
  · constructor
    · exact fun d hd => hall d (List.mem_of_mem_take hd)
    · exact Or.inr ⟨c, [], by simp [scientific, hdigits], hc⟩
    · exact fun d hd => hall d (List.mem_of_mem_drop hd)
  · constructor
    · intro d hd
      rw [List.mem_singleton.mp hd]
      rfl
    · exact Or.inl rfl
    · intro d hd
      rcases List.mem_append.mp hd with hd | hd
      · exact hzeros _ d hd
      · exact hall d hd
  · obtain ⟨places, hplaces⟩ : ∃ places, (decimal.2 + 1).toNat = places + 1 :=
      ⟨decimal.2.toNat, by omega⟩
    rw [hplaces]
    constructor
    · intro d hd
      rcases List.mem_append.mp hd with hd | hd
      · exact hall d (List.mem_of_mem_take hd)
      · exact hzeros _ d hd
    · refine Or.inr ⟨c, cs.take places ++
        List.replicate (places + 1 - (c :: cs).length) '0', ?_, hc⟩
      simp [positional, hdigits]
    · intro d hd
      unfold positional at hd
      dsimp only at hd
      split at hd
      · rw [List.mem_singleton.mp hd]
        rfl
      · exact hall d (List.mem_of_mem_drop hd)

/-- It is never written like an integer. -/
theorem positiveNumeral_not_integer (q : ℚ) :
    (positiveNumeral q).fraction ≠ [] ∨ (positiveNumeral q).exponent ≠ none := by
  unfold positiveNumeral
  generalize roundTo (digitsNeeded q) q = decimal
  dsimp only
  split_ifs with hwide hnegative
  · exact Or.inr (Option.some_ne_none _)
  · refine Or.inl fun hempty => ?_
    exact Nat.toDigits_ne_nil (List.append_eq_nil_iff.mp hempty).2
  · left
    unfold positional
    dsimp only
    split
    · exact List.cons_ne_nil _ _
    next hsome => exact fun hempty => hsome (List.isEmpty_iff.mpr hempty)

end Written

end AiBackend.FloatText
