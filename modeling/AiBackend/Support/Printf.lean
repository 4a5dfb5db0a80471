import Mathlib.Data.Int.Log
import Mathlib.Data.Rat.Floor

/-!
# Number texts

The text C's `printf` gives a number under the conversion `%.14g`, which is
how Lua turns a number into a string, and the one Python gives a `float` under
the format `.0%`.  Rounding is to the nearest value, ties to even.
-/

namespace AiBackend.Printf

/-- The nearest integer; of two equally near ones, the even one. -/
def roundHalfEven (q : ℚ) : ℤ :=
  let rest := q - ⌊q⌋
  if rest < 1 / 2 then ⌊q⌋
  else if 1 / 2 < rest then ⌊q⌋ + 1
  else if ⌊q⌋ % 2 = 0 then ⌊q⌋ else ⌊q⌋ + 1

/-- The fourteen leading digits of a positive number, as one number, and the
decimal exponent of the first of them. -/
def significant (q : ℚ) : ℕ × ℤ :=
  let exponent := Int.log 10 q
  let digits := (roundHalfEven (q * 10 ^ (13 - exponent))).toNat
  if digits = 10 ^ 14 then (10 ^ 13, exponent + 1) else (digits, exponent)

/-- A whole part and a fraction, whose trailing zeros are dropped. -/
def withFraction (whole fraction : List Char) : List Char :=
  match (fraction.reverse.dropWhile (· = '0')).reverse with
  | [] => whole
  | digits => whole ++ '.' :: digits

/-- An exponent has a sign and at least two digits. -/
def exponentText (e : ℤ) : List Char :=
  let digits := Nat.toDigits 10 e.natAbs
  'e' :: (if e < 0 then '-' else '+') ::
    (if digits.length < 2 then '0' :: digits else digits)

/-- The text of a positive number. -/
def positiveText (q : ℚ) : List Char :=
  let (number, e) := significant q
  let digits := Nat.toDigits 10 number
  if e < -4 ∨ 14 ≤ e then
    withFraction (digits.take 1) (digits.drop 1) ++ exponentText e
  else if e < 0 then
    withFraction ['0'] (List.replicate (-e - 1).toNat '0' ++ digits)
  else
    withFraction (digits.take (e.toNat + 1)) (digits.drop (e.toNat + 1))

/-- `%.14g`. -/
def formatG14 (q : ℚ) : String :=
  if q = 0 then "0"
  else if q < 0 then String.ofList ('-' :: positiveText (-q))
  else String.ofList (positiveText q)

/-- The double nearest to a positive number in the normal range. -/
def toDouble (q : ℚ) : ℚ :=
  let ulp := 2 ^ (Int.log 2 q - 52)
  roundHalfEven (q / ulp) * ulp

/-- `format(x, ".0%")` for a double between 0 and 1: the product with 100 is
itself rounded to a double. -/
def formatPercent (q : ℚ) : String :=
  toString (roundHalfEven (if q = 0 then 0 else toDouble (q * 100))) ++ "%"

/-- The double nearest to 0.005 lies above it, its product with 100 does not
lie above 0.5. -/
example : formatPercent (5764607523034235 / 2 ^ 60) = "0%" := by decide +kernel

end AiBackend.Printf
