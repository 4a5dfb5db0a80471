import AiBackend.Support.JsonText
import AiBackend.Support.Text

/-!
# Python floats

The values of `float`, what `float(text)` reads, what `int(x)` makes of a
value and how `str(x)` writes it.
-/

namespace AiBackend

/-- A `float`: not a number, an infinity, or a finite value given by its sign
and its magnitude. -/
inductive PyFloat where
  | nan
  | infinity (negative : Bool)
  | finite (negative : Bool) (magnitude : ℚ)
  deriving DecidableEq

namespace PyFloat

open FloatText

/-! ## Reading -/

/-- Underscores may stand between two digits. -/
def dropUnderscores : Option Char → List Char → Option (List Char)
  | previous, [] => if previous = some '_' then none else some []
  | previous, c :: cs =>
      if c = '_' then
        if previous.any Char.isDigit then dropUnderscores (some c) cs else none
      else if previous = some '_' ∧ ¬ c.isDigit then none
      else (dropUnderscores (some c) cs).map (c :: ·)

/-- A decimal number: digits, a point and digits, one of the two runs possibly
empty, and an exponent. -/
def readNumeral (cs : List Char) : Option Numeral :=
  let whole := cs.takeWhile Char.isDigit
  let rest := cs.dropWhile Char.isDigit
  let point := rest.head? = some '.'
  let fraction := if point then rest.tail.takeWhile Char.isDigit else []
  let rest := if point then rest.tail.dropWhile Char.isDigit else rest
  if whole = [] ∧ fraction = [] then none
  else if rest = [] then some ⟨whole, fraction, none⟩
  else match JsonText.scanExponent rest with
    | some (e, []) => some ⟨whole, fraction, some e⟩
    | _ => none

/-- A number without its sign. -/
def readUnsigned (negative : Bool) (cs : List Char) : Option PyFloat :=
  let lower := cs.map Char.toLower
  if lower = "inf".toList ∨ lower = "infinity".toList then some (.infinity negative)
  else if lower = "nan".toList then some .nan
  else (readNumeral cs).map fun numeral =>
    match readDouble numeral.value with
    | some q => .finite negative q
    | none => .infinity negative

/-- `float(text)`; none is its `ValueError`. -/
def ofText (text : String) : Option PyFloat := do
  let cs ← dropUnderscores none (Text.stripBy Text.isAsciiSpace (text.toList.map Text.toAscii))
  if cs.head? = some '-' then readUnsigned true cs.tail
  else if cs.head? = some '+' then readUnsigned false cs.tail
  else readUnsigned false cs

example : (ofText " 1_0.5e1").map (fun x => decide (x = .finite false 105)) = some true := by
  decide +kernel

/-! ## Converting -/

/-- `int(x)`, which drops what is behind the point. -/
def toInt : PyFloat → Except Python.PyExc ℤ
  | .nan => .error (.valueError "cannot convert float NaN to integer")
  | .infinity _ =>
      .error (.other "OverflowError" "cannot convert float infinity to integer")
  | .finite negative magnitude => .ok (if negative then -⌊magnitude⌋ else ⌊magnitude⌋)

/-- `str(x)`. -/
def str : PyFloat → String
  | .nan => "nan"
  | .infinity negative => if negative then "-inf" else "inf"
  | .finite negative magnitude =>
      String.ofList ((if negative then ['-'] else []) ++ FloatText.repr magnitude)

end PyFloat
end AiBackend
