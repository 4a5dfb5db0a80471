import AiBackend.Support.FloatText
import AiBackend.Support.Json
import AiBackend.Support.Uuid

/-!
# JSON texts

`json.dumps` with its defaults and `json.loads`.  The writer leaves no
character outside ASCII, the reader accepts any JSON text; a text that is
written is read back as the value it was written for.
-/

namespace AiBackend.JsonText

open FloatText

/-! ## Writing -/

/-- A character inside a string. -/
def escape (c : Char) : List Char :=
  if c = '"' then ['\\', '"']
  else if c = '\\' then ['\\', '\\']
  else if c = '\n' then ['\\', 'n']
  else if c = '\r' then ['\\', 'r']
  else if c = '\t' then ['\\', 't']
  else if c = Char.ofNat 12 then ['\\', 'f']
  else if c = Char.ofNat 8 then ['\\', 'b']
  else if 32 ≤ c.toNat ∧ c.toNat ≤ 126 then [c]
  else if c.toNat < 0x10000 then '\\' :: 'u' :: Uuid.hexDigits 4 c.toNat
  else
    -- beyond the first plane a character is written as two surrogates
    '\\' :: 'u' :: (Uuid.hexDigits 4 (0xD800 + (c.toNat - 0x10000) / 0x400) ++
      '\\' :: 'u' :: Uuid.hexDigits 4 (0xDC00 + (c.toNat - 0x10000) % 0x400))

def quoted (s : String) : List Char := '"' :: (s.toList.flatMap escape ++ ['"'])

def integerText (n : ℤ) : List Char :=
  if n < 0 then '-' :: Nat.toDigits 10 n.natAbs else Nat.toDigits 10 n.natAbs

/-- Items are separated by a comma and a blank. -/
def separator {α : Type} (rest : List α) : List Char :=
  if rest.isEmpty then [] else [',', ' ']

mutual

def text : Json → List Char
  | .null => ['n', 'u', 'l', 'l']
  | .bool true => ['t', 'r', 'u', 'e']
  | .bool false => ['f', 'a', 'l', 's', 'e']
  | .int n => integerText n
  | .float q => FloatText.repr q
  | .str s => quoted s
  | .list xs => '[' :: elementsText xs
  | .dict entries => '{' :: entriesText entries

/-- The elements of a list and its closing bracket. -/
def elementsText : List Json → List Char
  | [] => [']']
  | x :: xs => text x ++ (separator xs ++ elementsText xs)

/-- The entries of a dictionary and its closing brace. -/
def entriesText : List (String × Json) → List Char
  | [] => ['}']
  | (key, value) :: entries =>
      quoted key ++ (':' :: ' ' :: (text value ++
        (separator entries ++ entriesText entries)))

end

mutual

/-- A property of a value and all values in it. -/
def all (p : Json → Bool) : Json → Bool
  | .list xs => p (.list xs) && allElements p xs
  | .dict entries => p (.dict entries) && allEntries p entries
  | value => p value

def allElements (p : Json → Bool) : List Json → Bool
  | [] => true
  | x :: xs => all p x && allElements p xs

def allEntries (p : Json → Bool) : List (String × Json) → Bool
  | [] => true
  | (_, value) :: entries => all p value && allEntries p entries

end

/-- Floats are doubles, and a key occurs once in a dictionary. -/
def isPythonValue : Json → Bool
  | .float q => decide (IsDouble q)
  | .dict entries => decide (entries.map Prod.fst).Nodup
  | _ => true

/-- Longer integers are not converted to or from decimal texts. -/
def maxStrDigits : ℕ := 4300

def fitsDigits : Json → Bool
  | .int n => decide ((Nat.toDigits 10 n.natAbs).length ≤ maxStrDigits)
  | _ => true

def digitsError : Python.PyExc :=
  .valueError ("Exceeds the limit (4300 digits) for integer string conversion; use " ++
    "sys.set_int_max_str_digits() to increase the limit")

/-- `json.dumps`. -/
def dumps (value : Json) : Except Python.PyExc String :=
  if all fitsDigits value then .ok (String.ofList (text value)) else .error digitsError

/-! ## Reading -/

/-- The white space of JSON. -/
def isSpace (c : Char) : Bool := c = ' ' || c = '\t' || c = '\n' || c = '\r'

def skipSpace (cs : List Char) : List Char := cs.dropWhile isSpace

def scanHex4 : List Char → Option (ℕ × List Char)
  | a :: b :: c :: d :: rest => do
      let a ← Uuid.hexValue? a
      let b ← Uuid.hexValue? b
      let c ← Uuid.hexValue? c
      let d ← Uuid.hexValue? d
      some (((a * 16 + b) * 16 + c) * 16 + d, rest)
  | _ => none

/-- The character behind `\u`; an unpaired surrogate is no character. -/
def scanUnicode (cs : List Char) : Option (Char × List Char) := do
  let (n, rest) ← scanHex4 cs
  if 0xD800 ≤ n ∧ n ≤ 0xDBFF then
    if rest.take 2 = ['\\', 'u'] then do
      let (m, rest) ← scanHex4 (rest.drop 2)
      if 0xDC00 ≤ m ∧ m ≤ 0xDFFF then
        some (Char.ofNat (0x10000 + (n - 0xD800) * 0x400 + (m - 0xDC00)), rest)
      else none
    else none
  else if 0xDC00 ≤ n ∧ n ≤ 0xDFFF then none
  else some (Char.ofNat n, rest)

/-- The character behind a backslash. -/
def scanEscape : List Char → Option (Char × List Char)
  | [] => none
  | c :: rest =>
      if c = 'u' then scanUnicode rest
      else if c = '"' ∨ c = '\\' ∨ c = '/' then some (c, rest)
      else if c = 'n' then some ('\n', rest)
      else if c = 'r' then some ('\r', rest)
      else if c = 't' then some ('\t', rest)
      else if c = 'f' then some (Char.ofNat 12, rest)
      else if c = 'b' then some (Char.ofNat 8, rest)
      else none

/-- The characters of a string up to its closing quotation mark. -/
def scanString : ℕ → List Char → Option (List Char × List Char)
  | 0, _ => none
  | _ + 1, [] => none
  | fuel + 1, c :: rest =>
      if c = '"' then some ([], rest)
      else if c = '\\' then do
        let (d, rest) ← scanEscape rest
        let (ds, rest) ← scanString fuel rest
        some (d :: ds, rest)
      else if c.toNat < 32 then none
      else do
        let (ds, rest) ← scanString fuel rest
        some (c :: ds, rest)

def scanWhole : List Char → Option (List Char × List Char)
  | [] => none
  | c :: rest =>
      if c = '0' then some (['0'], rest)
      else if c.isDigit then
        some ((c :: rest).takeWhile Char.isDigit, (c :: rest).dropWhile Char.isDigit)
      else none

def scanFraction : List Char → List Char × List Char
  | [] => ([], [])
  | c :: rest =>
      if c = '.' ∧ rest.takeWhile Char.isDigit ≠ [] then
        (rest.takeWhile Char.isDigit, rest.dropWhile Char.isDigit)
      else ([], c :: rest)

/-- The digits of an exponent behind its sign. -/
def scanExponentDigits (sign : ℤ) (cs : List Char) : Option (ℤ × List Char) :=
  if cs.takeWhile Char.isDigit = [] then none
  else some (sign * Nat.ofDigitChars 10 (cs.takeWhile Char.isDigit) 0,
    cs.dropWhile Char.isDigit)

def scanExponent : List Char → Option (ℤ × List Char)
  | [] => none
  | c :: rest =>
      if c = 'e' ∨ c = 'E' then
        if rest.head? = some '-' then scanExponentDigits (-1) rest.tail
        else if rest.head? = some '+' then scanExponentDigits 1 rest.tail
        else scanExponentDigits 1 rest
      else none

def scanNumeral (cs : List Char) : Option (Numeral × List Char) := do
  let (whole, rest) ← scanWhole cs
  let (fraction, rest) := scanFraction rest
  match scanExponent rest with
  | some (e, rest) => some (⟨whole, fraction, some e⟩, rest)
  | none => some (⟨whole, fraction, none⟩, rest)

/-- The value of a numeral: without a fraction and an exponent an integer. -/
def numeralValue (sign : ℤ) (n : Numeral) : Option Json :=
  if n.fraction = [] ∧ n.exponent = none then
    if n.whole.length ≤ maxStrDigits then
      some (.int (sign * Nat.ofDigitChars 10 n.whole 0))
    else none
  else (readDouble n.value).map fun q => .float (sign * q)

def scanNumber (sign : ℤ) (cs : List Char) : Option (Json × List Char) := do
  let (numeral, rest) ← scanNumeral cs
  let value ← numeralValue sign numeral
  some (value, rest)

def scanWord (word : List Char) (value : Json) (cs : List Char) :
    Option (Json × List Char) :=
  if word.isPrefixOf cs then some (value, cs.drop word.length) else none

mutual

def scanValue : ℕ → List Char → Option (Json × List Char)
  | 0, _ => none
  | _ + 1, [] => none
  | fuel + 1, c :: rest =>
      if c = '"' then do
        let (cs, rest) ← scanString (rest.length + 1) rest
        some (.str (String.ofList cs), rest)
      else if c = '[' then
        let rest := skipSpace rest
        if rest.head? = some ']' then some (.list [], rest.tail)
        else do
          let (xs, rest) ← scanElements fuel rest
          some (.list xs, rest)
      else if c = '{' then
        let rest := skipSpace rest
        if rest.head? = some '}' then some (.dict [], rest.tail)
        else do
          let (entries, rest) ← scanEntries fuel rest
          some (.dict (Dict.ofPairs entries).items, rest)
      else if c = 'n' then scanWord ['u', 'l', 'l'] .null rest
      else if c = 't' then scanWord ['r', 'u', 'e'] (.bool true) rest
      else if c = 'f' then scanWord ['a', 'l', 's', 'e'] (.bool false) rest
      else if c = '-' then scanNumber (-1) rest
      else scanNumber 1 (c :: rest)

def scanElements : ℕ → List Char → Option (List Json × List Char)
  | 0, _ => none
  | fuel + 1, cs => do
      let (x, rest) ← scanValue fuel cs
      let rest := skipSpace rest
      if rest.head? = some ']' then some ([x], rest.tail)
      else if rest.head? = some ',' then do
        let (xs, rest) ← scanElements fuel (skipSpace rest.tail)
        some (x :: xs, rest)
      else none

def scanEntries : ℕ → List Char → Option (List (String × Json) × List Char)
  | 0, _ => none
  | fuel + 1, cs =>
      if cs.head? = some '"' then do
        let (key, rest) ← scanString cs.length cs.tail
        let rest := skipSpace rest
        if rest.head? = some ':' then do
          let (value, rest) ← scanValue fuel (skipSpace rest.tail)
          let rest := skipSpace rest
          if rest.head? = some '}' then
            some ([(String.ofList key, value)], rest.tail)
          else if rest.head? = some ',' then do
            let (entries, rest) ← scanEntries fuel (skipSpace rest.tail)
            some ((String.ofList key, value) :: entries, rest)
          else none
        else none
      else none

end

/-- `json.loads`; none if it raises, or if the text denotes a value that is
not finite or not a text. -/
def loads (s : String) : Option Json := do
  let (value, rest) ← scanValue (s.length + 1) (skipSpace s.toList)
  if skipSpace rest = [] then some value else none

end AiBackend.JsonText
