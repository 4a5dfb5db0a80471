import AiBackend.Support.Python
import Mathlib.Algebra.Group.Int.Defs

/-!
# What the columns of the database take

The column types of `migrate.sql`: which values the driver or the server
refuses, and what they store of the others.
-/

namespace AiBackend.Postgres

open Python

/-- A value of an integer column with so many bits, given as the argument
`$n`. -/
def integer (bits argument : ℕ) (n : ℤ) : Except PyExc ℤ :=
  if -2 ^ (bits - 1) ≤ n ∧ n < 2 ^ (bits - 1) then .ok n
  else .error (.other "DataError" ("invalid input for query argument $" ++
    toString argument ++ ": " ++ toString n ++ " (value out of int" ++ toString bits ++
      " range)"))

/-- A value of a TEXT column, which has no room for a NUL. -/
def text (value : String) : Except PyExc String :=
  if Char.ofNat 0 ∈ value.toList then
    .error (.other "CharacterNotInRepertoireError"
      "invalid byte sequence for encoding \"UTF8\": 0x00")
  else .ok value

/-- A value of a VARCHAR column; only blanks are cut off. -/
def varchar (size : ℕ) (value : String) : Except PyExc String := do
  let value ← text value
  if value.length ≤ size then .ok value
  else if (value.toList.drop size).all (· = ' ') then
    .ok (String.ofList (value.toList.take size))
  else .error (.other "StringDataRightTruncationError"
    ("value too long for type character varying(" ++ toString size ++ ")"))

theorem integer_eq_ok {bits argument : ℕ} {n m : ℤ} (h : integer bits argument n = .ok m) :
    m = n := by
  unfold integer at h
  split at h
  · exact (Except.ok.inj h).symm
  · cases h

theorem text_eq_ok {value stored : String} (h : text value = .ok stored) : stored = value := by
  unfold text at h
  split at h
  · cases h
  · exact (Except.ok.inj h).symm

end AiBackend.Postgres
