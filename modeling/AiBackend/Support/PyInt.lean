import AiBackend.Support.PyFloat

/-!
# Python integers as texts

`str(n)` and `int(text)`, which are inverse to each other up to the limit on
the number of digits.
-/

namespace AiBackend.PyInt

open Python JsonText

/-- `str(n)`. -/
def str (n : ℤ) : Except PyExc (List Char) :=
  if (Nat.toDigits 10 n.natAbs).length ≤ maxStrDigits then .ok (integerText n)
  else .error digitsError

def readDigits (cs : List Char) : Option ℕ :=
  if cs ≠ [] ∧ cs.all Char.isDigit = true ∧ cs.length ≤ maxStrDigits then
    some (Nat.ofDigitChars 10 cs 0)
  else none

/-- `int(text)`; none is its `ValueError`. -/
def ofText (text : List Char) : Option ℤ := do
  let cs ← PyFloat.dropUnderscores none
    (Text.stripBy Text.isAsciiSpace (text.map Text.toAscii))
  if cs.head? = some '-' then (readDigits cs.tail).map fun n => -(n : ℤ)
  else if cs.head? = some '+' then (readDigits cs.tail).map fun n => (n : ℤ)
  else (readDigits cs).map fun n => (n : ℤ)

example : ofText " -1_0".toList = some (-10) := by decide +kernel

/-! ## Reading what was written -/

theorem readDigits_toDigits {n : ℕ} (h : (Nat.toDigits 10 n).length ≤ maxStrDigits) :
    readDigits (Nat.toDigits 10 n) = some n := by
  have hall : (Nat.toDigits 10 n).all Char.isDigit = true := by
    rw [List.all_eq_true]
    exact fun c hc => Nat.isDigit_of_mem_toDigits (by decide) (by decide) hc
  rw [readDigits, if_pos ⟨Nat.toDigits_ne_nil, hall, h⟩, Nat.ofDigitChars_ten_toDigits]

theorem dropUnderscores_of_not_mem {cs : List Char} (h : '_' ∉ cs)
    {previous : Option Char} (hprevious : previous ≠ some '_') :
    PyFloat.dropUnderscores previous cs = some cs := by
  induction cs generalizing previous with
  | nil => rw [PyFloat.dropUnderscores, if_neg hprevious]
  | cons c cs ih =>
      rw [List.mem_cons, not_or] at h
      have hc : c ≠ '_' := fun hc => h.1 hc.symm
      rw [PyFloat.dropUnderscores, if_neg hc, if_neg (fun hand => hprevious hand.1),
        ih h.2 (by simpa using hc)]
      rfl

/-- The characters of an integer's text. -/
def isIntegerChar (c : Char) : Bool := c = '-' || c.isDigit

theorem isIntegerChar_of_mem {n : ℤ} {c : Char} (h : c ∈ integerText n) :
    isIntegerChar c = true := by
  have hdigit : c ∈ Nat.toDigits 10 n.natAbs → c.isDigit = true :=
    fun hc => Nat.isDigit_of_mem_toDigits (by decide) (by decide) hc
  unfold integerText at h
  split at h
  · rcases List.mem_cons.mp h with rfl | h
    · rfl
    · simp [isIntegerChar, hdigit h]
  · simp [isIntegerChar, hdigit h]

/-- The code points of these characters. -/
theorem toNat_of_isIntegerChar {c : Char} (h : isIntegerChar c = true) :
    c.toNat = 45 ∨ 48 ≤ c.toNat ∧ c.toNat ≤ 57 := by
  simp only [isIntegerChar, Bool.or_eq_true, decide_eq_true_eq] at h
  rcases h with rfl | h
  · exact Or.inl rfl
  · exact Or.inr (by simpa [Char.isDigit, UInt32.le_iff_toNat_le] using h)

theorem ne_of_isIntegerChar {c : Char} (h : isIntegerChar c = true) {d : Char}
    (hd : isIntegerChar d = false) : c ≠ d := by
  intro hcd
  rw [hcd, hd] at h
  cases h

/-- Nothing is stripped from or replaced in the text of an integer. -/
theorem normalized_integerText (n : ℤ) :
    PyFloat.dropUnderscores none (Text.stripBy Text.isAsciiSpace
      ((integerText n).map Text.toAscii)) = some (integerText n) := by
  have hascii : (integerText n).map Text.toAscii = integerText n := by
    refine (List.map_congr_left fun c hc => ?_).trans (List.map_id _)
    have hcode := toNat_of_isIntegerChar (isIntegerChar_of_mem hc)
    rw [Text.toAscii, if_pos (by omega)]
    rfl
  have hspace : ∀ c ∈ integerText n, Text.isAsciiSpace c = false := by
    intro c hc
    have hchar := isIntegerChar_of_mem hc
    have hcode := toNat_of_isIntegerChar hchar
    simp only [Text.isAsciiSpace, Bool.or_eq_false_iff, decide_eq_false_iff_not,
      Bool.and_eq_false_iff]
    exact ⟨ne_of_isIntegerChar hchar rfl, by omega⟩
  have hunderscore : '_' ∉ integerText n :=
    fun hmem => ne_of_isIntegerChar (isIntegerChar_of_mem hmem) rfl rfl
  rw [hascii, Text.stripBy_eq_self hspace,
    dropUnderscores_of_not_mem hunderscore (by simp)]

theorem ofText_integerText {n : ℤ}
    (h : (Nat.toDigits 10 n.natAbs).length ≤ maxStrDigits) :
    ofText (integerText n) = some n := by
  rw [ofText, normalized_integerText]
  by_cases hneg : n < 0
  · have htext : integerText n = '-' :: Nat.toDigits 10 n.natAbs := if_pos hneg
    simp only [htext, Option.bind_eq_bind, Option.bind_some, List.head?_cons,
      List.tail_cons, if_true, readDigits_toDigits h]
    have hvalue : -(n.natAbs : ℤ) = n := by omega
    exact congrArg some hvalue
  · have htext : integerText n = Nat.toDigits 10 n.natAbs := if_neg hneg
    have hhead : ∀ d : Char, d.isDigit = false →
        (Nat.toDigits 10 n.natAbs).head? ≠ some d := by
      intro d hd hhead
      have hdigit := Nat.isDigit_of_mem_toDigits (by decide) (by decide)
        (List.mem_of_mem_head? hhead)
      rw [hd] at hdigit
      cases hdigit
    simp only [htext, Option.bind_eq_bind, Option.bind_some, if_neg (hhead '-' rfl),
      if_neg (hhead '+' rfl), readDigits_toDigits h]
    have hvalue : (n.natAbs : ℤ) = n := by omega
    exact congrArg some hvalue

end AiBackend.PyInt
