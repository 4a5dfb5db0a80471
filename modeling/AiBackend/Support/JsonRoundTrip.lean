import AiBackend.Support.JsonText

/-!
# Reading what was written

Each scanner inverts its writer, whatever follows; for numbers what follows
has to end them.
-/

namespace AiBackend.JsonText

open FloatText

/-! ## Strings -/

section Strings

theorem scanHex4_hexDigits {n : ℕ} (hn : n < 65536) (rest : List Char) :
    scanHex4 (Uuid.hexDigits 4 n ++ rest) = some (n, rest) := by
  have hdigit : ∀ m : ℕ, Uuid.hexValue? (Nat.digitChar (m % 16)) = some (m % 16) :=
    fun m => Uuid.hexValue?_digitChar (Nat.mod_lt m (by norm_num))
  have hvalue : ((n / 16 / 16 / 16 % 16 * 16 + n / 16 / 16 % 16) * 16 +
      n / 16 % 16) * 16 + n % 16 = n := by
    omega
  show scanHex4 (_ :: _ :: _ :: _ :: rest) = _
  simp only [scanHex4, hdigit, Option.bind_eq_bind, Option.bind_some, hvalue]

theorem scanUnicode_basic {c : Char} (hc : c.toNat < 0x10000) (rest : List Char) :
    scanUnicode (Uuid.hexDigits 4 c.toNat ++ rest) = some (c, rest) := by
  have hvalid : c.toNat < 0xD800 ∨ 0xDFFF < c.toNat ∧ c.toNat < 0x110000 := c.valid
  have hhigh : ¬ (0xD800 ≤ c.toNat ∧ c.toNat ≤ 0xDBFF) := by omega
  have hlow : ¬ (0xDC00 ≤ c.toNat ∧ c.toNat ≤ 0xDFFF) := by omega
  rw [scanUnicode, scanHex4_hexDigits hc]
  simp only [Option.bind_eq_bind, Option.bind_some, if_neg hhigh, if_neg hlow,
    Char.ofNat_toNat]

theorem scanUnicode_pair {n m : ℕ} (hn : 0xD800 ≤ n ∧ n ≤ 0xDBFF)
    (hm : 0xDC00 ≤ m ∧ m ≤ 0xDFFF) (rest : List Char) :
    scanUnicode (Uuid.hexDigits 4 n ++ '\\' :: 'u' :: (Uuid.hexDigits 4 m ++ rest)) =
      some (Char.ofNat (0x10000 + (n - 0xD800) * 0x400 + (m - 0xDC00)), rest) := by
  rw [scanUnicode, scanHex4_hexDigits (by omega)]
  simp only [Option.bind_eq_bind, Option.bind_some, if_pos hn, List.take_succ_cons,
    List.take_zero, ↓reduceIte, List.drop_succ_cons, List.drop_zero]
  rw [scanHex4_hexDigits (by omega)]
  simp only [Option.bind_some, if_pos hm]

theorem surrogates {c : Char} (hc : 0x10000 ≤ c.toNat) :
    ∃ n m, n = 0xD800 + (c.toNat - 0x10000) / 0x400 ∧
      m = 0xDC00 + (c.toNat - 0x10000) % 0x400 ∧
      (0xD800 ≤ n ∧ n ≤ 0xDBFF) ∧ (0xDC00 ≤ m ∧ m ≤ 0xDFFF) ∧
      0x10000 + (n - 0xD800) * 0x400 + (m - 0xDC00) = c.toNat := by
  have hvalid : c.toNat < 0xD800 ∨ 0xDFFF < c.toNat ∧ c.toNat < 0x110000 := c.valid
  refine ⟨_, _, rfl, rfl, ?_⟩
  generalize c.toNat = k at hc hvalid ⊢
  omega

theorem scanUnicode_astral {c : Char} (hc : 0x10000 ≤ c.toNat) (rest : List Char) :
    scanUnicode (Uuid.hexDigits 4 (0xD800 + (c.toNat - 0x10000) / 0x400) ++
        '\\' :: 'u' :: (Uuid.hexDigits 4 (0xDC00 + (c.toNat - 0x10000) % 0x400) ++
          rest)) = some (c, rest) := by
  obtain ⟨n, m, hn, hm, hhigh, hlow, hvalue⟩ := surrogates hc
  rw [← hn, ← hm, scanUnicode_pair hhigh hlow, hvalue, Char.ofNat_toNat]

/-- Each character is read back, however it was escaped. -/
theorem scanString_escape (fuel : ℕ) (c : Char) (rest : List Char) :
    scanString (fuel + 1) (escape c ++ rest) =
      (scanString fuel rest).map fun r => (c :: r.1, r.2) := by
  have hescaped : ∀ tail, scanEscape tail = some (c, rest) →
      scanString (fuel + 1) ('\\' :: tail) =
        (scanString fuel rest).map fun r => (c :: r.1, r.2) := by
    intro tail htail
    have hquote : ¬ '\\' = '"' := by decide
    rw [scanString, if_neg hquote, if_pos rfl, htail, Option.bind_eq_bind, Option.bind_some]
    dsimp only
    cases scanString fuel rest with
    | none => rfl
    | some r => rfl
  unfold escape
  split_ifs with h1 h2 h3 h4 h5 h6 h7 hplain hbasic
  · exact hescaped _ (by rw [h1]; rfl)
  · exact hescaped _ (by rw [h2]; rfl)
  · exact hescaped _ (by rw [h3]; rfl)
  · exact hescaped _ (by rw [h4]; rfl)
  · exact hescaped _ (by rw [h5]; rfl)
  · exact hescaped _ (by rw [h6]; rfl)
  · exact hescaped _ (by rw [h7]; rfl)
  · have hprintable : ¬ c.toNat < 32 := not_lt.mpr hplain.1
    rw [List.singleton_append, scanString, if_neg h1, if_neg h2, if_neg hprintable]
    cases scanString fuel rest with
    | none => rfl
    | some r => rfl
  · exact hescaped _ (scanUnicode_basic hbasic rest)
  · apply hescaped
    have htail := scanUnicode_astral (not_lt.mp hbasic) rest
    rw [← List.cons_append, ← List.cons_append, ← List.append_assoc] at htail
    exact htail

theorem scanString_characters (cs : List Char) {fuel : ℕ} (hfuel : cs.length < fuel)
    (rest : List Char) :
    scanString fuel (cs.flatMap escape ++ '"' :: rest) = some (cs, rest) := by
  induction cs generalizing fuel with
  | nil =>
      obtain ⟨fuel, rfl⟩ := Nat.exists_eq_succ_of_ne_zero (Nat.ne_zero_of_lt hfuel)
      rfl
  | cons c cs ih =>
      obtain ⟨fuel, rfl⟩ := Nat.exists_eq_succ_of_ne_zero (Nat.ne_zero_of_lt hfuel)
      rw [List.flatMap_cons, List.append_assoc, scanString_escape,
        ih (Nat.lt_of_succ_lt_succ hfuel)]
      rfl

theorem length_le_escape (cs : List Char) : cs.length ≤ (cs.flatMap escape).length := by
  have hone : ∀ c, 1 ≤ (escape c).length := by
    intro c
    unfold escape
    split_ifs
    all_goals simp
  induction cs with
  | nil => exact Nat.le_refl 0
  | cons c cs ih =>
      rw [List.flatMap_cons, List.length_append, List.length_cons]
      have hc := hone c
      omega

/-- The string behind its opening quotation mark. -/
theorem scanString_quoted (s : String) (rest : List Char) {fuel : ℕ}
    (hfuel : (quoted s).length ≤ fuel) :
    scanString fuel ((quoted s).tail ++ rest) = some (s.toList, rest) := by
  have hlength := length_le_escape s.toList
  unfold quoted at hfuel ⊢
  rw [List.length_cons, List.length_append, List.length_singleton] at hfuel
  rw [List.tail_cons, List.append_assoc]
  exact scanString_characters s.toList (by omega) rest

end Strings

/-! ## Numbers -/

/-- The first character, if there is one, has a property. -/
def HeadIs (p : Char → Bool) (cs : List Char) : Prop :=
  ∀ c, cs.head? = some c → p c = true

/-- What can follow a value: nothing, or the next item or the end of the list
or dictionary it is in. -/
def isDelimiter (c : Char) : Bool := c = ',' || c = ']' || c = '}'

section Numbers

variable {p q : Char → Bool} {rest : List Char}

theorem HeadIs.imp (h : HeadIs p rest) (hpq : ∀ c, p c = true → q c = true) :
    HeadIs q rest :=
  fun c hc => hpq c (h c hc)

theorem headIs_cons {c : Char} (h : p c = true) (cs : List Char) :
    HeadIs p (c :: cs) := by
  intro d hd
  obtain rfl : c = d := Option.some.inj hd
  exact h

theorem isDelimiter_cases {c : Char} (h : isDelimiter c = true) :
    c = ',' ∨ c = ']' ∨ c = '}' := by
  simpa [isDelimiter, or_assoc] using h

/-- A run of digits ends where the text goes on with something else. -/
theorem span_digits {digits : List Char} (hdigits : ∀ c ∈ digits, c.isDigit = true)
    (hrest : HeadIs (fun c => !c.isDigit) rest) :
    (digits ++ rest).takeWhile Char.isDigit = digits ∧
      (digits ++ rest).dropWhile Char.isDigit = rest := by
  rw [List.takeWhile_append_of_pos hdigits, List.dropWhile_append_of_pos hdigits]
  cases rest with
  | nil => simp
  | cons c rest =>
      have hc : c.isDigit = false := by simpa using hrest c rfl
      simp [hc]

theorem scanWhole_append {n : Numeral} (hn : n.WellFormed)
    (hrest : HeadIs (fun c => !c.isDigit) rest) :
    scanWhole (n.whole ++ rest) = some (n.whole, rest) := by
  rcases hn.no_leading_zero with hzero | ⟨c, cs, hwhole, hc⟩
  · rw [hzero]
    rfl
  · obtain ⟨htake, hdrop⟩ := span_digits hn.whole_digits hrest
    have hdigit : c.isDigit = true := hn.whole_digits c (by simp [hwhole])
    rw [hwhole, List.cons_append] at htake hdrop ⊢
    rw [scanWhole, if_neg hc, if_pos hdigit, htake, hdrop]

theorem scanFraction_append {fraction : List Char}
    (hfraction : ∀ c ∈ fraction, c.isDigit = true)
    (hrest : HeadIs (fun c => !c.isDigit && c != '.') rest) :
    scanFraction ((if fraction.isEmpty then [] else '.' :: fraction) ++ rest) =
      (fraction, rest) := by
  have hdigit := hrest.imp (q := fun c => !c.isDigit)
    fun c hc => (Bool.and_eq_true_iff.mp hc).1
  cases fraction with
  | nil =>
      cases rest with
      | nil => rfl
      | cons c rest =>
          have hpoint : c ≠ '.' := by
            have hc := hrest c rfl
            simp only [Bool.and_eq_true, bne_iff_ne, ne_eq] at hc
            exact hc.2
          simp [scanFraction, hpoint]
  | cons d ds =>
      obtain ⟨htake, hdrop⟩ := span_digits hfraction hdigit
      simp only [List.isEmpty_cons, Bool.false_eq_true, ↓reduceIte, List.cons_append]
        at htake hdrop ⊢
      simp [scanFraction, htake, hdrop]

theorem scanExponentDigits_append (sign : ℤ) {digits : List Char} (hne : digits ≠ [])
    (hdigits : ∀ c ∈ digits, c.isDigit = true)
    (hrest : HeadIs (fun c => !c.isDigit) rest) :
    scanExponentDigits sign (digits ++ rest) =
      some (sign * Nat.ofDigitChars 10 digits 0, rest) := by
  obtain ⟨htake, hdrop⟩ := span_digits hdigits hrest
  rw [scanExponentDigits, htake, hdrop, if_neg hne]

theorem scanExponent_append (e : ℤ) (hrest : HeadIs (fun c => !c.isDigit) rest) :
    scanExponent (Printf.exponentText e ++ rest) = some (e, rest) := by
  obtain ⟨digits, htext, hne, hdigits, hvalue⟩ : ∃ digits,
      Printf.exponentText e = 'e' :: (if e < 0 then '-' else '+') :: digits ∧
        digits ≠ [] ∧ (∀ c ∈ digits, c.isDigit = true) ∧
        Nat.ofDigitChars 10 digits 0 = e.natAbs := by
    have hall : ∀ c ∈ Nat.toDigits 10 e.natAbs, c.isDigit = true :=
      fun c hc => Nat.isDigit_of_mem_toDigits (by decide) (by decide) hc
    refine ⟨_, rfl, ?_, ?_, ?_⟩
    · split
      · exact List.cons_ne_nil _ _
      · exact Nat.toDigits_ne_nil
    · split
      · exact List.forall_mem_cons.mpr ⟨rfl, hall⟩
      · exact hall
    · split
      · exact (ofDigitChars_zeros 1 _).trans Nat.ofDigitChars_ten_toDigits
      · exact Nat.ofDigitChars_ten_toDigits
  rw [htext]
  by_cases hnegative : e < 0
  · have hscan := scanExponentDigits_append (-1) hne hdigits hrest
    have he : -1 * (e.natAbs : ℤ) = e := by omega
    rw [hvalue, he] at hscan
    simpa [scanExponent, hnegative] using hscan
  · have hscan := scanExponentDigits_append 1 hne hdigits hrest
    have he : 1 * (e.natAbs : ℤ) = e := by omega
    rw [hvalue, he] at hscan
    simpa [scanExponent, hnegative] using hscan

theorem scanExponent_of_delimiter (hrest : HeadIs isDelimiter rest) :
    scanExponent rest = none := by
  cases rest with
  | nil => rfl
  | cons c rest =>
      have hc : ¬ (c = 'e' ∨ c = 'E') := by
        rcases isDelimiter_cases (hrest c rfl) with rfl | rfl | rfl
        · decide
        · decide
        · decide
      rw [scanExponent, if_neg hc]

theorem scanNumeral_text {n : Numeral} (hn : n.WellFormed)
    (hrest : HeadIs isDelimiter rest) :
    scanNumeral (n.text ++ rest) = some (n, rest) := by
  have hdelimiter : ∀ c, isDelimiter c = true → (!c.isDigit && c != '.') = true := by
    intro c hc
    rcases isDelimiter_cases hc with rfl | rfl | rfl
    · decide
    · decide
    · decide
  have hplain : ∀ c : Char, (!c.isDigit && c != '.') = true → (!c.isDigit) = true :=
    fun c hc => (Bool.and_eq_true_iff.mp hc).1
  have htail : HeadIs (fun c => !c.isDigit && c != '.')
      (n.exponent.elim [] Printf.exponentText ++ rest) := by
    cases n.exponent with
    | none => exact hrest.imp hdelimiter
    | some e => exact headIs_cons rfl _
  have hpoint : HeadIs (fun c => !c.isDigit)
      ((if n.fraction.isEmpty then [] else '.' :: n.fraction) ++
        (n.exponent.elim [] Printf.exponentText ++ rest)) := by
    split
    · exact htail.imp hplain
    · exact headIs_cons rfl _
  rw [scanNumeral, Numeral.text, List.append_assoc, List.append_assoc,
    scanWhole_append hn hpoint]
  simp only [Option.bind_eq_bind, Option.bind_some,
    scanFraction_append hn.fraction_digits htail]
  cases hexponent : n.exponent with
  | none =>
      simp only [Option.elim_none, List.nil_append, scanExponent_of_delimiter hrest]
      rw [← hexponent]
  | some e =>
      simp only [Option.elim_some,
        scanExponent_append e ((hrest.imp hdelimiter).imp hplain)]
      rw [← hexponent]

/-- An integer is the numeral that has digits only. -/
theorem scanNumber_natAbs {n : ℤ} (hfits : fitsDigits (.int n) = true) (sign : ℤ)
    (hrest : HeadIs isDelimiter rest) :
    scanNumber sign (Nat.toDigits 10 n.natAbs ++ rest) =
      some (.int (sign * n.natAbs), rest) := by
  let numeral : Numeral := { whole := Nat.toDigits 10 n.natAbs }
  have hwell : numeral.WellFormed := by
    constructor
    · exact fun c hc => Nat.isDigit_of_mem_toDigits (by decide) (by decide) hc
    · rcases Nat.eq_zero_or_pos n.natAbs with hzero | hpos
      · exact Or.inl (congrArg (Nat.toDigits 10) hzero)
      · exact Or.inr (head_toDigits_ne_zero hpos)
    · intro c hc
      cases hc
  have htext : Nat.toDigits 10 n.natAbs = numeral.text := by
    simp [numeral, Numeral.text]
  have hlength : (Nat.toDigits 10 n.natAbs).length ≤ maxStrDigits := by
    simpa [fitsDigits] using hfits
  rw [scanNumber, htext, scanNumeral_text hwell hrest]
  simp [numeralValue, numeral, hlength]

/-- A positive double is read back from the numeral written for it. -/
theorem scanNumber_positiveNumeral {q : ℚ} (hq : 0 < q) (hdouble : nearest q = q)
    (hfinite : q < 2 ^ 1024) (sign : ℤ) (hrest : HeadIs isDelimiter rest) :
    scanNumber sign ((positiveNumeral q).text ++ rest) =
      some (.float (sign * q), rest) := by
  have hinteger : ¬ ((positiveNumeral q).fraction = [] ∧
      (positiveNumeral q).exponent = none) := by
    rw [not_and_or]
    exact positiveNumeral_not_integer q
  rw [scanNumber, scanNumeral_text (wellFormed_positiveNumeral hq hdouble) hrest]
  simp [numeralValue, hinteger, readDouble, value_positiveNumeral hq hdouble, hfinite]

end Numbers

/-! ## Values -/

section Values

variable {rest : List Char}

/-- The characters a value can start with. -/
def isStart (c : Char) : Bool := !isSpace c && c != ']' && c != '}'

theorem isStart_of_isDigit {c : Char} (h : c.isDigit = true) : isStart c = true := by
  have hne : ∀ d : Char, d.isDigit = false → c ≠ d := by
    intro d hd hcd
    rw [hcd, hd] at h
    cases h
  simp [isStart, isSpace, hne ' ' rfl, hne '\t' rfl, hne '\n' rfl, hne '\r' rfl,
    hne ']' rfl, hne '}' rfl]

theorem exists_cons_toDigits (n : ℕ) :
    ∃ c cs, Nat.toDigits 10 n = c :: cs ∧ c.isDigit = true := by
  obtain ⟨c, cs, hdigits⟩ := List.exists_cons_of_ne_nil
    (Nat.toDigits_ne_nil (n := n) (b := 10))
  refine ⟨c, cs, hdigits, ?_⟩
  exact Nat.isDigit_of_mem_toDigits (by decide) (by decide)
    (hdigits ▸ List.mem_cons_self)

theorem exists_cons_positiveNumeral {q : ℚ} (hq : 0 < q) (hdouble : nearest q = q) :
    ∃ c cs, (positiveNumeral q).text = c :: cs ∧ c.isDigit = true := by
  have hwell := wellFormed_positiveNumeral hq hdouble
  obtain ⟨c, cs, hwhole⟩ : ∃ c cs, (positiveNumeral q).whole = c :: cs := by
    rcases hwell.no_leading_zero with hzero | ⟨c, cs, hwhole, -⟩
    · exact ⟨'0', [], hzero⟩
    · exact ⟨c, cs, hwhole⟩
  refine ⟨c, _, by rw [Numeral.text, hwhole, List.cons_append], ?_⟩
  exact hwell.whole_digits c (by simp [hwhole])

/-- A double is zero, or its absolute value is a positive double. -/
theorem isDouble_cases {q : ℚ} (h : IsDouble q) :
    q = 0 ∨ (0 < q ∧ nearest q = q ∧ q < 2 ^ 1024) ∨
      (q < 0 ∧ nearest (-q) = -q ∧ -q < 2 ^ 1024) := by
  obtain ⟨hnearest, hfinite⟩ := h
  rcases lt_trichotomy q 0 with hneg | hzero | hpos
  · rw [abs_of_neg hneg] at hnearest hfinite
    exact Or.inr (Or.inr ⟨hneg, hnearest, hfinite⟩)
  · exact Or.inl hzero
  · rw [abs_of_pos hpos] at hnearest hfinite
    exact Or.inr (Or.inl ⟨hpos, hnearest, hfinite⟩)

/-- A text starts with neither white space nor a closing bracket. -/
theorem text_start {v : Json} (h : all isPythonValue v = true) :
    ∃ c cs, text v = c :: cs ∧ isStart c = true := by
  cases v with
  | null => exact ⟨_, _, rfl, rfl⟩
  | bool b =>
      cases b with
      | true => exact ⟨_, _, rfl, rfl⟩
      | false => exact ⟨_, _, rfl, rfl⟩
  | int n =>
      obtain ⟨c, cs, hdigits, hc⟩ := exists_cons_toDigits n.natAbs
      rw [text, integerText, hdigits]
      split
      · exact ⟨_, _, rfl, rfl⟩
      · exact ⟨c, cs, rfl, isStart_of_isDigit hc⟩
  | float q =>
      have hdouble : IsDouble q := by simpa [all, isPythonValue] using h
      rw [text, FloatText.repr]
      rcases isDouble_cases hdouble with rfl | ⟨hpos, hnearest, -⟩ | ⟨hneg, -, -⟩
      · exact ⟨_, _, rfl, rfl⟩
      · obtain ⟨c, cs, htext, hc⟩ := exists_cons_positiveNumeral hpos hnearest
        rw [if_neg hpos.ne', if_neg (not_lt.mpr hpos.le), htext]
        exact ⟨c, cs, rfl, isStart_of_isDigit hc⟩
      · rw [if_neg hneg.ne, if_pos hneg]
        exact ⟨_, _, rfl, rfl⟩
  | str s => exact ⟨_, _, rfl, rfl⟩
  | list xs => exact ⟨_, _, rfl, rfl⟩
  | dict entries => exact ⟨_, _, rfl, rfl⟩

theorem skipSpace_of_head (h : HeadIs (fun c => !isSpace c) rest) :
    skipSpace rest = rest := by
  cases rest with
  | nil => rfl
  | cons c rest =>
      have hc : isSpace c = false := by simpa using h c rfl
      rw [skipSpace, List.dropWhile_cons, hc]
      rfl

theorem skipSpace_delimiter (h : HeadIs isDelimiter rest) : skipSpace rest = rest := by
  apply skipSpace_of_head
  apply h.imp
  intro c hc
  rcases isDelimiter_cases hc with rfl | rfl | rfl
  · rfl
  · rfl
  · rfl

/-- The text of a value, with something behind it, is not white space and does
not close a list. -/
theorem head_text_append {v : Json} (h : all isPythonValue v = true)
    (rest : List Char) :
    skipSpace (text v ++ rest) = text v ++ rest ∧
      (text v ++ rest).head? ≠ some ']' := by
  obtain ⟨c, cs, htext, hc⟩ := text_start h
  simp only [isStart, Bool.and_eq_true, Bool.not_eq_true', bne_iff_ne, ne_eq] at hc
  rw [htext, List.cons_append]
  constructor
  · exact skipSpace_of_head (headIs_cons (by simp [hc.1.1]) _)
  · intro hhead
    exact hc.1.2 (Option.some.inj hhead)

theorem scanValue_of_isDigit {c : Char} (h : c.isDigit = true) (fuel : ℕ)
    (rest : List Char) :
    scanValue (fuel + 1) (c :: rest) = scanNumber 1 (c :: rest) := by
  have hne : ∀ d : Char, d.isDigit = false → c ≠ d := by
    intro d hd hcd
    rw [hcd, hd] at h
    cases h
  rw [scanValue, if_neg (hne '"' rfl), if_neg (hne '[' rfl), if_neg (hne '{' rfl),
    if_neg (hne 'n' rfl), if_neg (hne 't' rfl), if_neg (hne 'f' rfl),
    if_neg (hne '-' rfl)]

theorem scanValue_minus (fuel : ℕ) (rest : List Char) :
    scanValue (fuel + 1) ('-' :: rest) = scanNumber (-1) rest := rfl

theorem scanValue_integerText {n : ℤ} (hfits : fitsDigits (.int n) = true)
    (fuel : ℕ) (hrest : HeadIs isDelimiter rest) :
    scanValue (fuel + 1) (integerText n ++ rest) = some (.int n, rest) := by
  unfold integerText
  split
  next hneg =>
    have hn : -1 * (n.natAbs : ℤ) = n := by omega
    rw [List.cons_append, scanValue_minus, scanNumber_natAbs hfits (-1) hrest, hn]
  next hnonneg =>
    have hn : 1 * (n.natAbs : ℤ) = n := by omega
    have hscan := scanNumber_natAbs hfits 1 hrest
    obtain ⟨c, cs, hdigits, hc⟩ := exists_cons_toDigits n.natAbs
    rw [hdigits, List.cons_append, hn] at hscan
    rw [hdigits, List.cons_append, scanValue_of_isDigit hc, hscan]

theorem scanValue_repr {q : ℚ} (h : IsDouble q) (fuel : ℕ)
    (hrest : HeadIs isDelimiter rest) :
    scanValue (fuel + 1) (FloatText.repr q ++ rest) = some (.float q, rest) := by
  rw [FloatText.repr]
  rcases isDouble_cases h with rfl | ⟨hpos, hnearest, hfinite⟩ | ⟨hneg, hnearest, hfinite⟩
  · let numeral : Numeral := { whole := ['0'], fraction := ['0'] }
    have hwell : numeral.WellFormed :=
      ⟨by simp [numeral], Or.inl rfl, by simp [numeral]⟩
    have hzero : readDouble numeral.value = some 0 := by decide +kernel
    have hvalue : numeralValue 1 numeral = some (.float 0) := by
      rw [numeralValue, hzero, if_neg (by simp [numeral])]
      simp
    have hscan : scanNumber 1 (numeral.text ++ rest) = some (.float 0, rest) := by
      rw [scanNumber, scanNumeral_text hwell hrest]
      simp [hvalue]
    rw [if_pos rfl]
    exact (scanValue_of_isDigit rfl fuel _).trans hscan
  · have hscan := scanNumber_positiveNumeral hpos hnearest hfinite 1 hrest
    obtain ⟨c, cs, htext, hc⟩ := exists_cons_positiveNumeral hpos hnearest
    rw [htext, List.cons_append] at hscan
    rw [if_neg hpos.ne', if_neg (not_lt.mpr hpos.le), htext, List.cons_append,
      scanValue_of_isDigit hc, hscan]
    simp
  · have hscan := scanNumber_positiveNumeral (neg_pos.mpr hneg) hnearest hfinite (-1)
      hrest
    rw [if_neg hneg.ne, if_pos hneg, List.cons_append, scanValue_minus, hscan]
    simp

theorem scanValue_quoted (s : String) (fuel : ℕ) (rest : List Char) :
    scanValue (fuel + 1) (quoted s ++ rest) = some (.str s, rest) := by
  have hcons : quoted s = '"' :: (quoted s).tail := rfl
  have hlength : (quoted s).length ≤ ((quoted s).tail ++ rest).length + 1 := by
    rw [hcons, List.length_cons, List.length_append, List.tail_cons]
    omega
  have hscan := scanString_quoted s rest hlength
  rw [hcons, List.cons_append, scanValue, if_pos rfl, hscan]
  simp

/-! ## Lists and dictionaries

One item at a time: if the value in it and the items behind it are read back,
so is the whole. -/

theorem skipSpace_elementsText {x : Json} (hx : all isPythonValue x = true)
    (xs : List Json) (rest : List Char) :
    skipSpace (elementsText (x :: xs) ++ rest) = elementsText (x :: xs) ++ rest ∧
      (elementsText (x :: xs) ++ rest).head? ≠ some ']' := by
  have htext : elementsText (x :: xs) ++ rest =
      text x ++ (separator xs ++ elementsText xs ++ rest) := by
    rw [elementsText, List.append_assoc]
  rw [htext]
  exact head_text_append hx _

theorem one_le_elementsText (xs : List Json) : 1 ≤ (elementsText xs).length := by
  induction xs with
  | nil => exact Nat.le_refl 1
  | cons x xs ih =>
      rw [elementsText, List.length_append, List.length_append]
      omega

theorem scanValue_list {xs : List Json} (hvalues : allElements isPythonValue xs = true)
    {fuel : ℕ} (hscan : xs ≠ [] →
      scanElements fuel (elementsText xs ++ rest) = some (xs, rest)) :
    scanValue (fuel + 1) (text (.list xs) ++ rest) = some (.list xs, rest) := by
  cases xs with
  | nil => rfl
  | cons x xs =>
      simp only [allElements, Bool.and_eq_true] at hvalues
      obtain ⟨hspace, hhead⟩ := skipSpace_elementsText hvalues.1 xs rest
      rw [text, List.cons_append, scanValue, if_neg (by decide), if_pos rfl]
      simp only [hspace, if_neg hhead, hscan (List.cons_ne_nil x xs)]
      rfl

theorem scanElements_cons {x : Json} {xs : List Json}
    (hvalues : allElements isPythonValue xs = true) {fuel : ℕ}
    (hx : HeadIs isDelimiter (separator xs ++ elementsText xs ++ rest) →
      scanValue fuel (text x ++ (separator xs ++ elementsText xs ++ rest)) =
        some (x, separator xs ++ elementsText xs ++ rest))
    (hxs : xs ≠ [] → scanElements fuel (elementsText xs ++ rest) = some (xs, rest)) :
    scanElements (fuel + 1) (elementsText (x :: xs) ++ rest) =
      some (x :: xs, rest) := by
  have htext : elementsText (x :: xs) ++ rest =
      text x ++ (separator xs ++ elementsText xs ++ rest) := by
    rw [elementsText, List.append_assoc]
  have hdelimiter : HeadIs isDelimiter (separator xs ++ elementsText xs ++ rest) := by
    cases xs with
    | nil => exact headIs_cons rfl _
    | cons y ys => exact headIs_cons rfl _
  rw [htext, scanElements, hx hdelimiter]
  simp only [Option.bind_eq_bind, Option.bind_some, skipSpace_delimiter hdelimiter]
  cases xs with
  | nil => rfl
  | cons y ys =>
      simp only [allElements, Bool.and_eq_true] at hvalues
      have hspace := (skipSpace_elementsText hvalues.1 ys rest).1
      have hskip : skipSpace (' ' :: (elementsText (y :: ys) ++ rest)) =
          elementsText (y :: ys) ++ rest := hspace
      have hhead : separator (y :: ys) ++ elementsText (y :: ys) ++ rest =
          ',' :: ' ' :: (elementsText (y :: ys) ++ rest) := rfl
      rw [hhead, if_neg (by simp), if_pos List.head?_cons, List.tail_cons, hskip,
        hxs (List.cons_ne_nil y ys)]
      rfl

theorem entriesText_cons (key : String) (v : Json) (entries : List (String × Json))
    (rest : List Char) :
    entriesText ((key, v) :: entries) ++ rest = quoted key ++ (':' :: ' ' ::
      (text v ++ (separator entries ++ entriesText entries ++ rest))) := by
  rw [entriesText]
  simp

theorem scanValue_dict {entries : List (String × Json)}
    (hvalue : isPythonValue (.dict entries) = true) {fuel : ℕ}
    (hscan : entries ≠ [] →
      scanEntries fuel (entriesText entries ++ rest) = some (entries, rest)) :
    scanValue (fuel + 1) (text (.dict entries) ++ rest) =
      some (.dict entries, rest) := by
  have hnodup : (entries.map Prod.fst).Nodup := by
    simpa [isPythonValue] using hvalue
  cases entries with
  | nil => rfl
  | cons entry entries =>
      obtain ⟨key, v⟩ := entry
      have hcons : entriesText ((key, v) :: entries) ++ rest =
          '"' :: (entriesText ((key, v) :: entries) ++ rest).tail := by
        rw [entriesText_cons]
        rfl
      have hspace : skipSpace (entriesText ((key, v) :: entries) ++ rest) =
          entriesText ((key, v) :: entries) ++ rest := by
        apply skipSpace_of_head
        rw [hcons]
        exact headIs_cons rfl _
      have hhead : (entriesText ((key, v) :: entries) ++ rest).head? ≠ some '}' := by
        rw [hcons]
        simp
      rw [text, List.cons_append, scanValue, if_neg (by decide), if_neg (by decide),
        if_pos rfl]
      simp only [hspace, if_neg hhead, hscan (List.cons_ne_nil _ _),
        Option.bind_eq_bind, Option.bind_some, Dict.items_ofPairs hnodup]

theorem scanEntries_cons {key : String} {v : Json} {entries : List (String × Json)}
    (hv : all isPythonValue v = true) {fuel : ℕ}
    (hscan : HeadIs isDelimiter (separator entries ++ entriesText entries ++ rest) →
      scanValue fuel (text v ++ (separator entries ++ entriesText entries ++ rest)) =
        some (v, separator entries ++ entriesText entries ++ rest))
    (hentries : entries ≠ [] →
      scanEntries fuel (entriesText entries ++ rest) = some (entries, rest)) :
    scanEntries (fuel + 1) (entriesText ((key, v) :: entries) ++ rest) =
      some ((key, v) :: entries, rest) := by
  have hdelimiter : HeadIs isDelimiter
      (separator entries ++ entriesText entries ++ rest) := by
    cases entries with
    | nil => exact headIs_cons rfl _
    | cons entry entries => exact headIs_cons rfl _
  generalize hbehind : separator entries ++ entriesText entries ++ rest = behind
    at hdelimiter hscan
  have htext : entriesText ((key, v) :: entries) ++ rest =
      quoted key ++ (':' :: ' ' :: (text v ++ behind)) := by
    rw [entriesText_cons, hbehind]
  have hquote : (quoted key ++ (':' :: ' ' :: (text v ++ behind))).head? =
      some '"' := rfl
  have htail : (quoted key ++ (':' :: ' ' :: (text v ++ behind))).tail =
      (quoted key).tail ++ (':' :: ' ' :: (text v ++ behind)) := rfl
  have hkey := scanString_quoted key (':' :: ' ' :: (text v ++ behind))
    (List.length_append ▸ Nat.le_add_right (quoted key).length
      (':' :: ' ' :: (text v ++ behind)).length)
  have hcolon : skipSpace (':' :: ' ' :: (text v ++ behind)) =
      ':' :: ' ' :: (text v ++ behind) := rfl
  have hvalue : skipSpace (' ' :: (text v ++ behind)) = text v ++ behind :=
    (head_text_append hv behind).1
  rw [htext, scanEntries, if_pos hquote, htail, hkey]
  simp only [Option.bind_eq_bind, Option.bind_some, hcolon, List.head?_cons,
    ↓reduceIte, List.tail_cons, hvalue, hscan hdelimiter,
    skipSpace_delimiter hdelimiter, String.ofList_toList]
  cases entries with
  | nil =>
      subst hbehind
      rfl
  | cons entry entries =>
      obtain ⟨key', v'⟩ := entry
      have hskip : skipSpace (' ' :: (entriesText ((key', v') :: entries) ++ rest)) =
          entriesText ((key', v') :: entries) ++ rest := by
        rw [entriesText_cons]
        rfl
      have hhead : behind =
          ',' :: ' ' :: (entriesText ((key', v') :: entries) ++ rest) := hbehind.symm
      rw [hhead, if_neg (by simp), if_pos List.head?_cons, List.tail_cons, hskip,
        hentries (List.cons_ne_nil _ _)]
      rfl

/-! The induction follows the value. -/

mutual

theorem scanValue_text : ∀ (v : Json) (fuel : ℕ) (rest : List Char),
    all isPythonValue v = true → all fitsDigits v = true →
      (text v).length < fuel → HeadIs isDelimiter rest →
        scanValue fuel (text v ++ rest) = some (v, rest)
  | _, 0, _, _, _, hfuel, _ => absurd hfuel (Nat.not_lt_zero _)
  | .null, _ + 1, _, _, _, _, _ => rfl
  | .bool true, _ + 1, _, _, _, _, _ => rfl
  | .bool false, _ + 1, _, _, _, _, _ => rfl
  | .int _, fuel + 1, _, _, hfits, _, hrest =>
      scanValue_integerText hfits fuel hrest
  | .float _, fuel + 1, _, hvalue, _, _, hrest =>
      scanValue_repr (of_decide_eq_true hvalue) fuel hrest
  | .str s, fuel + 1, rest, _, _, _, _ => scanValue_quoted s fuel rest
  | .list xs, fuel + 1, rest, hvalue, hfits, hfuel, _ => by
      simp only [all, isPythonValue, fitsDigits, Bool.true_and] at hvalue hfits
      rw [text, List.length_cons] at hfuel
      exact scanValue_list hvalue fun hne => scanElements_text xs fuel rest hne
        hvalue hfits (Nat.lt_of_succ_lt_succ hfuel)
  | .dict entries, fuel + 1, rest, hvalue, hfits, hfuel, _ => by
      simp only [all, fitsDigits, Bool.true_and, Bool.and_eq_true] at hvalue hfits
      rw [text, List.length_cons] at hfuel
      exact scanValue_dict hvalue.1 fun hne => scanEntries_text entries fuel rest hne
        hvalue.2 hfits (Nat.lt_of_succ_lt_succ hfuel)

theorem scanElements_text : ∀ (xs : List Json) (fuel : ℕ) (rest : List Char),
    xs ≠ [] → allElements isPythonValue xs = true → allElements fitsDigits xs = true →
      (elementsText xs).length < fuel →
        scanElements fuel (elementsText xs ++ rest) = some (xs, rest)
  | [], _, _, hne, _, _, _ => absurd rfl hne
  | _ :: _, 0, _, _, _, _, hfuel => absurd hfuel (Nat.not_lt_zero _)
  | x :: xs, fuel + 1, rest, _, hvalues, hfits, hfuel => by
      simp only [allElements, Bool.and_eq_true] at hvalues hfits
      rw [elementsText, List.length_append, List.length_append] at hfuel
      have hlength := one_le_elementsText xs
      obtain ⟨c, cs, htext, -⟩ := text_start hvalues.1
      have hpos : 1 ≤ (text x).length := htext ▸ Nat.le_add_left 1 cs.length
      apply scanElements_cons hvalues.2
      · exact fun hrest =>
          scanValue_text x fuel _ hvalues.1 hfits.1 (by omega) hrest
      · exact fun hne =>
          scanElements_text xs fuel rest hne hvalues.2 hfits.2 (by omega)

theorem scanEntries_text : ∀ (entries : List (String × Json)) (fuel : ℕ)
    (rest : List Char), entries ≠ [] → allEntries isPythonValue entries = true →
      allEntries fitsDigits entries = true → (entriesText entries).length < fuel →
        scanEntries fuel (entriesText entries ++ rest) = some (entries, rest)
  | [], _, _, hne, _, _, _ => absurd rfl hne
  | _ :: _, 0, _, _, _, _, hfuel => absurd hfuel (Nat.not_lt_zero _)
  | (key, v) :: entries, fuel + 1, rest, _, hvalues, hfits, hfuel => by
      simp only [allEntries, Bool.and_eq_true] at hvalues hfits
      rw [entriesText, List.length_append, List.length_cons, List.length_cons,
        List.length_append, List.length_append] at hfuel
      apply scanEntries_cons hvalues.1
      · exact fun hrest =>
          scanValue_text v fuel _ hvalues.1 hfits.1 (by omega) hrest
      · exact fun hne =>
          scanEntries_text entries fuel rest hne hvalues.2 hfits.2 (by omega)

end

/-- What `dumps` writes, `loads` reads back. -/
theorem loads_of_dumps {v : Json} {s : String} (hvalue : all isPythonValue v = true)
    (h : dumps v = .ok s) : loads s = some v := by
  unfold dumps at h
  split at h
  next hfits =>
    obtain rfl : String.ofList (text v) = s := Except.ok.inj h
    have hspace := (head_text_append hvalue []).1
    have hscan := scanValue_text v ((text v).length + 1) [] hvalue hfits
      (Nat.lt_succ_self _) (by intro c hc; cases hc)
    rw [List.append_nil] at hspace hscan
    have hlength : (String.ofList (text v)).length = (text v).length := by
      rw [← String.length_toList, String.toList_ofList]
    rw [loads, String.toList_ofList, hspace, hlength, hscan]
    rfl
  next => cases h

end Values

end AiBackend.JsonText
