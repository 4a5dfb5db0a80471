import AiBackend.Support.Python
import AiBackend.Support.Text
import Mathlib.Data.Nat.Digits.Defs

/-!
# UUIDs and their text

A UUID is a 128-bit number.  `str` writes it as 32 lower-case hexadecimal
digits in five groups; the constructor reads such a text back, and several
other spellings besides.  The round trip is what lets identifiers cross a
layer as strings.
-/

namespace AiBackend

open Python

/-- A 128-bit identifier. -/
structure Uuid where
  int : Fin (2 ^ 128)
  deriving DecidableEq, Repr

instance instNeZeroRange : NeZero (2 ^ 128) := ⟨by decide⟩

namespace Uuid

/-! ## Writing -/

/-- The `width` last hexadecimal digits of `n`, most significant first. -/
def hexDigits : ℕ → ℕ → List Char
  | 0, _ => []
  | width + 1, n => hexDigits width (n / 16) ++ [Nat.digitChar (n % 16)]

/-- The five groups of 8, 4, 4, 4 and 12 digits. -/
def groups (hex : List Char) : List Char :=
  hex.take 8 ++ '-' :: ((hex.drop 8).take 4 ++ '-' :: ((hex.drop 12).take 4 ++
    '-' :: ((hex.drop 16).take 4 ++ '-' :: hex.drop 20)))

/-- `str(uuid)`. -/
def str (u : Uuid) : String := String.ofList (groups (hexDigits 32 u.int))

/-! ## Reading -/

/-- The value of an ASCII hexadecimal digit. -/
def hexValue? (c : Char) : Option ℕ :=
  let n := c.toNat
  if 48 ≤ n ∧ n ≤ 57 then some (n - 48)
  else if 97 ≤ n ∧ n ≤ 102 then some (n - 87)
  else if 65 ≤ n ∧ n ≤ 70 then some (n - 55)
  else none

/-- Digits, with single underscores allowed between two of them. -/
def readDigits : ℕ → List Char → Option ℕ
  | _, [] => none
  | acc, [c] => (hexValue? c).map (16 * acc + ·)
  | acc, c :: d :: rest =>
      (hexValue? c).bind fun v =>
        if d = '_' then readDigits (16 * acc + v) rest
        else readDigits (16 * acc + v) (d :: rest)

/-- An optional `0x` in front of the digits. -/
def readUnsigned : List Char → Option ℕ
  | '0' :: 'x' :: '_' :: rest => readDigits 0 rest
  | '0' :: 'X' :: '_' :: rest => readDigits 0 rest
  | '0' :: 'x' :: rest => readDigits 0 rest
  | '0' :: 'X' :: rest => readDigits 0 rest
  | cs => readDigits 0 cs

/-- `int(text, 16)`: decimal digits and spaces outside ASCII count as those in
it; surrounding white space and a sign are allowed. -/
def readInt (cs : List Char) : Option ℤ :=
  match Text.stripBy Text.isAsciiSpace (cs.map Text.toAscii) with
  | '+' :: rest => (readUnsigned rest).map fun n => (n : ℤ)
  | '-' :: rest => (readUnsigned rest).map fun n => -(n : ℤ)
  | rest => (readUnsigned rest).map fun n => (n : ℤ)

/-- What the constructor strips before it counts digits: the prefixes `urn:`
and `uuid:`, surrounding braces, and every dash. -/
def canonicalDigits (cs : List Char) : List Char :=
  let withoutUrn := Text.removeAll "urn:".toList cs.length cs
  let withoutUuid := Text.removeAll "uuid:".toList withoutUrn.length withoutUrn
  (Text.stripBy (fun c => c == '{' || c == '}') withoutUuid).filter (· ≠ '-')

/-- `uuid.UUID(text)`. -/
def fromStr (text : String) : Except PyExc Uuid :=
  let digits := canonicalDigits text.toList
  if digits.length ≠ 32 then
    .error (.valueError "badly formed hexadecimal UUID string")
  else
    match readInt digits with
    | none => .error (.valueError "invalid literal for int() with base 16")
    | some n =>
        if h : 0 ≤ n ∧ n < 2 ^ 128 then
          .ok ⟨⟨n.toNat, by omega⟩⟩
        else
          .error (.valueError "int is out of range (need a 128-bit value)")

/-! ## Round trip -/

/-- The characters `str` writes besides the dashes. -/
def IsHexDigit (c : Char) : Prop := ∃ d < 16, c = Nat.digitChar d

theorem hexDigits_length (width n : ℕ) :
    (hexDigits width n).length = width := by
  induction width generalizing n with
  | zero => rfl
  | succ width ih => simp [hexDigits, ih]

theorem isHexDigit_of_mem_hexDigits {width n : ℕ} {c : Char}
    (h : c ∈ hexDigits width n) : IsHexDigit c := by
  induction width generalizing n with
  | zero => simp [hexDigits] at h
  | succ width ih =>
      rw [hexDigits, List.mem_append, List.mem_singleton] at h
      rcases h with h | rfl
      · exact ih h
      · exact ⟨n % 16, Nat.mod_lt _ (by norm_num), rfl⟩

theorem hexValue?_digitChar {d : ℕ} (hd : d < 16) :
    hexValue? (Nat.digitChar d) = some d := by
  have hall : ∀ d < 16, hexValue? (Nat.digitChar d) = some d := by decide
  exact hall d hd

/-- A property of all sixteen digits holds of every digit written. -/
theorem IsHexDigit.forall {p : Char → Prop} {c : Char} (h : IsHexDigit c)
    (hp : ∀ d < 16, p (Nat.digitChar d)) : p c := by
  obtain ⟨d, hd, rfl⟩ := h
  exact hp d hd

theorem IsHexDigit.ne_of {c d : Char} (h : IsHexDigit c)
    (hd : ∀ n < 16, Nat.digitChar n ≠ d) : c ≠ d :=
  h.forall (p := fun c => c ≠ d) hd

theorem IsHexDigit.isAsciiSpace_eq_false {c : Char} (h : IsHexDigit c) :
    Text.isAsciiSpace c = false :=
  h.forall (p := fun c => Text.isAsciiSpace c = false) (by decide)

theorem IsHexDigit.toAscii_eq {c : Char} (h : IsHexDigit c) : Text.toAscii c = c :=
  h.forall (p := fun c => Text.toAscii c = c) (by decide)

/-- Reading the digits of `n` behind the value `acc` appends them to it. -/
theorem readDigits_hexDigits (width n acc : ℕ) (tail : List Char)
    (htail : ∀ c ∈ tail, c ≠ '_') (hne : tail ≠ []) :
    readDigits acc (hexDigits width n ++ tail) =
      readDigits (acc * 16 ^ width + n % 16 ^ width) tail := by
  induction width generalizing n tail with
  | zero => simp [hexDigits, Nat.mod_one]
  | succ width ih =>
      have hdigit : Nat.digitChar (n % 16) ≠ '_' :=
        IsHexDigit.ne_of ⟨n % 16, Nat.mod_lt _ (by norm_num), rfl⟩ (by decide)
      rw [hexDigits, List.append_assoc, List.singleton_append,
        ih (n / 16) (Nat.digitChar (n % 16) :: tail)
          (by simpa [hdigit] using htail) (by simp)]
      obtain ⟨c, rest, rfl⟩ := List.exists_cons_of_ne_nil hne
      have hc : c ≠ '_' := htail c (by simp)
      have hmod : n % 16 ^ (width + 1) = 16 * (n / 16 % 16 ^ width) + n % 16 := by
        rw [pow_succ, Nat.mul_comm (16 ^ width) 16, Nat.mod_mul]
        omega
      rw [readDigits, hexValue?_digitChar (Nat.mod_lt _ (by norm_num))]
      simp only [Option.bind_some, if_neg hc]
      congr 1
      rw [hmod, pow_succ]
      ring

theorem readDigits_hexDigits_self (width n : ℕ) (h : width ≠ 0) :
    readDigits 0 (hexDigits width n) = some (n % 16 ^ width) := by
  obtain ⟨w, rfl⟩ := Nat.exists_eq_succ_of_ne_zero h
  have hdigit : Nat.digitChar (n % 16) ≠ '_' :=
    IsHexDigit.ne_of ⟨n % 16, Nat.mod_lt _ (by norm_num), rfl⟩ (by decide)
  rw [hexDigits, readDigits_hexDigits w (n / 16) 0 _ (by simp [hdigit])
    (by simp), readDigits, hexValue?_digitChar (Nat.mod_lt _ (by norm_num)),
    Option.map_some, pow_succ, Nat.mul_comm (16 ^ w) 16, Nat.mod_mul]
  congr 1
  omega

/-- A text of hexadecimal digits has no sign, prefix or white space for the
number reader to skip. -/
theorem readInt_of_isHexDigit {cs : List Char}
    (h : ∀ c ∈ cs, IsHexDigit c) :
    readInt cs = (readDigits 0 cs).map fun n => (n : ℤ) := by
  have hascii : cs.map Text.toAscii = cs :=
    (List.map_congr_left fun c hc => (h c hc).toAscii_eq).trans (List.map_id cs)
  have hstrip : Text.stripBy Text.isAsciiSpace cs = cs :=
    Text.stripBy_eq_self fun c hc => (h c hc).isAsciiSpace_eq_false
  rw [readInt, hascii, hstrip]
  have hunsigned : readUnsigned cs = readDigits 0 cs := by
    have hx : 'x' ∉ cs := fun hc => (h 'x' hc).ne_of (by decide) rfl
    have hX : 'X' ∉ cs := fun hc => (h 'X' hc).ne_of (by decide) rfl
    unfold readUnsigned
    split
    · simp at hx
    · simp at hX
    · simp at hx
    · simp at hX
    · rfl
  split
  · exact absurd rfl ((h '+' (by simp)).ne_of (by decide))
  · exact absurd rfl ((h '-' (by simp)).ne_of (by decide))
  · rw [hunsigned]

theorem filter_groups {hex : List Char} (h : ∀ c ∈ hex, IsHexDigit c) :
    (groups hex).filter (· ≠ '-') = hex := by
  have hkeep : ∀ ds : List Char, (∀ c ∈ ds, c ∈ hex) →
      ds.filter (· ≠ '-') = ds := by
    intro ds hds
    apply List.filter_eq_self.mpr
    intro c hc
    simpa using (h c (hds c hc)).ne_of (d := '-') (by decide)
  have htake : ∀ n k : ℕ, ∀ c ∈ (hex.drop n).take k, c ∈ hex :=
    fun n k c hc => List.mem_of_mem_drop (List.mem_of_mem_take hc)
  simp only [groups, List.filter_append, List.filter_cons, ne_eq,
    not_true_eq_false, decide_false, Bool.false_eq_true, ↓reduceIte]
  have h0 := hkeep (hex.take 8) fun c hc => List.mem_of_mem_take hc
  have h8 := hkeep _ (htake 8 4)
  have h12 := hkeep _ (htake 12 4)
  have h16 := hkeep _ (htake 16 4)
  have h20 := hkeep (hex.drop 20) fun c hc => List.mem_of_mem_drop hc
  simp only [ne_eq] at h0 h8 h12 h16 h20
  rw [h0, h8, h12, h16, h20]
  have hjoin : ∀ n k : ℕ, (hex.drop n).take k ++ hex.drop (n + k) = hex.drop n := by
    intro n k
    rw [← List.drop_drop, List.take_append_drop]
  rw [hjoin 16 4, hjoin 12 4, hjoin 8 4, List.take_append_drop]

theorem mem_groups {hex : List Char} {c : Char} (h : c ∈ groups hex) :
    c ∈ hex ∨ c = '-' := by
  simp only [groups, List.mem_append, List.mem_cons] at h
  have htake : ∀ n k : ℕ, c ∈ (hex.drop n).take k → c ∈ hex :=
    fun n k hc => List.mem_of_mem_drop (List.mem_of_mem_take hc)
  rcases h with h | h | h | h | h | h | h | h | h
  · exact Or.inl (List.mem_of_mem_take h)
  · exact Or.inr h
  · exact Or.inl (htake 8 4 h)
  · exact Or.inr h
  · exact Or.inl (htake 12 4 h)
  · exact Or.inr h
  · exact Or.inl (htake 16 4 h)
  · exact Or.inr h
  · exact Or.inl (List.mem_of_mem_drop h)

/-- Reading the text of an identifier gives that identifier. -/
@[simp] theorem fromStr_str (u : Uuid) : fromStr u.str = .ok u := by
  let hex := hexDigits 32 u.int
  have hhex : ∀ c ∈ hex, IsHexDigit c := fun c hc =>
    isHexDigit_of_mem_hexDigits hc
  have hnot : ∀ d : Char, d ≠ '-' → (∀ n < 16, Nat.digitChar n ≠ d) →
      d ∉ groups hex := by
    intro d hdash hdigit hmem
    rcases mem_groups hmem with hd | hd
    · exact (hhex d hd).ne_of hdigit rfl
    · exact hdash hd
  have hcanonical : canonicalDigits (groups hex) = hex := by
    have hu : 'u' ∉ groups hex := hnot 'u' (by decide) (by decide)
    have hbrace : ∀ c ∈ groups hex, (c == '{' || c == '}') = false := by
      intro c hc
      have hopen := ne_of_mem_of_not_mem hc
        (hnot '{' (by decide) (by decide))
      have hclose := ne_of_mem_of_not_mem hc
        (hnot '}' (by decide) (by decide))
      simp [hopen, hclose]
    have hurn : Text.removeAll "urn:".toList (groups hex).length (groups hex) =
        groups hex := Text.replaceAll_eq_self _ hu
    have huuid : Text.removeAll "uuid:".toList (groups hex).length (groups hex) =
        groups hex := Text.replaceAll_eq_self _ hu
    unfold canonicalDigits
    rw [hurn]
    dsimp only
    rw [huuid, Text.stripBy_eq_self hbrace, filter_groups hhex]
  have hread : readInt hex = some ((u.int : ℕ) : ℤ) := by
    rw [readInt_of_isHexDigit hhex, readDigits_hexDigits_self 32 _ (by norm_num),
      Nat.mod_eq_of_lt (lt_of_lt_of_le u.int.isLt (by norm_num))]
    rfl
  have hlength : hex.length = 32 := hexDigits_length 32 _
  have hrange : (0 : ℤ) ≤ (u.int : ℕ) ∧ ((u.int : ℕ) : ℤ) < 2 ^ 128 :=
    ⟨Int.natCast_nonneg _, by exact_mod_cast u.int.isLt⟩
  rw [fromStr, str, String.toList_ofList, hcanonical]
  simp only [hlength, ne_eq, not_true_eq_false, ↓reduceIte, hread]
  rw [dif_pos hrange]
  simp

/-- A text with fewer than 32 characters is no UUID. -/
theorem fromStr_of_length_lt {text : String} (h : text.length < 32) :
    ∃ e, fromStr text = .error e := by
  have hdigits : (canonicalDigits text.toList).length ≤ text.toList.length :=
    Nat.le_trans (List.length_filter_le _ _)
      (Nat.le_trans (Text.length_stripBy_le _ _)
        (Nat.le_trans (Text.length_removeAll_le _ _ _)
          (Text.length_removeAll_le _ _ _)))
  rw [String.length_toList] at hdigits
  have hne : (canonicalDigits text.toList).length ≠ 32 := by omega
  exact ⟨_, by rw [fromStr, if_pos hne]⟩

theorem str_injective : Function.Injective str := by
  intro u v huv
  have h : fromStr u.str = fromStr v.str := by rw [huv]
  simpa using h

end Uuid
end AiBackend
