import Mathlib.Data.List.Basic
import Mathlib.Data.List.TakeWhile

/-!
# Python text

White space as `str.isspace` has it, and the string methods built on it.
Strings are read as their lists of code points.
-/

namespace AiBackend.Text

/-- The code points `str.isspace` accepts. -/
def isSpace (c : Char) : Bool :=
  let n := c.toNat
  (9 ≤ n && n ≤ 13) || (28 ≤ n && n ≤ 32) || n == 0x85 || n == 0xA0 ||
    n == 0x1680 || (0x2000 ≤ n && n ≤ 0x200A) || n == 0x2028 || n == 0x2029 ||
    n == 0x202F || n == 0x205F || n == 0x3000

/-- The zeros of the runs of ten decimal digits outside ASCII. -/
def otherZeros : List ℕ :=
  [0x660, 0x6F0, 0x7C0, 0x966, 0x9E6, 0xA66, 0xAE6, 0xB66, 0xBE6, 0xC66, 0xCE6, 0xD66,
    0xDE6, 0xE50, 0xED0, 0xF20, 0x1040, 0x1090, 0x17E0, 0x1810, 0x1946, 0x19D0, 0x1A80,
    0x1A90, 0x1B50, 0x1BB0, 0x1C40, 0x1C50, 0xA620, 0xA8D0, 0xA900, 0xA9D0, 0xA9F0,
    0xAA50, 0xABF0, 0xFF10, 0x104A0, 0x10D30, 0x11066, 0x110F0, 0x11136, 0x111D0,
    0x112F0, 0x11450, 0x114D0, 0x11650, 0x116C0, 0x11730, 0x118E0, 0x11950, 0x11C50,
    0x11D50, 0x11DA0, 0x11F50, 0x16A60, 0x16AC0, 0x16B50, 0x1D7CE, 0x1D7D8, 0x1D7E2,
    0x1D7EC, 0x1D7F6, 0x1E140, 0x1E2F0, 0x1E4F0, 0x1E950, 0x1FBF0]

/-- Spaces and decimal digits outside ASCII count as those in it; nothing else
outside can be part of a number. -/
def toAscii (c : Char) : Char :=
  if c.toNat < 127 then c
  else if isSpace c then ' '
  else match otherZeros.find? fun start => start ≤ c.toNat ∧ c.toNat < start + 10 with
    | some start => Char.ofNat ('0'.toNat + (c.toNat - start))
    | none => '?'

/-- The ASCII white space that is skipped around a number. -/
def isAsciiSpace (c : Char) : Bool :=
  c = ' ' || (9 ≤ c.toNat && c.toNat ≤ 13)

/-- `str.strip(chars)` for a set of characters given by its test. -/
def stripBy (p : Char → Bool) (cs : List Char) : List Char :=
  ((cs.dropWhile p).reverse.dropWhile p).reverse

/-- `str.strip()`. -/
def strip (cs : List Char) : List Char := stripBy isSpace cs

/-- `not text.strip()`. -/
def isBlank (text : String) : Bool := (strip text.toList).isEmpty

/-- The words of a text that continues the word read so far. -/
def splitFrom (word : List Char) : List Char → List (List Char)
  | [] => if word.isEmpty then [] else [word]
  | c :: cs =>
      if isSpace c then
        if word.isEmpty then splitFrom [] cs else word :: splitFrom [] cs
      else splitFrom (word ++ [c]) cs

/-- `text.split()`. -/
def split (cs : List Char) : List (List Char) := splitFrom [] cs

/-- `text.replace(pattern, new)` for a non-empty pattern: the leftmost
occurrences that do not overlap are replaced. -/
def replaceAll (pattern new : List Char) : ℕ → List Char → List Char
  | 0, cs => cs
  | _ + 1, [] => []
  | fuel + 1, c :: cs =>
      if pattern.isPrefixOf (c :: cs) then
        new ++ replaceAll pattern new fuel ((c :: cs).drop pattern.length)
      else
        c :: replaceAll pattern new fuel cs

/-- `text.replace(pattern, "")`. -/
def removeAll (pattern : List Char) : ℕ → List Char → List Char :=
  replaceAll pattern []

theorem stripBy_eq_self {p : Char → Bool} {cs : List Char}
    (h : ∀ c ∈ cs, p c = false) : stripBy p cs = cs := by
  have hdrop : ∀ ds : List Char, (∀ c ∈ ds, p c = false) →
      ds.dropWhile p = ds := by
    intro ds hds
    cases ds with
    | nil => rfl
    | cons d ds => simp [hds d (by simp)]
  rw [stripBy, hdrop cs h, hdrop cs.reverse (by simpa using h),
    List.reverse_reverse]

theorem length_stripBy_le (p : Char → Bool) (cs : List Char) :
    (stripBy p cs).length ≤ cs.length := by
  have hdrop : ∀ ds : List Char, (ds.dropWhile p).length ≤ ds.length :=
    fun ds => (List.dropWhile_sublist p).length_le
  calc (stripBy p cs).length
      = ((cs.dropWhile p).reverse.dropWhile p).length := List.length_reverse
    _ ≤ (cs.dropWhile p).reverse.length := hdrop _
    _ = (cs.dropWhile p).length := List.length_reverse
    _ ≤ cs.length := hdrop _

theorem stripBy_eq_nil_iff {p : Char → Bool} {cs : List Char} :
    stripBy p cs = [] ↔ ∀ c ∈ cs, p c = true := by
  constructor
  · intro h
    rw [stripBy, List.reverse_eq_nil_iff, List.dropWhile_eq_nil_iff] at h
    have hall : ∀ c ∈ cs.dropWhile p, p c = true := by simpa using h
    cases hdrop : cs.dropWhile p with
    | nil => exact List.dropWhile_eq_nil_iff.mp hdrop
    | cons d ds =>
        have hhead := List.head_dropWhile_not p (l := cs) (by simp [hdrop])
        have hd := hall d (by simp [hdrop])
        simp [hdrop, hd] at hhead
  · intro h
    rw [stripBy, List.dropWhile_eq_nil_iff.mpr h]
    rfl

theorem isBlank_iff {text : String} :
    isBlank text = true ↔ ∀ c ∈ text.toList, isSpace c = true := by
  rw [isBlank, List.isEmpty_iff]
  exact stripBy_eq_nil_iff

/-- Nothing is replaced in a text without the pattern's first character. -/
theorem replaceAll_eq_self {d : Char} {pattern new cs : List Char} (fuel : ℕ)
    (h : d ∉ cs) : replaceAll (d :: pattern) new fuel cs = cs := by
  induction fuel generalizing cs with
  | zero => rfl
  | succ fuel ih =>
      cases cs with
      | nil => rfl
      | cons c cs =>
          rw [List.mem_cons, not_or] at h
          simp [replaceAll, List.isPrefixOf, h.1, ih h.2]

/-- The first occurrence of the pattern is replaced, and the search goes on
behind it. -/
theorem replaceAll_append {d : Char} {pattern new xs : List Char} {fuel : ℕ}
    (hxs : d ∉ xs) (hfuel : xs.length < fuel) (ys : List Char) :
    ∃ rest, replaceAll (d :: pattern) new fuel (xs ++ (d :: pattern ++ ys)) =
      xs ++ (new ++ replaceAll (d :: pattern) new rest ys) := by
  induction xs generalizing fuel with
  | nil =>
      obtain ⟨fuel, rfl⟩ := Nat.exists_eq_succ_of_ne_zero (Nat.ne_zero_of_lt hfuel)
      have hstarts : (d :: pattern).isPrefixOf (d :: (pattern ++ ys)) = true := by
        rw [List.isPrefixOf_iff_prefix]
        exact ⟨ys, rfl⟩
      have hdrop : (d :: (pattern ++ ys)).drop (d :: pattern).length = ys := by
        simp
      refine ⟨fuel, ?_⟩
      rw [List.nil_append, List.cons_append, replaceAll, if_pos hstarts, hdrop,
        List.nil_append]
  | cons x xs ih =>
      rw [List.mem_cons, not_or] at hxs
      rw [List.length_cons] at hfuel
      obtain ⟨fuel, rfl⟩ := Nat.exists_eq_succ_of_ne_zero (Nat.ne_zero_of_lt hfuel)
      have hstarts : (d :: pattern).isPrefixOf (x :: (xs ++ (d :: pattern ++ ys))) =
          false := by
        simp [List.isPrefixOf, hxs.1]
      obtain ⟨rest, hrest⟩ := ih hxs.2 (Nat.lt_of_succ_lt_succ hfuel)
      refine ⟨rest, ?_⟩
      rw [List.cons_append, replaceAll, hstarts, hrest]
      rfl

/-- A pattern that occurs once, in a text whose other parts lack its first
character, is replaced and nothing else is. -/
theorem replaceAll_once {d : Char} {pattern rest n front back : List Char}
    {fuel : ℕ} (hpattern : pattern = d :: rest) (hfront : d ∉ front)
    (hback : d ∉ back) (hfuel : front.length < fuel) :
    replaceAll pattern n fuel (front ++ (pattern ++ back)) =
      front ++ (n ++ back) := by
  subst hpattern
  obtain ⟨left, hreplaced⟩ := replaceAll_append hfront hfuel back
  rw [hreplaced, replaceAll_eq_self left hback]

/-! ## Literals -/

/-- Texts joined from literals are spelled by their characters, which are
found by unification and not by decoding. -/
theorem append_spelled {s t : String} {l m : List Char}
    (hs : s = String.ofList l) (ht : t = String.ofList m) :
    s ++ t = String.ofList (l ++ m) := by
  rw [hs, ht, String.ofList_append]

theorem length_removeAll_le (pattern : List Char) (fuel : ℕ) (cs : List Char) :
    (removeAll pattern fuel cs).length ≤ cs.length := by
  unfold removeAll
  induction fuel generalizing cs with
  | zero => exact Nat.le_refl _
  | succ fuel ih =>
      cases cs with
      | nil => exact Nat.le_refl _
      | cons c cs =>
          rw [replaceAll]
          split
          · apply Nat.le_trans (ih _)
            rw [List.length_drop]
            exact Nat.sub_le _ _
          · exact Nat.succ_le_succ (ih cs)

end AiBackend.Text
