import Mathlib.Data.List.Basic
import Mathlib.Order.Nat

/-!
# UTF-8 with replacement

The bytes of a text are those of the standard library.  Decoding never fails:
what is no character, up to the byte at which this shows, becomes one
replacement character.  The decoder reads byte after byte and remembers what
may come next.  The bytes of a text cut at any two places decode to the
characters between them, with replacement characters for the two characters
that are cut.
-/

namespace AiBackend.Utf8

/-- The bytes of a text. -/
def encode (cs : List Char) : List UInt8 := cs.flatMap String.utf8EncodeChar

/-- `U+FFFD`. -/
def replacement : Char := '\uFFFD'

/-! ## Decoding -/

/-- Where the decoder is: between characters, or in one whose bytes so far give
`value`, which ends after `more + 1` bytes, the next of them from `low` to
`high`. -/
inductive Stage where
  | between
  | inside (value more low high : ℕ)
  deriving DecidableEq, Repr

/-- The first byte of a character. -/
def first (b : ℕ) : List Char × Stage :=
  if b < 0x80 then ([Char.ofNat b], .between)
  else if 0xC2 ≤ b ∧ b < 0xE0 then ([], .inside (b - 0xC0) 0 0x80 0xBF)
  else if b = 0xE0 then ([], .inside 0 1 0xA0 0xBF)
  else if b = 0xED then ([], .inside 13 1 0x80 0x9F)
  else if 0xE1 ≤ b ∧ b < 0xF0 then ([], .inside (b - 0xE0) 1 0x80 0xBF)
  else if b = 0xF0 then ([], .inside 0 2 0x90 0xBF)
  else if b = 0xF4 then ([], .inside 4 2 0x80 0x8F)
  else if 0xF1 ≤ b ∧ b < 0xF4 then ([], .inside (b - 0xF0) 2 0x80 0xBF)
  else ([replacement], .between)

/-- A byte after `value` has been read. -/
def next (value more low high b : ℕ) : List Char × Stage :=
  if low ≤ b ∧ b ≤ high then
    match more with
    | 0 => ([Char.ofNat (value * 64 + (b - 0x80))], .between)
    | more + 1 => ([], .inside (value * 64 + (b - 0x80)) more 0x80 0xBF)
  else
    -- what was read is no character, and this byte is read afresh
    (replacement :: (first b).1, (first b).2)

def step : Stage → UInt8 → List Char × Stage
  | .between, b => first b.toNat
  | .inside value more low high, b => next value more low high b.toNat

/-- The characters of the bytes from a stage on; an unfinished character at the
end is replaced. -/
def decodeFrom : Stage → List UInt8 → List Char
  | .between, [] => []
  | .inside .., [] => [replacement]
  | stage, b :: bytes => (step stage b).1 ++ decodeFrom (step stage b).2 bytes

/-- `bytes.decode("utf-8", errors="replace")`. -/
def decode (bytes : List UInt8) : List Char := decodeFrom .between bytes

example : decode [0x61, 0xF0, 0x9F, 0x61] = ['a', replacement, 'a'] := by decide

/-! ## The bytes of one character -/

section OneCharacter

variable {c : Char} {bytes : List UInt8}

theorem decodeFrom_cons (stage : Stage) (b : UInt8) :
    decodeFrom stage (b :: bytes) =
      (step stage b).1 ++ decodeFrom (step stage b).2 bytes := by
  cases stage with
  | between => rfl
  | inside => rfl

/-- A byte that only continues characters. -/
def Continues (b : UInt8) : Prop := 0x80 ≤ b.toNat ∧ b.toNat ≤ 0xBF

theorem step_between_of_continues {b : UInt8} (h : Continues b) :
    step .between b = ([replacement], .between) := by
  obtain ⟨hlow, hhigh⟩ := h
  rw [step, first]
  repeat rw [if_neg (by omega)]

/-- Without its character every continuation byte is replaced. -/
theorem decodeFrom_continues {front : List UInt8} (h : ∀ b ∈ front, Continues b) :
    decodeFrom .between (front ++ bytes) =
      List.replicate front.length replacement ++ decodeFrom .between bytes := by
  induction front with
  | nil => rfl
  | cons b front ih =>
      rw [List.forall_mem_cons] at h
      rw [List.cons_append, decodeFrom_cons, step_between_of_continues h.1, ih h.2]
      rfl

/-- How the decoder goes through the bytes of a character. -/
inductive Reads (c : Char) : Stage → List UInt8 → Prop where
  | last {stage : Stage} {b : UInt8} (h : step stage b = ([c], .between)) :
      Reads c stage [b]
  | more {stage : Stage} {value left low high : ℕ} {b : UInt8} {rest : List UInt8}
      (h : step stage b = ([], .inside value left low high))
      (hcontinues : ∀ b ∈ rest, Continues b)
      (hrest : Reads c (.inside value left low high) rest) :
      Reads c stage (b :: rest)

theorem Reads.decodeFrom_append {stage : Stage} {front : List UInt8}
    (h : Reads c stage front) :
    decodeFrom stage (front ++ bytes) = c :: decodeFrom .between bytes := by
  induction h with
  | last h => rw [List.singleton_append, decodeFrom_cons, h, List.singleton_append]
  | more h _ _ ih => rw [List.cons_append, decodeFrom_cons, h, List.nil_append, ih]

/-- Cut short, the character is replaced. -/
theorem Reads.decodeFrom_take {stage : Stage} {front : List UInt8}
    (h : Reads c stage front) {n : ℕ} (hn : 0 < n) (hlt : n < front.length) :
    decodeFrom stage (front.take n) = [replacement] := by
  induction h generalizing n with
  | last =>
      rw [List.length_singleton] at hlt
      omega
  | more h _ _ ih =>
      obtain ⟨n, rfl⟩ := Nat.exists_eq_succ_of_ne_zero (Nat.ne_zero_of_lt hn)
      rw [List.length_cons] at hlt
      rw [List.take_succ_cons, decodeFrom_cons, h, List.nil_append]
      rcases Nat.eq_zero_or_pos n with rfl | hpos
      · rfl
      · exact ih hpos (by omega)

theorem Reads.continues_drop {stage : Stage} {front : List UInt8}
    (h : Reads c stage front) {n : ℕ} (hn : 0 < n) :
    ∀ b ∈ front.drop n, Continues b := by
  obtain ⟨n, rfl⟩ := Nat.exists_eq_succ_of_ne_zero (Nat.ne_zero_of_lt hn)
  cases h with
  | last =>
      rw [List.drop_succ_cons, List.drop_nil]
      intro b hb
      cases hb
  | more _ hcontinues _ =>
      rw [List.drop_succ_cons]
      exact fun b hb => hcontinues b (List.mem_of_mem_drop hb)

/-- The continuation byte for the lowest six bits of a number. -/
def tail (n : ℕ) : UInt8 := UInt8.ofNat (n % 64 + 0x80)

theorem toNat_ofNat {n : ℕ} (h : n < 256) : (UInt8.ofNat n).toNat = n := by
  rw [UInt8.toNat_ofNat', Nat.mod_eq_of_lt h]

theorem toNat_tail (n : ℕ) : (tail n).toNat = n % 64 + 0x80 := toNat_ofNat (by omega)

theorem continues_tail (n : ℕ) : Continues (tail n) := by
  rw [Continues, toNat_tail]
  omega

/-- A byte in its range carries six more bits. -/
theorem step_inside (value more : ℕ) {low high : ℕ} {b : UInt8}
    (hlow : low ≤ b.toNat) (hhigh : b.toNat ≤ high) :
    step (.inside value 0 low high) b =
        ([Char.ofNat (value * 64 + (b.toNat - 0x80))], .between) ∧
      step (.inside value (more + 1) low high) b =
        ([], .inside (value * 64 + (b.toNat - 0x80)) more 0x80 0xBF) :=
  ⟨if_pos ⟨hlow, hhigh⟩, if_pos ⟨hlow, hhigh⟩⟩

theorem step_tail (more : ℕ) {n low high : ℕ} (hlow : low ≤ n % 64 + 0x80)
    (hhigh : n % 64 + 0x80 ≤ high) :
    step (.inside (n / 64) 0 low high) (tail n) = ([Char.ofNat n], .between) ∧
      step (.inside (n / 64) (more + 1) low high) (tail n) =
        ([], .inside n more 0x80 0xBF) := by
  rw [← toNat_tail] at hlow hhigh
  have hsum : n / 64 * 64 + ((tail n).toNat - 0x80) = n := by
    rw [toNat_tail]
    omega
  have hstep := step_inside (n / 64) more hlow hhigh
  rw [hsum] at hstep
  exact hstep

section Tails

variable {n low high : ℕ}

theorem reads_tail (hc : Char.ofNat n = c) (hlow : low ≤ n % 64 + 0x80)
    (hhigh : n % 64 + 0x80 ≤ high) :
    Reads c (.inside (n / 64) 0 low high) [tail n] :=
  .last (by rw [(step_tail 0 hlow hhigh).1, hc])

theorem reads_two_tails (hc : Char.ofNat n = c) (hlow : low ≤ n / 64 % 64 + 0x80)
    (hhigh : n / 64 % 64 + 0x80 ≤ high) :
    Reads c (.inside (n / 4096) 1 low high) [tail (n / 64), tail n] := by
  have hdiv : n / 4096 = n / 64 / 64 := by omega
  rw [hdiv]
  refine .more (step_tail _ hlow hhigh).2 ?_ (reads_tail hc (by omega) (by omega))
  simpa using continues_tail n

theorem reads_three_tails (hc : Char.ofNat n = c) (hlow : low ≤ n / 4096 % 64 + 0x80)
    (hhigh : n / 4096 % 64 + 0x80 ≤ high) :
    Reads c (.inside (n / 262144) 2 low high)
      [tail (n / 4096), tail (n / 64), tail n] := by
  have hdiv : n / 262144 = n / 4096 / 64 := by omega
  rw [hdiv]
  refine .more (step_tail _ hlow hhigh).2 ?_ (reads_two_tails hc (by omega) (by omega))
  simpa using ⟨continues_tail (n / 64), continues_tail n⟩

end Tails

/-- The first of three bytes asks for a second one that leaves out what has
shorter forms and the surrogates. -/
theorem exists_first_of_three {n : ℕ} (hlow : 0x7FF < n) (hhigh : n ≤ 0xFFFF)
    (hvalid : n < 0xD800 ∨ 0xDFFF < n) :
    ∃ low high, first (n / 4096 + 0xE0) = ([], .inside (n / 4096) 1 low high) ∧
      low ≤ n / 64 % 64 + 0x80 ∧ n / 64 % 64 + 0x80 ≤ high := by
  unfold first
  rw [if_neg (by omega), if_neg (by omega)]
  by_cases hzero : n / 4096 = 0
  · rw [if_pos (by omega), hzero]
    exact ⟨0xA0, 0xBF, rfl, by omega, by omega⟩
  · rw [if_neg (by omega)]
    by_cases hsurrogate : n / 4096 = 13
    · rw [if_pos (by omega), hsurrogate]
      exact ⟨0x80, 0x9F, rfl, by omega, by omega⟩
    · rw [if_neg (by omega), if_pos (by omega), Nat.add_sub_cancel]
      exact ⟨0x80, 0xBF, rfl, by omega, by omega⟩

theorem exists_first_of_four {n : ℕ} (hlow : 0xFFFF < n) (hhigh : n < 0x110000) :
    ∃ low high, first (n / 262144 + 0xF0) = ([], .inside (n / 262144) 2 low high) ∧
      low ≤ n / 4096 % 64 + 0x80 ∧ n / 4096 % 64 + 0x80 ≤ high := by
  unfold first
  rw [if_neg (by omega), if_neg (by omega), if_neg (by omega), if_neg (by omega),
    if_neg (by omega)]
  by_cases hzero : n / 262144 = 0
  · rw [if_pos (by omega), hzero]
    exact ⟨0x90, 0xBF, rfl, by omega, by omega⟩
  · rw [if_neg (by omega)]
    by_cases hlast : n / 262144 = 4
    · rw [if_pos (by omega), hlast]
      exact ⟨0x80, 0x8F, rfl, by omega, by omega⟩
    · rw [if_neg (by omega), if_pos (by omega), Nat.add_sub_cancel]
      exact ⟨0x80, 0xBF, rfl, by omega, by omega⟩

theorem utf8EncodeChar_eq (c : Char) :
    String.utf8EncodeChar c =
      if c.toNat ≤ 0x7F then [UInt8.ofNat c.toNat]
      else if c.toNat ≤ 0x7FF then
        [UInt8.ofNat (c.toNat / 64 % 32 + 0xC0), tail c.toNat]
      else if c.toNat ≤ 0xFFFF then
        [UInt8.ofNat (c.toNat / 4096 % 16 + 0xE0), tail (c.toNat / 64), tail c.toNat]
      else
        [UInt8.ofNat (c.toNat / 262144 % 8 + 0xF0), tail (c.toNat / 4096),
          tail (c.toNat / 64), tail c.toNat] := rfl

/-- The decoder reads back what the standard library writes. -/
theorem reads_utf8EncodeChar (c : Char) :
    Reads c .between (String.utf8EncodeChar c) := by
  have hvalid : c.toNat < 0xD800 ∨ 0xDFFF < c.toNat ∧ c.toNat < 0x110000 := c.valid
  have hc : Char.ofNat c.toNat = c := Char.ofNat_toNat c
  rw [utf8EncodeChar_eq]
  split_ifs with hone htwo hthree
  · refine .last ?_
    rw [step, toNat_ofNat (by omega), first, if_pos (by omega), hc]
  · have htail : Reads c (.inside (c.toNat / 64) 0 0x80 0xBF) [tail c.toNat] :=
      reads_tail hc (by omega) (by omega)
    refine .more ?_ ?_ htail
    · rw [step, toNat_ofNat (by omega), Nat.mod_eq_of_lt (by omega), first,
        if_neg (by omega), if_pos (by omega), Nat.add_sub_cancel]
    · simpa using continues_tail c.toNat
  · obtain ⟨low, high, hfirst, hlow, hhigh⟩ :=
      exists_first_of_three (n := c.toNat) (by omega) hthree (by omega)
    refine .more ?_ ?_ (reads_two_tails hc hlow hhigh)
    · rw [step, toNat_ofNat (by omega), Nat.mod_eq_of_lt (by omega), hfirst]
    · simpa using ⟨continues_tail (c.toNat / 64), continues_tail c.toNat⟩
  · obtain ⟨low, high, hfirst, hlow, hhigh⟩ :=
      exists_first_of_four (n := c.toNat) (by omega) (by omega)
    refine .more ?_ ?_ (reads_three_tails hc hlow hhigh)
    · rw [step, toNat_ofNat (by omega), Nat.mod_eq_of_lt (by omega), hfirst]
    · simpa using ⟨continues_tail (c.toNat / 4096), continues_tail (c.toNat / 64),
        continues_tail c.toNat⟩

end OneCharacter

/-! ## A text cut between bytes -/

/-- The number of characters that begin before the `n`-th byte. -/
def begun : List Char → ℕ → ℕ
  | [], _ => 0
  | c :: cs, n => if n = 0 then 0 else begun cs (n - c.utf8Size) + 1

/-- The number of characters that end before the `n`-th byte. -/
def ended : List Char → ℕ → ℕ
  | [], _ => 0
  | c :: cs, n => if n < c.utf8Size then 0 else ended cs (n - c.utf8Size) + 1

/-- The `n`-th byte is not inside a character. -/
def Between (cs : List Char) (n : ℕ) : Prop := begun cs n = ended cs n

instance (cs : List Char) (n : ℕ) : Decidable (Between cs n) :=
  inferInstanceAs (Decidable (_ = _))

section Cuts

variable {c : Char} {cs : List Char} {n start stop : ℕ}

theorem encode_cons (c : Char) (cs : List Char) :
    encode (c :: cs) = String.utf8EncodeChar c ++ encode cs := rfl

theorem length_encode_cons (c : Char) (cs : List Char) :
    (encode (c :: cs)).length = c.utf8Size + (encode cs).length := by
  rw [encode_cons, List.length_append, String.length_utf8EncodeChar]

@[simp] theorem begun_zero (cs : List Char) : begun cs 0 = 0 := by
  cases cs with
  | nil => rfl
  | cons c cs => exact if_pos rfl

@[simp] theorem ended_zero (cs : List Char) : ended cs 0 = 0 := by
  cases cs with
  | nil => rfl
  | cons c cs => exact if_pos c.utf8Size_pos

theorem begun_cons_of_pos (hn : 0 < n) :
    begun (c :: cs) n = begun cs (n - c.utf8Size) + 1 := if_neg (by omega)

theorem ended_cons_of_lt (hn : n < c.utf8Size) : ended (c :: cs) n = 0 := if_pos hn

theorem ended_cons_of_le (hn : c.utf8Size ≤ n) :
    ended (c :: cs) n = ended cs (n - c.utf8Size) + 1 := if_neg (by omega)

theorem ended_le_length (cs : List Char) (n : ℕ) : ended cs n ≤ cs.length := by
  induction cs generalizing n with
  | nil => exact Nat.le_refl _
  | cons c cs ih =>
      rw [ended, List.length_cons]
      split
      · omega
      · exact Nat.succ_le_succ (ih _)

theorem begun_le_length (cs : List Char) (n : ℕ) : begun cs n ≤ cs.length := by
  induction cs generalizing n with
  | nil => exact Nat.le_refl _
  | cons c cs ih =>
      rw [begun, List.length_cons]
      split
      · omega
      · exact Nat.succ_le_succ (ih _)

/-- At most one character has begun and not ended. -/
theorem begun_bounds (cs : List Char) (n : ℕ) :
    ended cs n ≤ begun cs n ∧ begun cs n ≤ ended cs n + 1 := by
  induction cs generalizing n with
  | nil => exact ⟨Nat.le_refl _, Nat.zero_le _⟩
  | cons c cs ih =>
      have hsize := c.utf8Size_pos
      rcases Nat.eq_zero_or_pos n with rfl | hn
      · simp
      rw [begun_cons_of_pos hn]
      by_cases hlt : n < c.utf8Size
      · rw [ended_cons_of_lt hlt, Nat.sub_eq_zero_of_le hlt.le, begun_zero]
        omega
      · rw [ended_cons_of_le (not_lt.mp hlt)]
        have hrest := ih (n - c.utf8Size)
        omega

theorem length_encode_take_ended (cs : List Char) (n : ℕ) :
    (encode (cs.take (ended cs n))).length ≤ n := by
  induction cs generalizing n with
  | nil => exact Nat.zero_le _
  | cons c cs ih =>
      rw [ended]
      split
      · exact Nat.zero_le _
      · rw [List.take_succ_cons, length_encode_cons]
        have hrest := ih (n - c.utf8Size)
        omega

/-- A character that ends before the `n`-th byte has ended there. -/
theorem le_ended {k : ℕ} (hk : k ≤ cs.length) (h : (encode (cs.take k)).length ≤ n) :
    k ≤ ended cs n := by
  induction cs generalizing k n with
  | nil => exact hk
  | cons c cs ih =>
      cases k with
      | zero => exact Nat.zero_le _
      | succ k =>
          rw [List.take_succ_cons, length_encode_cons] at h
          rw [ended_cons_of_le (by omega)]
          exact Nat.succ_le_succ (ih (Nat.le_of_succ_le_succ hk) (by omega))

theorem ended_mono (cs : List Char) (hle : start ≤ stop) : ended cs start ≤ ended cs stop :=
  le_ended (ended_le_length cs start) ((length_encode_take_ended cs start).trans hle)

/-- The bytes up to a cut decode to the characters that have ended, and a
replacement if one has begun. -/
theorem decode_take (cs : List Char) (n : ℕ) :
    decode ((encode cs).take n) = cs.take (ended cs n) ++
      List.replicate (begun cs n - ended cs n) replacement := by
  induction cs generalizing n with
  | nil =>
      rw [show encode [] = [] from rfl, List.take_nil]
      rfl
  | cons c cs ih =>
      have hread := reads_utf8EncodeChar c
      have hlength := String.length_utf8EncodeChar c
      rcases Nat.eq_zero_or_pos n with rfl | hn
      · simp only [List.take_zero, begun_zero, ended_zero, Nat.sub_self]
        rfl
      rw [encode_cons, begun_cons_of_pos hn]
      by_cases hlt : n < c.utf8Size
      · rw [ended_cons_of_lt hlt, Nat.sub_eq_zero_of_le hlt.le, begun_zero,
          List.take_append_of_le_length (by omega)]
        exact hread.decodeFrom_take hn (by omega)
      · have hle := not_lt.mp hlt
        rw [ended_cons_of_le hle, List.take_append, List.take_of_length_le (by omega),
          hlength, decode, hread.decodeFrom_append, ← decode, ih, List.take_succ_cons,
          Nat.add_sub_add_right]
        rfl

theorem length_decode_take (cs : List Char) (n : ℕ) :
    (decode ((encode cs).take n)).length = begun cs n := by
  have hlength := ended_le_length cs n
  have hbounds := begun_bounds cs n
  rw [decode_take, List.length_append, List.length_take, List.length_replicate]
  omega

theorem begun_of_not_between (h : ¬ Between cs n) : begun cs n = ended cs n + 1 := by
  have hbounds := begun_bounds cs n
  unfold Between at h
  omega

/-- A cut before the `n`-th byte that decoding does not show: no character is
cut, or the one that is cut is a replacement character. -/
def CleanCut (cs : List Char) (n : ℕ) : Prop :=
  Between cs n ∨ cs[ended cs n]? = some replacement

/-- After a clean cut the characters that have begun are left. -/
theorem decode_take_of_cleanCut (h : CleanCut cs n) :
    decode ((encode cs).take n) = cs.take (begun cs n) := by
  rw [decode_take]
  by_cases hbetween : Between cs n
  · rw [show begun cs n = ended cs n from hbetween, Nat.sub_self, List.replicate_zero,
      List.append_nil]
  · have hnext := h.resolve_left hbetween
    rw [begun_of_not_between hbetween, Nat.add_sub_cancel_left, List.take_add_one, hnext]
    rfl

/-- Only after a clean cut is what is left a beginning of the text. -/
theorem decode_take_prefix_iff (cs : List Char) (n : ℕ) :
    decode ((encode cs).take n) <+: cs ↔ CleanCut cs n := by
  constructor
  · intro hbegins
    by_contra hunclean
    have hlength := ended_le_length cs n
    have hbegun := begun_of_not_between fun h : Between cs n => hunclean (Or.inl h)
    obtain ⟨rest, hrest⟩ := hbegins
    rw [decode_take, hbegun, Nat.add_sub_cancel_left, List.append_assoc] at hrest
    have hfront : (cs.take (ended cs n)).length = ended cs n :=
      List.length_take_of_le hlength
    apply hunclean
    right
    calc cs[ended cs n]?
        = (cs.take (ended cs n) ++ (List.replicate 1 replacement ++ rest))[ended cs n]? := by
          rw [hrest]
      _ = some replacement := by
          rw [List.getElem?_append_right hfront.le, hfront, Nat.sub_self]
          rfl
  · intro hclean
    rw [decode_take_of_cleanCut hclean]
    exact List.take_prefix _ _

/-- The bytes between two cuts that end a character begun before them. -/
def trailing (cs : List Char) (start stop : ℕ) : ℕ :=
  min stop (encode (cs.take (begun cs start))).length - start

/-- The characters wholly between two cuts. -/
def whole (cs : List Char) (start stop : ℕ) : List Char :=
  (cs.take (ended cs stop)).drop (begun cs start)

/-- The characters that begin between two cuts and end behind them. -/
def opened (cs : List Char) (start stop : ℕ) : ℕ :=
  begun cs stop - max (begun cs start) (ended cs stop)

theorem opened_le_one (cs : List Char) (start stop : ℕ) : opened cs start stop ≤ 1 := by
  have hbounds := begun_bounds cs stop
  unfold opened
  omega

theorem length_whole (cs : List Char) (start stop : ℕ) :
    (whole cs start stop).length = ended cs stop - begun cs start := by
  have hlength := ended_le_length cs stop
  rw [whole, List.length_drop, List.length_take]
  omega

theorem trailing_of_between (h : Between cs start) : trailing cs start stop = 0 := by
  have hlength := length_encode_take_ended cs start
  rw [← show begun cs start = ended cs start from h] at hlength
  unfold trailing
  omega

theorem opened_of_between (h : Between cs stop) : opened cs start stop = 0 := by
  have h : begun cs stop = ended cs stop := h
  unfold opened
  omega

/-- A range of bytes with nothing of a cut character in it is cut between
characters. -/
theorem between_of_uncut (hlt : start < stop) (htrailing : trailing cs start stop = 0)
    (hopened : opened cs start stop = 0) : Between cs start ∧ Between cs stop := by
  unfold trailing at htrailing
  unfold opened at hopened
  have hbounds := begun_bounds cs start
  have hbounds' := begun_bounds cs stop
  have hmono := ended_mono cs hlt.le
  have hstart : begun cs start ≤ ended cs start :=
    le_ended (begun_le_length cs start) (by omega)
  refine ⟨?_, ?_⟩
  · unfold Between
    omega
  · unfold Between
    omega

section LaterCharacter

variable (hlater : c.utf8Size ≤ start)
include hlater

theorem trailing_cons_of_le :
    trailing (c :: cs) start stop =
      trailing cs (start - c.utf8Size) (stop - c.utf8Size) := by
  have hsize := c.utf8Size_pos
  rw [trailing, trailing, begun_cons_of_pos (by omega), List.take_succ_cons,
    length_encode_cons]
  omega

theorem whole_cons_of_le (hle : start ≤ stop) :
    whole (c :: cs) start stop = whole cs (start - c.utf8Size) (stop - c.utf8Size) := by
  have hsize := c.utf8Size_pos
  rw [whole, whole, begun_cons_of_pos (by omega), ended_cons_of_le (by omega),
    List.take_succ_cons, List.drop_succ_cons]

theorem opened_cons_of_le (hle : start ≤ stop) :
    opened (c :: cs) start stop =
      opened cs (start - c.utf8Size) (stop - c.utf8Size) := by
  have hsize := c.utf8Size_pos
  rw [opened, opened, begun_cons_of_pos (by omega), begun_cons_of_pos (by omega),
    ended_cons_of_le (by omega)]
  omega

end LaterCharacter

section InsideFirst

variable (hstart : 0 < start) (hinside : start < c.utf8Size)
include hstart hinside

theorem begun_cons_of_inside : begun (c :: cs) start = 1 := by
  rw [begun_cons_of_pos hstart, Nat.sub_eq_zero_of_le hinside.le, begun_zero]

theorem trailing_cons_of_inside :
    trailing (c :: cs) start stop = min stop c.utf8Size - start := by
  rw [trailing, begun_cons_of_inside hstart hinside, List.take_succ_cons,
    length_encode_cons, List.take_zero]
  rfl

theorem whole_cons_of_inside :
    whole (c :: cs) start stop = cs.take (ended cs (stop - c.utf8Size)) := by
  rw [whole, begun_cons_of_inside hstart hinside]
  by_cases hlt : stop < c.utf8Size
  · rw [ended_cons_of_lt hlt, Nat.sub_eq_zero_of_le hlt.le, ended_zero]
    rfl
  · rw [ended_cons_of_le (not_lt.mp hlt), List.take_succ_cons, List.drop_succ_cons,
      List.drop_zero]

theorem opened_cons_of_inside (hle : start ≤ stop) :
    opened (c :: cs) start stop =
      begun cs (stop - c.utf8Size) - ended cs (stop - c.utf8Size) := by
  rw [opened, begun_cons_of_inside hstart hinside, begun_cons_of_pos (by omega)]
  by_cases hlt : stop < c.utf8Size
  · rw [ended_cons_of_lt hlt, Nat.sub_eq_zero_of_le hlt.le, begun_zero, ended_zero]
    rfl
  · rw [ended_cons_of_le (not_lt.mp hlt)]
    omega

end InsideFirst

/-- The bytes between two cuts decode to the characters wholly between them,
and a replacement for every byte and every beginning that has lost the rest of
its character. -/
theorem decode_range (cs : List Char) (hle : start ≤ stop) :
    decode (((encode cs).take stop).drop start) =
      List.replicate (trailing cs start stop) replacement ++
        (whole cs start stop ++
          List.replicate (opened cs start stop) replacement) := by
  induction cs generalizing start stop with
  | nil =>
      rw [show encode [] = [] from rfl, List.take_nil, List.drop_nil]
      simp [trailing, whole, opened, begun, ended, encode]
      rfl
  | cons c cs ih =>
      have hlength := String.length_utf8EncodeChar c
      rcases Nat.eq_zero_or_pos start with rfl | hstart
      · -- nothing is cut at the front
        rw [List.drop_zero, decode_take]
        simp [trailing, whole, opened, encode]
      rw [encode_cons, List.take_append, List.drop_append, hlength]
      by_cases hlater : c.utf8Size ≤ start
      · -- the first character lies before the range
        have hrest := @ih (start - c.utf8Size) (stop - c.utf8Size) (by omega)
        rw [List.take_of_length_le (by omega), List.drop_of_length_le (by omega),
          List.nil_append, hlength, hrest, trailing_cons_of_le hlater,
          whole_cons_of_le hlater hle, opened_cons_of_le hlater hle]
      · -- the range begins inside the first character
        have hinside := not_le.mp hlater
        have hfront : ∀ b ∈ ((String.utf8EncodeChar c).take stop).drop start,
            Continues b := by
          intro b hb
          rw [List.drop_take] at hb
          exact (reads_utf8EncodeChar c).continues_drop hstart b (List.mem_of_mem_take hb)
        have hnone : start - min stop c.utf8Size = 0 := by omega
        rw [decode, decodeFrom_continues hfront, ← decode, List.length_drop,
          List.length_take, hlength, hnone, List.drop_zero, decode_take,
          trailing_cons_of_inside hstart hinside, whole_cons_of_inside hstart hinside,
          opened_cons_of_inside hstart hinside hle]

end Cuts

end AiBackend.Utf8
