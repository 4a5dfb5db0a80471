import AiBackend.Infrastructure.TiktokenService

/-!
# Texts cut to a number of tokens

`TiktokenService.truncate_to_token_limit` keeps the first tokens of a text and
decodes them.  What it returns need not be a beginning of the text, since a
token may end inside a character, and need not have as few tokens, since what
was kept is a text of its own with tokens of its own.
-/

namespace AiBackend
namespace TiktokenService

open Python Utf8

/-- The byte before which the text is cut. -/
def cut (bytesOf : ℕ → List UInt8) (tokenIds : List ℕ) (maxTokens : ℤ) : ℕ :=
  ((tokenIds.take maxTokens.toNat).flatMap bytesOf).length

/-- The call returns a beginning of the text, and by its own count that has at
most `maxTokens` tokens. -/
def TruncatesWithin (tiktoken : Tiktoken) (text : String) (maxTokens : ℤ)
    (model : String) : Prop :=
  ∃ result count, truncateToTokenLimit tiktoken text maxTokens model = .ok result ∧
    result.toList <+: text.toList ∧
    countTokens tiktoken result model = .ok count ∧ count ≤ maxTokens

/-- The first `k` characters of the text have at most `maxTokens` tokens. -/
def FirstFit (encoding : Encoding) (text : String) (maxTokens : ℤ) (k : ℕ) : Prop :=
  ∃ kept, encoding.encode (String.ofList (text.toList.take k)) = .ok kept ∧
    kept.length ≤ maxTokens

/-- The text has at most `maxTokens` tokens, or it is cut cleanly and the
characters that have begun before the cut fit. -/
def Cuttable (encoding : Encoding) (bytesOf : ℕ → List UInt8) (text : String)
    (maxTokens : ℤ) : Prop :=
  ∃ tokenIds, encoding.encode text = .ok tokenIds ∧
    (tokenIds.length ≤ maxTokens ∨
      CleanCut text.toList (cut bytesOf tokenIds maxTokens) ∧
        FirstFit encoding text maxTokens
          (begun text.toList (cut bytesOf tokenIds maxTokens)))

section Truncation

variable {tiktoken : Tiktoken} {text model : String} {maxTokens : ℤ}
  {bytesOf : ℕ → List UInt8} {tokenIds : List ℕ}

theorem countTokens_of_encode {kept : List ℕ}
    (h : (getEncoding tiktoken model).encode text = .ok kept) :
    countTokens tiktoken text model = .ok kept.length := by
  rw [countTokens, h]
  rfl

/-- A text that has few enough tokens is returned as it is. -/
theorem truncate_of_le (h : (getEncoding tiktoken model).encode text = .ok tokenIds)
    (hle : tokenIds.length ≤ maxTokens) :
    truncateToTokenLimit tiktoken text maxTokens model = .ok text := by
  simp only [truncateToTokenLimit, h]
  exact if_pos hle

/-- Of any other text the bytes before the cut are decoded. -/
theorem truncate_of_lt (hbytes : (getEncoding tiktoken model).ByteTokens bytesOf)
    (h : (getEncoding tiktoken model).encode text = .ok tokenIds) (hmax : 0 ≤ maxTokens)
    (hlt : ¬ tokenIds.length ≤ maxTokens) :
    truncateToTokenLimit tiktoken text maxTokens model = .ok (String.ofList
      (decode ((encode text.toList).take (cut bytesOf tokenIds maxTokens)))) := by
  have hfirst : (slice tokenIds 0 maxTokens).flatMap bytesOf =
      (encode text.toList).take (cut bytesOf tokenIds maxTokens) := by
    rw [slice_of_nonneg _ (Int.le_refl 0) hmax, Int.toNat_zero, List.drop_zero, cut,
      ← hbytes.encode _ _ h, Encoding.take_flatMap]
  simp only [truncateToTokenLimit, h]
  rw [← hfirst, ← hbytes.decode]
  exact if_neg hlt

/-- A text that the encoding refuses is not truncated either. -/
theorem truncate_of_error {e : PyExc}
    (h : (getEncoding tiktoken model).encode text = .error e) :
    truncateToTokenLimit tiktoken text maxTokens model = .error e := by
  simp only [truncateToTokenLimit, h]
  rfl

/-- What is returned is judged by its characters. -/
theorem truncatesWithin_of_eq {result : String}
    (h : truncateToTokenLimit tiktoken text maxTokens model = .ok result) :
    TruncatesWithin tiktoken text maxTokens model ↔
      result.toList <+: text.toList ∧ ∃ kept,
        (getEncoding tiktoken model).encode result = .ok kept ∧
          kept.length ≤ maxTokens := by
  constructor
  · rintro ⟨other, count, hresult, hbegins, hcount, hle⟩
    obtain rfl : result = other := Except.ok.inj (h.symm.trans hresult)
    refine ⟨hbegins, ?_⟩
    cases hkept : (getEncoding tiktoken model).encode result with
    | error e =>
        rw [countTokens, hkept] at hcount
        cases hcount
    | ok kept =>
        rw [countTokens_of_encode hkept] at hcount
        exact ⟨kept, rfl, Except.ok.inj hcount ▸ hle⟩
  · rintro ⟨hbegins, kept, hkept, hle⟩
    exact ⟨result, kept.length, h, hbegins, countTokens_of_encode hkept, hle⟩

end Truncation

/-- The call does what it is for if and only if the text has few enough tokens,
or can be cut. -/
theorem truncatesWithin_iff (tiktoken : Tiktoken) (text : String) (maxTokens : ℤ)
    (model : String) (bytesOf : ℕ → List UInt8)
    (hbytes : (getEncoding tiktoken model).ByteTokens bytesOf) (hmax : 0 ≤ maxTokens) :
    TruncatesWithin tiktoken text maxTokens model ↔
      Cuttable (getEncoding tiktoken model) bytesOf text maxTokens := by
  cases hencode : (getEncoding tiktoken model).encode text with
  | error e =>
      refine iff_of_false ?_ ?_
      · rintro ⟨result, -, hresult, -⟩
        rw [truncate_of_error hencode] at hresult
        cases hresult
      · rintro ⟨tokenIds, h, -⟩
        rw [hencode] at h
        cases h
  | ok tokenIds =>
      by_cases hle : tokenIds.length ≤ maxTokens
      · rw [truncatesWithin_of_eq (truncate_of_le hencode hle)]
        exact iff_of_true ⟨List.prefix_refl _, tokenIds, hencode, hle⟩
          ⟨tokenIds, hencode, Or.inl hle⟩
      · rw [truncatesWithin_of_eq (truncate_of_lt hbytes hencode hmax hle),
          String.toList_ofList, decode_take_prefix_iff]
        constructor
        · rintro ⟨hclean, hfit⟩
          rw [decode_take_of_cleanCut hclean] at hfit
          exact ⟨tokenIds, hencode, Or.inr ⟨hclean, hfit⟩⟩
        · rintro ⟨_, h, hcases⟩
          obtain rfl : tokenIds = _ := Except.ok.inj (hencode.symm.trans h)
          obtain ⟨hclean, hfit⟩ := hcases.resolve_left hle
          rw [decode_take_of_cleanCut hclean]
          exact ⟨hclean, hfit⟩

/-- The package with one token for each byte. -/
def byteTiktoken : Tiktoken := ⟨fun _ => some Encoding.ofBytes, fun _ => Encoding.ofBytes⟩

theorem truncatesWithin_iff_letters :
    TruncatesWithin byteTiktoken "ab" 1 "gpt-4o" ↔
      Cuttable Encoding.ofBytes (fun tokenId => [UInt8.ofNat tokenId]) "ab" 1 :=
  truncatesWithin_iff byteTiktoken "ab" 1 "gpt-4o" _ Encoding.byteTokens_ofBytes (by decide)

/-- A letter of one byte and a letter of two. -/
def accented : String := String.ofList ['n', 'é']

/-- Cut after two bytes, the text ends in a replacement character that it does
not have and that has three tokens of its own. -/
theorem not_always_truncatesWithin :
    ¬ ∀ (tiktoken : Tiktoken) (model : String) (bytesOf : ℕ → List UInt8),
      (getEncoding tiktoken model).ByteTokens bytesOf →
      ∀ (text : String) (maxTokens : ℤ),
        (∃ tokenIds, (getEncoding tiktoken model).encode text = .ok tokenIds) →
        0 ≤ maxTokens → TruncatesWithin tiktoken text maxTokens model := by
  intro hall
  obtain ⟨result, count, hresult, hbegins, hcount, hle⟩ :=
    hall byteTiktoken "gpt-4o" _ Encoding.byteTokens_ofBytes accented 2 ⟨_, rfl⟩ (by decide)
  have hcut : truncateToTokenLimit byteTiktoken accented 2 "gpt-4o" =
      .ok (String.ofList ['n', replacement]) := by
    rfl
  obtain rfl : _ = result := Except.ok.inj (hcut.symm.trans hresult)
  exact absurd hbegins (by decide +kernel)

end TiktokenService
end AiBackend
