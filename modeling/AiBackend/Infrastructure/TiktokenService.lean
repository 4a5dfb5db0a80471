import AiBackend.Support.Occurrences
import AiBackend.Support.Python
import AiBackend.Support.Utf8

/-!
# Token counting

`TiktokenService` over the encodings of the tiktoken package.  Of an encoding
its special tokens are known, and that `encode`, called with its defaults,
refuses every text that contains one of them.
-/

namespace AiBackend

open Python Occurrences

/-- The form of a special token: lower-case letters, digits and underscores
between `<|` and `|>`. -/
def IsSpecialToken (token : List Char) : Prop :=
  ∃ name : List Char, token = '<' :: '|' :: (name ++ ['|', '>']) ∧
    ∀ c ∈ name, c.isLower = true ∨ c.isDigit = true ∨ c = '_'

/-- `tiktoken.Encoding`. -/
structure Encoding where
  specialTokens : List String
  encode : String → Except PyExc (List ℕ)
  decode : List ℕ → String
  special_form : ∀ token ∈ specialTokens, IsSpecialToken token.toList
  encode_special : ∀ text,
    (∃ token ∈ specialTokens, Contains token.toList text.toList) →
      ∃ message, encode text = .error (.valueError message)
  encode_plain : ∀ text,
    (¬ ∃ token ∈ specialTokens, Contains token.toList text.toList) →
      ∃ tokenIds, encode text = .ok tokenIds

namespace Encoding

/-- The text contains the text of a special token. -/
def HasSpecial (encoding : Encoding) (text : String) : Prop :=
  ∃ token ∈ encoding.specialTokens, Contains token.toList text.toList

theorem encode_ok_iff (encoding : Encoding) (text : String) :
    (∃ tokenIds, encoding.encode text = .ok tokenIds) ↔
      ¬ encoding.HasSpecial text := by
  constructor
  · intro hok hspecial
    obtain ⟨tokenIds, hok⟩ := hok
    obtain ⟨message, herror⟩ := encoding.encode_special text hspecial
    rw [hok] at herror
    cases herror
  · exact encoding.encode_plain text

/-- The tokens stand for byte strings.  Those of an encoded text join to its
UTF-8 bytes, and decoding reads what the tokens join to. -/
structure ByteTokens (encoding : Encoding) (bytesOf : ℕ → List UInt8) : Prop where
  encode : ∀ text tokenIds, encoding.encode text = .ok tokenIds →
    tokenIds.flatMap bytesOf = Utf8.encode text.toList
  decode : ∀ tokenIds,
    encoding.decode tokenIds = String.ofList (Utf8.decode (tokenIds.flatMap bytesOf))

/-- The bytes of the first tokens are the first bytes of all. -/
theorem take_flatMap (bytesOf : ℕ → List UInt8) (tokenIds : List ℕ) (m : ℕ) :
    (tokenIds.flatMap bytesOf).take ((tokenIds.take m).flatMap bytesOf).length =
      (tokenIds.take m).flatMap bytesOf := by
  have hsplit : tokenIds.flatMap bytesOf =
      (tokenIds.take m).flatMap bytesOf ++ (tokenIds.drop m).flatMap bytesOf := by
    rw [← List.flatMap_append, List.take_append_drop]
  rw [hsplit]
  exact List.take_left' rfl

/-- An encoding with one token for each byte. -/
def ofBytes : Encoding where
  specialTokens := []
  encode := fun text => .ok ((Utf8.encode text.toList).map UInt8.toNat)
  decode := fun tokenIds => String.ofList (Utf8.decode (tokenIds.map UInt8.ofNat))
  special_form := fun _ h => (List.not_mem_nil h).elim
  encode_special := fun _ h =>
    have ⟨_, hmem, _⟩ := h
    (List.not_mem_nil hmem).elim
  encode_plain := fun _ _ => ⟨_, rfl⟩

theorem byteTokens_ofBytes : ofBytes.ByteTokens fun tokenId => [UInt8.ofNat tokenId] := by
  constructor
  · intro text tokenIds h
    cases h
    rw [← List.map_eq_flatMap, List.map_map]
    simp [Function.comp_def]
  · intro tokenIds
    rw [← List.map_eq_flatMap]
    rfl

end Encoding

/-- The package: encodings by model, where a model may be unknown, and by
name. -/
structure Tiktoken where
  encodingForModel : String → Option Encoding
  getEncoding : String → Encoding

namespace TiktokenService

/-- `_FALLBACK_ENCODING`. -/
def fallbackEncoding : String := "cl100k_base"

/-- `_get_encoding`, which keeps what it has looked up once. -/
def getEncoding (tiktoken : Tiktoken) (model : String) : Encoding :=
  (tiktoken.encodingForModel model).getD (tiktoken.getEncoding fallbackEncoding)

/-- `count_tokens`. -/
def countTokens (tiktoken : Tiktoken) (text model : String) : Except PyExc ℤ := do
  let tokenIds ← (getEncoding tiktoken model).encode text
  pure tokenIds.length

/-- `truncate_to_token_limit`. -/
def truncateToTokenLimit (tiktoken : Tiktoken) (text : String) (maxTokens : ℤ)
    (model : String) : Except PyExc String := do
  let encoding := getEncoding tiktoken model
  let tokenIds ← encoding.encode text
  if tokenIds.length ≤ maxTokens then
    pure text
  else
    pure (encoding.decode (slice tokenIds 0 maxTokens))

theorem countTokens_ok_iff (tiktoken : Tiktoken) (text model : String) :
    (∃ tokens, countTokens tiktoken text model = .ok tokens) ↔
      ¬ (getEncoding tiktoken model).HasSpecial text := by
  rw [← Encoding.encode_ok_iff]
  unfold countTokens
  cases (getEncoding tiktoken model).encode text with
  | ok tokenIds => exact iff_of_true ⟨_, rfl⟩ ⟨tokenIds, rfl⟩
  | error e =>
      constructor
      · intro h
        obtain ⟨_, h⟩ := h
        cases h
      · intro h
        obtain ⟨_, h⟩ := h
        cases h

end TiktokenService
end AiBackend
