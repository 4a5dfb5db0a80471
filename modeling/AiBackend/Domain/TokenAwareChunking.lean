import AiBackend.Domain.Chunk
import AiBackend.Infrastructure.TiktokenService
import AiBackend.Support.Text

/-!
# Token-aware chunking

`TokenAwareChunkingStrategy`: a window of tokens slides over the encoded text,
and each window is decoded again.
-/

namespace AiBackend

open Python

structure TokenAwareChunkingStrategy where
  encoder : Encoding

namespace TokenAwareChunkingStrategy

/-- `_MAX_TOKENS`. -/
def maxTokens : ℤ := 8000

/-- The constructor, for a model. -/
def init (tiktoken : Tiktoken) (model : String := "gpt-4o") :
    TokenAwareChunkingStrategy where
  encoder := (tiktoken.encodingForModel model).getD
    (tiktoken.getEncoding "cl100k_base")

/-- The chunk of one window, if its text is not blank. -/
def windowChunk (strategy : TokenAwareChunkingStrategy) (tokenIds : List ℕ)
    (start stop : ℤ) (chunkIndex : ℕ) : List ChunkData :=
  let chunkTokenIds := slice tokenIds start stop
  let chunkText := strategy.encoder.decode chunkTokenIds
  if Text.isBlank chunkText then []
  else
    let precedingText := strategy.encoder.decode (slice tokenIds 0 start)
    let startChar : ℤ := precedingText.length
    [{ content := String.ofList (Text.strip chunkText.toList)
       startChar := startChar
       endChar := startChar + chunkText.length
       chunkIndex := chunkIndex
       tokenCount := chunkTokenIds.length }]

/-- The window moves forward, respecting the overlap. -/
def nextStart (stop overlap : ℤ) : ℤ :=
  if stop ≤ stop - overlap then stop else stop - overlap

/-- The loop from `start` on; without fuel it has not ended. -/
def windows (strategy : TokenAwareChunkingStrategy) (tokenIds : List ℕ)
    (chunkSize overlap : ℤ) : ℕ → ℤ → ℕ → Option (List ChunkData)
  | 0, _, _ => none
  | fuel + 1, start, chunkIndex =>
      if (tokenIds.length : ℤ) ≤ start then some []
      else
        let stop := min (start + chunkSize) tokenIds.length
        let emitted := strategy.windowChunk tokenIds start stop chunkIndex
        if (tokenIds.length : ℤ) ≤ stop then some emitted
        else
          (strategy.windows tokenIds chunkSize overlap fuel
            (nextStart stop overlap) (chunkIndex + emitted.length)).map
            (emitted ++ ·)

/-- `chunk`, where the loop has a number of rounds to end in. -/
def chunk (strategy : TokenAwareChunkingStrategy) (fuel : ℕ) (content : String)
    (chunkSize chunkOverlap : ℤ) : Option (Except PyExc (List ChunkData)) :=
  if Text.isBlank content then some (.ok [])
  else
    let effectiveChunkSize := min chunkSize maxTokens
    let effectiveOverlap := min chunkOverlap (effectiveChunkSize / 2)
    match strategy.encoder.encode content with
    | .error e => some (.error e)
    | .ok tokenIds =>
        if tokenIds.isEmpty then some (.ok [])
        else (strategy.windows tokenIds effectiveChunkSize effectiveOverlap fuel
          0 0).map .ok

/-! ## Termination -/

section Termination

variable {strategy : TokenAwareChunkingStrategy} {tokenIds : List ℕ}
  {chunkSize overlap : ℤ}

/-- A window that is not the last is followed by one further on. -/
theorem lt_nextStart {start length : ℤ} (hsize : 1 ≤ chunkSize)
    (hoverlap : overlap ≤ chunkSize / 2)
    (hstop : min (start + chunkSize) length < length) :
    start < nextStart (min (start + chunkSize) length) overlap ∧
      nextStart (min (start + chunkSize) length) overlap ≤ length := by
  have hmin : min (start + chunkSize) length = start + chunkSize := by omega
  rw [hmin] at hstop ⊢
  unfold nextStart
  split
  · omega
  · omega

/-- Each round moves the window forward, so there are at most as many rounds
as tokens, and one to notice the end. -/
theorem windows_ends (hsize : 1 ≤ chunkSize) (hoverlap : overlap ≤ chunkSize / 2)
    {fuel : ℕ} {start : ℤ} (hstart : start ≤ tokenIds.length)
    (hfuel : (tokenIds.length : ℤ) < start + fuel) (chunkIndex : ℕ) :
    ∃ chunks, strategy.windows tokenIds chunkSize overlap fuel start chunkIndex =
      some chunks := by
  induction fuel generalizing start chunkIndex with
  | zero =>
      rw [Nat.cast_zero, add_zero] at hfuel
      exact absurd hfuel (not_lt.mpr hstart)
  | succ fuel ih =>
      rw [windows]
      split
      · exact ⟨_, rfl⟩
      · dsimp only
        split
        · exact ⟨_, rfl⟩
        next hstop =>
          obtain ⟨hforward, hwithin⟩ := lt_nextStart hsize hoverlap (not_le.mp hstop)
          rw [Nat.cast_succ] at hfuel
          obtain ⟨chunks, hchunks⟩ := ih hwithin (by omega) (chunkIndex +
            (strategy.windowChunk tokenIds start
              (min (start + chunkSize) tokenIds.length) chunkIndex).length)
          exact ⟨_, by rw [hchunks]; rfl⟩

/-- A call on content that the encoder takes. -/
theorem chunk_of_encode {content : String} {chunkOverlap : ℤ}
    (hblank : Text.isBlank content = false)
    (hencode : strategy.encoder.encode content = .ok tokenIds) (fuel : ℕ) :
    strategy.chunk fuel content chunkSize chunkOverlap =
      if tokenIds.isEmpty then some (.ok [])
      else (strategy.windows tokenIds (min chunkSize maxTokens)
        (min chunkOverlap (min chunkSize maxTokens / 2)) fuel 0 0).map .ok := by
  have hnot : ¬ Text.isBlank content = true := by simp [hblank]
  simp only [chunk, if_neg hnot, hencode]

/-- For a positive size the call ends, and returns unless the encoder
raises. -/
theorem chunk_returns_iff {content : String} (hsize : 1 ≤ chunkSize)
    (chunkOverlap : ℤ) :
    (∃ fuel chunks, strategy.chunk fuel content chunkSize chunkOverlap =
        some (.ok chunks)) ↔
      Text.isBlank content = true ∨ ¬ strategy.encoder.HasSpecial content := by
  have heffective : 1 ≤ min chunkSize maxTokens :=
    le_min hsize (by decide)
  rw [← Encoding.encode_ok_iff]
  constructor
  · intro h
    obtain ⟨fuel, chunks, h⟩ := h
    unfold chunk at h
    split at h
    next hblank => exact Or.inl hblank
    next =>
      cases hencode : strategy.encoder.encode content with
      | ok tokenIds => exact Or.inr ⟨tokenIds, rfl⟩
      | error e =>
          rw [hencode] at h
          cases h
  · intro h
    by_cases hblank : Text.isBlank content = true
    · exact ⟨0, [], if_pos hblank⟩
    · obtain ⟨tokenIds, hencode⟩ := h.resolve_left hblank
      have hends : ∃ chunks, strategy.windows tokenIds (min chunkSize maxTokens)
          (min chunkOverlap (min chunkSize maxTokens / 2)) (tokenIds.length + 1)
          0 0 = some chunks :=
        windows_ends heffective (min_le_right _ _) (by omega) (by omega) 0
      obtain ⟨chunks, hchunks⟩ := hends
      simp only [chunk_of_encode (Bool.not_eq_true _ ▸ hblank) hencode]
      by_cases hempty : tokenIds.isEmpty = true
      · exact ⟨0, [], if_pos hempty⟩
      · refine ⟨tokenIds.length + 1, chunks, ?_⟩
        rw [if_neg hempty, hchunks]
        rfl

end Termination
end TokenAwareChunkingStrategy
end AiBackend
