import AiBackend.Chat.TokenSafety
import AiBackend.Domain.TokenAwareChunking
import AiBackend.Support.Slide

/-!
# The windows of the token-aware chunker

The loop goes through the windows of a slide, whose size is the capped chunk
size and whose overlap is at most half of it, and emits those whose text is
not blank.
-/

namespace AiBackend
namespace TokenAwareChunkingStrategy

open Python

/-! ## The loop without its chunks -/

/-- The windows the loop goes through from `start` on. -/
def spans (length chunkSize overlap : ℤ) : ℕ → ℤ → Option (List (ℤ × ℤ))
  | 0, _ => none
  | fuel + 1, start =>
      if length ≤ start then some []
      else
        let stop := min (start + chunkSize) length
        if length ≤ stop then some [(start, stop)]
        else (spans length chunkSize overlap fuel (nextStart stop overlap)).map
          ((start, stop) :: ·)

/-- The chunks of a list of windows, numbered on from `chunkIndex`. -/
def emit (strategy : TokenAwareChunkingStrategy) (tokenIds : List ℕ) :
    ℕ → List (ℤ × ℤ) → List ChunkData
  | _, [] => []
  | chunkIndex, window :: rest =>
      let emitted := strategy.windowChunk tokenIds window.1 window.2 chunkIndex
      emitted ++ strategy.emit tokenIds (chunkIndex + emitted.length) rest

variable {strategy : TokenAwareChunkingStrategy} {tokenIds : List ℕ}
  {chunkSize overlap : ℤ}

theorem windows_eq_emit (fuel : ℕ) (start : ℤ) (chunkIndex : ℕ) :
    strategy.windows tokenIds chunkSize overlap fuel start chunkIndex =
      (spans tokenIds.length chunkSize overlap fuel start).map
        (strategy.emit tokenIds chunkIndex) := by
  induction fuel generalizing start chunkIndex with
  | zero => rfl
  | succ fuel ih =>
      simp only [windows, spans]
      split
      · rfl
      · split
        · simp [emit]
        · rw [ih, Option.map_map, Option.map_map]
          rfl

theorem slide_of_spans {length : ℤ} (hoverlap : 0 ≤ overlap) {fuel : ℕ} {start : ℤ}
    {windows : List (ℤ × ℤ)} (hstart : start < length)
    (h : spans length chunkSize overlap fuel start = some windows) :
    Slide length chunkSize overlap start windows := by
  induction fuel generalizing start windows with
  | zero => cases h
  | succ fuel ih =>
      rw [spans, if_neg (not_le.mpr hstart)] at h
      dsimp only at h
      split at h
      next hlast =>
        have hstop : min (start + chunkSize) length = length := by omega
        rw [hstop] at h
        cases h
        exact Slide.last hstart (by omega)
      next hmore =>
        have hstop : min (start + chunkSize) length = start + chunkSize := by omega
        have hnext : nextStart (start + chunkSize) overlap =
            start + chunkSize - overlap := by
          unfold nextStart
          split
          · omega
          · rfl
        rw [hstop] at h hmore
        rw [hnext] at h
        obtain ⟨rest, hrest, rfl⟩ := Option.map_eq_some_iff.mp h
        exact Slide.next (not_le.mp hmore) (ih (by omega) hrest)

/-! ## The chunks of the windows -/

/-- The text of a window is not blank. -/
def Shown (strategy : TokenAwareChunkingStrategy) (tokenIds : List ℕ)
    (window : ℤ × ℤ) : Bool :=
  !Text.isBlank (strategy.encoder.decode (slice tokenIds window.1 window.2))

/-- The chunk carries the text and the number of tokens of the window. -/
structure IsChunkOf (strategy : TokenAwareChunkingStrategy) (tokenIds : List ℕ)
    (chunkIndex : ℤ) (window : ℤ × ℤ) (chunk : ChunkData) : Prop where
  content : chunk.content = String.ofList (Text.strip
    (strategy.encoder.decode (slice tokenIds window.1 window.2)).toList)
  tokenCount : chunk.tokenCount = window.2 - window.1
  chunkIndex : chunk.chunkIndex = chunkIndex

theorem length_slice {start stop : ℤ} (hstart : 0 ≤ start) (hlt : start < stop)
    (hstop : stop ≤ tokenIds.length) :
    ((slice tokenIds start stop).length : ℤ) = stop - start := by
  rw [slice_of_nonneg _ hstart (by omega), List.length_drop, List.length_take]
  omega

theorem windowChunk_of_shown {window : ℤ × ℤ} (hstart : 0 ≤ window.1)
    (hlt : window.1 < window.2) (hstop : window.2 ≤ tokenIds.length)
    (hshown : strategy.Shown tokenIds window = true) (chunkIndex : ℕ) :
    ∃ chunk, strategy.windowChunk tokenIds window.1 window.2 chunkIndex = [chunk] ∧
      IsChunkOf strategy tokenIds chunkIndex window chunk := by
  have hblank : ¬ Text.isBlank (strategy.encoder.decode
      (slice tokenIds window.1 window.2)) = true := by
    simpa [Shown] using hshown
  refine ⟨_, if_neg hblank, rfl, ?_, rfl⟩
  exact length_slice hstart hlt hstop

theorem windowChunk_of_not_shown {window : ℤ × ℤ}
    (hshown : ¬ strategy.Shown tokenIds window = true) (chunkIndex : ℕ) :
    strategy.windowChunk tokenIds window.1 window.2 chunkIndex = [] := by
  have hblank : Text.isBlank (strategy.encoder.decode
      (slice tokenIds window.1 window.2)) = true := by
    simpa [Shown] using hshown
  exact if_pos hblank

/-- The windows with text are emitted in order, numbered without a gap. -/
theorem emit_spec {windows : List (ℤ × ℤ)}
    (hwithin : ∀ window ∈ windows,
      0 ≤ window.1 ∧ window.1 < window.2 ∧ window.2 ≤ tokenIds.length)
    (chunkIndex : ℕ) :
    List.Forall₂ (fun window chunk =>
        IsChunkOf strategy tokenIds window.2 window.1 chunk)
      (((windows.filter (strategy.Shown tokenIds)).zipIdx chunkIndex))
      (strategy.emit tokenIds chunkIndex windows) := by
  induction windows generalizing chunkIndex with
  | nil => exact List.Forall₂.nil
  | cons window windows ih =>
      have hrest := fun chunkIndex => ih (fun other hmem =>
        hwithin other (List.mem_cons_of_mem _ hmem)) chunkIndex
      rw [emit]
      by_cases hshown : strategy.Shown tokenIds window = true
      · obtain ⟨hstart, hlt, hstop⟩ := hwithin window List.mem_cons_self
        obtain ⟨chunk, hchunk, hof⟩ :=
          windowChunk_of_shown hstart hlt hstop hshown chunkIndex
        rw [List.filter_cons_of_pos hshown, hchunk]
        exact List.Forall₂.cons hof (hrest (chunkIndex + 1))
      · rw [List.filter_cons_of_neg hshown, windowChunk_of_not_shown hshown]
        exact hrest chunkIndex

/-! ## What a call gives -/

/-- The windows of the loop over the tokens and the chunks it returns. -/
structure Windowed (strategy : TokenAwareChunkingStrategy) (tokenIds : List ℕ)
    (size overlap : ℤ) (windows : List (ℤ × ℤ)) (chunks : List ChunkData) :
    Prop where
  runs : ∀ i j : ℤ, 0 ≤ i → i < j → j ≤ tokenIds.length → j - i ≤ overlap + 1 →
    ∃ window ∈ windows, window.1 ≤ i ∧ j ≤ window.2
  overlap : windows.IsChain fun window following =>
    window.2 - following.1 = overlap
  size_le : ∀ window ∈ windows, window.2 - window.1 ≤ size
  size_eq : ∀ window ∈ windows.dropLast, window.2 - window.1 = size
  emitted : List.Forall₂ (fun window chunk =>
      IsChunkOf strategy tokenIds window.2 window.1 chunk)
    (windows.filter (strategy.Shown tokenIds)).zipIdx chunks

theorem windowed_nil (size : ℤ) : Windowed strategy [] size overlap [] [] where
  runs := by
    intro i j hi hij hj
    rw [List.length_nil, Nat.cast_zero] at hj
    omega
  overlap := List.isChain_nil
  size_le := by simp
  size_eq := by simp
  emitted := List.Forall₂.nil

theorem windowed_of_slide {windows : List (ℤ × ℤ)} (hsize : 1 ≤ chunkSize)
    (hhalf : overlap ≤ chunkSize / 2)
    (h : Slide tokenIds.length chunkSize overlap 0 windows) :
    Windowed strategy tokenIds chunkSize overlap windows
      (strategy.emit tokenIds 0 windows) where
  runs := fun _ _ hi _ hj hrun => h.run_inside hi hj hrun
  overlap := h.isChain
  size_le := h.size_le
  size_eq := h.size_eq
  emitted := emit_spec (h.within (by omega) (by omega) (le_refl 0)) 0

/-- The call ends.  It raises what the encoder raises, and otherwise its loop
went through windows over the tokens and returned their chunks. -/
def ChunksByWindows (strategy : TokenAwareChunkingStrategy) (content : String)
    (chunkSize chunkOverlap : ℤ) : Prop :=
  let size := min chunkSize 8000
  let overlap := min chunkOverlap (size / 2)
  ∃ fuel result,
    strategy.chunk fuel content chunkSize chunkOverlap = some result ∧
      (∀ e, strategy.encoder.encode content = .error e → result = .error e) ∧
      ∀ tokenIds, strategy.encoder.encode content = .ok tokenIds →
        ∃ windows chunks,
          spans tokenIds.length size overlap fuel 0 = some windows ∧
            result = .ok chunks ∧
            Windowed strategy tokenIds size overlap windows chunks

/-- With enough rounds the loop ends, and its chunks are those of its
windows. -/
theorem chunk_eq_emit {content : String} (chunkOverlap : ℤ)
    (hblank : Text.isBlank content = false) (hsize : 1 ≤ chunkSize)
    (hencode : strategy.encoder.encode content = .ok tokenIds) :
    ∃ windows, spans tokenIds.length (min chunkSize 8000)
        (min chunkOverlap (min chunkSize 8000 / 2)) (tokenIds.length + 1) 0 =
          some windows ∧
      strategy.chunk (tokenIds.length + 1) content chunkSize chunkOverlap =
        some (.ok (strategy.emit tokenIds 0 windows)) := by
  let size := min chunkSize 8000
  let overlap := min chunkOverlap (size / 2)
  have hpositive : 1 ≤ size := le_min hsize (by norm_num)
  have hends : ∃ chunks, strategy.windows tokenIds size overlap
      (tokenIds.length + 1) 0 0 = some chunks :=
    windows_ends hpositive (min_le_right _ _) (by omega) (by omega) 0
  obtain ⟨chunks, hchunks⟩ := hends
  rw [windows_eq_emit] at hchunks
  obtain ⟨windows, hwindows, rfl⟩ := Option.map_eq_some_iff.mp hchunks
  refine ⟨windows, hwindows, ?_⟩
  rw [chunk_of_encode hblank hencode]
  split
  next hempty =>
    obtain rfl := List.isEmpty_iff.mp hempty
    cases hwindows
    rfl
  next =>
    rw [windows_eq_emit]
    exact congrArg (Option.map Except.ok) hchunks

theorem chunksByWindows (strategy : TokenAwareChunkingStrategy) {content : String}
    {chunkSize chunkOverlap : ℤ} (hblank : Text.isBlank content = false)
    (hsize : 1 ≤ chunkSize) (hoverlap : 0 ≤ chunkOverlap) :
    ChunksByWindows strategy content chunkSize chunkOverlap := by
  let size := min chunkSize 8000
  let overlap := min chunkOverlap (size / 2)
  have hnot : ¬ Text.isBlank content = true := by simp [hblank]
  have hpositive : 1 ≤ size := le_min hsize (by norm_num)
  have hoverlap' : 0 ≤ overlap := le_min hoverlap (by omega)
  cases hencode : strategy.encoder.encode content with
  | error e =>
      refine ⟨0, .error e, ?_, ?_, ?_⟩
      · simp only [chunk, if_neg hnot, hencode]
      · intro _ h
        rw [hencode] at h
        cases h
        rfl
      · intro _ h
        rw [hencode] at h
        cases h
  | ok tokenIds =>
      obtain ⟨windows, hwindows, hchunk⟩ :=
        chunk_eq_emit chunkOverlap hblank hsize hencode
      refine ⟨tokenIds.length + 1, _, hchunk, ?_, ?_⟩
      · intro _ h
        rw [hencode] at h
        cases h
      · intro _ h
        rw [hencode] at h
        cases h
        refine ⟨windows, _, hwindows, rfl, ?_⟩
        by_cases hempty : tokenIds = []
        · subst hempty
          cases hwindows
          exact windowed_nil size
        · have hstart : (0 : ℤ) < tokenIds.length :=
            Int.natCast_pos.mpr (List.length_pos_of_ne_nil hempty)
          exact windowed_of_slide hpositive (min_le_right _ _)
            (slide_of_spans hoverlap' hstart hwindows)

theorem chunksByWindows_letters :
    ChunksByWindows (init TokenSafety.smallTiktoken) "ABCDEFG" 3 2 :=
  chunksByWindows _ (by decide +kernel) (by decide) (by decide)

/-- An overlap larger than half of the size is cut down to one token. -/
example : spans 7 3 (min 2 (3 / 2)) 8 0 = some [(0, 3), (2, 5), (4, 7)] := by
  decide

end TokenAwareChunkingStrategy
end AiBackend
