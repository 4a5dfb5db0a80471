import AiBackend.Chunking.TokenWindows
import Mathlib.Algebra.Order.BigOperators.Group.List

/-!
# What token windows cost

The loop goes through as few windows as can reach the end of the text.  No
token is in more than two of them, so the chunks together have less than twice
the tokens of the text; and the tokens of the windows, each but the first
without the overlap, are the tokens of the text.
-/

namespace AiBackend
namespace TokenAwareChunkingStrategy

open Python

variable {strategy : TokenAwareChunkingStrategy} {tokenIds : List ℕ}
  {size overlap start : ℤ} {windows : List (ℤ × ℤ)}

/-! ## The tokens of the windows -/

/-- What a window adds to the tokens of those before it. -/
def added (tokenIds : List ℕ) (overlap : ℤ) (window : ℤ × ℤ) : List ℕ :=
  (slice tokenIds window.1 window.2).drop overlap.toNat

/-- The tokens of the first window, and what each other window adds. -/
def joined (tokenIds : List ℕ) (overlap : ℤ) : List (ℤ × ℤ) → List ℕ
  | [] => []
  | window :: rest => slice tokenIds window.1 window.2 ++ rest.flatMap (added tokenIds overlap)

theorem slice_append {stop : ℤ} (hstart : 0 ≤ start) (hle : start ≤ stop) :
    slice tokenIds start stop ++ tokenIds.drop stop.toNat = tokenIds.drop start.toNat := by
  rw [slice_of_nonneg _ hstart (by omega)]
  by_cases hstop : stop.toNat ≤ tokenIds.length
  · have hshort : start.toNat ≤ (tokenIds.take stop.toNat).length := by
      rw [List.length_take]
      omega
    rw [← List.drop_append_of_le_length hshort, List.take_append_drop]
  · have hlong : tokenIds.length ≤ stop.toNat := by omega
    rw [List.take_of_length_le hlong, List.drop_eq_nil_of_le hlong, List.append_nil]

theorem flatMap_added (h : Slide tokenIds.length size overlap start windows)
    (hstart : 0 ≤ start) (hoverlap : 0 ≤ overlap) (hsize : overlap ≤ size) :
    windows.flatMap (added tokenIds overlap) = tokenIds.drop (start + overlap).toNat := by
  have hadd : (start + overlap).toNat = start.toNat + overlap.toNat :=
    Int.toNat_add hstart hoverlap
  induction h with
  | last hlt _ =>
      rw [List.flatMap_singleton, added, slice_of_nonneg _ hstart (by omega), Int.toNat_natCast,
        List.take_length, List.drop_drop, hadd]
  | @next start windows hmore _ ih =>
      have hnext : (start + size - overlap + overlap).toNat = (start + size).toNat := by
        rw [sub_add_cancel]
      rw [List.flatMap_cons, ih (by omega) (Int.toNat_add (by omega) hoverlap), hnext, added,
        hadd, ← List.drop_drop, ← slice_append hstart (by omega : start ≤ start + size)]
      have hlong : overlap.toNat ≤ (slice tokenIds start (start + size)).length := by
        rw [slice_of_nonneg _ hstart (by omega), List.length_drop, List.length_take]
        omega
      rw [List.drop_append, Nat.sub_eq_zero_of_le hlong, List.drop_zero]

/-- Nothing is lost between the windows, and nothing is out of order. -/
theorem joined_eq (h : Slide tokenIds.length size overlap 0 windows) (hoverlap : 0 ≤ overlap)
    (hsize : overlap ≤ size) : joined tokenIds overlap windows = tokenIds := by
  cases h with
  | last hlt _ =>
      rw [joined, List.flatMap_nil, List.append_nil, slice_of_nonneg _ le_rfl (by omega),
        Int.toNat_natCast, List.take_length]
      rfl
  | next hmore hrest =>
      have hnext : (0 + size - overlap + overlap).toNat = (0 + size).toNat := by
        rw [sub_add_cancel]
      rw [joined, flatMap_added hrest (by omega) hoverlap hsize, hnext,
        slice_append le_rfl (by omega : 0 ≤ 0 + size)]
      rfl

/-! ## The tokens of the chunks -/

/-- The tokens of the windows without text. -/
def blankTokens (strategy : TokenAwareChunkingStrategy) (tokenIds : List ℕ)
    (windows : List (ℤ × ℤ)) : ℤ :=
  ((windows.filter fun window => !strategy.Shown tokenIds window).map
    fun window => window.2 - window.1).sum

theorem blankTokens_nonneg (hwithin : ∀ window ∈ windows,
      0 ≤ window.1 ∧ window.1 < window.2 ∧ window.2 ≤ tokenIds.length) :
    0 ≤ strategy.blankTokens tokenIds windows := by
  refine List.sum_nonneg fun tokens htokens => ?_
  obtain ⟨window, hmem, rfl⟩ := List.mem_map.mp htokens
  obtain ⟨-, hlt, -⟩ := hwithin window (List.mem_of_mem_filter hmem)
  omega

/-- The tokens of a window are in its chunk, or it has no text. -/
theorem sum_emit (hwithin : ∀ window ∈ windows,
      0 ≤ window.1 ∧ window.1 < window.2 ∧ window.2 ≤ tokenIds.length) (chunkIndex : ℕ) :
    ((strategy.emit tokenIds chunkIndex windows).map ChunkData.tokenCount).sum +
        strategy.blankTokens tokenIds windows =
      (windows.map fun window => window.2 - window.1).sum := by
  induction windows generalizing chunkIndex with
  | nil => rfl
  | cons window windows ih =>
      have hrest := ih fun other hmem => hwithin other (List.mem_cons_of_mem _ hmem)
      rw [emit, List.map_append, List.sum_append, List.map_cons, List.sum_cons]
      by_cases hshown : strategy.Shown tokenIds window = true
      · obtain ⟨hstart, hlt, hstop⟩ := hwithin window List.mem_cons_self
        obtain ⟨chunk, hchunk, hof⟩ :=
          windowChunk_of_shown hstart hlt hstop hshown chunkIndex
        have hblank : strategy.blankTokens tokenIds (window :: windows) =
            strategy.blankTokens tokenIds windows := by
          rw [blankTokens, List.filter_cons_of_neg (by simp [hshown]), blankTokens]
        rw [hblank, ← hrest (chunkIndex + 1), hchunk, List.map_singleton, List.sum_singleton,
          hof.tokenCount, add_assoc]
        rfl
      · have hblank : strategy.blankTokens tokenIds (window :: windows) =
            (window.2 - window.1) + strategy.blankTokens tokenIds windows := by
          rw [blankTokens, List.filter_cons_of_pos (by simpa using hshown), List.map_cons,
            List.sum_cons, blankTokens]
        rw [hblank, ← hrest chunkIndex, windowChunk_of_not_shown hshown]
        simp only [List.map_nil, List.sum_nil, List.length_nil, Nat.add_zero, zero_add]
        ring

/-! ## What a call costs -/

/-- The windows of a call against the tokens of the text. -/
structure Cost (strategy : TokenAwareChunkingStrategy) (tokenIds : List ℕ)
    (size overlap : ℤ) (windows : List (ℤ × ℤ)) (chunks : List ChunkData) : Prop where
  joined : joined tokenIds overlap windows = tokenIds
  least : ∀ n : ℕ, 1 ≤ n →
    (windows.length ≤ n ↔ (tokenIds.length : ℤ) ≤ n * (size - overlap) + overlap)
  twice : ∀ i : ℤ, windows.countP (fun window => window.1 ≤ i ∧ i < window.2) ≤ 2
  tokens : (chunks.map ChunkData.tokenCount).sum + strategy.blankTokens tokenIds windows =
    tokenIds.length + (windows.length - 1) * overlap
  bound : (chunks.map ChunkData.tokenCount).sum < 2 * tokenIds.length

theorem cost_of_slide (h : Slide tokenIds.length size overlap 0 windows) (hsize : 1 ≤ size)
    (hoverlap : 0 ≤ overlap) (hhalf : overlap ≤ size / 2) :
    Cost strategy tokenIds size overlap windows (strategy.emit tokenIds 0 windows) := by
  have hwithin := h.within (by omega) (by omega) le_rfl
  have hleast : ∀ n : ℕ, 1 ≤ n →
      (windows.length ≤ n ↔ (tokenIds.length : ℤ) ≤ n * (size - overlap) + overlap) := by
    intro n hn
    rw [h.length_le_iff (by omega) hn, sub_zero]
  have htokens : ((strategy.emit tokenIds 0 windows).map ChunkData.tokenCount).sum +
      strategy.blankTokens tokenIds windows = tokenIds.length + (windows.length - 1) * overlap := by
    rw [sum_emit hwithin, h.sum_sizes, sub_zero]
  refine ⟨joined_eq h hoverlap (by omega), hleast, h.countP_le_two (by omega) (by omega),
    htokens, ?_⟩
  have hblank : 0 ≤ strategy.blankTokens tokenIds windows := blankTokens_nonneg hwithin
  have hsome : (0 : ℤ) < tokenIds.length := by
    cases h with
    | last hlt _ => exact hlt
    | next hmore _ => omega
  -- all windows but one would not reach the end, and each moves by half its size
  have hmoves : (windows.length - 1) * overlap < tokenIds.length := by
    by_cases hone : windows.length ≤ 1
    · have hnone : ((windows.length : ℤ) - 1) * overlap ≤ 0 :=
        mul_nonpos_of_nonpos_of_nonneg (by omega) hoverlap
      omega
    · have hshort := (hleast (windows.length - 1) (by omega)).not.mp (by omega)
      have hcast : ((windows.length - 1 : ℕ) : ℤ) = windows.length - 1 := by omega
      rw [hcast] at hshort
      have hstep : ((windows.length : ℤ) - 1) * overlap ≤
          (windows.length - 1) * (size - overlap) :=
        mul_le_mul_of_nonneg_left (by omega) (by omega)
      omega
  omega

/-- Whatever the sizes, chunking goes through the fewest windows of its size
and overlap, from which the tokens of the text can be put together again, and
makes chunks with less than twice these tokens. -/
theorem chunk_cost (strategy : TokenAwareChunkingStrategy) {content : String}
    {tokenIds : List ℕ} {chunkSize chunkOverlap : ℤ} (hblank : Text.isBlank content = false)
    (hencode : strategy.encoder.encode content = .ok tokenIds) (hsome : tokenIds ≠ [])
    (hsize : 1 ≤ chunkSize) (hoverlap : 0 ≤ chunkOverlap) :
    ∃ fuel windows chunks,
      spans tokenIds.length (min chunkSize 8000)
          (min chunkOverlap (min chunkSize 8000 / 2)) fuel 0 = some windows ∧
        strategy.chunk fuel content chunkSize chunkOverlap = some (.ok chunks) ∧
        Cost strategy tokenIds (min chunkSize 8000)
          (min chunkOverlap (min chunkSize 8000 / 2)) windows chunks := by
  have hpositive : 1 ≤ min chunkSize 8000 := le_min hsize (by norm_num)
  have hoverlap' : 0 ≤ min chunkOverlap (min chunkSize 8000 / 2) :=
    le_min hoverlap (by omega)
  have hstart : (0 : ℤ) < tokenIds.length :=
    Int.natCast_pos.mpr (List.length_pos_of_ne_nil hsome)
  obtain ⟨windows, hwindows, hchunk⟩ := chunk_eq_emit chunkOverlap hblank hsize hencode
  exact ⟨_, windows, _, hwindows, hchunk, cost_of_slide
    (slide_of_spans hoverlap' hstart hwindows) hpositive hoverlap' (min_le_right _ _)⟩

theorem chunk_cost_letters : ∃ fuel windows chunks,
    spans 7 3 1 fuel 0 = some windows ∧
      (init TokenSafety.smallTiktoken).chunk fuel "ABCDEFG" 3 2 = some (.ok chunks) ∧
      Cost (init TokenSafety.smallTiktoken) [32, 33, 34, 35, 36, 37, 38] 3 1 windows chunks := by
  have hblank : Text.isBlank "ABCDEFG" = false := by decide +kernel
  have hencode : (init TokenSafety.smallTiktoken).encoder.encode "ABCDEFG" =
      .ok [32, 33, 34, 35, 36, 37, 38] := by decide +kernel
  have hsize : (1 : ℤ) ≤ 3 := by decide
  have hoverlap : (0 : ℤ) ≤ 2 := by decide
  exact chunk_cost _ hblank hencode (List.cons_ne_nil _ _) hsize hoverlap

end TokenAwareChunkingStrategy
end AiBackend
