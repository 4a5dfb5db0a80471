import AiBackend.Chunking.TokenWindows
import AiBackend.Support.Stripping

/-!
# The character positions of token windows

A window of tokens is a range of the bytes of the content.  Its position is
the number of characters that the tokens before it decode to, and its length
the number it decodes to itself.  Both are right as long as no character is cut
by the edge of a window.  A cut character is replaced on both sides of the cut,
and then the position only fits where the content has replacement characters of
its own.
-/

namespace AiBackend
namespace TokenAwareChunkingStrategy

open Python Stripping Utf8

/-- The content at the position of the chunk is the content of the chunk. -/
structure ExactPosition (content : String) (chunk : ChunkData) : Prop where
  text : String.ofList (Text.strip
    (slice content.toList chunk.startChar chunk.endChar)) = chunk.content
  start : 0 ≤ chunk.startChar
  nonempty : chunk.startChar < chunk.endChar
  inside : chunk.endChar ≤ content.length

/-- The characters of the content behind the ones wholly between two cuts, as
many as the cuts add to them. -/
def following (cs : List Char) (start stop : ℕ) : List Char :=
  (cs.drop (begun cs start + (whole cs start stop).length)).take
    (trailing cs start stop + opened cs start stop)

/-- No character is cut, or the following characters are replacement
characters, and so are the whole ones if the front is cut; a range cut at the
front only may also have one white space, if any, again and again between its
replacement characters. -/
def Fits (cs : List Char) (start stop : ℕ) : Prop :=
  (Between cs start ∧ Between cs stop) ∨
    following cs start stop = List.replicate
        (trailing cs start stop + opened cs start stop) replacement ∧
      (trailing cs start stop = 0 ∨
        (∀ c ∈ whole cs start stop, c = replacement) ∨
        opened cs start stop = 0 ∧
          Repeats Text.isSpace replacement (trailing cs start stop)
            (whole cs start stop))

section Ranges

variable {cs : List Char} {start stop : ℕ}

theorem isSpace_replacement : Text.isSpace replacement = false := by decide

theorem strip_eq_stripWhile (cs : List Char) :
    Text.strip cs = stripWhile Text.isSpace cs := rfl

/-- Where no character is cut there is nothing to follow. -/
theorem fits_iff :
    Fits cs start stop ↔
      following cs start stop = List.replicate
          (trailing cs start stop + opened cs start stop) replacement ∧
        (trailing cs start stop = 0 ∨
          (∀ c ∈ whole cs start stop, c = replacement) ∨
          opened cs start stop = 0 ∧
            Repeats Text.isSpace replacement (trailing cs start stop)
              (whole cs start stop)) := by
  refine ⟨fun h => h.elim ?_ id, Or.inr⟩
  rintro ⟨hstart, hstop⟩
  rw [following, trailing_of_between hstart, opened_of_between hstop]
  exact ⟨rfl, Or.inl rfl⟩

/-- In content without replacement characters only ranges fit that cut no
character. -/
theorem fits_iff_between (hnone : replacement ∉ cs) (hlt : start < stop) :
    Fits cs start stop ↔ Between cs start ∧ Between cs stop := by
  refine ⟨fun h => h.elim id ?_, Or.inl⟩
  rintro ⟨hfollowing, -⟩
  have hsum : trailing cs start stop + opened cs start stop = 0 := by
    by_contra hne
    have hmem : replacement ∈ following cs start stop :=
      hfollowing ▸ List.mem_replicate.mpr ⟨hne, rfl⟩
    exact hnone (List.mem_of_mem_drop (List.mem_of_mem_take hmem))
  exact between_of_uncut hlt (by omega) (by omega)

/-- What the content has where the range is put. -/
theorem take_drop_begun (cs : List Char) (start stop k : ℕ) :
    (cs.drop (begun cs start)).take ((whole cs start stop).length + k) =
      whole cs start stop ++
        (cs.drop (begun cs start + (whole cs start stop).length)).take k := by
  have hwhole : (cs.drop (begun cs start)).take (whole cs start stop).length =
      whole cs start stop := by
    rw [length_whole, whole, List.drop_take]
  rw [List.take_add, hwhole, List.drop_drop]

theorem begun_add_whole_le (cs : List Char) (start stop : ℕ) :
    begun cs start + (whole cs start stop).length ≤ cs.length := by
  have hbegun := begun_le_length cs start
  have hended := ended_le_length cs stop
  rw [length_whole]
  omega

/-- The range is put where it is read, up to stripping, exactly if it fits. -/
theorem strip_range_iff (hle : start ≤ stop) {decoded : List Char}
    (hdecoded : decoded = decode (((encode cs).take stop).drop start)) :
    (begun cs start + decoded.length ≤ cs.length ∧
        Text.strip ((cs.take (begun cs start + decoded.length)).drop
          (begun cs start)) = Text.strip decoded) ↔
      Fits cs start stop := by
  have hrange := decode_range cs hle
  have hwithin := begun_add_whole_le cs start stop
  have hlength : decoded.length = (whole cs start stop).length +
      (trailing cs start stop + opened cs start stop) := by
    rw [hdecoded, hrange]
    simp only [List.length_append, List.length_replicate]
    omega
  have hfollowing : (following cs start stop).length =
        trailing cs start stop + opened cs start stop ↔
      begun cs start + decoded.length ≤ cs.length := by
    rw [following, List.length_take, List.length_drop, hlength]
    omega
  have hput : (cs.take (begun cs start + decoded.length)).drop (begun cs start) =
      whole cs start stop ++ following cs start stop := by
    rw [List.drop_take, Nat.add_sub_cancel_left, hlength, take_drop_begun, following]
  rw [fits_iff, ← hfollowing, hput, hdecoded, hrange, strip_eq_stripWhile,
    strip_eq_stripWhile]
  exact stripWhile_eq_iff isSpace_replacement (opened_le_one cs start stop)

/-- A range that decodes to white space cuts no character. -/
theorem fits_of_blank (hle : start ≤ stop)
    (hblank : ∀ c ∈ decode (((encode cs).take stop).drop start),
      Text.isSpace c = true) : Fits cs start stop := by
  have hnone : ∀ k, (∀ c ∈ List.replicate k replacement, Text.isSpace c = true) →
      k = 0 := by
    intro k hk
    by_contra hne
    have hspace := hk replacement (List.mem_replicate.mpr ⟨hne, rfl⟩)
    rw [isSpace_replacement] at hspace
    cases hspace
  rw [decode_range cs hle] at hblank
  rw [List.forall_mem_append, List.forall_mem_append] at hblank
  obtain ⟨hfront, -, hback⟩ := hblank
  rw [fits_iff, following, hnone _ hfront, hnone _ hback]
  exact ⟨rfl, Or.inl rfl⟩

end Ranges

/-! ## Windows of tokens -/

/-- The number of bytes before the `i`-th token. -/
def byteOffset (bytesOf : ℕ → List UInt8) (tokenIds : List ℕ) (i : ℤ) : ℕ :=
  ((slice tokenIds 0 i).flatMap bytesOf).length

section Windows

variable {strategy : TokenAwareChunkingStrategy} {bytesOf : ℕ → List UInt8}
  {tokenIds : List ℕ} {content : String}

theorem byteOffset_of_nonneg {i : ℤ} (hi : 0 ≤ i) :
    byteOffset bytesOf tokenIds i = ((tokenIds.take i.toNat).flatMap bytesOf).length := by
  rw [byteOffset, slice_of_nonneg _ (le_refl 0) hi]
  rfl

/-- The bytes of the tokens of a window are those between its offsets. -/
theorem flatMap_slice {start stop : ℤ} (hstart : 0 ≤ start) (hle : start ≤ stop) :
    byteOffset bytesOf tokenIds start ≤ byteOffset bytesOf tokenIds stop ∧
      (slice tokenIds start stop).flatMap bytesOf =
        ((tokenIds.flatMap bytesOf).take (byteOffset bytesOf tokenIds stop)).drop
          (byteOffset bytesOf tokenIds start) := by
  have hstop : 0 ≤ stop := hstart.trans hle
  have hnat : start.toNat ≤ stop.toNat := Int.toNat_le_toNat hle
  have hsplit : tokenIds.take stop.toNat =
      tokenIds.take start.toNat ++ slice tokenIds start stop := by
    have htake := List.take_append_drop start.toNat (tokenIds.take stop.toNat)
    rw [List.take_take, Nat.min_eq_left hnat] at htake
    rw [slice_of_nonneg _ hstart hstop, htake]
  have hbytes : (tokenIds.take stop.toNat).flatMap bytesOf =
      (tokenIds.take start.toNat).flatMap bytesOf ++
        (slice tokenIds start stop).flatMap bytesOf := by
    rw [hsplit, List.flatMap_append]
  rw [byteOffset_of_nonneg hstart, byteOffset_of_nonneg hstop]
  constructor
  · rw [hbytes, List.length_append]
    exact Nat.le_add_right _ _
  · rw [Encoding.take_flatMap, hbytes, List.drop_left' rfl]

/-- A position given in natural numbers. -/
theorem exactPosition_iff {chunk : ChunkData} {k n : ℕ} (hstart : chunk.startChar = k)
    (hend : chunk.endChar = (k + n : ℕ)) (hn : 0 < n) :
    ExactPosition content chunk ↔
      k + n ≤ content.toList.length ∧
        String.ofList (Text.strip ((content.toList.take (k + n)).drop k)) =
          chunk.content := by
  have hslice : slice content.toList chunk.startChar chunk.endChar =
      (content.toList.take (k + n)).drop k := by
    rw [hstart, hend, slice_of_nonneg _ (Int.natCast_nonneg k) (Int.natCast_nonneg _),
      Int.toNat_natCast, Int.toNat_natCast]
  rw [String.length_toList]
  constructor
  · intro h
    refine ⟨?_, hslice ▸ h.text⟩
    have hinside := h.inside
    rw [hend] at hinside
    exact Int.ofNat_le.mp hinside
  · intro h
    refine ⟨hslice ▸ h.2, ?_, ?_, ?_⟩
    · rw [hstart]
      exact Int.natCast_nonneg k
    · rw [hstart, hend]
      omega
    · rw [hend]
      exact Int.ofNat_le.mpr h.1

/-- The chunk of a window is where it says exactly if the window fits. -/
theorem windowChunk_exact_iff (hbytes : strategy.encoder.ByteTokens bytesOf)
    (hencode : strategy.encoder.encode content = .ok tokenIds) {start stop : ℤ}
    (hstart : 0 ≤ start) (hle : start ≤ stop) (chunkIndex : ℕ) :
    (∀ chunk ∈ strategy.windowChunk tokenIds start stop chunkIndex,
        ExactPosition content chunk) ↔
      Fits content.toList (byteOffset bytesOf tokenIds start)
        (byteOffset bytesOf tokenIds stop) := by
  obtain ⟨hoffsets, hwindow⟩ :
      byteOffset bytesOf tokenIds start ≤ byteOffset bytesOf tokenIds stop ∧ _ :=
    flatMap_slice hstart hle
  obtain ⟨-, hfront⟩ : byteOffset bytesOf tokenIds 0 ≤ byteOffset bytesOf tokenIds start ∧ _ :=
    flatMap_slice (le_refl 0) hstart
  have hzero : byteOffset bytesOf tokenIds 0 = 0 := by
    rw [byteOffset_of_nonneg (le_refl 0)]
    rfl
  rw [hbytes.encode _ _ hencode] at hwindow hfront
  rw [hzero, List.drop_zero] at hfront
  have hpreceding : (strategy.encoder.decode (slice tokenIds 0 start)).length =
      begun content.toList (byteOffset bytesOf tokenIds start) := by
    rw [hbytes.decode, hfront, String.length_ofList, length_decode_take]
  obtain ⟨decoded, hdecoded⟩ : ∃ decoded, decoded = decode (((encode content.toList).take
      (byteOffset bytesOf tokenIds stop)).drop (byteOffset bytesOf tokenIds start)) :=
    ⟨_, rfl⟩
  have htext : strategy.encoder.decode (slice tokenIds start stop) =
      String.ofList decoded := by
    rw [hbytes.decode, hwindow, hdecoded]
  by_cases hblank : Text.isBlank (String.ofList decoded) = true
  · have hnone : strategy.windowChunk tokenIds start stop chunkIndex = [] := by
      simp only [windowChunk, htext, if_pos hblank]
    rw [Text.isBlank_iff, String.toList_ofList, hdecoded] at hblank
    rw [hnone]
    exact iff_of_true (fun _ hmem => absurd hmem List.not_mem_nil)
      (fits_of_blank hoffsets hblank)
  · have hpos : 0 < decoded.length := by
      refine List.length_pos_iff.mpr ?_
      rintro rfl
      exact hblank (by rw [Text.isBlank_iff, String.toList_ofList]; simp)
    simp only [windowChunk, htext, if_neg hblank, List.forall_mem_singleton]
    rw [exactPosition_iff (k := begun content.toList (byteOffset bytesOf tokenIds start))
      (n := decoded.length), ← strip_range_iff hoffsets hdecoded, String.ofList_inj,
      String.toList_ofList]
    · exact congrArg Nat.cast hpreceding
    · rw [hpreceding, String.length_ofList, Nat.cast_add]
    · exact hpos

/-- The chunks of several windows. -/
theorem emit_exact_iff (hbytes : strategy.encoder.ByteTokens bytesOf)
    (hencode : strategy.encoder.encode content = .ok tokenIds)
    {windows : List (ℤ × ℤ)}
    (hwithin : ∀ window ∈ windows, 0 ≤ window.1 ∧ window.1 ≤ window.2) (chunkIndex : ℕ) :
    (∀ chunk ∈ strategy.emit tokenIds chunkIndex windows, ExactPosition content chunk) ↔
      ∀ window ∈ windows, Fits content.toList (byteOffset bytesOf tokenIds window.1)
        (byteOffset bytesOf tokenIds window.2) := by
  induction windows generalizing chunkIndex with
  | nil => exact iff_of_true (by simp [emit]) (by simp)
  | cons window windows ih =>
      obtain ⟨⟨hstart, hle⟩, hrest⟩ := List.forall_mem_cons.mp hwithin
      rw [emit, List.forall_mem_append, List.forall_mem_cons,
        windowChunk_exact_iff hbytes hencode hstart hle]
      exact and_congr_right fun _ => ih hrest _

end Windows

/-- The call ends.  The chunks it returns have exact positions if and only if
all windows over the tokens fit. -/
def ExactByFit (strategy : TokenAwareChunkingStrategy) (bytesOf : ℕ → List UInt8)
    (content : String) (chunkSize chunkOverlap : ℤ) : Prop :=
  let size := min chunkSize 8000
  let overlap := min chunkOverlap (size / 2)
  ∃ fuel result, strategy.chunk fuel content chunkSize chunkOverlap = some result ∧
    ∀ chunks, result = .ok chunks → ∃ tokenIds windows,
      strategy.encoder.encode content = .ok tokenIds ∧
        spans tokenIds.length size overlap fuel 0 = some windows ∧
        ((∀ chunk ∈ chunks, ExactPosition content chunk) ↔
          ∀ window ∈ windows, Fits content.toList
            (byteOffset bytesOf tokenIds window.1) (byteOffset bytesOf tokenIds window.2))

theorem exactByFit {strategy : TokenAwareChunkingStrategy} {bytesOf : ℕ → List UInt8}
    (hbytes : strategy.encoder.ByteTokens bytesOf) {content : String}
    {chunkSize chunkOverlap : ℤ} (hblank : Text.isBlank content = false)
    (hsize : 1 ≤ chunkSize) (hoverlap : 0 ≤ chunkOverlap) :
    ExactByFit strategy bytesOf content chunkSize chunkOverlap := by
  cases hencode : strategy.encoder.encode content with
  | error e =>
      have hnot : ¬ Text.isBlank content = true := by simp [hblank]
      refine ⟨0, .error e, ?_, ?_⟩
      · simp only [chunk, if_neg hnot, hencode]
      · intro chunks h
        cases h
  | ok tokenIds =>
      obtain ⟨windows, hwindows, hchunk⟩ := chunk_eq_emit chunkOverlap hblank hsize hencode
      refine ⟨tokenIds.length + 1, _, hchunk, ?_⟩
      intro chunks h
      cases h
      refine ⟨tokenIds, windows, hencode, hwindows, emit_exact_iff hbytes hencode ?_ 0⟩
      by_cases hempty : tokenIds = []
      · subst hempty
        cases hwindows
        exact fun _ hmem => absurd hmem List.not_mem_nil
      · have hstart : (0 : ℤ) < tokenIds.length :=
          Int.natCast_pos.mpr (List.length_pos_of_ne_nil hempty)
        have hslide := slide_of_spans (le_min hoverlap (by omega)) hstart hwindows
        intro window hmem
        obtain ⟨hlow, hlt, -⟩ := hslide.within (by omega) (by omega) (le_refl 0) window hmem
        exact ⟨hlow, hlt.le⟩

/-- A chunker with one token for each byte. -/
def byteStrategy : TokenAwareChunkingStrategy := ⟨Encoding.ofBytes⟩

theorem exactByFit_letter :
    ExactByFit byteStrategy (fun tokenId => [UInt8.ofNat tokenId]) "A" 1 0 :=
  exactByFit Encoding.byteTokens_ofBytes (by decide +kernel) (by decide) (by decide)

/-- A cuneiform sign of four bytes between two letters. -/
def signText : String := String.ofList ['a', '𒀀', 'b']

/-- Windows of three bytes cut the sign.  Both chunks contain replacement
characters that the text does not have. -/
theorem not_always_exact :
    ¬ ∀ (strategy : TokenAwareChunkingStrategy) (bytesOf : ℕ → List UInt8),
      strategy.encoder.ByteTokens bytesOf →
      ∀ (content : String) (chunkSize chunkOverlap : ℤ), Text.isBlank content = false →
        1 ≤ chunkSize → 0 ≤ chunkOverlap →
        ∀ (fuel : ℕ) (chunks : List ChunkData),
          strategy.chunk fuel content chunkSize chunkOverlap = some (.ok chunks) →
          ∀ chunk ∈ chunks, ExactPosition content chunk := by
  intro hall
  have hchunk : byteStrategy.chunk 2 signText 3 0 =
      some (.ok [⟨String.ofList ['a', replacement], 0, 2, 0, 3⟩,
        ⟨String.ofList [replacement, replacement, 'b'], 2, 5, 1, 3⟩]) := by
    rfl
  have hexact := hall byteStrategy _ Encoding.byteTokens_ofBytes signText 3 0
    (by decide +kernel) (by decide) (by decide) 2 _ hchunk _ List.mem_cons_self
  exact absurd hexact.text (by decide +kernel)

end TokenAwareChunkingStrategy
end AiBackend
