import AiBackend.Chunking.Termination

/-!
# What the chunks of the simple chunker cover

Every window but one begins no further on than the one before it ends.  The
exception is the window behind the start `-1`, where the loop comes from a
first line that is one character shorter than the overlap: what lies between
that line and the window is in no chunk.
-/

namespace AiBackend
namespace SimpleChunkingStrategy

open Python Loop Text

variable {content : List Char} {chunkSize chunkOverlap start : ℤ}

/-- The first window ends with a line one character shorter than the
overlap. -/
structure ShortLine (content : List Char) (chunkSize chunkOverlap : ℤ) : Prop where
  long : chunkSize < content.length
  line : LastAt '\n' content 1 chunkSize (chunkOverlap - 2)

/-! ## The starts of a loop that ends -/

theorem lt_length_of_step {start' : ℤ}
    (h : step content chunkSize chunkOverlap start = some start') :
    start < content.length := by
  by_contra hend
  rw [step, if_neg hend] at h
  cases h

/-- From a window that does not get on the loop comes to a start that is its
own successor. -/
theorem step_fixed (hsize : chunkOverlap < chunkSize)
    (hmore : start + chunkSize < content.length) {p : ℤ}
    (hp : LastAt '\n' content (start + 1) (start + chunkSize) p)
    (hnonneg : 0 ≤ p + 1 - chunkOverlap) (hstuck : p + 1 - chunkOverlap ≤ start) :
    step content chunkSize chunkOverlap (p + 1 - chunkOverlap) =
      some (p + 1 - chunkOverlap) := by
  have hlow := hp.start_le
  have hlast : LastAt '\n' content (p + 1 - chunkOverlap + 1)
      (p + 1 - chunkOverlap + chunkSize) p :=
    ⟨hp.at_index, by omega, by omega, fun i hi hlt => hp.not_later i hi (by omega)⟩
  exact step_of_lastAt (by omega) hsize hnonneg (by omega) hlast

/-- The starts of a loop that ends grow, unless it comes over the start `-1`. -/
theorem starts_grow (hoverlap : 0 ≤ chunkOverlap) (hsize : chunkOverlap < chunkSize)
    (hstart : 0 ≤ start) {starts : List ℤ}
    (h : Passes (step content chunkSize chunkOverlap) start starts) :
    (∀ t ∈ starts, start ≤ t) ∨
      -1 ∈ starts ∧ ShortLine content chunkSize chunkOverlap := by
  induction h with
  | done => exact Or.inl (fun t ht => absurd ht List.not_mem_nil)
  | @next s s' later hnext hrest ih =>
      have hfrom : s ≤ s' → (∀ t ∈ s :: later, s ≤ t) ∨
          -1 ∈ s :: later ∧ ShortLine content chunkSize chunkOverlap := by
        intro hle
        rcases ih (by omega) with hgrow | ⟨hmem, hline⟩
        · refine Or.inl ?_
          intro t ht
          rcases List.mem_cons.mp ht with rfl | ht
          · exact le_refl _
          · exact hle.trans (hgrow t ht)
        · exact Or.inr ⟨List.mem_cons_of_mem _ hmem, hline⟩
      have hlt := lt_length_of_step hnext
      by_cases hmore : s + chunkSize < content.length
      · rcases step_middle hoverlap hsize hstart hmore with
          ⟨p, hp, _, hstep⟩ | ⟨_, _, hstep⟩
        · rw [hstep] at hnext
          cases hnext
          have hlow := hp.start_le
          rcases lt_trichotomy (p + 1 - chunkOverlap) (-1) with hbefore | hone | hafter
          · exact absurd hrest
              (not_passes_before hsize (by omega) (by omega) hbefore later)
          · rw [hone] at hrest
            have hline : LastAt '\n' content 1 chunkSize (chunkOverlap - 2) := by
              have hp' : p = chunkOverlap - 2 := by omega
              rw [← hp']
              exact lastAt_first hstart hp (by omega)
            cases hrest with
            | done hdone =>
                rw [step_neg_one hoverlap (by omega) (by omega)] at hdone
                cases hdone
            | next => exact Or.inr ⟨by simp, by omega, hline⟩
          · by_cases hstuck : p + 1 - chunkOverlap ≤ s
            · exact absurd hrest (not_passes_of_fixed
                (step_fixed hsize hmore hp (by omega) hstuck) later)
            · exact hfrom (by omega)
        · rw [hstep] at hnext
          cases hnext
          exact hfrom (by omega)
      · rw [step_final hoverlap hlt (not_lt.mp hmore)] at hnext
        cases hnext
        exact hfrom hlt.le

/-- A first line one character shorter than the overlap sends the loop over
the start `-1`. -/
theorem passes_over_neg_one (hsize : chunkOverlap < chunkSize)
    (hshort : ShortLine content chunkSize chunkOverlap) {starts : List ℤ}
    (h : Passes (step content chunkSize chunkOverlap) 0 starts) :
    ∃ later, starts = 0 :: -1 :: later ∧
      Passes (step content chunkSize chunkOverlap) (chunkSize - 1 - chunkOverlap)
        later ∧
      ∀ t ∈ later, chunkSize - 1 - chunkOverlap ≤ t := by
  obtain ⟨hlong, hline⟩ := hshort
  have hlow := hline.start_le
  have hfirst : step content chunkSize chunkOverlap 0 = some (-1) := by
    rw [step_zero_of_lastAt (by omega) hsize hlong hline]
    exact congrArg some (by omega)
  have hsecond := step_neg_one (by omega : 0 ≤ chunkOverlap) (by omega) hlong
  cases h with
  | done hdone => rw [hfirst] at hdone; cases hdone
  | next hnext hrest =>
      rw [hfirst] at hnext
      cases hnext
      have hrest' := hrest
      cases hrest with
      | done hdone => rw [hsecond] at hdone; cases hdone
      | @next _ _ later hnext hlater =>
          rw [hsecond] at hnext
          cases hnext
          refine ⟨later, rfl, hlater, ?_⟩
          -- the loop does not come to the start `-1` again
          exact (starts_grow (by omega) hsize (by omega) hlater).resolve_right
            fun hagain => hrest'.not_mem hagain.1

/-! ## Positions in a window -/

theorem windowEnd_of_shortLine (hsize : chunkOverlap < chunkSize)
    (hshort : ShortLine content chunkSize chunkOverlap) :
    windowEnd content chunkSize 0 = chunkOverlap - 1 := by
  obtain ⟨hlong, hline⟩ := hshort
  have hline' : LastAt '\n' content (0 + 1) (0 + chunkSize) (chunkOverlap - 2) := by
    simpa using hline
  have hlow := hline.start_le
  have hmore : 0 + chunkSize < content.length := by omega
  rcases windowEnd_cases (le_refl 0) (by omega) hmore with
    ⟨p, hp, hend⟩ | ⟨hnone, _⟩
  · rw [hend, hp.unique hline']
    omega
  · exact absurd hline.at_index (hnone _ (by omega) (by omega))

theorem windowEnd_bounds (hstart : 0 ≤ start) (hlt : start < content.length)
    (hsize : 0 < chunkSize) :
    start < windowEnd content chunkSize start ∧
      windowEnd content chunkSize start ≤ content.length ∧
      windowEnd content chunkSize start ≤ start + chunkSize := by
  by_cases hmore : start + chunkSize < content.length
  · rcases windowEnd_cases hstart hsize hmore with ⟨p, hp, hend⟩ | ⟨_, hend⟩
    · have hlow := hp.start_le
      have hhigh := hp.lt_stop
      omega
    · omega
  · rw [windowEnd_final (not_lt.mp hmore)]
    omega

/-- Windows that begin in the text leave no position out. -/
theorem exists_window (hoverlap : 0 ≤ chunkOverlap) {starts : List ℤ}
    (h : Passes (step content chunkSize chunkOverlap) start starts)
    (hnonneg : ∀ t ∈ starts, 0 ≤ t) {i : ℤ} (hi : start ≤ i)
    (hlength : i < content.length) :
    ∃ t ∈ starts, t ≤ i ∧ i < windowEnd content chunkSize t := by
  induction h with
  | @done s hdone =>
      rw [step, if_pos (by omega)] at hdone
      cases hdone
  | @next s s' later hnext _ ih =>
      by_cases hin : i < windowEnd content chunkSize s
      · exact ⟨s, List.mem_cons_self, hi, hin⟩
      · rw [step_eq hoverlap (by omega)] at hnext
        have hnext' := Option.some_inj.mp hnext
        obtain ⟨t, ht, hinside⟩ := ih
          (fun t ht => hnonneg t (List.mem_cons_of_mem _ ht)) (by split at hnext' <;> omega)
        exact ⟨t, List.mem_cons_of_mem _ ht, hinside⟩

/-! ## The chunks of the windows -/

/-- The chunk is the text of the window with its bounds. -/
structure IsWindow (content : List Char) (start stop : ℤ) (chunk : ChunkData) :
    Prop where
  startChar : chunk.startChar = start
  endChar : chunk.endChar = stop
  text : chunk.content = String.ofList (strip (slice content start stop))

theorem isWindow_of_mem {stop : ℤ} {chunkIndex : ℕ} {chunk : ChunkData}
    (h : chunk ∈ windowChunk content start stop chunkIndex) :
    IsWindow content start stop chunk ∧ slice content start stop ≠ [] := by
  by_cases hblank : (strip (slice content start stop)).isEmpty = true
  · simp [windowChunk, hblank] at h
  · simp only [windowChunk, if_neg hblank, List.mem_singleton] at h
    subst h
    refine ⟨⟨rfl, rfl, rfl⟩, ?_⟩
    intro hnil
    rw [hnil] at hblank
    exact hblank rfl

theorem exists_mem_windowChunk {stop : ℤ} {c : Char}
    (hc : c ∈ slice content start stop) (hspace : isSpace c = false)
    (chunkIndex : ℕ) :
    ∃ chunk ∈ windowChunk content start stop chunkIndex,
      IsWindow content start stop chunk := by
  have hblank : ¬ (strip (slice content start stop)).isEmpty = true := by
    intro hempty
    have hall := Text.stripBy_eq_nil_iff.mp (List.isEmpty_iff.mp hempty) c hc
    rw [hspace] at hall
    cases hall
  simp only [windowChunk, if_neg hblank, List.mem_singleton]
  exact ⟨_, rfl, rfl, rfl, rfl⟩

/-- The chunks of a run are those of its windows. -/
theorem mem_emit {starts : List ℤ} {chunkIndex : ℕ} {chunk : ChunkData}
    (h : chunk ∈ emit content chunkSize chunkIndex starts) :
    ∃ t ∈ starts, IsWindow content t (windowEnd content chunkSize t) chunk ∧
      slice content t (windowEnd content chunkSize t) ≠ [] := by
  induction starts generalizing chunkIndex with
  | nil => cases h
  | cons t starts ih =>
      rcases List.mem_append.mp h with hhere | hlater
      · exact ⟨t, List.mem_cons_self, isWindow_of_mem hhere⟩
      · obtain ⟨u, hu, hwindow⟩ := ih hlater
        exact ⟨u, List.mem_cons_of_mem _ hu, hwindow⟩

theorem exists_mem_emit {starts : List ℤ} {t : ℤ} (ht : t ∈ starts) {c : Char}
    (hc : c ∈ slice content t (windowEnd content chunkSize t))
    (hspace : isSpace c = false) (chunkIndex : ℕ) :
    ∃ chunk ∈ emit content chunkSize chunkIndex starts,
      IsWindow content t (windowEnd content chunkSize t) chunk := by
  induction starts generalizing chunkIndex with
  | nil => cases ht
  | cons u starts ih =>
      rcases List.mem_cons.mp ht with rfl | ht
      · obtain ⟨chunk, hmem, hwindow⟩ := exists_mem_windowChunk hc hspace chunkIndex
        exact ⟨chunk, List.mem_append_left _ hmem, hwindow⟩
      · obtain ⟨chunk, hmem, hwindow⟩ := ih ht (chunkIndex + (windowChunk content u
          (windowEnd content chunkSize u) chunkIndex).length)
        exact ⟨chunk, List.mem_append_right _ hmem, hwindow⟩

/-- The chunks of a run are numbered without a gap. -/
theorem emit_chunkIndex (starts : List ℤ) (chunkIndex : ℕ) :
    (emit content chunkSize chunkIndex starts).map ChunkData.chunkIndex =
      (List.range' chunkIndex (emit content chunkSize chunkIndex starts).length).map
        (fun n => (n : ℤ)) := by
  induction starts generalizing chunkIndex with
  | nil => rfl
  | cons t starts ih =>
      rw [emit]
      by_cases hblank : (strip (slice content t
          (windowEnd content chunkSize t))).isEmpty = true
      · simp only [windowChunk, if_pos hblank, List.nil_append, List.length_nil,
          Nat.add_zero]
        exact ih chunkIndex
      · simp only [windowChunk, if_neg hblank, List.singleton_append, List.map_cons,
          List.length_cons, List.length_nil, ih (chunkIndex + (0 + 1))]
        rw [List.range'_succ]
        rfl

/-- In the text a slice has the characters between its bounds. -/
theorem mem_slice {stop : ℤ} (hstart : 0 ≤ start) {i : ℕ} {c : Char}
    (hc : content[i]? = some c) (hlow : start ≤ i) (hhigh : i < stop) :
    c ∈ slice content start stop := by
  rw [slice_of_nonneg _ hstart (by omega), List.mem_iff_getElem?]
  refine ⟨i - start.toNat, ?_⟩
  rw [List.getElem?_drop, List.getElem?_take_of_lt (by omega)]
  have hindex : start.toNat + (i - start.toNat) = i := by omega
  rw [hindex, hc]

/-- The window behind the start `-1` has no text. -/
theorem slice_neg_one (hsize : 1 < chunkSize) (hlong : chunkSize < content.length) :
    slice content (-1) (windowEnd content chunkSize (-1)) = [] := by
  rw [windowEnd_of_neg (by omega) (by omega) hlong, if_pos rfl]
  have hstop : ¬ chunkSize - 1 < 0 := by omega
  simp only [slice, if_neg hstop, if_pos (by decide : (-1 : ℤ) < 0)]
  rw [List.drop_eq_nil_iff, List.length_take]
  omega

/-! ## What a call returns -/

/-- No text is lost, and every chunk is the text of a window of at most the
chunk size. -/
structure KeepsText (content : List Char) (chunkSize : ℤ)
    (chunks : List ChunkData) : Prop where
  covered : ∀ (i : ℕ) (c : Char), content[i]? = some c → isSpace c = false →
    ∃ chunk ∈ chunks, chunk.startChar ≤ i ∧ i < chunk.endChar
  within : ∀ chunk ∈ chunks, 0 ≤ chunk.startChar ∧
    chunk.startChar < chunk.endChar ∧ chunk.endChar ≤ content.length ∧
      chunk.endChar - chunk.startChar ≤ chunkSize
  text : ∀ chunk ∈ chunks, chunk.content =
    String.ofList (strip (slice content chunk.startChar chunk.endChar))
  numbered : chunks.map ChunkData.chunkIndex =
    (List.range chunks.length).map fun n => (n : ℤ)

/-- There is text between a first line one character shorter than the overlap
and the window behind the start `-1`. -/
structure Skips (content : List Char) (chunkSize chunkOverlap : ℤ) : Prop
    extends ShortLine content chunkSize chunkOverlap where
  text : ∃ (i : ℕ) (c : Char), content[i]? = some c ∧ isSpace c = false ∧
    chunkOverlap - 1 ≤ i ∧ i < chunkSize - 1 - chunkOverlap

section Call

variable {starts : List ℤ} (hoverlap : 0 ≤ chunkOverlap)
  (hsize : chunkOverlap < chunkSize)
  (h : Passes (step content chunkSize chunkOverlap) 0 starts)

include hoverlap hsize h

/-- Every window with text lies in the text. -/
theorem window_within {t : ℤ} (ht : t ∈ starts)
    (htext : slice content t (windowEnd content chunkSize t) ≠ []) :
    0 ≤ t ∧ t < content.length := by
  obtain ⟨t', hstep⟩ := h.step_of_mem ht
  refine ⟨?_, lt_length_of_step hstep⟩
  rcases starts_grow hoverlap hsize (le_refl 0) h with hgrow | ⟨_, hshort⟩
  · exact hgrow t ht
  · have hlow := hshort.line.start_le
    obtain ⟨later, rfl, _, hlater⟩ := passes_over_neg_one hsize hshort h
    simp only [List.mem_cons] at ht
    rcases ht with rfl | rfl | ht
    · exact le_refl 0
    · exact absurd (slice_neg_one (by omega) hshort.long) htext
    · have hle := hlater t ht
      omega

/-- Outside of what is skipped every position is in a window. -/
theorem exists_window_of_not_skipped {i : ℕ} (hi : i < content.length)
    (hnot : ShortLine content chunkSize chunkOverlap →
      ¬ (chunkOverlap - 1 ≤ i ∧ i < chunkSize - 1 - chunkOverlap)) :
    ∃ t ∈ starts, 0 ≤ t ∧ t ≤ i ∧ i < windowEnd content chunkSize t := by
  by_cases hshort : ShortLine content chunkSize chunkOverlap
  · have hlow := hshort.line.start_le
    obtain ⟨later, rfl, hpasses, hlater⟩ := passes_over_neg_one hsize hshort h
    by_cases hfirst : i < chunkOverlap - 1
    · refine ⟨0, by simp, le_refl 0, by omega, ?_⟩
      rw [windowEnd_of_shortLine hsize hshort]
      exact hfirst
    · have hin := hnot hshort
      obtain ⟨t, ht, hle, hlt⟩ := exists_window hoverlap hpasses
        (fun t ht => by have hle := hlater t ht; omega) (i := i) (by omega) (by omega)
      have hle' := hlater t ht
      exact ⟨t, by simp [ht], by omega, hle, hlt⟩
  · have hgrow := (starts_grow hoverlap hsize (le_refl 0) h).resolve_right
      fun hover => hshort hover.2
    obtain ⟨t, ht, hle, hlt⟩ := exists_window hoverlap h hgrow (i := i) (by omega)
      (by omega)
    exact ⟨t, ht, hgrow t ht, hle, hlt⟩

theorem keepsText_of_not_skips (hnot : ¬ Skips content chunkSize chunkOverlap) :
    KeepsText content chunkSize (emit content chunkSize 0 starts) where
  covered := by
    intro i c hc hspace
    obtain ⟨hi, _⟩ := List.getElem?_eq_some_iff.mp hc
    obtain ⟨t, ht, hnonneg, hle, hlt⟩ :=
      exists_window_of_not_skipped hoverlap hsize h hi fun hshort hin =>
        hnot ⟨hshort, i, c, hc, hspace, hin⟩
    obtain ⟨chunk, hmem, hwindow⟩ :=
      exists_mem_emit ht (mem_slice hnonneg hc hle hlt) hspace 0
    refine ⟨chunk, hmem, ?_⟩
    rw [hwindow.startChar, hwindow.endChar]
    exact ⟨hle, hlt⟩
  within := by
    intro chunk hmem
    obtain ⟨t, ht, hwindow, htext⟩ := mem_emit hmem
    obtain ⟨hnonneg, hlt⟩ := window_within hoverlap hsize h ht htext
    have hpositive : 0 < chunkSize := by omega
    obtain ⟨hgrows, hlength, hlong⟩ := windowEnd_bounds hnonneg hlt hpositive
    rw [hwindow.startChar, hwindow.endChar]
    exact ⟨hnonneg, hgrows, hlength, by omega⟩
  text := by
    intro chunk hmem
    obtain ⟨t, _, hwindow, _⟩ := mem_emit hmem
    rw [hwindow.startChar, hwindow.endChar]
    exact hwindow.text
  numbered := by
    rw [List.range_eq_range']
    exact emit_chunkIndex starts 0

end Call

theorem not_covered_of_skips {starts : List ℤ} (hsize : chunkOverlap < chunkSize)
    (h : Passes (step content chunkSize chunkOverlap) 0 starts)
    (hskips : Skips content chunkSize chunkOverlap) :
    ¬ KeepsText content chunkSize (emit content chunkSize 0 starts) := by
  intro hkeeps
  obtain ⟨hshort, i, c, hc, hspace, hlow, hhigh⟩ := hskips
  obtain ⟨chunk, hmem, hle, hlt⟩ := hkeeps.covered i c hc hspace
  obtain ⟨t, ht, hwindow, htext⟩ := mem_emit hmem
  rw [hwindow.startChar] at hle
  rw [hwindow.endChar] at hlt
  have hlow' := hshort.line.start_le
  obtain ⟨later, rfl, _, hlater⟩ := passes_over_neg_one hsize hshort h
  simp only [List.mem_cons] at ht
  rcases ht with rfl | rfl | ht
  · rw [windowEnd_of_shortLine hsize hshort] at hlt
    omega
  · exact absurd (slice_neg_one (by omega) hshort.long) htext
  · have hle' := hlater t ht
    omega

/-- A call that returns keeps the text exactly if nothing is skipped. -/
theorem keepsText_iff {fuel : ℕ} {content : String} {chunkSize chunkOverlap : ℤ}
    (hoverlap : 0 ≤ chunkOverlap) (hsize : chunkOverlap < chunkSize)
    {chunks : List ChunkData}
    (h : chunk fuel content chunkSize chunkOverlap = some chunks) :
    KeepsText content.toList chunkSize chunks ↔
      ¬ Skips content.toList chunkSize chunkOverlap := by
  by_cases hblank : Text.isBlank content = true
  · have hall := Text.isBlank_iff.mp hblank
    rw [chunk, if_pos hblank] at h
    cases h
    refine iff_of_true ⟨?_, by simp, by simp, rfl⟩ ?_
    · intro i c hc hspace
      rw [hall c (List.mem_of_getElem? hc)] at hspace
      cases hspace
    · intro hskips
      obtain ⟨_, i, c, hc, hspace, _⟩ := hskips
      rw [hall c (List.mem_of_getElem? hc)] at hspace
      cases hspace
  · obtain ⟨starts, hstarts, rfl⟩ := (chunk_iff_passes hblank).mp ⟨fuel, h⟩
    constructor
    · intro hkeeps hskips
      exact not_covered_of_skips hsize hstarts hskips hkeeps
    · exact keepsText_of_not_skips hoverlap hsize hstarts

/-- After a first line of one letter the next four letters are in no chunk. -/
theorem chunk_short_line :
    ∃ chunks, chunk 8 "a\nbcdefghijklm" 10 3 = some chunks ∧
      chunks.map (fun chunk => (chunk.startChar, chunk.endChar)) =
        [(0, 2), (6, 14)] := by
  apply Option.map_eq_some_iff.mp
  decide +kernel

theorem keepsText_iff_short_line :
    ∃ chunks, chunk 8 "a\nbcdefghijklm" 10 3 = some chunks ∧
      (KeepsText "a\nbcdefghijklm".toList 10 chunks ↔
        ¬ Skips "a\nbcdefghijklm".toList 10 3) := by
  obtain ⟨chunks, h, _⟩ := chunk_short_line
  exact ⟨chunks, h, keepsText_iff (by decide) (by decide) h⟩

theorem not_keepsText_short_line :
    ¬ ∀ (fuel : ℕ) (content : String) (chunkSize chunkOverlap : ℤ)
        (chunks : List ChunkData), 1 ≤ chunkSize → 0 ≤ chunkOverlap →
      chunkOverlap < chunkSize →
        chunk fuel content chunkSize chunkOverlap = some chunks →
          KeepsText content.toList chunkSize chunks := by
  intro h
  obtain ⟨chunks, hchunk, hbounds⟩ := chunk_short_line
  have hkeeps := h 8 "a\nbcdefghijklm" 10 3 chunks (by decide) (by decide) (by decide)
    hchunk
  have hletter : "a\nbcdefghijklm".toList[2]? = some 'b' := by decide +kernel
  obtain ⟨chunk, hmem, hle, hlt⟩ := hkeeps.covered 2 'b' hletter (by decide)
  have hpair : (chunk.startChar, chunk.endChar) ∈ [((0 : ℤ), (2 : ℤ)), (6, 14)] := by
    rw [← hbounds]
    exact List.mem_map_of_mem hmem
  simp only [List.mem_cons, Prod.mk.injEq, List.not_mem_nil, or_false] at hpair
  rcases hpair with ⟨_, hend⟩ | ⟨hstart, _⟩
  · omega
  · omega

end SimpleChunkingStrategy
end AiBackend
