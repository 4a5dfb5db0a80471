import AiBackend.Chunking.CharacterWindows

/-!
# When the simple chunker ends

A newline behind which the text goes on without another one, for as long as a
window reaches when it begins the overlap before the end of that line, brings
the loop back to where it was.  The loop ends exactly if it meets no such
newline.
-/

namespace AiBackend
namespace SimpleChunkingStrategy

open Loop Text

/-- The window that begins the overlap before the end of this line ends with
the line again, and not with the text. -/
structure Gap (content : List Char) (chunkSize chunkOverlap p : ℤ) : Prop where
  newline : At '\n' content p
  none_after : ∀ i, p < i → i < p + 1 + (chunkSize - chunkOverlap) →
    ¬ At '\n' content i
  goes_on : p + 1 + (chunkSize - chunkOverlap) < content.length

/-- From the line that ends just two characters before the overlap the loop
gets away over the start `-1`: the window behind it reaches the end of the
text, or another newline, or begins behind the line. -/
def Escapes (content : List Char) (chunkSize chunkOverlap : ℤ) : Prop :=
  content.length ≤ 2 * chunkSize - 1 - chunkOverlap ∨
    (∃ i, chunkSize ≤ i ∧ i < 2 * chunkSize - 1 - chunkOverlap ∧
      At '\n' content i) ∨
    2 * chunkOverlap ≤ chunkSize + 1

/-- The texts on which the loop ends. -/
def Ends (content : List Char) (chunkSize chunkOverlap : ℤ) : Prop :=
  chunkOverlap ≤ 1 ∨ content.length ≤ chunkSize ∨
    (∀ p, chunkSize ≤ p → ¬ Gap content chunkSize chunkOverlap p) ∧
      ∀ p, LastAt '\n' content 1 chunkSize p →
        Gap content chunkSize chunkOverlap p →
          p + 2 = chunkOverlap ∧ Escapes content chunkSize chunkOverlap

variable {content : List Char} {chunkSize chunkOverlap start : ℤ}

/-! ## Windows that get on -/

/-- From the start on, a window that breaks at a newline is longer than the
overlap. -/
def Forward (content : List Char) (chunkSize chunkOverlap start : ℤ) : Prop :=
  ∀ s, start ≤ s → s + chunkSize < content.length →
    ∀ p, LastAt '\n' content (s + 1) (s + chunkSize) p → s < p + 1 - chunkOverlap

theorem exists_passes_of_forward (hoverlap : 0 ≤ chunkOverlap)
    (hsize : chunkOverlap < chunkSize) (hstart : 0 ≤ start)
    (hforward : Forward content chunkSize chunkOverlap start) :
    ∃ starts, Passes (step content chunkSize chunkOverlap) start starts := by
  refine exists_passes (I := fun s => start ≤ s)
    (fun s => (content.length - s).toNat) ?_ (le_refl start)
  intro s s' hs hnext
  have hgrows : s < content.length ∧ s < s' := by
    by_cases hlt : s < content.length
    · refine ⟨hlt, ?_⟩
      by_cases hmore : s + chunkSize < content.length
      · rcases step_middle hoverlap hsize (by omega) hmore with
          ⟨p, hp, _, hstep⟩ | ⟨_, _, hstep⟩
        · rw [hstep] at hnext
          cases hnext
          exact hforward s hs hmore p hp
        · rw [hstep] at hnext
          cases hnext
          omega
      · rw [step_final hoverlap hlt (not_lt.mp hmore)] at hnext
        cases hnext
        exact hlt
    · rw [step, if_neg hlt] at hnext
      cases hnext
  exact ⟨by omega, by omega⟩

/-- A window that is not longer than the overlap shows a gap. -/
theorem gap_of_stuck (hmore : start + chunkSize < content.length) {p : ℤ}
    (hp : LastAt '\n' content (start + 1) (start + chunkSize) p)
    (hstuck : p + 1 - chunkOverlap ≤ start) :
    Gap content chunkSize chunkOverlap p where
  newline := hp.at_index
  none_after := fun i hi hlt => hp.not_later i hi (by omega)
  goes_on := by omega

/-- A gap in the first chunk that stops a later window is the last newline of
the first chunk. -/
theorem lastAt_first (hstart : 0 ≤ start) {p : ℤ}
    (hp : LastAt '\n' content (start + 1) (start + chunkSize) p)
    (hfirst : p < chunkSize) : LastAt '\n' content 1 chunkSize p where
  at_index := hp.at_index
  start_le := by
    have hle := hp.start_le
    omega
  lt_stop := hfirst
  not_later := fun i hi hlt => hp.not_later i hi (by omega)

/-- Over the start `-1` the loop gets behind the line that stops it. -/
theorem exists_passes_of_escapes (hsize : chunkOverlap < chunkSize)
    (hlong : chunkSize < content.length)
    (hnone : ∀ p, chunkSize ≤ p → ¬ Gap content chunkSize chunkOverlap p) {p : ℤ}
    (hp : LastAt '\n' content 1 chunkSize p) (htwo : p + 2 = chunkOverlap)
    (hescapes : Escapes content chunkSize chunkOverlap) :
    ∃ starts, Passes (step content chunkSize chunkOverlap) 0 starts := by
  have hlow := hp.start_le
  have hforward : Forward content chunkSize chunkOverlap
      (chunkSize - 1 - chunkOverlap) := by
    intro s hs hmore q hq
    by_contra hstuck
    have hgap := gap_of_stuck hmore hq (not_lt.mp hstuck)
    have hfirst : q < chunkSize := not_le.mp fun hle => hnone q hle hgap
    obtain rfl : p = q := hp.unique (lastAt_first (by omega) hq hfirst)
    have hbefore := hq.start_le
    rcases hescapes with hend | ⟨i, hi, hlt, hat⟩ | hhalf
    · omega
    · exact hq.not_later i (by omega) (by omega) hat
    · omega
  obtain ⟨starts, hstarts⟩ := exists_passes_of_forward (by omega) hsize (by omega)
    hforward
  have hfirst : step content chunkSize chunkOverlap 0 = some (-1) := by
    rw [step_zero_of_lastAt (by omega) hsize hlong hp]
    exact congrArg some (by omega)
  exact ⟨_, Passes.next hfirst
    (Passes.next (step_neg_one (by omega) (by omega) hlong) hstarts)⟩

theorem exists_passes_of_ends (hoverlap : 0 ≤ chunkOverlap)
    (hsize : chunkOverlap < chunkSize) (h : Ends content chunkSize chunkOverlap) :
    ∃ starts, Passes (step content chunkSize chunkOverlap) 0 starts := by
  by_cases hshort : content.length ≤ chunkSize
  · refine exists_passes_of_forward hoverlap hsize (le_refl 0) ?_
    intro s hs hmore
    omega
  rcases h with hone | hshort' | ⟨hnone, hfirst⟩
  · refine exists_passes_of_forward hoverlap hsize (le_refl 0) ?_
    intro s _ _ p hp
    have hle := hp.start_le
    omega
  · exact absurd hshort' hshort
  · by_cases hgap : ∃ p, LastAt '\n' content 1 chunkSize p ∧
        Gap content chunkSize chunkOverlap p
    · obtain ⟨p, hp, hgap⟩ := hgap
      obtain ⟨htwo, hescapes⟩ := hfirst p hp hgap
      exact exists_passes_of_escapes hsize (not_le.mp hshort) hnone hp htwo hescapes
    · -- a window that does not get on would show a gap
      refine exists_passes_of_forward hoverlap hsize (le_refl 0) ?_
      intro s hs hmore p hp
      by_contra hstuck
      have hgap' := gap_of_stuck hmore hp (not_lt.mp hstuck)
      by_cases hlater : chunkSize ≤ p
      · exact hnone p hlater hgap'
      · exact hgap ⟨p, lastAt_first hs hp (not_le.mp hlater), hgap'⟩

/-! ## Windows that are caught -/

/-- Up to the start that a gap brings the loop back to, no window ends behind
the gap. -/
theorem step_of_gap (htwo : 2 ≤ chunkOverlap) (hsize : chunkOverlap < chunkSize)
    (hstart : 0 ≤ start) {p : ℤ} (hgap : Gap content chunkSize chunkOverlap p)
    (hle : start ≤ p + 1 - chunkOverlap) :
    ∃ s, step content chunkSize chunkOverlap start = some s ∧
      -chunkOverlap ≤ s ∧ s ≤ p + 1 - chunkOverlap ∧
      (p < start + chunkSize → s = p + 1 - chunkOverlap) := by
  have hgoes := hgap.goes_on
  have hmore : start + chunkSize < content.length := by omega
  by_cases hreach : p < start + chunkSize
  · have hlast : LastAt '\n' content (start + 1) (start + chunkSize) p :=
      ⟨hgap.newline, by omega, hreach,
        fun i hi hlt => hgap.none_after i hi (by omega)⟩
    exact ⟨_, step_of_lastAt (by omega) hsize hstart hmore hlast, by omega, le_refl _,
      fun _ => rfl⟩
  · rcases step_middle (by omega) hsize hstart hmore with
      ⟨q, hq, _, hstep⟩ | ⟨_, _, hstep⟩
    · have hlow := hq.start_le
      have hhigh := hq.lt_stop
      exact ⟨_, hstep, by omega, by omega, fun h => absurd h hreach⟩
    · exact ⟨_, hstep, by omega, by omega, fun h => absurd h hreach⟩

/-- A gap at the first chunk size or later catches the loop. -/
theorem not_passes_of_later_gap (htwo : 2 ≤ chunkOverlap)
    (hsize : chunkOverlap < chunkSize) {p : ℤ} (hlater : chunkSize ≤ p)
    (hgap : Gap content chunkSize chunkOverlap p) (starts : List ℤ) :
    ¬ Passes (step content chunkSize chunkOverlap) 0 starts := by
  have hgoes := hgap.goes_on
  refine not_passes_of_trap
    (T := fun s => -chunkOverlap ≤ s ∧ s ≤ p + 1 - chunkOverlap) ?_
    (by constructor <;> omega) starts
  intro s hs
  obtain ⟨hlow, hhigh⟩ := hs
  rcases lt_trichotomy s (-1) with hbefore | rfl | hafter
  · exact ⟨_, step_before hsize (by omega) hlow hbefore, le_refl _, by omega⟩
  · exact ⟨_, step_neg_one (by omega) (by omega) (by omega), by omega, by omega⟩
  · obtain ⟨s', hstep, hlow', hhigh', _⟩ :=
      step_of_gap htwo hsize (by omega) hgap hhigh
    exact ⟨s', hstep, hlow', hhigh'⟩

/-- So does one at the end of the first window, unless it is the line that the
loop escapes from. -/
theorem not_passes_of_first_gap (htwo : 2 ≤ chunkOverlap)
    (hsize : chunkOverlap < chunkSize) (hlong : chunkSize < content.length) {p : ℤ}
    (hp : LastAt '\n' content 1 chunkSize p)
    (hgap : Gap content chunkSize chunkOverlap p)
    (hnot : ¬ (p + 2 = chunkOverlap ∧ Escapes content chunkSize chunkOverlap))
    (starts : List ℤ) :
    ¬ Passes (step content chunkSize chunkOverlap) 0 starts := by
  have hlow := hp.start_le
  have hhigh := hp.lt_stop
  have hfirst : step content chunkSize chunkOverlap 0 = some (p + 1 - chunkOverlap) :=
    step_zero_of_lastAt (by omega) hsize hlong hp
  rcases lt_trichotomy (p + 1 - chunkOverlap) (-1) with hbefore | hone | hafter
  · intro h
    cases h with
    | done hdone => rw [hfirst] at hdone; cases hdone
    | next hnext hrest =>
        rw [hfirst] at hnext
        cases hnext
        exact not_passes_before hsize hlong (by omega) hbefore _ hrest
  · -- over `-1` the loop comes to a window that ends with the line again
    have htwo' : p + 2 = chunkOverlap := by omega
    have hcaught : ¬ Escapes content chunkSize chunkOverlap := fun h => hnot ⟨htwo', h⟩
    simp only [Escapes, not_or, not_exists, not_and, not_le] at hcaught
    obtain ⟨hend, hnone, hhalf⟩ := hcaught
    have hback : step content chunkSize chunkOverlap (chunkSize - 1 - chunkOverlap) =
        some (-1) := by
      rw [step_of_lastAt (by omega) hsize (by omega) (by omega)
        (⟨hp.at_index, by omega, by omega, ?_⟩ : LastAt '\n' content _ _ p), hone]
      intro i hi hlt hat
      by_cases hin : i < chunkSize
      · exact hp.not_later i hi hin hat
      · exact hnone i (not_lt.mp hin) (by omega) hat
    refine not_passes_of_trap
      (T := fun s => s = 0 ∨ s = -1 ∨ s = chunkSize - 1 - chunkOverlap) ?_
      (Or.inl rfl) starts
    rintro s (rfl | rfl | rfl)
    · exact ⟨-1, by rw [hfirst, hone], Or.inr (Or.inl rfl)⟩
    · exact ⟨_, step_neg_one (by omega) (by omega) hlong, Or.inr (Or.inr rfl)⟩
    · exact ⟨-1, hback, Or.inr (Or.inl rfl)⟩
  · refine not_passes_of_trap
      (T := fun s => 0 ≤ s ∧ s ≤ p + 1 - chunkOverlap) ?_
      (by constructor <;> omega) starts
    intro s hs
    obtain ⟨s', hstep, _, hhigh', hback⟩ :=
      step_of_gap htwo hsize hs.1 hgap hs.2
    have hs' := hback (by omega)
    exact ⟨s', hstep, by omega, hhigh'⟩

theorem ends_of_passes (hsize : chunkOverlap < chunkSize) {starts : List ℤ}
    (h : Passes (step content chunkSize chunkOverlap) 0 starts) :
    Ends content chunkSize chunkOverlap := by
  by_cases hone : chunkOverlap ≤ 1
  · exact Or.inl hone
  by_cases hshort : content.length ≤ chunkSize
  · exact Or.inr (Or.inl hshort)
  refine Or.inr (Or.inr ⟨?_, ?_⟩)
  · intro p hlater hgap
    exact not_passes_of_later_gap (by omega) hsize hlater hgap starts h
  · intro p hp hgap
    by_contra hnot
    exact not_passes_of_first_gap (by omega) hsize (not_le.mp hshort) hp hgap hnot
      starts h

/-! ## A call -/

/-- The call returns for exactly these texts and sizes. -/
theorem chunk_ends_iff (content : String) {chunkSize chunkOverlap : ℤ}
    (hoverlap : 0 ≤ chunkOverlap) (hsize : chunkOverlap < chunkSize) :
    (∃ fuel chunks, chunk fuel content chunkSize chunkOverlap = some chunks) ↔
      Text.isBlank content = true ∨ Ends content.toList chunkSize chunkOverlap := by
  by_cases hblank : Text.isBlank content = true
  · exact iff_of_true ⟨0, [], if_pos hblank⟩ (Or.inl hblank)
  · constructor
    · intro h
      obtain ⟨fuel, chunks, h⟩ := h
      obtain ⟨starts, hstarts, _⟩ := (chunk_iff_passes hblank).mp ⟨fuel, h⟩
      exact Or.inr (ends_of_passes hsize hstarts)
    · intro h
      obtain ⟨starts, hstarts⟩ :=
        exists_passes_of_ends hoverlap hsize (h.resolve_left hblank)
      obtain ⟨fuel, h⟩ := (chunk_iff_passes hblank).mpr ⟨starts, hstarts, rfl⟩
      exact ⟨fuel, _, h⟩

theorem chunk_ends_iff_two_lines :
    (∃ fuel chunks, chunk fuel "abcd\nxxxxxxxxxx" 10 5 = some chunks) ↔
      Text.isBlank "abcd\nxxxxxxxxxx" = true ∨
        Ends "abcd\nxxxxxxxxxx".toList 10 5 :=
  chunk_ends_iff _ (by decide) (by decide)

/-- A first line as long as the overlap and a longer second one: the window
that begins the overlap before the end of the first line is the first window
again. -/
theorem not_chunk_ends_two_lines :
    ¬ ∀ (content : String) (chunkSize chunkOverlap : ℤ), 1 ≤ chunkSize →
      0 ≤ chunkOverlap → chunkOverlap < chunkSize →
        ∃ fuel chunks, chunk fuel content chunkSize chunkOverlap = some chunks := by
  intro h
  obtain ⟨fuel, chunks, hchunk⟩ := h "abcd\nxxxxxxxxxx" 10 5 (by decide) (by decide)
    (by decide)
  have hblank : ¬ Text.isBlank "abcd\nxxxxxxxxxx" = true := by decide +kernel
  have hfixed : step "abcd\nxxxxxxxxxx".toList 10 5 0 = some 0 := by decide +kernel
  obtain ⟨starts, hstarts, _⟩ := (chunk_iff_passes hblank).mp ⟨fuel, hchunk⟩
  exact not_passes_of_fixed hfixed starts hstarts

end SimpleChunkingStrategy
end AiBackend
