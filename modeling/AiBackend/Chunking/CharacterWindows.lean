import AiBackend.Domain.SimpleChunking

/-!
# The windows of the simple chunker

Where a window ends and where the next one begins, for an overlap smaller than
the chunk size.  A window that breaks at a newline can be shorter than the
overlap; the next start is then no further on, and may be negative, where a
search and a slice count from the end of the text.
-/

namespace AiBackend
namespace SimpleChunkingStrategy

open Python Loop Text

variable {content : List Char} {chunkSize chunkOverlap start : ℤ}

/-! ## Where a window ends -/

theorem windowEnd_final (h : content.length ≤ start + chunkSize) :
    windowEnd content chunkSize start = content.length := by
  simp only [windowEnd, min_eq_right h, lt_irrefl, if_false]

theorem windowEnd_cases (hstart : 0 ≤ start) (hsize : 0 < chunkSize)
    (hmore : start + chunkSize < content.length) :
    (∃ p, LastAt '\n' content (start + 1) (start + chunkSize) p ∧
        windowEnd content chunkSize start = p + 1) ∨
      (∀ i, start < i → i < start + chunkSize → ¬ At '\n' content i) ∧
        windowEnd content chunkSize start = start + chunkSize := by
  simp only [windowEnd, min_eq_left hmore.le, if_pos hmore]
  rcases rfind_cases '\n' hstart (by omega : start ≤ start + chunkSize) hmore.le with
    ⟨hnone, hall⟩ | hlast
  · rw [hnone, if_neg (by omega)]
    exact Or.inr ⟨fun i hi => hall i hi.le, rfl⟩
  · split
    next hlt =>
      exact Or.inl ⟨_, ⟨hlast.at_index, hlt, hlast.lt_stop, hlast.not_later⟩, rfl⟩
    next hle =>
      -- a newline at the start itself does not end the window
      have hat : rfind '\n' content start (start + chunkSize) = start :=
        le_antisymm (not_lt.mp hle) hlast.start_le
      refine Or.inr ⟨?_, rfl⟩
      intro i hi
      exact hlast.not_later i (by omega)

/-- Before the beginning a search finds nothing, and the index it gives back
counts as a newline unless the start is `-1`. -/
theorem windowEnd_of_neg (hlow : -chunkSize < start) (hneg : start < 0)
    (hlong : chunkSize < content.length) :
    windowEnd content chunkSize start = if start = -1 then chunkSize - 1 else 0 := by
  have hmore : start + chunkSize < content.length := by omega
  have hnone : rfind '\n' content start (start + chunkSize) = -1 :=
    rfind_of_neg '\n' hneg (by omega) (by omega)
  simp only [windowEnd, min_eq_left hmore.le, if_pos hmore, hnone]
  split
  next hlt => rw [if_neg (by omega)]; rfl
  next hle => rw [if_pos (by omega)]; omega

/-! ## Where the next one begins -/

theorem step_eq (hoverlap : 0 ≤ chunkOverlap) (hstart : start < content.length) :
    step content chunkSize chunkOverlap start =
      some (if windowEnd content chunkSize start < content.length then
          windowEnd content chunkSize start - chunkOverlap
        else windowEnd content chunkSize start) := by
  simp only [step, if_pos hstart, nextStart, Option.some_inj]
  split <;> split <;> omega

theorem step_final (hoverlap : 0 ≤ chunkOverlap) (hstart : start < content.length)
    (h : content.length ≤ start + chunkSize) :
    step content chunkSize chunkOverlap start = some (content.length : ℤ) := by
  rw [step_eq hoverlap hstart, windowEnd_final h, if_neg (lt_irrefl _)]

/-- A window in the middle of the text ends behind its last newline, or is
full. -/
theorem step_middle (hoverlap : 0 ≤ chunkOverlap) (hsize : chunkOverlap < chunkSize)
    (hstart : 0 ≤ start) (hmore : start + chunkSize < content.length) :
    (∃ p, LastAt '\n' content (start + 1) (start + chunkSize) p ∧
        windowEnd content chunkSize start = p + 1 ∧
        step content chunkSize chunkOverlap start = some (p + 1 - chunkOverlap)) ∨
      (∀ i, start < i → i < start + chunkSize → ¬ At '\n' content i) ∧
        windowEnd content chunkSize start = start + chunkSize ∧
        step content chunkSize chunkOverlap start =
          some (start + chunkSize - chunkOverlap) := by
  have hwithin : start < content.length := by omega
  rcases windowEnd_cases hstart (by omega) hmore with ⟨p, hp, hend⟩ | ⟨hnone, hend⟩
  · have hlt := hp.lt_stop
    refine Or.inl ⟨p, hp, hend, ?_⟩
    rw [step_eq hoverlap hwithin, hend, if_pos (by omega)]
  · refine Or.inr ⟨hnone, hend, ?_⟩
    rw [step_eq hoverlap hwithin, hend, if_pos hmore]

theorem step_of_lastAt (hoverlap : 0 ≤ chunkOverlap) (hsize : chunkOverlap < chunkSize)
    (hstart : 0 ≤ start) (hmore : start + chunkSize < content.length) {p : ℤ}
    (hp : LastAt '\n' content (start + 1) (start + chunkSize) p) :
    step content chunkSize chunkOverlap start = some (p + 1 - chunkOverlap) := by
  rcases step_middle hoverlap hsize hstart hmore with ⟨q, hq, _, hstep⟩ | ⟨hnone, _⟩
  · rw [hstep, hq.unique hp]
  · exact absurd hp.at_index (hnone p hp.start_le hp.lt_stop)

theorem step_zero_of_lastAt (hoverlap : 0 ≤ chunkOverlap)
    (hsize : chunkOverlap < chunkSize) (hlong : chunkSize < content.length) {p : ℤ}
    (hp : LastAt '\n' content 1 chunkSize p) :
    step content chunkSize chunkOverlap 0 = some (p + 1 - chunkOverlap) :=
  step_of_lastAt hoverlap hsize (le_refl 0) (by omega) (by simpa using hp)

theorem step_neg_one (hoverlap : 0 ≤ chunkOverlap) (hsize : 1 < chunkSize)
    (hlong : chunkSize < content.length) :
    step content chunkSize chunkOverlap (-1) = some (chunkSize - 1 - chunkOverlap) := by
  rw [step_eq hoverlap (by omega), windowEnd_of_neg (by omega) (by omega) hlong,
    if_pos rfl, if_pos (by omega)]

theorem step_before (hsize : chunkOverlap < chunkSize)
    (hlong : chunkSize < content.length) (hlow : -chunkOverlap ≤ start)
    (hneg : start < -1) :
    step content chunkSize chunkOverlap start = some (-chunkOverlap) := by
  have hend : windowEnd content chunkSize start = 0 := by
    rw [windowEnd_of_neg (by omega) (by omega) hlong, if_neg (by omega)]
  rw [step_eq (by omega) (by omega), hend, if_pos (by omega), zero_sub]

/-- From a start before `-1` the loop does not end. -/
theorem not_passes_before (hsize : chunkOverlap < chunkSize)
    (hlong : chunkSize < content.length) (hlow : -chunkOverlap ≤ start)
    (hneg : start < -1) (starts : List ℤ) :
    ¬ Passes (step content chunkSize chunkOverlap) start starts := by
  refine not_passes_of_trap (T := fun s => -chunkOverlap ≤ s ∧ s < -1) ?_ ⟨hlow, hneg⟩
    starts
  intro s hs
  exact ⟨-chunkOverlap, step_before hsize hlong hs.1 hs.2, le_refl _, by omega⟩

/-- A start that is its own successor is never left. -/
theorem not_passes_of_fixed (h : step content chunkSize chunkOverlap start = some start)
    (starts : List ℤ) : ¬ Passes (step content chunkSize chunkOverlap) start starts := by
  refine not_passes_of_trap (T := fun s => s = start) ?_ rfl starts
  rintro s rfl
  exact ⟨s, h, rfl⟩

end SimpleChunkingStrategy
end AiBackend
