import AiBackend.Domain.Chunk
import AiBackend.Support.Loop
import AiBackend.Support.Text
import AiBackend.Support.TextSearch

/-!
# Simple chunking

`SimpleChunkingStrategy`: a window of characters that breaks at a newline
where it can.
-/

namespace AiBackend
namespace SimpleChunkingStrategy

open Python Loop

/-- The end of the window that begins at `start`. -/
def windowEnd (content : List Char) (chunkSize start : ℤ) : ℤ :=
  let stop := min (start + chunkSize) content.length
  if stop < content.length then
    let newlinePos := Text.rfind '\n' content start stop
    if start < newlinePos then newlinePos + 1 else stop
  else stop

/-- The chunk of one window, if its text is not blank. -/
def windowChunk (content : List Char) (start stop : ℤ) (chunkIndex : ℕ) :
    List ChunkData :=
  let chunkContent := Text.strip (slice content start stop)
  if chunkContent.isEmpty then []
  else
    [{ content := String.ofList chunkContent
       startChar := start
       endChar := stop
       chunkIndex := chunkIndex
       tokenCount := (Text.split chunkContent).length }]

/-- The window moves forward, accounting for the overlap. -/
def nextStart (length stop chunkOverlap : ℤ) : ℤ :=
  let start := if stop < length then stop - chunkOverlap else stop
  if stop ≤ start then stop else start

/-- The loop from `start` on; without fuel it has not ended. -/
def windows (content : List Char) (chunkSize chunkOverlap : ℤ) :
    ℕ → ℤ → ℕ → Option (List ChunkData)
  | 0, _, _ => none
  | fuel + 1, start, chunkIndex =>
      if start < content.length then
        let stop := windowEnd content chunkSize start
        let emitted := windowChunk content start stop chunkIndex
        (windows content chunkSize chunkOverlap fuel
          (nextStart content.length stop chunkOverlap)
          (chunkIndex + emitted.length)).map (emitted ++ ·)
      else some []

/-- `chunk`, where the loop has a number of rounds to end in. -/
def chunk (fuel : ℕ) (content : String) (chunkSize chunkOverlap : ℤ) :
    Option (List ChunkData) :=
  if Text.isBlank content then some []
  else windows content.toList chunkSize chunkOverlap fuel 0 0

/-! ## The starts of the windows -/

/-- The start of the window behind the one that begins at `start`, if there
is a window at `start`. -/
def step (content : List Char) (chunkSize chunkOverlap start : ℤ) : Option ℤ :=
  if start < content.length then
    some (nextStart content.length (windowEnd content chunkSize start) chunkOverlap)
  else none

/-- The chunks of the windows that begin at these starts. -/
def emit (content : List Char) (chunkSize : ℤ) : ℕ → List ℤ → List ChunkData
  | _, [] => []
  | chunkIndex, start :: starts =>
      let emitted :=
        windowChunk content start (windowEnd content chunkSize start) chunkIndex
      emitted ++ emit content chunkSize (chunkIndex + emitted.length) starts

variable {content : List Char} {chunkSize chunkOverlap : ℤ}

/-- The loop returns the chunks of the windows it goes through, if it ends. -/
theorem windows_iff_passes {start : ℤ} {chunkIndex : ℕ} {chunks : List ChunkData} :
    (∃ fuel, windows content chunkSize chunkOverlap fuel start chunkIndex =
        some chunks) ↔
      ∃ starts, Passes (step content chunkSize chunkOverlap) start starts ∧
        chunks = emit content chunkSize chunkIndex starts := by
  constructor
  · intro h
    obtain ⟨fuel, h⟩ := h
    induction fuel generalizing start chunkIndex chunks with
    | zero => cases h
    | succ fuel ih =>
        rw [windows] at h
        split at h
        next hmore =>
          obtain ⟨rest, hrest, rfl⟩ := Option.map_eq_some_iff.mp h
          obtain ⟨starts, hpasses, rfl⟩ := ih hrest
          exact ⟨start :: starts, Passes.next (if_pos hmore) hpasses, rfl⟩
        next hdone =>
          cases h
          exact ⟨[], Passes.done (if_neg hdone), rfl⟩
  · intro h
    obtain ⟨starts, hpasses, rfl⟩ := h
    induction hpasses generalizing chunkIndex with
    | @done start hdone =>
        have hend : ¬ start < content.length := by
          intro hlt
          rw [step, if_pos hlt] at hdone
          cases hdone
        exact ⟨1, if_neg hend⟩
    | @next start following starts hnext _ ih =>
        have hmore : start < content.length := by
          by_contra hend
          rw [step, if_neg hend] at hnext
          cases hnext
        rw [step, if_pos hmore] at hnext
        cases hnext
        obtain ⟨fuel, hfuel⟩ := @ih (chunkIndex + (windowChunk content start
          (windowEnd content chunkSize start) chunkIndex).length)
        refine ⟨fuel + 1, ?_⟩
        rw [windows, if_pos hmore]
        dsimp only
        rw [hfuel]
        rfl

theorem chunk_iff_passes {content : String} {chunks : List ChunkData}
    (hblank : ¬ Text.isBlank content = true) :
    (∃ fuel, chunk fuel content chunkSize chunkOverlap = some chunks) ↔
      ∃ starts, Passes (step content.toList chunkSize chunkOverlap) 0 starts ∧
        chunks = emit content.toList chunkSize 0 starts := by
  simp only [chunk, if_neg hblank]
  exact windows_iff_passes

end SimpleChunkingStrategy
end AiBackend
