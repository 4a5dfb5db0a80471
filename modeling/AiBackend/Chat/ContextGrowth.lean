import AiBackend.Chat.ContextBlocks

/-!
# A context with more room

With a larger budget, a lower threshold or more results behind the others, a
context only grows at its end: every block stays where it is, with its number.
-/

namespace AiBackend
namespace ContextService

open Program Python

/-- The other service counts as this one does, has at least its budget, and
asks for no more relevance. -/
structure Roomier (service other : ContextService) : Prop where
  countTokens : other.countTokens = service.countTokens
  maxContextTokens : service.maxContextTokens ≤ other.maxContextTokens
  scoreThreshold : other.scoreThreshold ≤ service.scoreThreshold

/-- The results are in the order of their scores, the highest first. -/
def Ordered (results : List SearchResult) : Prop :=
  results.Pairwise fun first second => second.score ≤ first.score

variable {service other : ContextService} {model : String}
  {results relevant extra : List SearchResult} {i : ℕ} {currentTokens : ℤ}

/-- In order, the results above a higher threshold come first. -/
theorem relevant_starts (hordered : Ordered results)
    (hthreshold : other.scoreThreshold ≤ service.scoreThreshold) :
    service.relevant results <+: other.relevant results := by
  induction results with
  | nil => exact List.nil_prefix
  | cons result rest ih =>
      obtain ⟨hfirst, hrest⟩ := List.pairwise_cons.mp hordered
      by_cases hrelevant : service.scoreThreshold ≤ result.score
      · have hlower : other.scoreThreshold ≤ result.score := hthreshold.trans hrelevant
        rw [ContextService.relevant, ContextService.relevant,
          List.filter_cons_of_pos (by simpa using hrelevant),
          List.filter_cons_of_pos (by simpa using hlower), List.prefix_cons_inj]
        exact ih hrest
      · -- no result behind this one has a higher score
        have hnone : service.relevant (result :: rest) = [] := by
          refine List.filter_eq_nil_iff.mpr fun later hlater => ?_
          have hle : later.score ≤ result.score := by
            rcases List.mem_cons.mp hlater with rfl | hlater
            · exact le_rfl
            · exact hfirst later hlater
          simpa using hle.trans_lt (not_le.mp hrelevant)
        rw [hnone]
        exact List.nil_prefix

/-- With more room the loop goes at least as far. -/
theorem fittingBlocks_grows (hcount : other.countTokens = service.countTokens)
    (hbudget : service.maxContextTokens ≤ other.maxContextTokens)
    {used : List (String × SearchResult)}
    (h : other.fittingBlocks model i currentTokens (relevant ++ extra) = .ok used) :
    ∃ blocks, service.fittingBlocks model i currentTokens relevant = .ok blocks ∧
      blocks <+: used := by
  induction relevant generalizing i currentTokens used with
  | nil => exact ⟨[], rfl, List.nil_prefix⟩
  | cons result rest ih =>
      rw [List.cons_append, fittingBlocks] at h
      obtain ⟨tokens, htokens, h⟩ := except_bind_eq_ok_iff.mp h
      rw [hcount] at htokens
      by_cases hfull : service.maxContextTokens < currentTokens + tokens
      · refine ⟨[], ?_, List.nil_prefix⟩
        rw [fittingBlocks]
        exact except_bind_eq_ok_iff.mpr ⟨tokens, htokens, if_pos hfull⟩
      · rw [if_neg (by omega)] at h
        obtain ⟨more, hmore, h⟩ := except_bind_eq_ok_iff.mp h
        cases h
        obtain ⟨blocks, hblocks, hstarts⟩ := ih hmore
        refine ⟨(formatBlock (i + 1) result, result) :: blocks, ?_,
          List.prefix_cons_inj _ |>.mpr hstarts⟩
        rw [fittingBlocks]
        refine except_bind_eq_ok_iff.mpr ⟨tokens, htokens, (if_neg hfull).trans ?_⟩
        exact except_bind_eq_ok_iff.mpr ⟨blocks, hblocks, rfl⟩

/-- Joined texts only grow with the list. -/
theorem intercalate_starts {separator : String} {texts more : List String}
    (h : texts <+: more) :
    ∃ rest, String.intercalate separator more = String.intercalate separator texts ++ rest := by
  obtain ⟨later, rfl⟩ := h
  by_cases htexts : texts = []
  · subst htexts
    exact ⟨_, by rw [String.intercalate_nil, String.empty_append]⟩
  · by_cases hlater : later = []
    · subst hlater
      exact ⟨"", by rw [List.append_nil, String.append_empty]⟩
    · exact ⟨_, by rw [String.intercalate_append_of_ne_nil htexts hlater, String.append_assoc]⟩

/-- Where a roomier service builds a context, this one builds a beginning of
it, from the first of its results. -/
theorem buildContext_grows (h : service.Roomier other) (hordered : Ordered results)
    (more : List SearchResult) {context : String} {used : List SearchResult}
    (hbuilt : other.buildContext (results ++ more) model = .ok (context, used)) :
    ∃ shorter fewer rest, service.buildContext results model = .ok (shorter, fewer) ∧
      context = shorter ++ rest ∧ fewer <+: used := by
  obtain ⟨blocks, hblocks, rfl, rfl⟩ := buildContext_eq hbuilt
  obtain ⟨extra, hextra⟩ := relevant_starts hordered h.scoreThreshold
  have hall : other.relevant (results ++ more) =
      service.relevant results ++ (extra ++ other.relevant more) := by
    rw [ContextService.relevant, List.filter_append, ← List.append_assoc, hextra]
    rfl
  rw [hall] at hblocks
  obtain ⟨fitting, hfitting, hstarts⟩ :=
    fittingBlocks_grows h.countTokens h.maxContextTokens hblocks
  obtain ⟨shorter, fewer, hbuilds⟩ := buildContext_returns_iff.mpr ⟨fitting, hfitting⟩
  obtain ⟨same, hsame, rfl, rfl⟩ := buildContext_eq hbuilds
  obtain rfl : fitting = same := Except.ok.inj (hfitting.symm.trans hsame)
  obtain ⟨rest, hrest⟩ := intercalate_starts (hstarts.map Prod.fst)
  exact ⟨_, _, rest, hbuilds, hrest, hstarts.map Prod.snd⟩

/-- Blocks of four hundred tokens, and a budget. -/
def sampleService (maxContextTokens : ℤ) : ContextService where
  countTokens := fun _ _ => .ok 400
  maxContextTokens := maxContextTokens

theorem buildContext_grows_sample : ∃ shorter fewer context used rest,
    (sampleService 500).buildContext [resultWith "A", resultWith "B"] = .ok (shorter, fewer) ∧
      (sampleService 1000).buildContext [resultWith "A", resultWith "B", resultWith "C"] =
        .ok (context, used) ∧
      context = shorter ++ rest ∧ fewer <+: used := by
  have hroomier : (sampleService 500).Roomier (sampleService 1000) :=
    ⟨rfl, by decide, le_rfl⟩
  have hordered : Ordered [resultWith "A", resultWith "B"] := by
    simp [Ordered, resultWith]
  obtain ⟨context, used, hbuilt⟩ : ∃ context used,
      (sampleService 1000).buildContext ([resultWith "A", resultWith "B"] ++ [resultWith "C"]) =
        .ok (context, used) :=
    buildContext_returns_iff.mpr
      (fittingBlocks_returns_iff.mpr fun _ _ _ _ => ⟨400, rfl⟩)
  obtain ⟨shorter, fewer, rest, hbuilds, hcontext, hused⟩ :=
    buildContext_grows hroomier hordered [resultWith "C"] hbuilt
  exact ⟨shorter, fewer, context, used, rest, hbuilds, hbuilt, hcontext, hused⟩

end ContextService
end AiBackend
