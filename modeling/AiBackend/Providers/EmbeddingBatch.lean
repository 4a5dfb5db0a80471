import AiBackend.Infrastructure.OpenAI
import AiBackend.Support.Program
import Mathlib.Data.List.Nodup

/-!
# What one embedding call returns

`OpenAIEmbeddingService.embed_batch` pads its result with `None`: the list is
as long as the texts, and it has a gap exactly if the API was asked and
answered with fewer embeddings than it was asked for.
-/

namespace AiBackend
namespace OpenAIEmbeddingService

open OpenAI Python

/-! ## The loop over the texts -/

/-- What the loop has found in a call: `uncached` lists the gaps of `results`,
counted from `i` on. -/
structure Separated.Lists (separated : Separated) (i : ℕ) (texts : List String) : Prop where
  length : separated.results.length = texts.length
  nodup : (separated.uncached.map Prod.fst).Nodup
  gaps : ∀ k, k ∈ separated.uncached.map Prod.fst ↔
    i ≤ k ∧ separated.results[k - i]? = some none

theorem lists_of_separate {cache : Option GetEmbedding} {model : String} {i : ℕ}
    {texts : List String} {separated : Separated}
    (h : separate cache model i texts = .ok separated) : separated.Lists i texts := by
  induction texts generalizing i separated with
  | nil =>
      cases h
      exact ⟨rfl, List.nodup_nil, by simp⟩
  | cons text rest ih =>
      simp only [separate, Program.except_bind_eq_ok_iff] at h
      obtain ⟨cached, -, others, hothers, hseparated⟩ := h
      have hrest := ih hothers
      cases hseparated
      have hnext : ∀ k, k ∈ others.uncached.map Prod.fst → i < k := fun k hk =>
        ((hrest.gaps k).mp hk).1
      -- behind the first text the indices are one larger
      have hgaps : ∀ k, i < k → (k ∈ others.uncached.map Prod.fst ↔
          (cached :: others.results)[k - i]? = some none) := by
        intro k hk
        rw [hrest.gaps, show k - i = (k - (i + 1)) + 1 by omega, List.getElem?_cons_succ]
        exact and_iff_right hk
      refine ⟨by simp [hrest.length], ?_, fun k => ?_⟩
      · cases cached with
        | none => exact List.nodup_cons.mpr ⟨fun hk => (hnext i hk).false, hrest.nodup⟩
        | some embedding => exact hrest.nodup
      · rcases Nat.lt_trichotomy k i with hlt | rfl | hgt
        · have habsent : k ∉ others.uncached.map Prod.fst := fun hk =>
            absurd (hnext k hk) (by omega)
          cases cached with
          | none => simp [habsent, hlt.ne, not_le.mpr hlt]
          | some embedding => simp [habsent, not_le.mpr hlt]
        · have habsent : k ∉ others.uncached.map Prod.fst := fun hk => (hnext k hk).false
          cases cached with
          | none => simp
          | some embedding => simp [habsent]
        · rw [← hgaps k hgt]
          cases cached with
          | none => simp [hgt.ne', hgt.le]
          | some embedding => simp [hgt.le]

/-! ## Filling the gaps -/

theorem length_fill (results : List (Option EmbeddingVector))
    (fresh : List ((ℕ × String) × EmbeddingVector)) :
    (fill results fresh).length = results.length := by
  induction fresh generalizing results with
  | nil => rfl
  | cons pair fresh ih => exact (ih _).trans List.length_set

/-- A gap is left where there was one and no pair wrote. -/
theorem getElem?_fill_eq_none_iff (results : List (Option EmbeddingVector))
    (fresh : List ((ℕ × String) × EmbeddingVector)) (k : ℕ) :
    (fill results fresh)[k]? = some none ↔
      results[k]? = some none ∧ k ∉ fresh.map fun pair => pair.1.1 := by
  induction fresh generalizing results with
  | nil => simp [fill]
  | cons pair fresh ih =>
      rw [fill, List.foldl_cons, ← fill, ih, List.map_cons, List.mem_cons, not_or]
      by_cases hk : k = pair.1.1
      · subst hk
        by_cases hlength : pair.1.1 < results.length
        · simp [List.getElem?_set_self hlength]
        · have hend : results.length ≤ pair.1.1 := not_lt.mp hlength
          rw [List.getElem?_eq_none (by simpa using hend), List.getElem?_eq_none hend]
          simp
      · rw [List.getElem?_set_ne (Ne.symm hk)]
        simp [hk]

/-- `zip` stops where the embeddings do. -/
theorem indices_zip (uncached : List (ℕ × String)) (embeddings : List EmbeddingVector) :
    (uncached.zip embeddings).map (fun pair => pair.1.1) =
      (uncached.map Prod.fst).take embeddings.length := by
  induction uncached generalizing embeddings with
  | nil => simp
  | cons first uncached ih =>
      cases embeddings with
      | nil => rfl
      | cons embedding embeddings => simp [ih]

/-- The first `n` items of a list without repetitions are all of them if and
only if there are no more. -/
theorem all_mem_take_iff {α : Type} {xs : List α} (h : xs.Nodup) (n : ℕ) :
    (∀ x ∈ xs, x ∈ xs.take n) ↔ xs.length ≤ n := by
  constructor
  · intro hall
    by_contra hshort
    rw [not_le] at hshort
    have hmem : xs[n] ∈ xs.drop n :=
      List.mem_drop_iff_getElem.mpr ⟨0, by simpa using hshort, by simp⟩
    exact List.disjoint_take_drop h le_rfl (hall _ (List.getElem_mem hshort)) hmem
  · intro hlength x hx
    rwa [List.take_of_length_le hlength]

/-- No gap is left if and only if there are as many embeddings as gaps. -/
theorem all_filled_iff {separated : Separated} {texts : List String}
    (h : separated.Lists 0 texts) (embeddings : List EmbeddingVector) :
    none ∉ fill separated.results (separated.uncached.zip embeddings) ↔
      separated.uncached.length ≤ embeddings.length := by
  have hgap : ∀ k, (fill separated.results
      (separated.uncached.zip embeddings))[k]? = some none ↔
        k ∈ separated.uncached.map Prod.fst ∧
          k ∉ (separated.uncached.map Prod.fst).take embeddings.length := by
    intro k
    rw [getElem?_fill_eq_none_iff, indices_zip, h.gaps]
    simp
  rw [List.mem_iff_getElem?]
  simp only [hgap, not_exists, not_and, not_not]
  rw [all_mem_take_iff h.nodup, List.length_map]

/-! ## The call -/

/-- The API answers a call with fewer embeddings than it was asked for. -/
def AnswersShort (settings : OpenAISettings) (cache : Option GetEmbedding)
    (create : EmbeddingsRequest → Except SdkError (List (List ℚ)))
    (texts : List String) : Prop :=
  ∃ separated data, separate cache settings.embeddingModel 0 texts = .ok separated ∧
    create { model := settings.embeddingModel, input := separated.uncached.map Prod.snd } =
      .ok data ∧ data.length < separated.uncached.length

theorem length_of_mapM_ok {α β ε : Type} {f : α → Except ε β} {xs : List α} {ys : List β}
    (h : xs.mapM f = .ok ys) : ys.length = xs.length := by
  induction xs generalizing ys with
  | nil =>
      cases h
      rfl
  | cons x xs ih =>
      rw [List.mapM_cons, Program.except_bind_eq_ok_iff] at h
      obtain ⟨y, -, h⟩ := h
      obtain ⟨rest, hrest, h⟩ := Program.except_bind_eq_ok_iff.mp h
      cases h
      simp [ih hrest]

theorem mapError_eq_ok_iff {ε ε' α : Type} {f : ε → ε'} {result : Except ε α} {a : α} :
    result.mapError f = .ok a ↔ result = .ok a := by
  cases result with
  | ok b => simp [Except.mapError]
  | error e => simp [Except.mapError]

/-- A call that returns has one embedding for each item of the answer. -/
theorem exists_of_callOpenai {settings : OpenAISettings}
    {create : EmbeddingsRequest → Except SdkError (List (List ℚ))} {texts : List String}
    {model : String} {embeddings : List EmbeddingVector}
    (h : callOpenai settings create texts model = .ok embeddings) :
    ∃ data, create { model := model, input := texts } = .ok data ∧
      embeddings.length = data.length := by
  unfold callOpenai at h
  split at h
  · cases h
  · cases h
  · cases h
  next data hdata => exact ⟨data, hdata, length_of_mapM_ok (mapError_eq_ok_iff.mp h)⟩

/-- The list a call returns is as long as the texts, and it is complete if and
only if the API did not answer short. -/
theorem embedBatch_spec {settings : OpenAISettings} {cache : Option GetEmbedding}
    {create : EmbeddingsRequest → Except SdkError (List (List ℚ))} {texts : List String}
    {results : List (Option EmbeddingVector)} {writes : List CacheWrite}
    (h : embedBatch settings cache create texts = .ok (results, writes)) :
    results.length = texts.length ∧
      (none ∉ results ↔ ¬ AnswersShort settings cache create texts) := by
  unfold embedBatch at h
  split at h
  next hempty =>
    cases h
    obtain rfl := List.isEmpty_iff.mp hempty
    refine ⟨rfl, iff_of_true List.not_mem_nil ?_⟩
    rintro ⟨separated, data, hseparated, -, hshort⟩
    cases hseparated
    exact absurd hshort (Nat.not_lt_zero _)
  next hne =>
    obtain ⟨separated, hseparated, h⟩ := Program.except_bind_eq_ok_iff.mp h
    rw [mapError_eq_ok_iff] at hseparated
    have hlists := lists_of_separate hseparated
    have hanswer : AnswersShort settings cache create texts ↔ ∃ data,
        create ⟨settings.embeddingModel, separated.uncached.map Prod.snd⟩ = .ok data ∧
          data.length < separated.uncached.length := by
      simp [AnswersShort, hseparated]
    rw [hanswer]
    split at h
    next hcached =>
      cases h
      have hnone : separated.uncached = [] := List.isEmpty_iff.mp hcached
      refine ⟨hlists.length, iff_of_true ?_ (by simp [hnone])⟩
      simpa [fill, hnone] using (all_filled_iff hlists []).mpr (by simp [hnone])
    next hasked =>
      obtain ⟨embeddings, hcall, h⟩ := Program.except_bind_eq_ok_iff.mp h
      obtain ⟨data, hdata, hlength⟩ := exists_of_callOpenai hcall
      cases h
      refine ⟨(length_fill _ _).trans hlists.length, ?_⟩
      rw [all_filled_iff hlists, hdata, hlength]
      simp

end OpenAIEmbeddingService
end AiBackend
