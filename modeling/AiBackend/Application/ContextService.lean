import AiBackend.Domain.SearchResult
import AiBackend.Support.Printf
import AiBackend.Support.Program

/-!
# The context of a prompt

`ContextService`: search results below a score threshold are dropped, the
others are written as numbered blocks until the token budget is used up.
-/

namespace AiBackend

open Program Python

structure ContextService where
  countTokens : String → String → Except PyExc ℤ
  maxContextTokens : ℤ := 20000
  /-- The double nearest to 0.72. -/
  scoreThreshold : ℚ := 3242591731706757 / 2 ^ 52

namespace ContextService

/-- `_format_block`. -/
def formatBlock (index : ℕ) (result : SearchResult) : String :=
  let title := if result.documentTitle = "" then "Untitled"
    else result.documentTitle
  "[" ++ toString index ++ "] Source: \"" ++ title ++ "\" (chunk " ++
    toString result.chunkIndex ++ ", relevance " ++
    Printf.formatPercent result.score ++ ")\n" ++ result.content

/-- The loop of `build_context` from the `i`-th relevant result on: the blocks
that fit, each with its result. -/
def fittingBlocks (service : ContextService) (model : String) :
    ℕ → ℤ → List SearchResult → Except PyExc (List (String × SearchResult))
  | _, _, [] => .ok []
  | i, currentTokens, result :: rest => do
      let block := formatBlock (i + 1) result
      let blockTokens ← service.countTokens block model
      if service.maxContextTokens < currentTokens + blockTokens then pure []
      else
        let more ← service.fittingBlocks model (i + 1)
          (currentTokens + blockTokens) rest
        pure ((block, result) :: more)

/-- `build_context`: the context and the results that are used in it. -/
def buildContext (service : ContextService) (searchResults : List SearchResult)
    (model : String := "gpt-4o") : Except PyExc (String × List SearchResult) :=
  let relevant := searchResults.filter fun r => service.scoreThreshold ≤ r.score
  if relevant.isEmpty then .ok ("", [])
  else do
    let used ← service.fittingBlocks model 0 0 relevant
    pure (String.intercalate "\n\n" (used.map Prod.fst), used.map Prod.snd)

/-! ## Which results are used -/

/-- The results at or above the threshold. -/
def relevant (service : ContextService) (searchResults : List SearchResult) :
    List SearchResult :=
  searchResults.filter fun r => service.scoreThreshold ≤ r.score

/-- The tokens of the blocks of some results, the first of which is the
`i`-th relevant one. -/
def blockTokens (service : ContextService) (model : String) :
    ℕ → List SearchResult → Except PyExc ℤ
  | _, [] => .ok 0
  | i, result :: rest => do
      let tokens ← service.countTokens (formatBlock (i + 1) result) model
      let more ← service.blockTokens model (i + 1) rest
      pure (tokens + more)

/-- The budget leaves room for the blocks of the first relevant results up to
and including the `j`-th, one after the other. -/
def Fits (service : ContextService) (model : String) (i : ℕ)
    (currentTokens : ℤ) (relevant : List SearchResult) (j : ℕ) : Prop :=
  ∀ n ≤ j, ∃ tokens, service.blockTokens model i (relevant.take (n + 1)) =
    .ok tokens ∧ currentTokens + tokens ≤ service.maxContextTokens

/-- The loop comes to the `j`-th relevant result: those before it fit. -/
def Counted (service : ContextService) (model : String) (i : ℕ)
    (currentTokens : ℤ) (relevant : List SearchResult) (j : ℕ) : Prop :=
  ∀ n < j, Fits service model i currentTokens relevant n

section Used

variable {service : ContextService} {model : String} {i : ℕ}
  {currentTokens : ℤ} {relevant : List SearchResult}
  {used : List (String × SearchResult)}

/-- A further result fits if it fits on its own and the others fit behind
it. -/
theorem fits_cons_succ {result : SearchResult} {tokens : ℤ}
    (hcount : service.countTokens (formatBlock (i + 1) result) model = .ok tokens)
    (hroom : currentTokens + tokens ≤ service.maxContextTokens) {j : ℕ} :
    Fits service model i currentTokens (result :: relevant) (j + 1) ↔
      Fits service model (i + 1) (currentTokens + tokens) relevant j := by
  have hstep : ∀ n, service.blockTokens model i ((result :: relevant).take (n + 1)) =
      (service.blockTokens model (i + 1) (relevant.take n)).map (tokens + ·) := by
    intro n
    rw [List.take_succ_cons, blockTokens, hcount]
    cases service.blockTokens model (i + 1) (relevant.take n) with
    | ok more => rfl
    | error e => rfl
  constructor
  · intro h n hn
    obtain ⟨total, htotal, hle⟩ := h (n + 1) (Nat.succ_le_succ hn)
    rw [hstep] at htotal
    cases hmore : service.blockTokens model (i + 1) (relevant.take (n + 1)) with
    | ok more =>
        rw [hmore] at htotal
        obtain rfl : tokens + more = total := Except.ok.inj htotal
        exact ⟨more, rfl, by omega⟩
    | error e =>
        rw [hmore] at htotal
        cases htotal
  · intro h n hn
    cases n with
    | zero =>
        refine ⟨tokens, ?_, hroom⟩
        rw [hstep]
        simp [blockTokens, Except.map]
    | succ n =>
        obtain ⟨more, hmore, hle⟩ := h n (Nat.le_of_succ_le_succ hn)
        exact ⟨tokens + more, by rw [hstep, hmore]; rfl, by omega⟩

theorem fits_cons_zero {result : SearchResult} {tokens : ℤ}
    (hcount : service.countTokens (formatBlock (i + 1) result) model =
      .ok tokens) :
    Fits service model i currentTokens (result :: relevant) 0 ↔
      currentTokens + tokens ≤ service.maxContextTokens := by
  have hsum : service.blockTokens model i [result] = .ok tokens := by
    rw [blockTokens, hcount]
    simp [blockTokens, bind, Except.bind, pure, Except.pure]
  simp [Fits, hsum]

/-- The used results are the relevant ones that fit. -/
theorem mem_fittingBlocks_iff
    (h : service.fittingBlocks model i currentTokens relevant = .ok used)
    {result : SearchResult} :
    result ∈ used.map Prod.snd ↔ ∃ j, relevant[j]? = some result ∧
      Fits service model i currentTokens relevant j := by
  induction relevant generalizing i currentTokens used with
  | nil =>
      cases h
      simp
  | cons first rest ih =>
      rw [fittingBlocks] at h
      obtain ⟨tokens, hcount, h⟩ := except_bind_eq_ok_iff.mp h
      have hzero : Fits service model i currentTokens (first :: rest) 0 ↔
          currentTokens + tokens ≤ service.maxContextTokens :=
        fits_cons_zero hcount
      split at h
      next hfull =>
        cases h
        have hnone : ∀ j, ¬ Fits service model i currentTokens (first :: rest) j :=
          fun j hfits => absurd (hzero.mp fun n hn => hfits n (by omega)) (by omega)
        simp [hnone]
      next hroom =>
        have hroom : currentTokens + tokens ≤ service.maxContextTokens := by omega
        obtain ⟨more, hmore, h⟩ := except_bind_eq_ok_iff.mp h
        cases h
        rw [List.map_cons, List.mem_cons, ih hmore]
        constructor
        · intro h
          rcases h with rfl | ⟨j, hj, hfits⟩
          · exact ⟨0, rfl, hzero.mpr hroom⟩
          · exact ⟨j + 1, hj, (fits_cons_succ hcount hroom).mpr hfits⟩
        · intro h
          obtain ⟨j, hj, hfits⟩ := h
          cases j with
          | zero => exact Or.inl (Option.some.inj hj).symm
          | succ j => exact Or.inr ⟨j, hj, (fits_cons_succ hcount hroom).mp hfits⟩

/-- The blocks are those of the used results, numbered in their order. -/
theorem fst_fittingBlocks
    (h : service.fittingBlocks model i currentTokens relevant = .ok used) :
    used.map Prod.fst =
      (used.map Prod.snd).mapIdx fun k result => formatBlock (i + k + 1) result := by
  induction relevant generalizing i currentTokens used with
  | nil =>
      cases h
      rfl
  | cons first rest ih =>
      rw [fittingBlocks] at h
      obtain ⟨tokens, -, h⟩ := except_bind_eq_ok_iff.mp h
      split at h
      · cases h
        rfl
      · obtain ⟨more, hmore, h⟩ := except_bind_eq_ok_iff.mp h
        cases h
        rw [List.map_cons, List.map_cons, List.mapIdx_cons, ih hmore]
        have hshift : ∀ k, i + 1 + k + 1 = i + (k + 1) + 1 := by omega
        simp only [hshift, Nat.add_zero]

theorem counted_cons_succ {result : SearchResult} {tokens : ℤ}
    (hcount : service.countTokens (formatBlock (i + 1) result) model = .ok tokens)
    {j : ℕ} :
    Counted service model i currentTokens (result :: relevant) (j + 1) ↔
      currentTokens + tokens ≤ service.maxContextTokens ∧
        Counted service model (i + 1) (currentTokens + tokens) relevant j := by
  constructor
  · intro h
    have hroom := (fits_cons_zero hcount).mp (h 0 (Nat.succ_pos j))
    refine ⟨hroom, fun n hn => ?_⟩
    exact (fits_cons_succ hcount hroom).mp (h (n + 1) (Nat.succ_lt_succ hn))
  · intro h n hn
    cases n with
    | zero => exact (fits_cons_zero hcount).mpr h.1
    | succ n =>
        exact (fits_cons_succ hcount h.1).mpr (h.2 n (Nat.lt_of_succ_lt_succ hn))

theorem fittingBlocks_cons_returns_iff {result : SearchResult} {tokens : ℤ}
    (hcount : service.countTokens (formatBlock (i + 1) result) model =
      .ok tokens) :
    (∃ used, service.fittingBlocks model i currentTokens (result :: relevant) =
        .ok used) ↔
      service.maxContextTokens < currentTokens + tokens ∨
        ∃ used, service.fittingBlocks model (i + 1) (currentTokens + tokens)
          relevant = .ok used := by
  constructor
  · intro h
    obtain ⟨used, h⟩ := h
    rw [fittingBlocks] at h
    obtain ⟨tokens', hcount', h⟩ := except_bind_eq_ok_iff.mp h
    obtain rfl : tokens = tokens' := Except.ok.inj (hcount.symm.trans hcount')
    split at h
    next hfull => exact Or.inl hfull
    next =>
      obtain ⟨more, hmore, -⟩ := except_bind_eq_ok_iff.mp h
      exact Or.inr ⟨more, hmore⟩
  · intro h
    by_cases hfull : service.maxContextTokens < currentTokens + tokens
    · refine ⟨[], ?_⟩
      rw [fittingBlocks]
      exact except_bind_eq_ok_iff.mpr ⟨tokens, hcount, if_pos hfull⟩
    · obtain ⟨more, hmore⟩ := h.resolve_left hfull
      refine ⟨(formatBlock (i + 1) result, result) :: more, ?_⟩
      rw [fittingBlocks]
      refine except_bind_eq_ok_iff.mpr ⟨tokens, hcount, (if_neg hfull).trans ?_⟩
      exact except_bind_eq_ok_iff.mpr ⟨more, hmore, rfl⟩

/-- The loop returns if every block it comes to can be counted. -/
theorem fittingBlocks_returns_iff :
    (∃ used, service.fittingBlocks model i currentTokens relevant = .ok used) ↔
      ∀ (j : ℕ) (result : SearchResult), relevant[j]? = some result →
        Counted service model i currentTokens relevant j →
          ∃ tokens, service.countTokens (formatBlock (i + j + 1) result) model =
            .ok tokens := by
  induction relevant generalizing i currentTokens with
  | nil => exact iff_of_true ⟨[], rfl⟩ (by simp)
  | cons first rest ih =>
      cases hcount : service.countTokens (formatBlock (i + 1) first) model with
      | error e =>
          apply iff_of_false
          · intro h
            obtain ⟨used, h⟩ := h
            rw [fittingBlocks, hcount] at h
            cases h
          · intro h
            obtain ⟨tokens, htokens⟩ := h 0 first rfl (by simp [Counted])
            rw [Nat.add_zero, hcount] at htokens
            cases htokens
      | ok tokens =>
          have hshift : ∀ j, i + (j + 1) + 1 = i + 1 + j + 1 := by omega
          rw [fittingBlocks_cons_returns_iff hcount, ih]
          constructor
          · intro h j result hj hcounted
            cases j with
            | zero =>
                obtain rfl := Option.some.inj hj
                exact ⟨tokens, hcount⟩
            | succ j =>
                obtain ⟨hroom, hcounted⟩ := (counted_cons_succ hcount).mp hcounted
                rw [hshift]
                exact h.resolve_left (not_lt.mpr hroom) j result hj hcounted
          · intro h
            by_cases hfull : service.maxContextTokens < currentTokens + tokens
            · exact Or.inl hfull
            · refine Or.inr fun j result hj hcounted => ?_
              rw [← hshift]
              exact h (j + 1) result hj
                ((counted_cons_succ hcount).mpr ⟨not_lt.mp hfull, hcounted⟩)

end Used

theorem buildContext_eq {service : ContextService} {model : String}
    {searchResults results : List SearchResult} {context : String}
    (h : service.buildContext searchResults model = .ok (context, results)) :
    ∃ blocks, service.fittingBlocks model 0 0 (service.relevant searchResults) =
        .ok blocks ∧
      context = String.intercalate "\n\n" (blocks.map Prod.fst) ∧
      results = blocks.map Prod.snd := by
  unfold buildContext at h
  dsimp only at h
  split at h
  next hempty =>
    cases h
    refine ⟨[], ?_, rfl, rfl⟩
    rw [relevant, List.isEmpty_iff.mp hempty]
    rfl
  next =>
    obtain ⟨blocks, hblocks, h⟩ := except_bind_eq_ok_iff.mp h
    cases h
    exact ⟨blocks, hblocks, rfl, rfl⟩

theorem buildContext_returns_iff {service : ContextService} {model : String}
    {searchResults : List SearchResult} :
    (∃ context used, service.buildContext searchResults model =
        .ok (context, used)) ↔
      ∃ blocks, service.fittingBlocks model 0 0
        (service.relevant searchResults) = .ok blocks := by
  constructor
  · intro h
    obtain ⟨context, used, h⟩ := h
    obtain ⟨blocks, hblocks, -⟩ := buildContext_eq h
    exact ⟨blocks, hblocks⟩
  · intro h
    obtain ⟨blocks, hblocks⟩ := h
    unfold buildContext
    dsimp only
    split
    · exact ⟨_, _, rfl⟩
    · exact ⟨_, _, except_bind_eq_ok_iff.mpr ⟨blocks, hblocks, rfl⟩⟩

end ContextService
end AiBackend
