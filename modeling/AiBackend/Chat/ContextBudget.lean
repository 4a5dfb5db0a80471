import AiBackend.Chat.Citations
import AiBackend.Support.Subadditive

/-!
# The budget of a context

The loop adds up the tokens of the blocks, but the context joins them with
separators that nobody counts.  What can be said of the context follows from
the counts of the blocks, the separator and the empty text: it stays within
the budget for every counter that gives these counts if and only if the
separators fit in as well.
-/

namespace AiBackend
namespace ContextService

open Program

/-- A token counter: joined texts have at most the tokens of both. -/
def IsTokenCount (count : String → ℕ) : Prop :=
  ∀ a b, count (a ++ b) ≤ count a + count b

/-- The service with a counter. -/
def counting (service : ContextService) (count : String → ℕ) : ContextService :=
  { service with countTokens := fun text _ => .ok (count text) }

/-- The context that the service builds is within its budget. -/
def ContextWithinBudget (service : ContextService) (count : String → ℕ) (model : String)
    (searchResults : List SearchResult) : Prop :=
  ∃ context used,
    (service.counting count).buildContext searchResults model = .ok (context, used) ∧
      (count context : ℤ) ≤ service.maxContextTokens

/-- Two counters agree on some blocks, on the separator and on the empty
text. -/
structure SameCounts (blocks : List String) (count count' : String → ℕ) : Prop where
  blocks : ∀ block ∈ blocks, count' block = count block
  separator : count' "\n\n" = count "\n\n"
  empty : count' "" = count ""

/-- The tokens of some blocks, counted one by one. -/
def total (count : String → ℕ) (blocks : List String) : ℕ := (blocks.map count).sum

/-- Blocks that fit into the budget fit together with their separators, and
where not even the first one fits, the empty text does. -/
structure LeavesRoom (budget : ℤ) (count : String → ℕ) (blocks : List String) : Prop where
  separators : ∀ n, 0 < n → n ≤ blocks.length →
    (total count (blocks.take n) : ℤ) ≤ budget →
      ((total count (blocks.take n) + (n - 1) * count "\n\n" : ℕ) : ℤ) ≤ budget
  empty : (∀ block ∈ blocks.head?, budget < count block) → (count "" : ℤ) ≤ budget

/-! ## What the loop takes -/

section Used

variable {service : ContextService} {count : String → ℕ} {model : String}
  {searchResults : List SearchResult}

theorem countsTokens_counting : (service.counting count).CountsTokens := by
  intro text model tokens h
  cases h
  exact Int.natCast_nonneg _

theorem blockTokens_counting (i : ℕ) (results : List SearchResult) :
    (service.counting count).blockTokens model i results =
      .ok (total count (results.mapIdx fun k result => formatBlock (i + k + 1) result)) := by
  induction results generalizing i with
  | nil => rfl
  | cons result rest ih =>
      have hcount : (service.counting count).countTokens (formatBlock (i + 1) result) model =
          .ok (count (formatBlock (i + 1) result)) := rfl
      have hshift : ∀ k, i + (k + 1) + 1 = i + 1 + k + 1 := by omega
      refine (blockTokens_cons_eq_ok_iff hcount).mpr ⟨_, ih (i + 1), ?_⟩
      simp [total, List.mapIdx_cons, hshift]

theorem take_blocksOf (results : List SearchResult) (n : ℕ) :
    blocksOf (results.take n) = (blocksOf results).take n := by
  apply List.ext_getElem?
  intro k
  simp only [blocksOf, List.getElem?_mapIdx, List.getElem?_take]
  split
  · rfl
  · rfl

/-- The context is made of the first `n` blocks, where `n` is as large as the
budget allows. -/
theorem exists_used (service : ContextService) (count : String → ℕ) (model : String)
    (searchResults : List SearchResult) :
    ∃ n ≤ (blocksOf (service.relevant searchResults)).length,
      (∃ used, (service.counting count).buildContext searchResults model =
        .ok (String.intercalate "\n\n"
          ((blocksOf (service.relevant searchResults)).take n), used)) ∧
        (n = 0 ∨ (total count ((blocksOf (service.relevant searchResults)).take n) : ℤ) ≤
          service.maxContextTokens) ∧
        ∀ m, n < m → m ≤ (blocksOf (service.relevant searchResults)).length →
          service.maxContextTokens <
            total count ((blocksOf (service.relevant searchResults)).take m) := by
  let relevant := service.relevant searchResults
  have hcounted : ∀ text, ∃ tokens, (service.counting count).countTokens text model =
      .ok tokens := fun text => ⟨count text, rfl⟩
  obtain ⟨context, used, h⟩ := exists_buildContext hcounted searchResults
  have hagree := citationsAgree_of_buildContext countsTokens_counting h
  have hbegins : used <+: relevant := hagree.longest.isPrefix
  have hused : used = relevant.take used.length := List.prefix_iff_eq_take.mp hbegins
  have hblocks : ∀ results, (service.counting count).blockTokens model 0 results =
      .ok (total count (blocksOf results)) := by
    intro results
    rw [blockTokens_counting]
    simp only [Nat.zero_add]
    rfl
  have hlength : (blocksOf relevant).length = relevant.length := List.length_mapIdx
  refine ⟨used.length, hlength ▸ hbegins.length_le, ⟨used, ?_⟩, ?_, fun m hm hle => ?_⟩
  · rw [h, hagree.context, ← take_blocksOf, ← hused]
  · rw [← take_blocksOf, ← hused]
    rcases hagree.longest.fits with hnil | ⟨tokens, htokens, hle⟩
    · exact Or.inl (by rw [hnil]; rfl)
    · rw [hblocks, Except.ok.injEq] at htokens
      have hsum : 0 + tokens ≤ service.maxContextTokens := hle
      exact Or.inr (by omega)
  · rw [← take_blocksOf]
    have hfits : m ≤ relevant.length := hlength ▸ hle
    have hlonger : service.maxContextTokens < 0 + total count (blocksOf (relevant.take m)) :=
      hagree.longest.longest (relevant.take m) (List.take_prefix m _)
        (by rwa [List.length_take, Nat.min_eq_left hfits]) _ (hblocks _)
    rwa [zero_add] at hlonger

end Used

/-! ## Blocks joined with separators -/

section Joined

variable {count : String → ℕ} {blocks : List String}

theorem sum_intersperse (count : String → ℕ) (separator first : String)
    (rest : List String) :
    (((first :: rest).intersperse separator).map count).sum =
      total count (first :: rest) + rest.length * count separator := by
  induction rest generalizing first with
  | nil => simp [total]
  | cons second rest ih =>
      rw [List.intersperse_cons_cons, List.map_cons, List.map_cons, List.sum_cons,
        List.sum_cons, ih]
      simp only [total, List.map_cons, List.sum_cons, List.length_cons]
      ring

theorem mem_intersperse {α : Type} {separator x : α} {xs : List α}
    (h : x ∈ xs.intersperse separator) : x ∈ xs ∨ x = separator := by
  induction xs with
  | nil => cases h
  | cons first rest ih =>
      cases rest with
      | nil => exact Or.inl h
      | cons second rest =>
          rw [List.intersperse_cons_cons, List.mem_cons, List.mem_cons] at h
          rcases h with rfl | rfl | h
          · exact Or.inl List.mem_cons_self
          · exact Or.inr rfl
          · exact (ih h).imp_left (List.mem_cons_of_mem _)

theorem map_intersperse {α β : Type} (f : α → β) (separator : α) (xs : List α) :
    (xs.intersperse separator).map f = (xs.map f).intersperse (f separator) := by
  induction xs with
  | nil => rfl
  | cons first rest ih =>
      cases rest with
      | nil => rfl
      | cons second rest =>
          rw [List.intersperse_cons_cons, List.map_cons, List.map_cons, ih]
          rfl

/-- The blocks and the separator. -/
def pieces (blocks : List String) : Set (List Char) :=
  {piece | ∃ text, (text ∈ blocks ∨ text = "\n\n") ∧ piece = text.toList}

/-- Joined blocks are put together from pieces, which count what the blocks
and their separators do. -/
theorem exists_pieces (count : String → ℕ) {n : ℕ} (hn : 0 < n) (hle : n ≤ blocks.length) :
    ∃ first rest,
      (String.intercalate "\n\n" (blocks.take n)).toList = (first :: rest).flatten ∧
        (∀ piece ∈ first :: rest, piece ∈ pieces blocks) ∧
        ((first :: rest).map fun cs => count (String.ofList cs)).sum =
          total count (blocks.take n) + (n - 1) * count "\n\n" := by
  obtain ⟨block, others, htake⟩ : ∃ block others, blocks.take n = block :: others :=
    List.exists_cons_of_length_pos (by rw [List.length_take]; omega)
  have hlength : others.length = n - 1 := by
    have hsame := congrArg List.length htake
    rw [List.length_take, List.length_cons] at hsame
    omega
  let parts := (block :: others).intersperse "\n\n"
  obtain ⟨part, more, hparts⟩ : ∃ part more, parts = part :: more := by
    cases others with
    | nil => exact ⟨_, _, rfl⟩
    | cons second rest => exact ⟨_, _, rfl⟩
  have hmem : ∀ text ∈ parts, text ∈ blocks ∨ text = "\n\n" := by
    intro text htext
    rcases mem_intersperse htext with htext | rfl
    · exact Or.inl (List.mem_of_mem_take (htake ▸ htext))
    · exact Or.inr rfl
  refine ⟨part.toList, more.map String.toList, ?_, ?_, ?_⟩
  · rw [htake, String.toList_intercalate, List.intercalate, ← map_intersperse,
      ← List.map_cons, ← hparts]
  · rw [← List.map_cons, ← hparts]
    intro piece hpiece
    obtain ⟨text, htext, rfl⟩ := List.mem_map.mp hpiece
    exact ⟨text, hmem text htext, rfl⟩
  · rw [← List.map_cons, ← hparts, List.map_map, htake, ← hlength, ← sum_intersperse]
    simp [Function.comp_def, parts]

/-- A context of blocks counts at most what they and their separators do. -/
theorem count_intercalate_le (hcount : IsTokenCount count) {n : ℕ} (hn : 0 < n)
    (hle : n ≤ blocks.length) :
    count (String.intercalate "\n\n" (blocks.take n)) ≤
      total count (blocks.take n) + (n - 1) * count "\n\n" := by
  have hlists : Subadditive fun cs => count (String.ofList cs) := by
    intro xs ys
    dsimp only
    rw [String.ofList_append]
    exact hcount _ _
  obtain ⟨first, rest, hflatten, -, hsum⟩ := exists_pieces count hn hle
  rw [← hsum, ← String.ofList_toList (s := String.intercalate "\n\n" (blocks.take n)),
    hflatten]
  exact hlists.flatten_le first rest

end Joined

/-! ## A counter for which the separators count in full

The blocks of some results and the separator are a code none of whose words
begins another: the number of a block is the first thing in it. -/

section Worst

variable {blocks : List String} {count : String → ℕ}

theorem takeWhile_number (index : ℕ) (result : SearchResult) (rest : List Char) :
    ((formatBlock index result).toList ++ rest).tail.takeWhile Char.isDigit =
      Nat.toDigits 10 index := by
  have hdigits : ∀ c ∈ Nat.toDigits 10 index, c.isDigit = true := fun c hc =>
    Nat.isDigit_of_mem_toDigits (by decide) (by decide) hc
  have hclose : ("] Source: ".toList : List Char) = ']' :: " Source: ".toList := by
    decide +kernel
  rw [formatBlock_toList, blockHead, hclose]
  simp only [List.cons_append, List.append_assoc, List.tail_cons]
  rw [List.takeWhile_append_of_pos hdigits]
  simp [Char.isDigit]

/-- Blocks with different numbers do not begin each other. -/
theorem number_eq_of_begins {i j : ℕ} {result other : SearchResult}
    (h : (formatBlock i result).toList <+: (formatBlock j other).toList) : i = j := by
  obtain ⟨rest, hrest⟩ := h
  have hdigits : Nat.toDigits 10 i = Nat.toDigits 10 j := by
    rw [← takeWhile_number i result rest, hrest, ← takeWhile_number j other [],
      List.append_nil]
  have hvalue := congrArg (Nat.ofDigitChars 10 · 0) hdigits
  simpa [Nat.ofDigitChars_toDigits] using hvalue

theorem head?_formatBlock (index : ℕ) (result : SearchResult) :
    (formatBlock index result).toList.head? = some '[' := by
  rw [formatBlock_toList]
  rfl

theorem uniquelyDecodable_pieces (results : List SearchResult) :
    InformationTheory.UniquelyDecodable (pieces (blocksOf results)) := by
  have hseparator : "\n\n".toList.head? = some '\n' := by decide +kernel
  have hblock : ∀ text ∈ blocksOf results, text.toList.head? = some '[' := by
    intro text htext
    obtain ⟨k, hk, rfl⟩ := List.mem_mapIdx.mp htext
    exact head?_formatBlock _ _
  have hhead : ∀ v w : List Char, v <+: w → v ≠ [] → v.head? = w.head? := by
    rintro v w ⟨rest, rfl⟩ hne
    exact (List.head?_append_of_ne_nil v hne).symm
  apply Subadditive.uniquelyDecodable_of_prefixFree
  · rintro ⟨text, htext | rfl, hempty⟩
    · have hhead := hblock text htext
      rw [← hempty] at hhead
      cases hhead
    · exact absurd hempty (by decide +kernel)
  · rintro _ ⟨v, hv, rfl⟩ _ ⟨w, hw, rfl⟩ hbegins
    have hne : v.toList ≠ [] := by
      intro hempty
      rcases hv with hv | rfl
      · simpa [hempty] using hblock v hv
      · simp [hempty] at hseparator
    have hsame := hhead _ _ hbegins hne
    rcases hv with hv | rfl
    · rcases hw with hw | rfl
      · obtain ⟨i, hi, rfl⟩ := List.mem_mapIdx.mp hv
        obtain ⟨j, hj, rfl⟩ := List.mem_mapIdx.mp hw
        obtain rfl : i = j := Nat.succ_injective (number_eq_of_begins hbegins)
        rfl
      · rw [hblock v hv, hseparator] at hsame
        cases hsame
    · rcases hw with hw | rfl
      · rw [hblock w hw, hseparator] at hsame
        cases hsame
      · rfl

theorem total_take_le (count : String → ℕ) (blocks : List String) {m n : ℕ} (h : m ≤ n) :
    total count (blocks.take m) ≤ total count (blocks.take n) := by
  have hsub : (blocks.take m).Sublist (blocks.take n) := by
    rw [← Nat.min_eq_left h, ← List.take_take]
    exact List.take_sublist _ _
  exact (hsub.map count).sum_le_sum fun _ _ => Nat.zero_le _

/-- A bound on what the counts of the pieces can add up to. -/
def cap (count : String → ℕ) (blocks : List String) : ℕ :=
  total count blocks + (blocks.length + 1) * count "\n\n" + count ""

/-- The largest counter with the counts of the blocks, the separator and the
empty text. -/
noncomputable def worstCount (count : String → ℕ) (blocks : List String) (text : String) :
    ℕ :=
  Subadditive.extension (pieces blocks) (fun cs => count (String.ofList cs))
    (cap count blocks) text.toList

theorem isTokenCount_worstCount : IsTokenCount (worstCount count blocks) := by
  intro a b
  unfold worstCount
  rw [String.toList_append]
  exact Subadditive.subadditive_extension _ _

theorem count_le_cap {block : String} (h : block ∈ blocks) :
    count block ≤ cap count blocks := by
  have hle : count block ≤ total count blocks :=
    List.single_le_sum (fun _ _ => Nat.zero_le _) _ (List.mem_map_of_mem h)
  unfold cap
  omega

theorem sameCounts_worstCount (count : String → ℕ) (results : List SearchResult) :
    SameCounts (blocksOf results) count (worstCount count (blocksOf results)) where
  blocks := by
    intro block hblock
    refine (Subadditive.extension_word (uniquelyDecodable_pieces results)
      ⟨block, Or.inl hblock, rfl⟩ ?_).trans ?_
    · simpa using count_le_cap hblock
    · simp
  separator := by
    refine (Subadditive.extension_word (uniquelyDecodable_pieces results)
      ⟨"\n\n", Or.inr rfl, rfl⟩ ?_).trans ?_
    · simp only [String.ofList_toList, cap]
      nlinarith
    · simp
  empty := by
    have hempty : "".toList = [] := by simp
    unfold worstCount
    rw [hempty]
    refine (Subadditive.extension_nil ?_).trans ?_
    · simp [cap]
    · simp

/-- It counts joined blocks with all their separators. -/
theorem worstCount_intercalate (count : String → ℕ) (results : List SearchResult) {n : ℕ}
    (hn : 0 < n) (hle : n ≤ (blocksOf results).length) :
    worstCount count (blocksOf results)
        (String.intercalate "\n\n" ((blocksOf results).take n)) =
      total count ((blocksOf results).take n) + (n - 1) * count "\n\n" := by
  obtain ⟨first, rest, hflatten, hpieces, hsum⟩ := exists_pieces count hn hle
  have hcap : ((first :: rest).map fun cs => count (String.ofList cs)).sum ≤
      cap count (blocksOf results) := by
    have htotal := total_take_le count (blocksOf results) hle
    rw [List.take_length] at htotal
    have hseparators : (n - 1) * count "\n\n" ≤
        ((blocksOf results).length + 1) * count "\n\n" :=
      Nat.mul_le_mul_right _ (by omega)
    rw [hsum]
    unfold cap
    omega
  unfold worstCount
  rw [hflatten, Subadditive.extension_flatten (uniquelyDecodable_pieces results)
    (List.cons_ne_nil _ _) hpieces hcap, hsum]

end Worst

/-! ## When the context is within the budget -/

section Budget

variable {service : ContextService} {count : String → ℕ} {model : String}
  {searchResults : List SearchResult}

theorem total_sameCounts {blocks : List String} {count' : String → ℕ}
    (hsame : SameCounts blocks count count') (n : ℕ) :
    total count' (blocks.take n) = total count (blocks.take n) := by
  unfold total
  congr 1
  exact List.map_congr_left fun block hblock =>
    hsame.blocks block (List.mem_of_mem_take hblock)

/-- Where there is room for the separators, the context is within the
budget. -/
theorem contextWithinBudget_of_leavesRoom {count' : String → ℕ}
    (hcount : IsTokenCount count')
    (hsame : SameCounts (blocksOf (service.relevant searchResults)) count count')
    (hroom : LeavesRoom service.maxContextTokens count
      (blocksOf (service.relevant searchResults))) :
    ContextWithinBudget service count' model searchResults := by
  obtain ⟨n, hle, ⟨used, h⟩, hfits, hlongest⟩ :=
    exists_used service count' model searchResults
  refine ⟨_, used, h, ?_⟩
  rcases Nat.eq_zero_or_pos n with rfl | hn
  · rw [List.take_zero, show String.intercalate "\n\n" [] = "" from rfl, hsame.empty]
    apply hroom.empty
    intro block hblock
    obtain ⟨rest, hrest⟩ := List.head?_eq_some_iff.mp hblock
    have hfirst := hlongest 1 Nat.one_pos (by rw [hrest]; simp)
    rw [total_sameCounts hsame, hrest] at hfirst
    simpa [total] using hfirst
  · have htotal := hfits.resolve_left hn.ne'
    rw [total_sameCounts hsame] at htotal
    have hseparated := hroom.separators n hn hle htotal
    have hjoined := count_intercalate_le hcount hn hle
    rw [total_sameCounts hsame, hsame.separator] at hjoined
    omega

/-- Where there is none, the largest counter exceeds it. -/
theorem leavesRoom_of_contextWithinBudget
    (h : ContextWithinBudget service
      (worstCount count (blocksOf (service.relevant searchResults))) model searchResults) :
    LeavesRoom service.maxContextTokens count
      (blocksOf (service.relevant searchResults)) := by
  let worst := worstCount count (blocksOf (service.relevant searchResults))
  have hsame : SameCounts (blocksOf (service.relevant searchResults)) count worst :=
    sameCounts_worstCount count _
  obtain ⟨n, hle, ⟨used, hbuilt⟩, hfits, hlongest⟩ :=
    exists_used service worst model searchResults
  obtain ⟨context, used', hcontext, hbudget⟩ := h
  obtain ⟨rfl, -⟩ := Prod.mk.injEq .. ▸ Except.ok.inj (hbuilt.symm.trans hcontext)
  constructor
  · intro m hm hmle hmfits
    have hmn : m ≤ n := by
      by_contra hlonger
      have hexceeds := hlongest m (not_le.mp hlonger) hmle
      rw [total_sameCounts hsame] at hexceeds
      exact absurd hmfits (not_le.mpr hexceeds)
    rw [worstCount_intercalate count _ (hm.trans_le hmn) hle] at hbudget
    have htotal := total_take_le count (blocksOf (service.relevant searchResults)) hmn
    have hseparators : (m - 1) * count "\n\n" ≤ (n - 1) * count "\n\n" :=
      Nat.mul_le_mul_right _ (by omega)
    omega
  · intro hfirst
    rcases Nat.eq_zero_or_pos n with rfl | hn
    · rw [List.take_zero, show String.intercalate "\n\n" [] = "" from rfl] at hbudget
      rwa [← hsame.empty]
    · obtain ⟨block, rest, hrest⟩ := List.exists_cons_of_length_pos (hn.trans_le hle)
      have htotal := hfits.resolve_left hn.ne'
      have hone := total_take_le worst (blocksOf (service.relevant searchResults)) hn
      rw [total_sameCounts hsame 1, hrest] at hone
      have hexceeds := hfirst block (by rw [hrest]; rfl)
      simp only [total, List.take_succ_cons, List.take_zero, List.map_cons, List.map_nil,
        List.sum_cons, List.sum_nil] at hone
      rw [hrest] at htotal
      simp only [total] at htotal
      omega

/-- Every counter with the given counts keeps the context within the budget
if and only if the separators fit in as well. -/
theorem contextWithinBudget_iff (service : ContextService) (count : String → ℕ)
    (model : String) (searchResults : List SearchResult) :
    (∀ count', IsTokenCount count' →
        SameCounts (blocksOf (service.relevant searchResults)) count count' →
          ContextWithinBudget service count' model searchResults) ↔
      LeavesRoom service.maxContextTokens count
        (blocksOf (service.relevant searchResults)) := by
  constructor
  · intro h
    exact leavesRoom_of_contextWithinBudget
      (h _ isTokenCount_worstCount (sameCounts_worstCount count _))
  · intro hroom count' hcount hsame
    exact contextWithinBudget_of_leavesRoom hcount hsame hroom

end Budget

/-- Two blocks of 53 and 52 characters fill a budget of 105, and their context
has 107. -/
theorem not_contextWithinBudget_characters :
    ¬ ∀ (service : ContextService) (count : String → ℕ) (model : String)
      (searchResults : List SearchResult), IsTokenCount count →
        ContextWithinBudget service count model searchResults := by
  intro hall
  let results := [resultWith "minutes", resultWith "agenda"]
  let service : ContextService := { characterService with maxContextTokens := 105 }
  have hcount : IsTokenCount String.length := fun a b => (String.length_append a b).le
  have hlength : ((service.counting String.length).buildContext results "gpt-4o").toOption.map
      (fun built => built.1.length) = some 107 := by decide +kernel
  obtain ⟨context, used, h, hbudget⟩ := hall service String.length "gpt-4o" results hcount
  rw [h] at hlength
  have hcontext : context.length = 107 := Option.some.inj hlength
  have hle : (context.length : ℤ) ≤ 105 := hbudget
  omega

end ContextService
end AiBackend
