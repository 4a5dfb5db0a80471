import AiBackend.Application.ContextService
import AiBackend.Support.Occurrences

/-!
# The blocks of a context

A block is its head, the title in quotation marks, its tail, and the content
on lines of its own.  The quotation marks and the line break separate these
parts, so what occurs in a block occurs in one of them; the same holds for the
blocks of a context.
-/

namespace AiBackend
namespace ContextService

open Occurrences

/-! ## The parts of a block -/

/-- `[<index>] Source: `, up to the title's quotation mark. -/
def blockHead (index : ℕ) : List Char :=
  '[' :: (Nat.toDigits 10 index ++ "] Source: ".toList)

/-- What stands behind the title's quotation marks. -/
def blockTail (result : SearchResult) : List Char :=
  " (chunk ".toList ++ ((toString result.chunkIndex).toList ++
    (", relevance ".toList ++
      ((Printf.formatPercent result.score).toList ++ ")".toList)))

def shownTitle (result : SearchResult) : String :=
  if result.documentTitle = "" then "Untitled" else result.documentTitle

theorem formatBlock_toList (index : ℕ) (result : SearchResult) :
    (formatBlock index result).toList =
      (blockHead index ++ '"' :: ((shownTitle result).toList ++
        '"' :: blockTail result)) ++ '\n' :: result.content.toList := by
  have hblock : formatBlock index result = "[" ++ toString index ++
      "] Source: \"" ++ shownTitle result ++ "\" (chunk " ++
      toString result.chunkIndex ++ ", relevance " ++
      Printf.formatPercent result.score ++ ")\n" ++ result.content := rfl
  have hopen : "[".toList = ['['] := by decide +kernel
  have hsource : "] Source: \"".toList = "] Source: ".toList ++ ['"'] := by
    decide +kernel
  have hchunk : "\" (chunk ".toList = '"' :: " (chunk ".toList := by decide +kernel
  have hclose : ")\n".toList = ")".toList ++ ['\n'] := by decide +kernel
  have hindex : (toString index).toList = Nat.toDigits 10 index :=
    Nat.toList_repr
  unfold blockHead blockTail
  rw [hblock]
  repeat rw [String.toList_append]
  rw [hopen, hindex, hsource, hchunk, hclose]
  generalize "] Source: ".toList = source, " (chunk ".toList = chunk,
    ", relevance ".toList = relevance, ")".toList = close
  simp

/-- Integers are written with digits and a sign. -/
theorem mem_toString_int {n : ℤ} {c : Char} (h : c ∈ (toString n).toList) :
    c.isDigit = true ∨ c = '-' := by
  have hdigit : ∀ m : ℕ, c ∈ m.repr.toList → c.isDigit = true := by
    intro m hm
    rw [Nat.toList_repr] at hm
    exact Nat.isDigit_of_mem_toDigits (by decide) (by decide) hm
  rw [Int.toString_eq_repr, Int.repr_eq_if] at h
  split at h
  · exact Or.inl (hdigit _ h)
  · rw [String.toList_append, List.mem_append] at h
    rcases h with h | h
    · have hminus : "-".toList = ['-'] := by decide +kernel
      rw [hminus, List.mem_singleton] at h
      exact Or.inr h
    · exact Or.inl (hdigit _ h)

/-- The characters that the format itself writes. -/
def formatChars : List Char := "[] Source:(chunk ,relevance -%)".toList

theorem formatChars_eq :
    formatChars = ['[', ']', ' ', 'S', 'o', 'u', 'r', 'c', 'e', ':', '(', 'c', 'h', 'u',
      'n', 'k', ' ', ',', 'r', 'e', 'l', 'e', 'v', 'a', 'n', 'c', 'e', ' ', '-', '%',
      ')'] :=
  String.toList_ofList

theorem mem_blockHead {index : ℕ} {c : Char} (h : c ∈ blockHead index) :
    c.isDigit = true ∨ c ∈ formatChars := by
  have hopen : '[' ∈ formatChars := by simp [formatChars_eq]
  have hsource : "] Source: ".toList ⊆ formatChars := by
    have hspelled : "] Source: ".toList =
        [']', ' ', 'S', 'o', 'u', 'r', 'c', 'e', ':', ' '] := String.toList_ofList
    rw [hspelled, formatChars_eq]
    decide
  unfold blockHead at h
  rw [List.mem_cons, List.mem_append] at h
  rcases h with rfl | h | h
  · exact Or.inr hopen
  · exact Or.inl (Nat.isDigit_of_mem_toDigits (by decide) (by decide) h)
  · exact Or.inr (hsource h)

theorem mem_blockTail {result : SearchResult} {c : Char}
    (h : c ∈ blockTail result) : c.isDigit = true ∨ c ∈ formatChars := by
  have hminus : '-' ∈ formatChars := by simp [formatChars_eq]
  have hfixed : ∀ d, d ∈ " (chunk ".toList ∨ d ∈ ", relevance ".toList ∨
      d ∈ "%".toList ∨ d ∈ ")".toList → d ∈ formatChars := by
    have hchunk : " (chunk ".toList = [' ', '(', 'c', 'h', 'u', 'n', 'k', ' '] :=
      String.toList_ofList
    have hrelevance : ", relevance ".toList =
        [',', ' ', 'r', 'e', 'l', 'e', 'v', 'a', 'n', 'c', 'e', ' '] :=
      String.toList_ofList
    have hpercent : "%".toList = ['%'] := String.toList_ofList
    have hclose : ")".toList = [')'] := String.toList_ofList
    have hall : " (chunk ".toList ++ ", relevance ".toList ++ "%".toList ++
        ")".toList ⊆ formatChars := by
      rw [hchunk, hrelevance, hpercent, hclose, formatChars_eq]
      decide
    intro d hd
    apply hall
    rw [List.mem_append, List.mem_append, List.mem_append, or_assoc, or_assoc]
    exact hd
  have hint : ∀ n : ℤ, c ∈ (toString n).toList → c.isDigit = true ∨
      c ∈ formatChars := by
    intro n hn
    rcases mem_toString_int hn with hdigit | rfl
    · exact Or.inl hdigit
    · exact Or.inr hminus
  unfold blockTail Printf.formatPercent at h
  rw [String.toList_append] at h
  repeat rw [List.mem_append] at h
  rcases h with h | h | h | (h | h) | h
  · exact Or.inr (hfixed c (Or.inl h))
  · exact hint _ h
  · exact Or.inr (hfixed c (Or.inr (Or.inl h)))
  · exact hint _ h
  · exact Or.inr (hfixed c (Or.inr (Or.inr (Or.inl h))))
  · exact Or.inr (hfixed c (Or.inr (Or.inr (Or.inr h))))

/-! ## What occurs in a block -/

/-- A pattern that lies within one line, outside of quotation marks, and that
the format cannot write. -/
structure Foreign (pattern : List Char) : Prop where
  nonempty : pattern ≠ []
  no_break : '\n' ∉ pattern
  no_quote : '"' ∉ pattern
  unwritten : ∃ c ∈ pattern, c.isDigit = false ∧ c ∉ formatChars ∧
    c ∉ "Untitled".toList

section Occurring

variable {pattern : List Char}

theorem contains_shownTitle (h : Foreign pattern) (result : SearchResult) :
    Contains pattern (shownTitle result).toList ↔
      Contains pattern result.documentTitle.toList := by
  obtain ⟨c, hc, -, -, huntitled⟩ := h.unwritten
  have hempty : ¬ Contains pattern "".toList :=
    not_contains_of_notMem hc (by simp)
  unfold shownTitle
  split
  next htitle =>
    rw [htitle]
    exact iff_of_false (not_contains_of_notMem hc huntitled) hempty
  next => exact Iff.rfl

theorem contains_formatBlock (h : Foreign pattern) (index : ℕ)
    (result : SearchResult) :
    Contains pattern (formatBlock index result).toList ↔
      Contains pattern result.documentTitle.toList ∨
        Contains pattern result.content.toList := by
  obtain ⟨c, hc, hdigit, hformat, -⟩ := h.unwritten
  have hwritten : ¬ (c.isDigit = true ∨ c ∈ formatChars) := by
    simp [hdigit, hformat]
  have hhead : ¬ Contains pattern (blockHead index) :=
    not_contains_of_notMem hc fun hmem => hwritten (mem_blockHead hmem)
  have htail : ¬ Contains pattern (blockTail result) :=
    not_contains_of_notMem hc fun hmem => hwritten (mem_blockTail hmem)
  rw [formatBlock_toList, contains_append_cons h.nonempty h.no_break,
    contains_append_cons h.nonempty h.no_quote,
    contains_append_cons h.nonempty h.no_quote, contains_shownTitle h,
    or_iff_right hhead, or_iff_left htail]

theorem contains_intercalate_blocks (h : Foreign pattern) (blocks : List String) :
    Contains pattern (String.intercalate "\n\n" blocks).toList ↔
      ∃ block ∈ blocks, Contains pattern block.toList := by
  have hbreak : "\n\n".toList = ['\n', '\n'] := by decide +kernel
  have hforeign : ∀ c ∈ ['\n', '\n'], c ∉ pattern := by
    intro c hc
    obtain rfl : c = '\n' := by simpa using hc
    exact h.no_break
  rw [String.toList_intercalate, hbreak,
    contains_intercalate h.nonempty (List.cons_ne_nil _ _) hforeign]
  simp

end Occurring

/-! ## The context of some results -/

section Context

variable {service : ContextService} {model : String}
  {searchResults used : List SearchResult} {context : String}

/-- The context is made of the blocks of the used results. -/
theorem buildContext_eq_intercalate
    (h : service.buildContext searchResults model = .ok (context, used)) :
    context = String.intercalate "\n\n"
      (used.mapIdx fun k result => formatBlock (k + 1) result) := by
  obtain ⟨blocks, hblocks, rfl, rfl⟩ := buildContext_eq h
  rw [fst_fittingBlocks hblocks]
  simp only [Nat.zero_add]

/-- The used results are the relevant ones that fit. -/
theorem mem_used_iff
    (h : service.buildContext searchResults model = .ok (context, used))
    {result : SearchResult} :
    result ∈ used ↔ ∃ j, (service.relevant searchResults)[j]? = some result ∧
      Fits service model 0 0 (service.relevant searchResults) j := by
  obtain ⟨blocks, hblocks, rfl, rfl⟩ := buildContext_eq h
  exact mem_fittingBlocks_iff hblocks

/-- What occurs in a context occurs in a used result. -/
theorem contains_context {pattern : List Char} (hforeign : Foreign pattern)
    (h : service.buildContext searchResults model = .ok (context, used)) :
    Contains pattern context.toList ↔
      ∃ result ∈ used, Contains pattern result.documentTitle.toList ∨
        Contains pattern result.content.toList := by
  rw [buildContext_eq_intercalate h, contains_intercalate_blocks hforeign]
  constructor
  · intro h
    obtain ⟨block, hblock, hcontains⟩ := h
    obtain ⟨k, hk, rfl⟩ := List.mem_mapIdx.mp hblock
    exact ⟨used[k], List.getElem_mem hk,
      (contains_formatBlock hforeign _ _).mp hcontains⟩
  · intro h
    obtain ⟨result, hresult, hcontains⟩ := h
    obtain ⟨k, hk, rfl⟩ := List.getElem_of_mem hresult
    exact ⟨_, List.mem_mapIdx.mpr ⟨k, hk, rfl⟩,
      (contains_formatBlock hforeign _ _).mpr hcontains⟩

end Context

/-- A relevant result with a given content. -/
def resultWith (content : String) : SearchResult where
  chunkId := ⟨3, by decide⟩
  documentId := ⟨2, by decide⟩
  collectionId := ⟨1, by decide⟩
  content := content
  score := 9 / 10
  metadata := KeyedList.empty
  documentTitle := "Report"
  chunkIndex := 0
  score_nonneg := by norm_num
  score_le_one := by norm_num

end ContextService
end AiBackend
