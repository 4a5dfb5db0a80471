import Mathlib.Algebra.Order.BigOperators.Group.List
import Mathlib.Algebra.Order.Group.Nat
import Mathlib.Algebra.GroupWithZero.Nat
import Mathlib.InformationTheory.Coding.UniquelyDecodable
import Mathlib.Order.Lattice.Nat

/-!
# Subadditive measures of texts

A measure under which a text counts at most as much as its parts.  Any values
on the words of a uniquely decodable code extend to such a measure, which is
additive on the texts spelled with the code.
-/

namespace AiBackend

open InformationTheory

variable {α : Type}

/-- A concatenation counts at most as much as its two parts. -/
def Subadditive (count : List α → ℕ) : Prop :=
  ∀ xs ys, count (xs ++ ys) ≤ count xs + count ys

namespace Subadditive

theorem flatten_le {count : List α → ℕ} (h : Subadditive count) (first : List α)
    (rest : List (List α)) :
    count (first :: rest).flatten ≤ ((first :: rest).map count).sum := by
  induction rest generalizing first with
  | nil => simp
  | cons second rest ih =>
      calc count (first ++ (second :: rest).flatten)
          ≤ count first + count (second :: rest).flatten := h _ _
        _ ≤ count first + ((second :: rest).map count).sum :=
          Nat.add_le_add_left (ih second) _

/-- Words none of which begins another one are uniquely decodable. -/
theorem uniquelyDecodable_of_prefixFree {code : Set (List α)} (hempty : [] ∉ code)
    (hfree : ∀ v ∈ code, ∀ w ∈ code, v <+: w → v = w) : UniquelyDecodable code := by
  intro pieces words hpieces hwords h
  induction pieces generalizing words with
  | nil =>
      cases words with
      | nil => rfl
      | cons word words =>
          have hnil : word = [] := (List.append_eq_nil_iff.mp h.symm).1
          exact absurd (hnil ▸ hwords word List.mem_cons_self) hempty
  | cons piece pieces ih =>
      obtain ⟨hpiece, hpieces⟩ := List.forall_mem_cons.mp hpieces
      cases words with
      | nil =>
          have hnil : piece = [] := (List.append_eq_nil_iff.mp h).1
          exact absurd (hnil ▸ hpiece) hempty
      | cons word words =>
          obtain ⟨hword, hrest⟩ := List.forall_mem_cons.mp hwords
          rw [List.flatten_cons, List.flatten_cons] at h
          have hsame : piece = word := by
            have hleft : piece <+: piece ++ pieces.flatten := List.prefix_append _ _
            have hright : word <+: piece ++ pieces.flatten := h ▸ List.prefix_append _ _
            rcases List.prefix_or_prefix_of_prefix hleft hright with hbegins | hbegins
            · exact hfree _ hpiece _ hword hbegins
            · exact (hfree _ hword _ hpiece hbegins).symm
          subst hsame
          rw [ih words hpieces hrest (List.append_cancel_left h)]

/-! ## The extension of some values -/

section Extension

variable (code : Set (List α)) (cost : List α → ℕ) (cap : ℕ)

/-- What a text can cost: the sum over the pieces it is put together from,
words of the code and empty pieces, or the cap. -/
def costs (text : List α) : Set ℕ :=
  {total | total = cap ∨ ∃ pieces : List (List α), pieces ≠ [] ∧
    (∀ piece ∈ pieces, piece ∈ code ∨ piece = []) ∧ pieces.flatten = text ∧
      total = (pieces.map cost).sum}

/-- The least cost of a text. -/
noncomputable def extension (text : List α) : ℕ := sInf (costs code cost cap text)

theorem extension_mem (text : List α) :
    extension code cost cap text ∈ costs code cost cap text :=
  Nat.sInf_mem ⟨cap, Or.inl rfl⟩

variable {code} {cost} {cap}

theorem extension_le_cap (text : List α) : extension code cost cap text ≤ cap :=
  Nat.sInf_le (Or.inl rfl)

theorem subadditive_extension : Subadditive (extension code cost cap) := by
  intro xs ys
  rcases extension_mem code cost cap xs with
    hxs | ⟨front, hfront, hcode, rfl, hxs⟩
  · exact (extension_le_cap _).trans (hxs.ge.trans (Nat.le_add_right _ _))
  rcases extension_mem code cost cap ys with
    hys | ⟨back, -, hcode', rfl, hys⟩
  · exact (extension_le_cap _).trans (hys.ge.trans (Nat.le_add_left _ _))
  rw [hxs, hys]
  refine Nat.sInf_le (Or.inr ⟨front ++ back, by simp [hfront], ?_, by simp, by simp⟩)
  exact List.forall_mem_append.mpr ⟨hcode, hcode'⟩

/-- Pieces that spell what code words spell are these words, apart from empty
ones. -/
theorem sum_le_of_flatten_eq (hcode : UniquelyDecodable code)
    {pieces words : List (List α)}
    (hpieces : ∀ piece ∈ pieces, piece ∈ code ∨ piece = [])
    (hwords : ∀ word ∈ words, word ∈ code) (h : pieces.flatten = words.flatten) :
    (words.map cost).sum ≤ (pieces.map cost).sum := by
  classical
  have hfilter : pieces.filter (fun piece => piece ≠ []) = words := by
    refine hcode _ _ (fun piece hpiece => ?_) hwords ?_
    · obtain ⟨hmem, hne⟩ := List.mem_filter.mp hpiece
      exact (hpieces piece hmem).resolve_right (by simpa using hne)
    · rw [← h, List.flatten_filter_ne_nil]
  rw [← hfilter]
  exact (List.filter_sublist.map cost).sum_le_sum fun _ _ => Nat.zero_le _

/-- The extension is additive on the texts spelled with the code. -/
theorem extension_flatten (hcode : UniquelyDecodable code) {words : List (List α)}
    (hne : words ≠ []) (hwords : ∀ word ∈ words, word ∈ code)
    (hcap : (words.map cost).sum ≤ cap) :
    extension code cost cap words.flatten = (words.map cost).sum := by
  apply le_antisymm
  · exact Nat.sInf_le (Or.inr ⟨words, hne, fun word hword => Or.inl (hwords word hword),
      rfl, rfl⟩)
  · rcases extension_mem code cost cap words.flatten with
      h | ⟨pieces, -, hpieces, hflatten, h⟩
    · exact hcap.trans h.ge
    · exact (sum_le_of_flatten_eq hcode hpieces hwords hflatten).trans h.ge

/-- It gives every word its value. -/
theorem extension_word (hcode : UniquelyDecodable code) {word : List α}
    (hword : word ∈ code) (hcap : cost word ≤ cap) :
    extension code cost cap word = cost word := by
  have h : extension code cost cap [word].flatten = ([word].map cost).sum :=
    extension_flatten hcode (List.cons_ne_nil word []) (by simpa using hword)
      (by simpa using hcap)
  simpa using h

/-- And the empty text as well. -/
theorem extension_nil (hcap : cost [] ≤ cap) : extension code cost cap [] = cost [] := by
  apply le_antisymm
  · exact Nat.sInf_le (Or.inr ⟨[[]], by simp, by simp, rfl, by simp⟩)
  · rcases extension_mem code cost cap [] with
      h | ⟨pieces, hne, -, hflatten, h⟩
    · exact hcap.trans h.ge
    · obtain ⟨piece, rest, rfl⟩ := List.exists_cons_of_ne_nil hne
      obtain rfl : piece = [] := (List.append_eq_nil_iff.mp hflatten).1
      rw [h, List.map_cons, List.sum_cons]
      exact Nat.le_add_right _ _

end Extension
end Subadditive
end AiBackend
