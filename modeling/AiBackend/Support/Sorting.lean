import Mathlib.Data.List.Basic
import Mathlib.Order.Lattice

/-!
# Sorting by a key

A list sorted by falling keys.  Where no two items have one key, the result
does not depend on the order of the items before.
-/

namespace AiBackend.Sorting

variable {α β : Type} [LinearOrder β] (key : α → β)

/-- `sorted(xs, key=key, reverse=True)`; items of one key keep their order. -/
def sortedFalling (xs : List α) : List α := xs.mergeSort fun a b => decide (key b ≤ key a)

theorem perm_sortedFalling (xs : List α) : (sortedFalling key xs).Perm xs :=
  List.mergeSort_perm xs _

theorem falls_trans (a b c : α) (hab : decide (key b ≤ key a) = true)
    (hbc : decide (key c ≤ key b) = true) : decide (key c ≤ key a) = true :=
  decide_eq_true ((of_decide_eq_true hbc).trans (of_decide_eq_true hab))

theorem falls_total (a b : α) :
    (decide (key b ≤ key a) || decide (key a ≤ key b)) = true := by
  simp only [Bool.or_eq_true, decide_eq_true_eq]
  exact le_total (key b) (key a)

theorem pairwise_sortedFalling (xs : List α) :
    (sortedFalling key xs).Pairwise fun a b => key b ≤ key a := by
  simpa [sortedFalling] using List.pairwise_mergeSort (falls_trans key) (falls_total key) xs

/-- A new first item goes between what is above it and the rest. -/
theorem sortedFalling_cons (a : α) (xs : List α) :
    sortedFalling key (a :: xs) =
        (sortedFalling key xs).filter (fun b => key a < key b) ++
          a :: (sortedFalling key xs).filter (fun b => key b ≤ key a) ∧
      sortedFalling key xs =
        (sortedFalling key xs).filter (fun b => key a < key b) ++
          (sortedFalling key xs).filter fun b => key b ≤ key a := by
  obtain ⟨above, below, hcons, hxs, habove⟩ :=
    List.mergeSort_cons (falls_trans key) (falls_total key) a xs
  have hsorted : sortedFalling key (a :: xs) = above ++ a :: below := hcons
  have hbelow : ∀ b ∈ below, key b ≤ key a := by
    have hfalls := pairwise_sortedFalling key (a :: xs)
    rw [hsorted] at hfalls
    exact (List.pairwise_cons.mp (List.pairwise_append.mp hfalls).2.1).1
  have habove : ∀ b ∈ above, key a < key b := fun b hb => by
    simpa using habove b hb
  have hfirst : (above ++ below).filter (fun b => key a < key b) = above := by
    rw [List.filter_append, List.filter_eq_self.mpr (by simpa using habove),
      List.filter_eq_nil_iff.mpr (by simpa using hbelow), List.append_nil]
  have hlater : (above ++ below).filter (fun b => key b ≤ key a) = below := by
    rw [List.filter_append, List.filter_eq_nil_iff.mpr (by simpa using habove),
      List.filter_eq_self.mpr (by simpa using hbelow), List.nil_append]
  have hrest : sortedFalling key xs = above ++ below := hxs
  rw [hsorted, hrest, hfirst, hlater]
  exact ⟨rfl, rfl⟩

/-- Sorting commutes with leaving items out. -/
theorem filter_sortedFalling (p : α → Bool) (xs : List α) :
    (sortedFalling key xs).filter p = sortedFalling key (xs.filter p) := by
  induction xs with
  | nil => simp [sortedFalling]
  | cons a xs ih =>
      have hcomm : ∀ q : α → Bool, ((sortedFalling key xs).filter q).filter p =
          (sortedFalling key (xs.filter p)).filter q := by
        intro q
        rw [List.filter_comm, ih]
      obtain ⟨hsorted, -⟩ := sortedFalling_cons key a xs
      obtain ⟨hsorted', hsplit⟩ := sortedFalling_cons key a (xs.filter p)
      rw [hsorted, List.filter_append, hcomm]
      cases hp : p a with
      | true =>
          rw [List.filter_cons_of_pos hp, List.filter_cons_of_pos hp, hcomm, hsorted']
      | false =>
          rw [List.filter_cons_of_neg (by simp [hp]), List.filter_cons_of_neg (by simp [hp]),
            hcomm]
          exact hsplit.symm

/-- What is sorted stays as it is. -/
theorem sortedFalling_of_pairwise {xs : List α}
    (h : xs.Pairwise fun a b => key b ≤ key a) : sortedFalling key xs = xs :=
  List.mergeSort_of_pairwise (h.imp fun hab => decide_eq_true hab)

theorem sortedFalling_eq_of_perm {xs ys : List α} (hperm : xs.Perm ys)
    (hkey : ∀ a ∈ xs, ∀ b ∈ xs, key a = key b → a = b) :
    sortedFalling key xs = sortedFalling key ys := by
  have hsame : (sortedFalling key xs).Perm (sortedFalling key ys) :=
    (perm_sortedFalling key xs).trans (hperm.trans (perm_sortedFalling key ys).symm)
  refine hsame.eq_of_pairwise ?_ (pairwise_sortedFalling key xs)
    (pairwise_sortedFalling key ys)
  intro a b ha hb hab hba
  have hmem : ∀ c, c ∈ sortedFalling key xs → c ∈ xs := fun c =>
    (perm_sortedFalling key xs).mem_iff.mp
  exact hkey a (hmem a ha) b (hmem b (hsame.mem_iff.mpr hb)) (le_antisymm hba hab)

/-- Where the list falls, none of its items is above one that stands before it. -/
theorem le_of_pairwise_append {first later : List α}
    (h : (first ++ later).Pairwise fun a b => key b ≤ key a) {a : α} (ha : a ∈ later) :
    ∀ b ∈ first, key a ≤ key b :=
  fun _ hb => (List.pairwise_append.mp h).2.2 _ hb _ ha

/-- What is cut off a falling list is no better than what is left, of which
there is as much as was asked for. -/
theorem mem_take_or_le {xs : List α} (h : xs.Pairwise fun a b => key b ≤ key a) {a : α}
    (ha : a ∈ xs) (n : ℕ) :
    a ∈ xs.take n ∨ (xs.take n).length = n ∧ ∀ b ∈ xs.take n, key a ≤ key b := by
  rw [← List.take_append_drop n xs, List.mem_append] at ha
  refine ha.imp id fun hlater => ?_
  have hlonger : 0 < (xs.drop n).length := List.length_pos_of_mem hlater
  rw [List.length_drop] at hlonger
  refine ⟨List.length_take_of_le (by omega), ?_⟩
  rw [← List.take_append_drop n xs] at h
  exact le_of_pairwise_append key h hlater

/-- Sorting commutes with a map that keeps the keys. -/
theorem map_sortedFalling {γ : Type} (key' : γ → β) (f : α → γ)
    (hkey : ∀ a, key' (f a) = key a) (xs : List α) :
    (sortedFalling key xs).map f = sortedFalling key' (xs.map f) := by
  apply List.map_mergeSort
  intro a _ b _
  rw [hkey, hkey]

end AiBackend.Sorting
