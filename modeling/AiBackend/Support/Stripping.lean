import Mathlib.Data.List.Basic
import Mathlib.Data.List.Count
import Mathlib.Data.List.DropRight
import Mathlib.Data.List.TakeWhile
import Mathlib.Order.Nat

/-!
# Stripping a list with a mark put before or behind it

Removing what satisfies a predicate from both ends of a list.  A mark that is
not removed stays, so a list with some marks before it and a list with as many
marks behind it are stripped to the same only if the list repeats itself.
-/

namespace AiBackend.Stripping

variable {α : Type} {p : α → Bool} {mark : α} {m t : ℕ} {xs ys : List α}

/-- Remove what satisfies the predicate from both ends. -/
def stripWhile (p : α → Bool) (xs : List α) : List α :=
  (xs.dropWhile p).rdropWhile p

section Marks

variable (hmark : p mark = false) (hm : 0 < m) (xs ys : List α)
include hmark hm

theorem dropWhile_append_marks :
    (xs ++ (List.replicate m mark ++ ys)).dropWhile p =
      xs.dropWhile p ++ (List.replicate m mark ++ ys) := by
  obtain ⟨m, rfl⟩ := Nat.exists_eq_succ_of_ne_zero hm.ne'
  rw [List.replicate_succ, List.cons_append, List.dropWhile_append]
  split
  next hempty =>
    rw [List.isEmpty_iff.mp hempty, List.nil_append,
      List.dropWhile_cons_of_neg (by simp [hmark])]
  next => rfl

theorem takeWhile_append_marks :
    (xs ++ (List.replicate m mark ++ ys)).takeWhile p = xs.takeWhile p := by
  have hsplit := List.takeWhile_append_dropWhile (p := p)
    (l := xs ++ (List.replicate m mark ++ ys))
  rw [dropWhile_append_marks hmark hm _ _, ← List.append_assoc] at hsplit
  exact List.append_cancel_right
    ((List.append_cancel_right hsplit).trans List.takeWhile_append_dropWhile.symm)

theorem rdropWhile_append_marks :
    (xs ++ (List.replicate m mark ++ ys)).rdropWhile p =
      xs ++ (List.replicate m mark ++ ys.rdropWhile p) := by
  rw [List.rdropWhile, List.reverse_append, List.reverse_append,
    List.reverse_replicate, List.append_assoc, dropWhile_append_marks hmark hm _ _]
  rw [List.reverse_append, List.reverse_append, List.reverse_replicate,
    List.reverse_reverse, List.append_assoc]
  rfl

theorem stripWhile_append_marks :
    stripWhile p (xs ++ List.replicate m mark) =
      xs.dropWhile p ++ List.replicate m mark := by
  have hdrop := dropWhile_append_marks hmark hm xs []
  have hrdrop := rdropWhile_append_marks hmark hm (xs.dropWhile p) []
  rw [List.append_nil] at hdrop hrdrop
  rw [stripWhile, hdrop, hrdrop, List.rdropWhile_nil, List.append_nil]

theorem stripWhile_marks_append :
    stripWhile p (List.replicate m mark ++ xs) =
      List.replicate m mark ++ xs.rdropWhile p := by
  have hdrop := dropWhile_append_marks hmark hm [] xs
  have hrdrop := rdropWhile_append_marks hmark hm [] xs
  rw [List.nil_append] at hdrop hrdrop
  rw [stripWhile, hdrop, List.dropWhile_nil, List.nil_append, hrdrop, List.nil_append]

end Marks

/-- Stripping removes no mark. -/
theorem count_stripWhile [DecidableEq α] (hmark : p mark = false) (xs : List α) :
    (stripWhile p xs).count mark = xs.count mark := by
  have hdrop : ∀ ys : List α, (ys.dropWhile p).count mark = ys.count mark := by
    intro ys
    have hnone : (ys.takeWhile p).count mark = 0 := by
      refine List.count_eq_zero.mpr fun hmem => ?_
      rw [List.mem_takeWhile_imp hmem] at hmark
      cases hmark
    nth_rewrite 2 [← List.takeWhile_append_dropWhile (p := p) (l := ys)]
    rw [List.count_append, hnone, Nat.zero_add]
  rw [stripWhile, List.rdropWhile, List.count_reverse, hdrop, List.count_reverse, hdrop]

/-- A list that begins like some marks is shorter and consists of marks, or it
begins with all of them. -/
theorem append_marks_cases
    (h : xs ++ List.replicate m mark = List.replicate m mark ++ ys) :
    (∀ x ∈ xs, x = mark) ∨
      ∃ rest, xs = List.replicate m mark ++ rest ∧ rest ++ List.replicate m mark = ys := by
  have hxs : xs <+: List.replicate m mark ++ ys := h ▸ List.prefix_append _ _
  have hmarks : List.replicate m mark <+: List.replicate m mark ++ ys :=
    List.prefix_append _ _
  rcases List.prefix_or_prefix_of_prefix hxs hmarks with hshort | ⟨rest, rfl⟩
  · exact Or.inl fun x hx => List.eq_of_mem_replicate (hshort.subset hx)
  · rw [List.append_assoc] at h
    exact Or.inr ⟨rest, rfl, List.append_cancel_left h⟩

/-- A list that can be moved past some marks consists of marks. -/
theorem append_marks_comm_iff (hm : 0 < m) :
    xs ++ List.replicate m mark = List.replicate m mark ++ xs ↔ ∀ x ∈ xs, x = mark := by
  constructor
  · intro h
    induction hlength : xs.length using Nat.strong_induction_on generalizing xs with
    | _ n ih =>
      rcases append_marks_cases h with hall | ⟨rest, rfl, hrest⟩
      · exact hall
      · rw [List.length_append, List.length_replicate] at hlength
        intro x hx
        rcases List.mem_append.mp hx with hx | hx
        · exact List.eq_of_mem_replicate hx
        · exact ih rest.length (by omega) hrest rfl x hx
  · intro h
    rw [List.eq_replicate_of_mem h, List.replicate_append_replicate,
      List.replicate_append_replicate, Nat.add_comm]

/-- The list consists of one gap again and again, with `m` marks between. -/
def Repeats (p : α → Bool) (mark : α) (m : ℕ) (xs : List α) : Prop :=
  ∃ q, xs = xs.takeWhile p ++
    (List.replicate q (List.replicate m mark ++ xs.takeWhile p)).flatten

theorem dropWhile_takeWhile (p : α → Bool) (xs : List α) :
    (xs.takeWhile p).dropWhile p = [] :=
  List.dropWhile_eq_nil_iff.mpr fun _ hx => List.mem_takeWhile_imp hx

theorem rdropWhile_takeWhile (p : α → Bool) (xs : List α) :
    (xs.takeWhile p).rdropWhile p = [] :=
  List.rdropWhile_eq_nil_iff.mpr fun _ hx => List.mem_takeWhile_imp hx

section Shifts

variable (hmark : p mark = false) (hm : 0 < m)
include hmark hm

/-- A list that can be moved past marks begins with its gap and the marks; what
comes then begins with the same gap, and can be moved as well. -/
theorem shift_rest {gap rest : List α} (hgap : xs.takeWhile p = gap)
    (hsplit : gap ++ (List.replicate m mark ++ rest) = xs)
    (h : rest ++ List.replicate m mark = xs.rdropWhile p) :
    rest.takeWhile p = gap ∧
      rest.dropWhile p ++ List.replicate m mark =
        List.replicate m mark ++ rest.rdropWhile p := by
  have hrdrop := rdropWhile_append_marks hmark hm gap rest
  rw [hsplit, ← h] at hrdrop
  have hdrop := dropWhile_append_marks hmark hm rest []
  have htake := takeWhile_append_marks hmark hm rest []
  rw [List.append_nil, hrdrop] at hdrop htake
  rw [dropWhile_append_marks hmark hm _ _, ← hgap, dropWhile_takeWhile,
    List.nil_append] at hdrop
  rw [takeWhile_append_marks hmark hm _ _, ← hgap, List.takeWhile_takeWhile] at htake
  simp only [and_self, Bool.decide_eq_true] at htake
  exact ⟨htake.symm.trans hgap, hdrop.symm⟩

/-- Marks before the list and marks behind it give the same only if the list is
marks, or repeats itself. -/
theorem all_or_repeats
    (h : xs.dropWhile p ++ List.replicate m mark =
      List.replicate m mark ++ xs.rdropWhile p) :
    (∀ x ∈ xs, x = mark) ∨ Repeats p mark m xs := by
  induction hlength : xs.length using Nat.strong_induction_on generalizing xs with
  | _ n ih =>
    obtain ⟨gap, core, hgap, hcore, hsplit⟩ : ∃ gap core, xs.takeWhile p = gap ∧
        xs.dropWhile p = core ∧ gap ++ core = xs :=
      ⟨_, _, rfl, rfl, List.takeWhile_append_dropWhile⟩
    rw [hcore] at h
    rcases append_marks_cases h with hall | ⟨rest, rfl, hback⟩
    · -- what is left after the gap is marks, so there is no gap or nothing left
      obtain ⟨k, rfl⟩ : ∃ k, core = List.replicate k mark :=
        ⟨_, List.eq_replicate_of_mem hall⟩
      rcases Nat.eq_zero_or_pos k with rfl | hk
      · exact Or.inr ⟨0, by simpa [hgap] using hsplit.symm⟩
      · have hrdrop := rdropWhile_append_marks hmark hk gap []
        rw [List.append_nil, List.rdropWhile_nil, List.append_nil, hsplit] at hrdrop
        have hlengths := congrArg List.length h
        rw [hrdrop, ← hsplit] at hlengths
        simp only [List.length_append, List.length_replicate] at hlengths
        obtain rfl : gap = [] := List.length_eq_zero_iff.mp (by omega)
        rw [← hsplit, List.nil_append]
        exact Or.inl fun x hx => List.eq_of_mem_replicate hx
    · obtain ⟨htake, hdrop⟩ := shift_rest hmark hm hgap hsplit hback
      have hshorter : rest.length < n := by
        rw [← hlength, ← hsplit, List.length_append, List.length_append,
          List.length_replicate]
        omega
      rcases ih rest.length hshorter hdrop rfl with hall | ⟨q, hq⟩
      · have hnone : gap = [] := by
          rw [← htake, List.takeWhile_eq_nil_iff]
          intro hpos
          rw [hall _ (List.get_mem _ _), hmark]
          exact Bool.false_ne_true
        rw [← hsplit, hnone, List.nil_append]
        refine Or.inl fun x hx => ?_
        rcases List.mem_append.mp hx with hx | hx
        · exact List.eq_of_mem_replicate hx
        · exact hall x hx
      · refine Or.inr ⟨q + 1, ?_⟩
        rw [htake] at hq
        rw [hgap, ← hsplit, hq, List.replicate_succ, List.flatten_cons, List.append_assoc]

/-- The other direction. -/
theorem shift_of_repeats (h : Repeats p mark m xs) :
    xs.dropWhile p ++ List.replicate m mark =
      List.replicate m mark ++ xs.rdropWhile p := by
  obtain ⟨q, hq⟩ := h
  obtain ⟨gap, hgap⟩ : ∃ gap, xs.takeWhile p = gap := ⟨_, rfl⟩
  have hnone : gap.rdropWhile p = [] := hgap ▸ rdropWhile_takeWhile p xs
  rw [hgap] at hq
  have hdrop : xs.dropWhile p =
      (List.replicate q (List.replicate m mark ++ gap)).flatten := by
    have hsplit : gap ++ xs.dropWhile p = xs :=
      hgap ▸ List.takeWhile_append_dropWhile
    exact List.append_cancel_left (hsplit.trans hq)
  rw [hdrop]
  cases q with
  | zero =>
      rw [List.replicate_zero, List.flatten_nil, List.append_nil] at hq
      rw [hq, hnone, List.replicate_zero, List.flatten_nil, List.nil_append,
        List.append_nil]
  | succ q =>
      have hlast : xs = (gap ++ (List.replicate q (List.replicate m mark ++ gap)).flatten) ++
          (List.replicate m mark ++ gap) := by
        rw [hq, List.replicate_succ', List.flatten_append, List.flatten_singleton,
          List.append_assoc]
      rw [hlast, rdropWhile_append_marks hmark hm _ _, hnone, List.append_nil,
        List.replicate_succ, List.flatten_cons]
      simp only [List.append_assoc]

/-- With marks on both sides there is nothing to strip. -/
theorem all_of_marks_around
    (h : stripWhile p (xs ++ List.replicate (m + 1) mark) =
      stripWhile p (List.replicate m mark ++ (xs ++ List.replicate 1 mark))) :
    ∀ x ∈ xs, x = mark := by
  have hpos : 0 < m + 1 := Nat.succ_pos m
  have hlast := rdropWhile_append_marks hmark Nat.one_pos xs []
  rw [List.append_nil, List.rdropWhile_nil, List.append_nil] at hlast
  rw [stripWhile_append_marks hmark hpos, stripWhile_marks_append hmark hm, hlast,
    ← List.replicate_append_replicate, ← List.append_assoc, ← List.append_assoc] at h
  have hmoved := List.append_cancel_right h
  have hself : xs.dropWhile p = xs := by
    refine (List.dropWhile_suffix p).eq_of_length ?_
    have hlengths := congrArg List.length hmoved
    simp only [List.length_append, List.length_replicate] at hlengths
    omega
  rw [hself] at hmoved
  exact (append_marks_comm_iff hm).mp hmoved

end Shifts

/-- With `m` marks before and `t` behind, a list is stripped to what the list
and as many further items are stripped to, only if these are marks and, unless
`m` is zero, the list consists of marks or repeats itself. -/
theorem stripWhile_eq_iff [DecidableEq α] (hmark : p mark = false) (ht : t ≤ 1) :
    (ys.length = m + t ∧ stripWhile p (xs ++ ys) =
        stripWhile p (List.replicate m mark ++ (xs ++ List.replicate t mark))) ↔
      ys = List.replicate (m + t) mark ∧
        (m = 0 ∨ (∀ x ∈ xs, x = mark) ∨ t = 0 ∧ Repeats p mark m xs) := by
  constructor
  · rintro ⟨hlength, heq⟩
    have hcount := congrArg (List.count mark) heq
    rw [count_stripWhile hmark, count_stripWhile hmark] at hcount
    simp only [List.count_append, List.count_replicate_self] at hcount
    have hall : ∀ y ∈ ys, mark = y := List.count_eq_length.mp (by omega)
    obtain rfl : ys = List.replicate (m + t) mark :=
      List.eq_replicate_iff.mpr ⟨hlength, fun y hy => (hall y hy).symm⟩
    refine ⟨rfl, ?_⟩
    rcases Nat.eq_zero_or_pos m with hzero | hm
    · exact Or.inl hzero
    rcases Nat.le_one_iff_eq_zero_or_eq_one.mp ht with rfl | rfl
    · rw [Nat.add_zero, List.replicate_zero, List.append_nil,
        stripWhile_append_marks hmark hm, stripWhile_marks_append hmark hm] at heq
      exact Or.inr ((all_or_repeats hmark hm heq).imp_right fun h => ⟨rfl, h⟩)
    · exact Or.inr (Or.inl (all_of_marks_around hmark hm heq))
  · rintro ⟨rfl, hcases⟩
    refine ⟨List.length_replicate, ?_⟩
    rcases hcases with rfl | hall | ⟨rfl, hrepeats⟩
    · rw [Nat.zero_add, List.replicate_zero, List.nil_append]
    · rw [List.eq_replicate_of_mem hall, List.replicate_append_replicate,
        List.replicate_append_replicate, List.replicate_append_replicate]
      congr 2
      omega
    · rcases Nat.eq_zero_or_pos m with rfl | hm
      · rw [Nat.add_zero, List.replicate_zero, List.append_nil, List.nil_append]
      · rw [Nat.add_zero, List.replicate_zero, List.append_nil,
          stripWhile_append_marks hmark hm, stripWhile_marks_append hmark hm,
          shift_of_repeats hmark hm hrepeats]

end AiBackend.Stripping
