import Mathlib.Data.List.Basic

/-!
# Where a pattern occurs in a text

The positions of a pattern in a list.  A symbol that the pattern does not
contain separates the text: no occurrence lies across it, so the positions in
the whole are those in the parts.  A symbol that the pattern needs and the
text does not have rules out every occurrence.
-/

namespace AiBackend.Occurrences

variable {α : Type} [DecidableEq α]

/-- The positions at which a non-empty pattern occurs, in increasing order. -/
def positions (pattern : List α) : List α → List ℕ
  | [] => []
  | x :: xs =>
      if pattern.isPrefixOf (x :: xs) then 0 :: (positions pattern xs).map (· + 1)
      else (positions pattern xs).map (· + 1)

/-- The text contains the pattern. -/
def Contains (pattern text : List α) : Prop := positions pattern text ≠ []

instance (pattern text : List α) : Decidable (Contains pattern text) :=
  inferInstanceAs (Decidable (_ ≠ _))

variable {pattern : List α} {c : α}

/-- A prefix without a symbol ends before it. -/
theorem isPrefixOf_append_cons (hc : c ∉ pattern) (xs ys : List α) :
    pattern.isPrefixOf (xs ++ c :: ys) = pattern.isPrefixOf xs := by
  induction pattern generalizing xs with
  | nil => simp
  | cons p pattern ih =>
      rw [List.mem_cons, not_or] at hc
      cases xs with
      | nil => simp [List.isPrefixOf, Ne.symm hc.1]
      | cons x xs => simp [List.isPrefixOf, ih hc.2]

theorem positions_append_cons (hne : pattern ≠ []) (hc : c ∉ pattern)
    (xs ys : List α) :
    positions pattern (xs ++ c :: ys) =
      positions pattern xs ++
        (positions pattern ys).map (· + (xs.length + 1)) := by
  induction xs with
  | nil =>
      have hhead : pattern.isPrefixOf (c :: ys) = false := by
        have hstarts := isPrefixOf_append_cons hc [] ys
        rw [List.nil_append] at hstarts
        rw [hstarts]
        cases pattern with
        | nil => exact absurd rfl hne
        | cons p pattern => rfl
      simp [positions, hhead]
  | cons x xs ih =>
      have hstarts := isPrefixOf_append_cons hc (x :: xs) ys
      rw [List.cons_append] at hstarts
      have hshift : ((positions pattern ys).map (· + (xs.length + 1))).map (· + 1) =
          (positions pattern ys).map (· + ((x :: xs).length + 1)) := by
        rw [List.map_map]
        apply List.map_congr_left
        intro n _
        simp only [Function.comp_apply, List.length_cons]
        omega
      simp only [List.cons_append, positions, hstarts, ih, List.map_append, hshift]
      split
      · rfl
      · rfl

/-- A text is free of the pattern exactly if both its parts are. -/
theorem contains_append_cons (hne : pattern ≠ []) (hc : c ∉ pattern)
    (xs ys : List α) :
    Contains pattern (xs ++ c :: ys) ↔ Contains pattern xs ∨ Contains pattern ys := by
  unfold Contains
  rw [positions_append_cons hne hc, Ne, List.append_eq_nil_iff, List.map_eq_nil_iff,
    not_and_or]

/-- Without one of its symbols the pattern does not occur. -/
theorem positions_eq_nil_of_notMem {d : α} (hd : d ∈ pattern) {text : List α}
    (htext : d ∉ text) : positions pattern text = [] := by
  induction text with
  | nil => rfl
  | cons x xs ih =>
      have hstarts : pattern.isPrefixOf (x :: xs) = false := by
        rw [Bool.eq_false_iff, ne_eq, List.isPrefixOf_iff_prefix]
        intro hstarts
        exact htext (hstarts.subset hd)
      have hxs := ih fun hmem => htext (List.mem_cons_of_mem _ hmem)
      simp [positions, hxs, hstarts]

theorem not_contains_of_notMem {d : α} (hd : d ∈ pattern) {text : List α}
    (htext : d ∉ text) : ¬ Contains pattern text :=
  not_not.mpr (positions_eq_nil_of_notMem hd htext)

/-! ## Separators -/

/-- A text of symbols that the pattern does not have separates like one of
them. -/
theorem contains_append_separator (hne : pattern ≠ []) {separator : List α}
    (hsep : separator ≠ []) (hc : ∀ c ∈ separator, c ∉ pattern) (xs ys : List α) :
    Contains pattern (xs ++ (separator ++ ys)) ↔
      Contains pattern xs ∨ Contains pattern ys := by
  have hempty : ¬ Contains pattern [] := not_not.mpr rfl
  have hrest : ∀ rest : List α, (∀ c ∈ rest, c ∉ pattern) →
      (Contains pattern (rest ++ ys) ↔ Contains pattern ys) := by
    intro rest
    induction rest with
    | nil => exact fun _ => Iff.rfl
    | cons c rest ih =>
        intro hrest
        rw [List.forall_mem_cons] at hrest
        have hsplit := contains_append_cons hne hrest.1 [] (rest ++ ys)
        rw [List.nil_append, or_iff_right hempty, ih hrest.2] at hsplit
        exact hsplit
  cases separator with
  | nil => exact absurd rfl hsep
  | cons c rest =>
      rw [List.forall_mem_cons] at hc
      rw [List.cons_append, contains_append_cons hne hc.1, hrest rest hc.2]

theorem contains_intercalate (hne : pattern ≠ []) {separator : List α}
    (hsep : separator ≠ []) (hc : ∀ c ∈ separator, c ∉ pattern)
    (parts : List (List α)) :
    Contains pattern (separator.intercalate parts) ↔
      ∃ part ∈ parts, Contains pattern part := by
  have hempty : ¬ Contains pattern [] := not_not.mpr rfl
  induction parts with
  | nil => simpa using hempty
  | cons first rest ih =>
      cases rest with
      | nil => simp
      | cons second rest =>
          rw [List.intercalate_cons_cons, List.append_assoc,
            contains_append_separator hne hsep hc, List.exists_mem_cons_iff]
          exact or_congr_right ih

end AiBackend.Occurrences
