import AiBackend.Infrastructure.VectorStore
import AiBackend.Support.Sorting
import Mathlib.Data.List.Perm.Subperm

/-!
# The server behind the vector store

What a query answer can be relied on for: the points of the collection that
match every condition of the filter, ranked by score, no more than asked for.
Which payloads satisfy a condition is the server's business and a parameter;
`topPoints` is a server that looks at every point.
-/

namespace AiBackend

namespace QueryServer

variable (satisfies : Dict Json → FieldCondition → Bool)

/-- A point matches a filter; without one, every point does. -/
def Matches (queryFilter : Option (List FieldCondition)) (p : Point) : Prop :=
  ∀ condition ∈ queryFilter.getD [], satisfies p.payload condition = true

instance (queryFilter : Option (List FieldCondition)) (p : Point) :
    Decidable (Matches satisfies queryFilter p) :=
  inferInstanceAs (Decidable (∀ _ ∈ _, _))

/-- Answers to queries over the points of a store. -/
structure Ranked (store : PointStore) (queryPoints : QueryPoints) : Prop where
  stored : ∀ vector limit queryFilter,
    ∀ scored ∈ queryPoints vector limit queryFilter, scored.point ∈ store.items
  matching : ∀ vector limit queryFilter,
    ∀ scored ∈ queryPoints vector limit queryFilter,
      Matches satisfies queryFilter scored.point
  ranked : ∀ vector limit queryFilter,
    (queryPoints vector limit queryFilter).Pairwise fun a b => b.score ≤ a.score
  limited : ∀ vector limit queryFilter,
    (queryPoints vector limit queryFilter).length ≤ limit.toNat

/-- Exact answers: the matching points with the highest scores, each listed
once, and as many as asked for unless there are fewer. -/
structure Exact (score : List ℚ → Point → ℚ) (store : PointStore)
    (queryPoints : QueryPoints) : Prop extends Ranked satisfies store queryPoints where
  scored : ∀ vector limit queryFilter,
    ∀ scored ∈ queryPoints vector limit queryFilter, scored.score = score vector scored.point
  once : ∀ vector limit queryFilter,
    ((queryPoints vector limit queryFilter).map ScoredPoint.point).Nodup
  best : ∀ vector limit queryFilter,
    ∀ p ∈ store.items, Matches satisfies queryFilter p →
      ⟨p, score vector p⟩ ∈ queryPoints vector limit queryFilter ∨
        (queryPoints vector limit queryFilter).length = limit.toNat ∧
          ∀ scored ∈ queryPoints vector limit queryFilter, score vector p ≤ scored.score

section Exact

variable {satisfies} {score : List ℚ → Point → ℚ} {store : PointStore}
  {queryPoints : QueryPoints} {vector : List ℚ} {limit : ℤ}
  {queryFilter : Option (List FieldCondition)} {p : Point} {above : List Point}

/-- As many better points as were asked for keep a point out of an answer. -/
theorem Exact.not_mem (h : Exact satisfies score store queryPoints) (hnodup : above.Nodup)
    (habove : ∀ q ∈ above, q ∈ store.items ∧ Matches satisfies queryFilter q ∧
      score vector p < score vector q)
    (hfull : limit.toNat ≤ above.length) :
    ∀ scored ∈ queryPoints vector limit queryFilter, scored.point ≠ p := by
  rintro scored hscored rfl
  have hscore := h.scored vector limit queryFilter scored hscored
  have hothers : ∀ q ∈ above,
      q ∈ (queryPoints vector limit queryFilter).map ScoredPoint.point := by
    intro q hq
    obtain ⟨hstored, hmatches, hlt⟩ := habove q hq
    rcases h.best vector limit queryFilter q hstored hmatches with hmem | ⟨-, hbest⟩
    · exact List.mem_map_of_mem hmem
    · have hle := hbest scored hscored
      rw [hscore] at hle
      exact absurd hlt (not_lt.mpr hle)
  have hout : scored.point ∉ above := fun hin => lt_irrefl _ (habove _ hin).2.2
  have hsub := List.subperm_of_subset (List.nodup_cons.mpr ⟨hout, hnodup⟩)
    (List.cons_subset.mpr ⟨List.mem_map_of_mem hscored, hothers⟩)
  have hlength := hsub.length_le
  have hlimit := h.limited vector limit queryFilter
  rw [List.length_cons, List.length_map] at hlength
  omega

/-- A point is in an answer if fewer points than were asked for are as good. -/
theorem Exact.mem (h : Exact satisfies score store queryPoints) (hp : p ∈ store.items)
    (hmatches : Matches satisfies queryFilter p)
    (habove : ∀ q ∈ store.items, Matches satisfies queryFilter q → q ≠ p →
      score vector p ≤ score vector q → q ∈ above)
    (hroom : above.length < limit.toNat) :
    ⟨p, score vector p⟩ ∈ queryPoints vector limit queryFilter := by
  by_contra hout
  obtain ⟨hlength, hbest⟩ :=
    (h.best vector limit queryFilter p hp hmatches).resolve_left hout
  have hsub : ((queryPoints vector limit queryFilter).map ScoredPoint.point).Subperm above := by
    refine List.subperm_of_subset (h.once vector limit queryFilter) fun q hq => ?_
    obtain ⟨scored, hscored, rfl⟩ := List.mem_map.mp hq
    have hscore := h.scored vector limit queryFilter scored hscored
    refine habove scored.point (h.stored _ _ _ scored hscored)
      (h.matching _ _ _ scored hscored) ?_ (hscore ▸ hbest scored hscored)
    rintro rfl
    exact hout (hscore ▸ hscored)
  have hle := hsub.length_le
  rw [List.length_map, hlength] at hle
  exact absurd hle (not_le.mpr hroom)

end Exact

/-- Score every matching point, sort, and cut off. -/
def topPoints (score : List ℚ → Point → ℚ) (store : PointStore) : QueryPoints :=
  fun vector limit queryFilter =>
    (((store.items.filter fun p => Matches satisfies queryFilter p).map
      fun p => ⟨p, score vector p⟩).mergeSort
        fun a b => decide (b.score ≤ a.score)).take limit.toNat

section TopPoints

variable {satisfies} {score : List ℚ → Point → ℚ} {store : PointStore}
  {vector : List ℚ} {limit : ℤ} {queryFilter : Option (List FieldCondition)}

/-- The ranking before it is cut off. -/
theorem pairwise_sorted (answer : List ScoredPoint) :
    (answer.mergeSort fun a b => decide (b.score ≤ a.score)).Pairwise
      fun a b => b.score ≤ a.score :=
  Sorting.pairwise_sortedFalling ScoredPoint.score answer

theorem mem_topPoints {scored : ScoredPoint}
    (h : scored ∈ topPoints satisfies score store vector limit queryFilter) :
    scored.point ∈ store.items ∧ Matches satisfies queryFilter scored.point := by
  have hmem := List.mem_of_mem_take h
  rw [List.mem_mergeSort, List.mem_map] at hmem
  obtain ⟨p, hp, rfl⟩ := hmem
  simpa using hp

theorem topPoints_ranked (score : List ℚ → Point → ℚ) (store : PointStore) :
    Ranked satisfies store (topPoints satisfies score store) where
  stored := fun _ _ _ _ h => (mem_topPoints h).1
  matching := fun _ _ _ _ h => (mem_topPoints h).2
  ranked := fun _ _ _ => (pairwise_sorted _).sublist (List.take_sublist _ _)
  limited := fun _ _ _ => List.length_take_le _ _

theorem topPoints_exact (score : List ℚ → Point → ℚ) (store : PointStore) :
    Exact satisfies score store (topPoints satisfies score store) where
  toRanked := topPoints_ranked score store
  scored := by
    intro vector limit queryFilter scored h
    have hmem := List.mem_of_mem_take h
    rw [List.mem_mergeSort, List.mem_map] at hmem
    obtain ⟨p, -, rfl⟩ := hmem
    rfl
  once := by
    intro vector limit queryFilter
    let candidates := store.items.filter fun p => Matches satisfies queryFilter p
    let ranking := (candidates.map fun p => (⟨p, score vector p⟩ : ScoredPoint)).mergeSort
      fun a b => decide (b.score ≤ a.score)
    have hperm : (ranking.map ScoredPoint.point).Perm candidates := by
      have hpoints : (candidates.map fun p => (⟨p, score vector p⟩ : ScoredPoint)).map
          ScoredPoint.point = candidates := by
        rw [List.map_map]
        exact List.map_id _
      have hsame := (List.mergeSort_perm
        (candidates.map fun p => (⟨p, score vector p⟩ : ScoredPoint))
        fun a b => decide (b.score ≤ a.score)).map ScoredPoint.point
      rwa [hpoints] at hsame
    have hnodup : candidates.Nodup := store.nodup.of_map.filter _
    have htake : ((ranking.take limit.toNat).map ScoredPoint.point).Sublist
        (ranking.map ScoredPoint.point) := (List.take_sublist _ _).map _
    exact (hperm.nodup_iff.mpr hnodup).sublist htake
  best := by
    intro vector limit queryFilter p hp hmatches
    refine Sorting.mem_take_or_le ScoredPoint.score (pairwise_sorted _) ?_ limit.toNat
    rw [List.mem_mergeSort]
    exact List.mem_map_of_mem (List.mem_filter.mpr ⟨hp, by simpa using hmatches⟩)

/-- The best of all matching points heads the answer. -/
theorem topPoints_best {p : Point} (hp : p ∈ store.items)
    (hmatches : Matches satisfies queryFilter p) (hlimit : 1 ≤ limit)
    (hbest : ∀ q ∈ store.items, q ≠ p → score vector q < score vector p) :
    ∃ rest, topPoints satisfies score store vector limit queryFilter =
      ⟨p, score vector p⟩ :: rest := by
  let sorted := ((store.items.filter fun p => Matches satisfies queryFilter p).map
    fun p => (⟨p, score vector p⟩ : ScoredPoint)).mergeSort
      fun a b => decide (b.score ≤ a.score)
  have hmem : (⟨p, score vector p⟩ : ScoredPoint) ∈ sorted := by
    rw [List.mem_mergeSort]
    exact List.mem_map_of_mem (List.mem_filter.mpr ⟨hp, by simpa using hmatches⟩)
  have hshape : ∀ scored ∈ sorted, scored.point ∈ store.items ∧
      scored.score = score vector scored.point := by
    intro scored hscored
    rw [List.mem_mergeSort, List.mem_map] at hscored
    obtain ⟨q, hq, rfl⟩ := hscored
    exact ⟨List.mem_of_mem_filter hq, rfl⟩
  have hsorted : sorted.Pairwise fun a b => b.score ≤ a.score := pairwise_sorted _
  obtain ⟨n, hn⟩ : ∃ n, limit.toNat = n + 1 := ⟨limit.toNat - 1, by omega⟩
  change ∃ rest, sorted.take limit.toNat = _
  rw [hn]
  cases hhead : sorted with
  | nil => simp [hhead] at hmem
  | cons first rest =>
      rw [hhead] at hmem hshape hsorted
      obtain ⟨hstored, hscore⟩ := hshape first (by simp)
      have hfirst : first.point = p := by
        by_contra hne
        have hlt := hbest first.point hstored hne
        rw [← hscore] at hlt
        rcases List.mem_cons.mp hmem with rfl | hrest
        · exact hne rfl
        · exact absurd ((List.pairwise_cons.mp hsorted).1 _ hrest) (not_le.mpr hlt)
      refine ⟨rest.take n, ?_⟩
      obtain ⟨point, value⟩ := first
      subst hfirst
      rw [List.take_succ_cons, ← hscore]

/-- Where all matching points are asked for, leaving some out of the store leaves
them out of the answer. -/
theorem topPoints_filter {keep : Point → Bool}
    (hall : ((store.items.filter fun p => Matches satisfies queryFilter p).length : ℤ) ≤ limit) :
    topPoints satisfies score (store.filter keep) vector limit queryFilter =
      (topPoints satisfies score store vector limit queryFilter).filter
        fun scored => keep scored.point := by
  let matching := fun p : Point => decide (Matches satisfies queryFilter p)
  let scored := fun p : Point => (⟨p, score vector p⟩ : ScoredPoint)
  have hpart : (store.filter keep).items.filter matching =
      (store.items.filter matching).filter keep := List.filter_comm _ _ _
  have htake : ∀ items : List Point, (items.length : ℤ) ≤ limit →
      (Sorting.sortedFalling ScoredPoint.score (items.map scored)).take limit.toNat =
        Sorting.sortedFalling ScoredPoint.score (items.map scored) := by
    intro items hitems
    apply List.take_of_length_le
    rw [(Sorting.perm_sortedFalling _ _).length_eq, List.length_map]
    omega
  have hfewer : (((store.items.filter matching).filter keep).length : ℤ) ≤ limit :=
    le_trans (by exact_mod_cast List.length_filter_le _ _) hall
  change (Sorting.sortedFalling ScoredPoint.score
      (((store.filter keep).items.filter matching).map scored)).take limit.toNat =
    ((Sorting.sortedFalling ScoredPoint.score
      ((store.items.filter matching).map scored)).take limit.toNat).filter _
  rw [hpart, htake _ hall, htake _ hfewer, Sorting.filter_sortedFalling, List.filter_map]
  rfl

/-- Stores with the same matching points give the same answer. -/
theorem topPoints_congr {store' : PointStore}
    (h : store.items.filter (fun p => Matches satisfies queryFilter p) =
      store'.items.filter fun p => Matches satisfies queryFilter p) :
    topPoints satisfies score store vector limit queryFilter =
      topPoints satisfies score store' vector limit queryFilter := by
  simp only [topPoints, h]

end TopPoints
end QueryServer
end AiBackend
