import AiBackend.Retrieval.Isolation

/-!
# The entries of a search's filters

Every entry of `filters` and the explicit tenant restrict what a search
shows.  The adapter leaves a `tenant_id` entry out whether or not there is an
explicit tenant that takes its place, so without one the entry restricts
nothing.
-/

namespace AiBackend
namespace QdrantVectorRepository

open Python QueryServer Retrieval

/-- A server that answers with points of the store that satisfy every
condition of the filter. -/
structure Filtered (satisfies : Dict Json → FieldCondition → Bool) (store : PointStore)
    (queryPoints : QueryPoints) : Prop where
  stored : ∀ vector limit queryFilter,
    ∀ scored ∈ queryPoints vector limit queryFilter, scored.point ∈ store.items
  matching : ∀ vector limit queryFilter,
    ∀ scored ∈ queryPoints vector limit queryFilter,
      Matches satisfies queryFilter scored.point

/-- The entries of `filters`, if there are any. -/
def entries (filters : Option (Dict Json)) : List (String × Json) :=
  filters.elim [] KeyedList.items

/-- The payload matches the entry; a value without a match condition is
matched by none. -/
def HasEntry (satisfies : Dict Json → FieldCondition → Bool) (payload : Dict Json)
    (entry : String × Json) : Prop :=
  ∃ value, matchValue entry.2 = .ok value ∧ satisfies payload ⟨entry.1, value⟩ = true

/-- The payload matches everything a search was asked for; only an explicit
tenant takes the place of a `tenant_id` entry. -/
structure MeetsRequest (satisfies : Dict Json → FieldCondition → Bool)
    (tenantId : Option TenantId) (filters : Option (Dict Json)) (payload : Dict Json) :
    Prop where
  tenant : ∀ t, tenantId = some t → satisfies payload ⟨"tenant_id", .str t.str⟩ = true
  entries : ∀ entry ∈ entries filters, entry.1 ≠ "tenant_id" ∨ tenantId = none →
    HasEntry satisfies payload entry

/-- Whatever such a server holds, a search shows points that match everything
it was asked for. -/
def KeepsRestrictions (satisfies : Dict Json → FieldCondition → Bool)
    (intFromStr : String → Option ℤ) (tenantId : Option TenantId)
    (filters : Option (Dict Json)) : Prop :=
  ∀ (store : PointStore) (queryPoints : QueryPoints),
    Filtered satisfies store queryPoints →
      ∀ uuid4 queryEmbedding topK results,
        search queryPoints intFromStr uuid4 queryEmbedding topK filters tenantId =
          .ok results →
        ∀ result ∈ results, ∃ p ∈ store.items, ShowsResult intFromStr p result ∧
          MeetsRequest satisfies tenantId filters p.payload

/-- Without an explicit tenant a `tenant_id` entry asks for nothing more than
the other entries do. -/
def TenantEntryImplied (satisfies : Dict Json → FieldCondition → Bool)
    (intFromStr : String → Option ℤ) (tenantId : Option TenantId)
    (filters : Option (Dict Json)) : Prop :=
  tenantId = none → ∀ value, ("tenant_id", value) ∈ entries filters →
    ∀ p, Readable intFromStr p →
      (∀ entry ∈ entries filters, entry.1 ≠ "tenant_id" →
        HasEntry satisfies p.payload entry) →
      HasEntry satisfies p.payload ("tenant_id", value)

variable {satisfies : Dict Json → FieldCondition → Bool} {intFromStr : String → Option ℤ}
  {tenantId : Option TenantId} {filters : Option (Dict Json)}

/-! ## The conditions of a filter -/

/-- The conditions hold of a payload if and only if it matches the entries
they were made from. -/
theorem satisfies_extraConditions {pairs : List (String × Json)}
    {conditions : List FieldCondition} (h : extraConditions pairs = .ok conditions)
    (payload : Dict Json) :
    (∀ condition ∈ conditions, satisfies payload condition = true) ↔
      ∀ entry ∈ pairs, entry.1 ≠ "tenant_id" → HasEntry satisfies payload entry := by
  induction pairs generalizing conditions with
  | nil =>
      cases h
      simp
  | cons entry pairs ih =>
      obtain ⟨k, v⟩ := entry
      rw [extraConditions] at h
      split at h
      next hkey =>
        obtain ⟨value, hvalue, h⟩ := Program.except_bind_eq_ok_iff.mp h
        obtain ⟨rest, hrest, h⟩ := Program.except_bind_eq_ok_iff.mp h
        cases h
        have hfirst : HasEntry satisfies payload (k, v) ↔
            satisfies payload ⟨k, value⟩ = true := by
          simp [HasEntry, hvalue]
        rw [List.forall_mem_cons, List.forall_mem_cons, ih hrest, hfirst]
        simp [hkey]
      next hkey =>
        rw [List.forall_mem_cons, ih h]
        simp [not_not.mp hkey]

/-- A payload that matches the entries shows that they have conditions. -/
theorem exists_extraConditions {pairs : List (String × Json)} {payload : Dict Json}
    (h : ∀ entry ∈ pairs, entry.1 ≠ "tenant_id" → HasEntry satisfies payload entry) :
    ∃ conditions, extraConditions pairs = .ok conditions := by
  induction pairs with
  | nil => exact ⟨[], rfl⟩
  | cons entry pairs ih =>
      obtain ⟨hfirst, hrest⟩ := List.forall_mem_cons.mp h
      obtain ⟨rest, hrest⟩ := ih hrest
      obtain ⟨k, v⟩ := entry
      rw [extraConditions]
      split
      next hkey =>
        obtain ⟨value, hvalue, -⟩ := hfirst hkey
        exact ⟨⟨k, value⟩ :: rest, by rw [hvalue, hrest]; rfl⟩
      next => exact ⟨rest, hrest⟩

/-- A point matches the filter of a search if and only if it matches the
explicit tenant and all entries but that of the tenant. -/
theorem matches_buildFilter {queryFilter : Option (List FieldCondition)}
    (h : buildFilter tenantId filters = .ok queryFilter) (p : Point) :
    Matches satisfies queryFilter p ↔
      (∀ t, tenantId = some t → satisfies p.payload ⟨"tenant_id", .str t.str⟩ = true) ∧
        ∀ entry ∈ entries filters, entry.1 ≠ "tenant_id" →
          HasEntry satisfies p.payload entry := by
  obtain ⟨extra, hextra, h⟩ := Program.except_bind_eq_ok_iff.mp h
  have hconditions : queryFilter.getD [] = tenantId.elim []
      (fun t => [(⟨"tenant_id", .str t.str⟩ : FieldCondition)]) ++ extra := by
    cases h
    split
    next hempty => exact hempty.symm
    next => rfl
  unfold Matches
  rw [hconditions, List.forall_mem_append, satisfies_extraConditions hextra]
  cases tenantId with
  | none => simp [entries]
  | some t => simp [entries]

/-! ## What a search shows -/

/-- What a search shows matches the filter it was made with. -/
theorem exists_matching_of_search {store : PointStore} {queryPoints : QueryPoints}
    (hserver : Filtered satisfies store queryPoints) {uuid4 : ℕ → Uuid}
    {queryEmbedding : EmbeddingVector} {topK : ℤ} {results : List SearchResult}
    (h : search queryPoints intFromStr uuid4 queryEmbedding topK filters tenantId =
      .ok results) {result : SearchResult} (hresult : result ∈ results) :
    ∃ queryFilter, buildFilter tenantId filters = .ok queryFilter ∧
      ∃ p ∈ store.items, ShowsResult intFromStr p result ∧
        Matches satisfies queryFilter p := by
  obtain ⟨queryFilter, hfilter, h⟩ := Program.except_bind_eq_ok_iff.mp h
  cases h
  obtain ⟨scored, hscored, fresh, hread⟩ := exists_of_mem_readPoints hresult
  exact ⟨queryFilter, hfilter, scored.point, hserver.stored _ _ _ scored hscored,
    ⟨scored.score, fresh, hread⟩, hserver.matching _ _ _ scored hscored⟩

theorem keepsRestrictions_of_implied
    (himplied : TenantEntryImplied satisfies intFromStr tenantId filters) :
    KeepsRestrictions satisfies intFromStr tenantId filters := by
  intro store queryPoints hserver uuid4 queryEmbedding topK results h result hresult
  obtain ⟨queryFilter, hfilter, p, hp, hshows, hmatches⟩ :=
    exists_matching_of_search hserver h hresult
  obtain ⟨htenant, hentries⟩ := (matches_buildFilter hfilter p).mp hmatches
  refine ⟨p, hp, hshows, htenant, fun entry hentry hasked => ?_⟩
  by_cases hkey : entry.1 = "tenant_id"
  · obtain ⟨k, value⟩ := entry
    obtain rfl : k = "tenant_id" := hkey
    exact himplied (hasked.resolve_left (not_not.mpr rfl)) value hentry p
      ⟨result, hshows⟩ hentries
  · exact hentries entry hentry hkey

/-- A store of one point shows what its searches overlook. -/
theorem implied_of_keepsRestrictions
    (hkeeps : KeepsRestrictions satisfies intFromStr tenantId filters) :
    TenantEntryImplied satisfies intFromStr tenantId filters := by
  rintro rfl value hvalue p ⟨result, score, fresh, hread⟩ hentries
  let store : PointStore := ⟨[p], List.nodup_singleton _⟩
  let queryPoints := topPoints satisfies (fun _ _ => score) store
  have hranked : Ranked satisfies store queryPoints :=
    topPoints_ranked (fun _ _ => score) store
  have hserver : Filtered satisfies store queryPoints := ⟨hranked.stored, hranked.matching⟩
  obtain ⟨extra, hextra⟩ := exists_extraConditions hentries
  obtain ⟨queryFilter, hfilter⟩ : ∃ queryFilter,
      buildFilter none filters = .ok queryFilter :=
    ⟨_, Program.except_bind_eq_ok_iff.mpr ⟨extra, hextra, rfl⟩⟩
  have hmatches : Matches satisfies queryFilter p :=
    (matches_buildFilter hfilter p).mpr ⟨by simp, hentries⟩
  have hanswer : queryPoints [] 1 queryFilter = [⟨p, score⟩] := by
    simp [queryPoints, topPoints, store, hmatches]
  have hsearch : search queryPoints intFromStr (fun _ => fresh) ⟨[], "", 0, rfl⟩ 1 filters
      none = .ok [result] := by
    refine Program.except_bind_eq_ok_iff.mpr ⟨queryFilter, hfilter, ?_⟩
    rw [hanswer, readPoints, hread]
    rfl
  obtain ⟨q, hq, -, hmeets⟩ := hkeeps store queryPoints hserver _ _ _ _ hsearch result
    (List.mem_singleton_self _)
  obtain rfl : q = p := List.mem_singleton.mp hq
  exact hmeets.entries _ hvalue (Or.inr rfl)

/-- A search keeps all restrictions if and only if an explicit tenant takes
the place of a `tenant_id` entry or the other entries imply it. -/
theorem keepsRestrictions_iff (satisfies : Dict Json → FieldCondition → Bool)
    (intFromStr : String → Option ℤ) (tenantId : Option TenantId)
    (filters : Option (Dict Json)) :
    KeepsRestrictions satisfies intFromStr tenantId filters ↔
      TenantEntryImplied satisfies intFromStr tenantId filters :=
  ⟨implied_of_keepsRestrictions, keepsRestrictions_of_implied⟩

/-- A filter by the first tenant shows a point of the second. -/
theorem not_keepsRestrictions_tenant :
    ¬ KeepsRestrictions keyword (fun _ => none) none
      (some ⟨[("tenant_id", .str (⟨1⟩ : Uuid).str)], List.nodup_singleton _⟩) := by
  intro hkeeps
  obtain ⟨value, hvalue, hmatches⟩ := implied_of_keepsRestrictions hkeeps rfl _
    (List.mem_singleton_self _) (tenantPoint ⟨12⟩ ⟨2⟩ ⟨22⟩)
    (readable_tenantPoint _ _ _ _) (by simp [entries])
  cases hvalue
  have hother : keyword (tenantPoint ⟨12⟩ ⟨2⟩ ⟨22⟩).payload
      ⟨"tenant_id", .str (⟨1⟩ : Uuid).str⟩ = false := rfl
  rw [hother] at hmatches
  cases hmatches

end QdrantVectorRepository
end AiBackend
