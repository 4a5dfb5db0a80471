import Mathlib.Data.Option.Basic
import Mathlib.Logic.Function.Basic

/-!
# Cache-aside

A store has one record under a key, and a cache in front of it a snapshot of
one.  A snapshot under a key is right if it agrees with the record of that
key.  The rules say what each of the three operations on the two maps does to
that: filling and evicting are harmless, a write is exactly as harmful as the
snapshot it leaves behind.
-/

namespace AiBackend.CacheAside

variable {κ ρ τ : Type} (agrees : τ → ρ → Prop)

/-- A snapshot, if there is one, agrees with the record. -/
def CoherentAt (stored : Option ρ) (cached : Option τ) : Prop :=
  ∀ snapshot ∈ cached, ∃ record ∈ stored, agrees snapshot record

/-- Every snapshot agrees with the record of its key. -/
def Coherent (stored : κ → Option ρ) (cached : κ → Option τ) : Prop :=
  ∀ k, CoherentAt agrees (stored k) (cached k)

variable {agrees}

theorem coherentAt_none (stored : Option ρ) :
    CoherentAt agrees stored (none : Option τ) := by
  intro snapshot hsnapshot
  cases hsnapshot

theorem coherentAt_some_iff {record : ρ} {cached : Option τ} :
    CoherentAt agrees (some record) cached ↔ ∀ snapshot ∈ cached, agrees snapshot record := by
  simp [CoherentAt]

theorem CoherentAt.cached_eq_none {cached : Option τ}
    (h : CoherentAt agrees none cached) : cached = none := by
  cases cached with
  | none => rfl
  | some snapshot =>
      obtain ⟨record, hrecord, -⟩ := h snapshot rfl
      cases hrecord

/-- A lookup that answers from the cache, and from the record where the cache
has nothing, is right if and only if the snapshot is. -/
theorem rel_answer_iff {stored : Option ρ} {cached answer : Option τ}
    (hhit : ∀ snapshot ∈ cached, answer = some snapshot)
    (hmiss : cached = none → Option.Rel agrees answer stored) :
    Option.Rel agrees answer stored ↔ CoherentAt agrees stored cached := by
  cases hcached : cached with
  | none => simp [coherentAt_none, hmiss hcached]
  | some snapshot =>
      rw [hhit snapshot hcached]
      constructor
      · intro h
        cases h with
        | some hagrees =>
            intro other hother
            obtain rfl := Option.some.inj hother
            exact ⟨_, rfl, hagrees⟩
      · intro h
        obtain ⟨record, hrecord, hagrees⟩ := h snapshot rfl
        rw [hrecord]
        exact Option.Rel.some hagrees

variable [DecidableEq κ] {stored : κ → Option ρ} {cached : κ → Option τ} {k : κ}

theorem Coherent.fill (h : Coherent agrees stored cached) {snapshot : τ}
    (hsnapshot : CoherentAt agrees (stored k) (some snapshot)) :
    Coherent agrees stored (Function.update cached k (some snapshot)) := by
  intro j
  by_cases hj : j = k
  · subst hj
    rwa [Function.update_self]
  · rw [Function.update_of_ne hj]
    exact h j

theorem Coherent.evict (h : Coherent agrees stored cached) :
    Coherent agrees stored (Function.update cached k none) := by
  intro j
  by_cases hj : j = k
  · subst hj
    rw [Function.update_self]
    exact coherentAt_none _
  · rw [Function.update_of_ne hj]
    exact h j

/-- A write keeps the cache right if and only if the snapshot it leaves behind
agrees with what is written. -/
theorem coherent_write_iff (h : Coherent agrees stored cached) {record : ρ} :
    Coherent agrees (Function.update stored k (some record)) cached ↔
      ∀ snapshot ∈ cached k, agrees snapshot record := by
  constructor
  · intro hwrite
    have hk := hwrite k
    rwa [Function.update_self, coherentAt_some_iff] at hk
  · intro hk j
    by_cases hj : j = k
    · subst hj
      rw [Function.update_self]
      exact coherentAt_some_iff.mpr hk
    · rw [Function.update_of_ne hj]
      exact h j

/-- A record under a new key disagrees with nothing. -/
theorem Coherent.insert (h : Coherent agrees stored cached) (hnew : stored k = none)
    (record : ρ) : Coherent agrees (Function.update stored k (some record)) cached := by
  rw [coherent_write_iff h]
  intro snapshot hsnapshot
  have hk := h k
  rw [hnew] at hk
  rw [hk.cached_eq_none] at hsnapshot
  cases hsnapshot

/-- A write that evicts its key keeps the cache right. -/
theorem Coherent.writeThenEvict (h : Coherent agrees stored cached) (record : ρ) :
    Coherent agrees (Function.update stored k (some record))
      (Function.update cached k none) := by
  rw [coherent_write_iff h.evict]
  intro snapshot hsnapshot
  rw [Function.update_self] at hsnapshot
  cases hsnapshot

end AiBackend.CacheAside
