import Mathlib.Data.List.Nodup

/-!
# Lists with unique keys

Tables with a unique column, insertion-ordered dictionaries, sets of points
with identifiers and scored members are all lists in which a key occurs at
most once.  The uniqueness is a field, so no operation can lose it; each
operation comes with the value it leaves under every key.
-/

namespace AiBackend

/-- A list of items whose keys are pairwise distinct. -/
@[ext]
structure KeyedList {α κ : Type} (key : α → κ) where
  items : List α
  nodup : (items.map key).Nodup

namespace KeyedList

variable {α κ : Type} [DecidableEq κ] {key : α → κ}

/-- No item at all. -/
def empty : KeyedList key := ⟨[], List.nodup_nil⟩

/-- The keys, in item order. -/
def keys (t : KeyedList key) : List κ := t.items.map key

/-- The item stored under a key. -/
def find? (t : KeyedList key) (k : κ) : Option α :=
  t.items.find? fun a => key a = k

theorem map_key_replace (items : List α) (a : α) :
    (items.map fun b => if key b = key a then a else b).map key = items.map key := by
  rw [List.map_map]
  apply List.map_congr_left
  intro b _
  by_cases hb : key b = key a
  · simp [hb]
  · simp [hb]

/-- Replace the item with the same key in place, or append a new one. -/
def upsert (t : KeyedList key) (a : α) : KeyedList key where
  items :=
    if key a ∈ t.items.map key then
      t.items.map fun b => if key b = key a then a else b
    else t.items ++ [a]
  nodup := by
    split
    · rw [map_key_replace]
      exact t.nodup
    next hnew =>
      rw [List.map_append, List.map_singleton]
      exact List.Nodup.append t.nodup (List.nodup_singleton _)
        (by simpa using hnew)

/-- Append an item unless its key is taken already. -/
def insertNew (t : KeyedList key) (a : α) : KeyedList key :=
  if key a ∈ t.items.map key then t else t.upsert a

theorem map_key_modify (items : List α) (k : κ) {f : α → α}
    (hf : ∀ a, key (f a) = key a) :
    (items.map fun a => if key a = k then f a else a).map key =
      items.map key := by
  rw [List.map_map]
  apply List.map_congr_left
  intro a _
  by_cases ha : key a = k
  · simp [ha, hf]
  · simp [ha]

/-- Rewrite the item under `k`, if there is one, keeping its key. -/
def modify (t : KeyedList key) (k : κ) (f : α → α)
    (hf : ∀ a, key (f a) = key a) : KeyedList key where
  items := t.items.map fun a => if key a = k then f a else a
  nodup := by
    rw [map_key_modify t.items k hf]
    exact t.nodup

@[simp] theorem keys_modify (t : KeyedList key) (k : κ) (f : α → α)
    (hf : ∀ a, key (f a) = key a) : (t.modify k f hf).keys = t.keys :=
  map_key_modify t.items k hf

/-- Keep the items that pass a test. -/
def filter (t : KeyedList key) (p : α → Bool) : KeyedList key where
  items := t.items.filter p
  nodup := t.nodup.sublist ((List.filter_sublist).map key)

/-! ## What is stored under a key -/

theorem find?_eq_some_iff (t : KeyedList key) {k : κ} {a : α} :
    t.find? k = some a ↔ a ∈ t.items ∧ key a = k := by
  constructor
  · intro h
    exact ⟨List.mem_of_find?_eq_some h, by simpa using List.find?_some h⟩
  · intro h
    obtain ⟨hmem, rfl⟩ := h
    cases hfind : t.find? (key a) with
    | none =>
        have habsent := List.find?_eq_none.mp hfind a hmem
        simp at habsent
    | some b =>
        have hb : b ∈ t.items := List.mem_of_find?_eq_some hfind
        have hkey : key b = key a := by simpa using List.find?_some hfind
        rw [List.inj_on_of_nodup_map t.nodup hb hmem hkey]

theorem find?_eq_none_iff (t : KeyedList key) {k : κ} :
    t.find? k = none ↔ ∀ a ∈ t.items, key a ≠ k := by
  simp [find?, List.find?_eq_none]

theorem isSome_find?_iff (t : KeyedList key) {k : κ} :
    (t.find? k).isSome ↔ k ∈ t.keys := by
  rw [Option.isSome_iff_ne_none, ne_eq, find?_eq_none_iff, keys, List.mem_map]
  push Not
  rfl

theorem find?_key (t : KeyedList key) {k : κ} {a : α} (h : t.find? k = some a) :
    key a = k :=
  ((t.find?_eq_some_iff).mp h).2

/-- Two stores with the same items under every key have the same items. -/
theorem mem_iff_find? (t : KeyedList key) {a : α} :
    a ∈ t.items ↔ t.find? (key a) = some a := by
  simp [find?_eq_some_iff]

theorem mem_upsert (t : KeyedList key) (a b : α) :
    b ∈ (t.upsert a).items ↔ b = a ∨ (b ∈ t.items ∧ key b ≠ key a) := by
  unfold upsert
  dsimp only
  split
  next hold =>
    rw [List.mem_map]
    constructor
    · intro h
      obtain ⟨c, hc, rfl⟩ := h
      by_cases hkey : key c = key a
      · simp [hkey]
      · simp [hkey, hc]
    · rintro (rfl | ⟨hb, hkey⟩)
      · obtain ⟨c, hc, hkey⟩ := List.mem_map.mp hold
        exact ⟨c, hc, by simp [hkey]⟩
      · exact ⟨b, hb, by simp [hkey]⟩
  next hnew =>
    rw [List.mem_append, List.mem_singleton]
    constructor
    · rintro (hb | rfl)
      · exact Or.inr ⟨hb, fun hkey => hnew (hkey ▸ List.mem_map_of_mem hb)⟩
      · exact Or.inl rfl
    · rintro (rfl | ⟨hb, -⟩)
      · exact Or.inr rfl
      · exact Or.inl hb

theorem keys_upsert (t : KeyedList key) (a : α) :
    (t.upsert a).keys = if key a ∈ t.keys then t.keys else t.keys ++ [key a] := by
  unfold upsert keys
  dsimp only
  split
  · exact map_key_replace t.items a
  · simp

theorem mem_keys_upsert (t : KeyedList key) (a : α) (k : κ) :
    k ∈ (t.upsert a).keys ↔ k ∈ t.keys ∨ k = key a := by
  rw [keys_upsert]
  split
  next hold => exact ⟨Or.inl, fun h => h.elim id fun heq => heq ▸ hold⟩
  next hnew => simp

/-- Where a key occurs once, replacing its item makes at most one item of a kind
more, and none unless the new one is of that kind. -/
theorem countP_replace_le {items : List α} (h : (items.map key).Nodup) (a : α)
    (p : α → Bool) :
    (items.map fun b => if key b = key a then a else b).countP p ≤
      items.countP p + if p a then 1 else 0 := by
  induction items with
  | nil => simp
  | cons b items ih =>
      rw [List.map_cons, List.nodup_cons] at h
      obtain ⟨hb, hitems⟩ := h
      rw [List.map_cons, List.countP_cons, List.countP_cons]
      by_cases hkey : key b = key a
      · have hrest : (items.map fun b => if key b = key a then a else b) = items := by
          refine (List.map_congr_left fun c hc => if_neg ?_).trans (List.map_id' items)
          exact fun hsame => hb (hkey.trans hsame.symm ▸ List.mem_map_of_mem hc)
        rw [if_pos hkey, hrest]
        omega
      · rw [if_neg hkey]
        have hih := ih hitems
        omega

theorem countP_upsert_le (t : KeyedList key) (a : α) (p : α → Bool) :
    (t.upsert a).items.countP p ≤ t.items.countP p + if p a then 1 else 0 := by
  unfold upsert
  dsimp only
  split
  · exact countP_replace_le t.nodup a p
  · have hcount : (t.items ++ [a]).countP p = t.items.countP p + if p a then 1 else 0 := by
      rw [List.countP_append, List.countP_singleton]
    exact Nat.le_of_eq hcount

@[simp] theorem find?_upsert (t : KeyedList key) (a : α) (k : κ) :
    (t.upsert a).find? k = if k = key a then some a else t.find? k := by
  by_cases hk : k = key a
  · rw [if_pos hk, find?_eq_some_iff, mem_upsert]
    exact ⟨Or.inl rfl, hk.symm⟩
  · rw [if_neg hk]
    ext b
    rw [find?_eq_some_iff, find?_eq_some_iff, mem_upsert]
    constructor
    · rintro ⟨rfl | ⟨hb, -⟩, hkey⟩
      · exact absurd hkey.symm hk
      · exact ⟨hb, hkey⟩
    · intro h
      obtain ⟨hb, rfl⟩ := h
      exact ⟨Or.inr ⟨hb, hk⟩, rfl⟩

@[simp] theorem find?_insertNew (t : KeyedList key) (a : α) (k : κ) :
    (t.insertNew a).find? k =
      if k = key a then some ((t.find? k).getD a) else t.find? k := by
  unfold insertNew
  split
  next hold =>
    by_cases hk : k = key a
    · obtain ⟨b, hb, hkey⟩ := List.mem_map.mp hold
      have hfind : t.find? k = some b :=
        t.find?_eq_some_iff.mpr ⟨hb, hkey.trans hk.symm⟩
      simp [hk, hk ▸ hfind]
    · simp [hk]
  next hnew =>
    have habsent : t.find? (key a) = none := by
      rw [find?_eq_none_iff]
      exact fun b hb hkey => hnew (hkey ▸ List.mem_map_of_mem hb)
    rw [find?_upsert]
    by_cases hk : k = key a
    · simp [hk, habsent]
    · simp [hk]

@[simp] theorem find?_modify (t : KeyedList key) (k j : κ) (f : α → α)
    (hf : ∀ a, key (f a) = key a) :
    (t.modify k f hf).find? j = if j = k then (t.find? k).map f else t.find? j := by
  have hmem : ∀ b, b ∈ (t.modify k f hf).items ↔
      ∃ a ∈ t.items, (if key a = k then f a else a) = b := by
    intro b
    simp [modify]
  ext b
  rw [find?_eq_some_iff, hmem]
  by_cases hj : j = k
  · subst hj
    rw [if_pos rfl, Option.map_eq_some_iff]
    constructor
    · intro h
      obtain ⟨⟨a, ha, rfl⟩, hkey⟩ := h
      by_cases hak : key a = j
      · exact ⟨a, t.find?_eq_some_iff.mpr ⟨ha, hak⟩, by simp [hak]⟩
      · simp [hak] at hkey
    · intro h
      obtain ⟨a, ha, rfl⟩ := h
      obtain ⟨ha, hak⟩ := t.find?_eq_some_iff.mp ha
      exact ⟨⟨a, ha, by simp [hak]⟩, (hf a).trans hak⟩
  · rw [if_neg hj, find?_eq_some_iff]
    constructor
    · intro h
      obtain ⟨⟨a, ha, rfl⟩, hkey⟩ := h
      by_cases hak : key a = k
      · rw [if_pos hak, hf, hak] at hkey
        exact absurd hkey.symm hj
      · simp only [hak, ↓reduceIte] at hkey ⊢
        exact ⟨ha, hkey⟩
    · intro h
      obtain ⟨hb, rfl⟩ := h
      exact ⟨⟨b, hb, by simp [hj]⟩, rfl⟩

end KeyedList
end AiBackend
