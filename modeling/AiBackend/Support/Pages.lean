import AiBackend.Support.Sorting
import Mathlib.Data.List.Nodup
import Mathlib.Tactic.Ring

/-!
# Reading a sorted list page by page

Every page is taken from the items in an order of its own, which only has to
be sorted.  Pages in which no item is lost or read twice are got for every
such choice of orders if and only if no page boundary separates items of one
key.
-/

namespace AiBackend.Pages

variable {α β γ : Type}

/-- The `k`-th page of a list. -/
def page (size : ℕ) (xs : List α) (k : ℕ) : List α := (xs.drop (k * size)).take size

theorem take_succ_mul (size : ℕ) (xs : List α) (k : ℕ) :
    xs.take ((k + 1) * size) = xs.take (k * size) ++ page size xs k := by
  rw [Nat.succ_mul, List.take_add]
  rfl

/-- The first pages are the first items. -/
theorem flatMap_page (size : ℕ) (xs : List α) (m : ℕ) :
    (List.range m).flatMap (page size xs) = xs.take (m * size) := by
  induction m with
  | zero => simp
  | succ m ih =>
      rw [List.range_succ, List.flatMap_append, ih, List.flatMap_singleton, take_succ_mul]

/-- The items that are read from the `k`-th page on, until a page is empty. -/
inductive Reads (pages : ℕ → List α) : ℕ → List α → Prop where
  | stop {k : ℕ} : pages k = [] → Reads pages k []
  | next {k : ℕ} {rest : List α} : pages k ≠ [] → Reads pages (k + 1) rest →
      Reads pages k (pages k ++ rest)

/-! ## Whole readings -/

section Reads

variable {pages : ℕ → List α} {k : ℕ} {read : List α}

theorem Reads.eq_append (h : Reads pages k read) (hne : pages k ≠ []) :
    ∃ rest, read = pages k ++ rest ∧ Reads pages (k + 1) rest := by
  cases h with
  | stop hempty => exact absurd hempty hne
  | next _ hrest => exact ⟨_, rfl, hrest⟩

theorem Reads.unique {other : List α} (h : Reads pages k read) (h' : Reads pages k other) :
    read = other := by
  induction h generalizing other with
  | stop hempty =>
      cases h' with
      | stop _ => rfl
      | next hne _ => exact absurd hempty hne
  | next hne _ ih =>
      obtain ⟨rest, rfl, hrest⟩ := h'.eq_append hne
      rw [ih hrest]

/-- Reading items that are only presented differently on each page. -/
theorem Reads.map {pages' : ℕ → List β} {present : ℕ → α → β} (f : α → γ) (g : β → γ)
    (hpages : ∀ k, pages' k = (pages k).map (present k))
    (hpresent : ∀ k x, g (present k x) = f x) (h : Reads pages k read) :
    ∃ read', Reads pages' k read' ∧ read'.map g = read.map f := by
  induction h with
  | stop hempty => exact ⟨[], .stop (by rw [hpages, hempty]; rfl), rfl⟩
  | @next k rest hne _ ih =>
      obtain ⟨read', hread', hsame⟩ := ih
      have hpage : (pages' k).map g = (pages k).map f := by
        rw [hpages, List.map_map]
        exact List.map_congr_left fun x _ => hpresent k x
      refine ⟨_, .next ?_ hread', by rw [List.map_append, List.map_append, hpage, hsame]⟩
      rw [hpages]
      simpa using hne

/-- And back. -/
theorem Reads.of_map {pages' : ℕ → List β} {present : ℕ → α → β} (f : α → γ) (g : β → γ)
    (hpages : ∀ k, pages' k = (pages k).map (present k))
    (hpresent : ∀ k x, g (present k x) = f x) {read' : List β} (h : Reads pages' k read') :
    ∃ read, Reads pages k read ∧ read.map f = read'.map g := by
  induction h with
  | @stop k hempty =>
      rw [hpages] at hempty
      exact ⟨[], .stop (List.map_eq_nil_iff.mp hempty), rfl⟩
  | @next k rest hne _ ih =>
      obtain ⟨read, hread, hsame⟩ := ih
      have hpage : (pages k).map f = (pages' k).map g := by
        rw [hpages, List.map_map]
        exact List.map_congr_left fun x _ => (hpresent k x).symm
      refine ⟨_, .next ?_ hread, by rw [List.map_append, List.map_append, hpage, hsame]⟩
      rw [hpages] at hne
      simpa using hne

/-- An item on two neighbouring pages is read twice. -/
theorem Reads.not_nodup {j : ℕ} {x : α} (h : Reads pages k read) (hle : k ≤ j)
    (hne : ∀ i ≤ j + 1, pages i ≠ []) (hx : x ∈ pages j) (hx' : x ∈ pages (j + 1)) :
    ¬ read.Nodup := by
  obtain ⟨steps, rfl⟩ := Nat.exists_eq_add_of_le hle
  induction steps generalizing k read with
  | zero =>
      obtain ⟨rest, rfl, hrest⟩ := h.eq_append (hne k (by omega))
      obtain ⟨rest', rfl, -⟩ := hrest.eq_append (hne (k + 1) (by omega))
      intro hnodup
      exact (List.nodup_append.mp hnodup).2.2 x hx x (List.mem_append_left _ hx') rfl
  | succ steps ih =>
      obtain ⟨rest, rfl, hrest⟩ := h.eq_append (hne k (by omega))
      have hshift : k + (steps + 1) = k + 1 + steps := by omega
      rw [hshift] at hne hx hx'
      exact fun hnodup => ih hrest (by omega) hne hx hx' (List.nodup_append.mp hnodup).2.1

theorem page_append_drop (size : ℕ) (xs : List α) (k : ℕ) :
    page size xs k ++ xs.drop ((k + 1) * size) = xs.drop (k * size) := by
  have hnext : (k + 1) * size = k * size + size := by ring
  rw [hnext, ← List.drop_drop]
  exact List.take_append_drop _ _

theorem page_eq_nil_iff {size : ℕ} (hsize : 0 < size) (xs : List α) (k : ℕ) :
    page size xs k = [] ↔ xs.length ≤ k * size := by
  rw [page, List.take_eq_nil_iff, List.drop_eq_nil_iff]
  exact or_iff_right hsize.ne'

/-- Pages that are those of a list up to order give all its items. -/
theorem exists_reads_perm {size : ℕ} (hsize : 0 < size) {xs : List α}
    (hpages : ∀ k, (pages k).Perm (page size xs k)) (k : ℕ) :
    ∃ read, Reads pages k read ∧ read.Perm (xs.drop (k * size)) := by
  obtain ⟨left, hleft⟩ : ∃ left, xs.length ≤ (k + left) * size :=
    ⟨xs.length, (Nat.le_add_left _ _).trans (Nat.le_mul_of_pos_right _ hsize)⟩
  induction left generalizing k with
  | zero =>
      have hnil := (page_eq_nil_iff hsize xs k).mpr hleft
      refine ⟨[], .stop (List.perm_nil.mp (hnil ▸ hpages k)), ?_⟩
      rw [List.drop_eq_nil_iff.mpr (by simpa using hleft)]
  | succ left ih =>
      by_cases hempty : pages k = []
      · have hnil : page size xs k = [] := List.nil_perm.mp (hempty ▸ hpages k)
        refine ⟨[], .stop hempty, ?_⟩
        rw [List.drop_eq_nil_iff.mpr ((page_eq_nil_iff hsize xs k).mp hnil)]
      · obtain ⟨rest, hrest, hperm⟩ := ih (k + 1)
          (by rwa [show k + 1 + left = k + (left + 1) by omega])
        refine ⟨_, .next hempty hrest, ?_⟩
        rw [← page_append_drop]
        exact (hpages k).append hperm

end Reads

/-! ## Sorted lists and page boundaries -/

section Sorted

variable [LinearOrder β] {key : α → β} {xs ys zs : List α}

/-- Sorted by falling keys. -/
def Falling (key : α → β) (xs : List α) : Prop := xs.Pairwise fun a b => key b ≤ key a

/-- Items of one key are to come on both sides of a position. -/
def Straddles (key : α → β) (xs : List α) (m : ℕ) : Prop :=
  ∃ t, (xs.countP fun x => t < key x) < m ∧ m < xs.countP fun x => t ≤ key x

/-- The items above a bound come first. -/
theorem filter_eq_take {p : α → Bool} (hp : ∀ a b, key b ≤ key a → p b → p a)
    (h : Falling key xs) : xs.filter p = xs.take (xs.countP p) := by
  induction xs with
  | nil => rfl
  | cons x xs ih =>
      obtain ⟨hfirst, hrest⟩ := List.pairwise_cons.mp h
      by_cases hx : p x
      · rw [List.filter_cons_of_pos hx, List.countP_cons_of_pos hx, List.take_succ_cons,
          ih hrest]
      · have hnone : ∀ y ∈ xs, ¬ p y := fun y hy hpy => hx (hp x y (hfirst y hy) hpy)
        rw [List.filter_cons_of_neg hx, List.countP_cons_of_neg hx,
          List.countP_eq_zero.mpr hnone, List.filter_eq_nil_iff.mpr hnone]
        rfl

theorem lt_upward {t : β} (a b : α) (h : key b ≤ key a) (hb : decide (t < key b)) :
    decide (t < key a) := by
  simp only [decide_eq_true_eq] at hb ⊢
  exact hb.trans_le h

theorem le_upward {t : β} (a b : α) (h : key b ≤ key a) (hb : decide (t ≤ key b)) :
    decide (t ≤ key a) := by
  simp only [decide_eq_true_eq] at hb ⊢
  exact hb.trans h

theorem key_getElem_le (h : Falling key xs) {i j : ℕ} (hij : i ≤ j)
    (hi : i < xs.length) (hj : j < xs.length) : key xs[j] ≤ key xs[i] := by
  rcases hij.eq_or_lt with rfl | hlt
  · exact le_rfl
  · exact List.pairwise_iff_getElem.mp h i j _ hj hlt

/-- An item is above a bound if and only if there are more such items than
those in front of it. -/
theorem lt_countP_iff {p : α → Bool} (hp : ∀ a b, key b ≤ key a → p b → p a)
    (h : Falling key xs) {m : ℕ} (hm : m < xs.length) : m < xs.countP p ↔ p xs[m] := by
  constructor
  · intro hmore
    have hmem : xs[m] ∈ xs.take (xs.countP p) :=
      List.mem_take_iff_getElem.mpr ⟨m, by omega, rfl⟩
    rw [← filter_eq_take hp h] at hmem
    exact (List.mem_filter.mp hmem).2
  · intro hpm
    have hall : ∀ x ∈ xs.take (m + 1), p x := by
      intro x hx
      obtain ⟨i, hi, rfl⟩ := List.mem_take_iff_getElem.mp hx
      exact hp _ _ (key_getElem_le h (by omega) _ hm) hpm
    have hle := (List.take_sublist (m + 1) xs).countP_le (p := p)
    rw [List.countP_eq_length.mpr hall, List.length_take] at hle
    omega

/-- Where no items of one key straddle a position, every sorted order has the
same items in front of it. -/
theorem take_perm_take (hys : ys.Perm xs) (hzs : zs.Perm xs) (hfys : Falling key ys)
    (hfzs : Falling key zs) {m : ℕ} (h : ¬ Straddles key xs m) :
    (ys.take m).Perm (zs.take m) := by
  by_cases hm : m < ys.length
  · let t := key ys[m]
    have hcount : (xs.countP fun x => t < key x) = m := by
      have hle : ¬ m < ys.countP fun x => t < key x := by
        rw [lt_countP_iff lt_upward hfys hm]
        simp [t]
      have hlt : m < ys.countP fun x => t ≤ key x :=
        (lt_countP_iff le_upward hfys hm).mpr (by simp [t])
      rw [hys.countP_eq] at hle hlt
      exact le_antisymm (not_lt.mp hle) (not_lt.mp fun hless => h ⟨t, hless, hlt⟩)
    have htake : ∀ {ws : List α}, ws.Perm xs → Falling key ws →
        ws.take m = ws.filter fun x => t < key x := by
      intro ws hws hfws
      rw [filter_eq_take lt_upward hfws, hws.countP_eq, hcount]
    rw [htake hys hfys, htake hzs hfzs]
    exact (hys.trans hzs.symm).filter _
  · have hlength := (hys.trans hzs.symm).length_eq
    rw [List.take_of_length_le (by omega), List.take_of_length_le (by omega)]
    exact hys.trans hzs.symm

theorem page_perm_page (hys : ys.Perm xs) (hzs : zs.Perm xs) (hfys : Falling key ys)
    (hfzs : Falling key zs) {size : ℕ} (h : ∀ k, ¬ Straddles key xs (k * size)) (k : ℕ) :
    (page size ys k).Perm (page size zs k) := by
  have hnext := take_perm_take hys hzs hfys hfzs (h (k + 1))
  have hfront := take_perm_take hys hzs hfys hfzs (h k)
  rw [take_succ_mul, take_succ_mul] at hnext
  exact (List.perm_append_left_iff _).mp (hnext.trans (hfront.symm.append_right _))

/-- Two items of one key around a position that they straddle. -/
theorem exists_tie (hf : Falling key ys) (hys : ys.Perm xs) {m : ℕ}
    (h : Straddles key xs m) :
    ∃ front a b back, ys = front ++ a :: b :: back ∧ front.length + 1 = m ∧ key a = key b := by
  obtain ⟨t, hless, hmore⟩ := h
  rw [← hys.countP_eq] at hless hmore
  have hm : m < ys.length := hmore.trans_le List.countP_le_length
  obtain ⟨i, rfl⟩ : ∃ i, m = i + 1 := ⟨m - 1, by omega⟩
  have hb : t ≤ key ys[i + 1] := by
    simpa using (lt_countP_iff le_upward hf hm).mp hmore
  have ha : key ys[i] ≤ t := by
    have hnot : ¬ i < ys.countP fun x => t < key x := by omega
    rw [lt_countP_iff lt_upward hf (by omega)] at hnot
    simpa using hnot
  refine ⟨ys.take i, ys[i], ys[i + 1], ys.drop (i + 2), ?_, ?_, ?_⟩
  · rw [← List.drop_eq_getElem_cons, ← List.drop_eq_getElem_cons, List.take_append_drop]
  · rw [List.length_take]
    omega
  · exact le_antisymm (ha.trans hb) (key_getElem_le hf (Nat.le_succ i) _ hm)

/-- Pages of sorted orders that agree on what is in front of every boundary
give all items. -/
theorem exists_reads_of_not_straddles {size : ℕ} (hsize : 0 < size)
    (h : ∀ k, ¬ Straddles key xs (k * size)) (orders : ℕ → List α)
    (horders : ∀ k, (orders k).Perm xs ∧ Falling key (orders k)) :
    ∃ read, Reads (fun k => page size (orders k) k) 0 read ∧ read.Perm xs := by
  have hpages : ∀ k, (page size (orders k) k).Perm (page size (orders 0) k) := fun k =>
    page_perm_page (horders k).1 (horders 0).1 (horders k).2 (horders 0).2 h k
  obtain ⟨read, hread, hperm⟩ := exists_reads_perm hsize hpages 0
  refine ⟨read, hread, hperm.trans ?_⟩
  rw [Nat.zero_mul, List.drop_zero]
  exact (horders 0).1

theorem mem_page {size : ℕ} {k i : ℕ} {x : α} (hi : i < size)
    (h : xs[k * size + i]? = some x) : x ∈ page size xs k := by
  refine List.mem_iff_getElem?.mpr ⟨i, ?_⟩
  rw [page, List.getElem?_take_of_lt hi, List.getElem?_drop, h]

/-- Where items of one key straddle a boundary, some choice of orders gives an
item twice. -/
theorem exists_orders_of_straddles {size : ℕ} (hsize : 0 < size) (hf : Falling key ys)
    (hys : ys.Perm xs) {k : ℕ} (h : Straddles key xs (k * size)) :
    ∃ orders : ℕ → List α, (∀ k, (orders k).Perm xs ∧ Falling key (orders k)) ∧
      ∀ read, Reads (fun k => page size (orders k) k) 0 read → ¬ read.Nodup := by
  obtain ⟨front, a, b, back, rfl, hfront, hkey⟩ := exists_tie hf hys h
  obtain ⟨k, rfl⟩ : ∃ j, k = j + 1 :=
    Nat.exists_eq_succ_of_ne_zero (by rintro rfl; omega)
  have hend : (k + 1) * size = k * size + size := by ring
  let swapped := front ++ b :: a :: back
  have hswap : swapped.Perm xs :=
    ((List.Perm.swap a b back).append_left front).trans hys
  have hfswapped : Falling key swapped := by
    have hkeys : swapped.map key = (front ++ a :: b :: back).map key := by
      simp [swapped, hkey]
    have hmap : ((front ++ a :: b :: back).map key).Pairwise fun s t => t ≤ s :=
      List.pairwise_map.mpr hf
    rw [← hkeys] at hmap
    exact List.pairwise_map.mp hmap
  let orders : ℕ → List α := fun j => if j = k + 1 then swapped else front ++ a :: b :: back
  have horders : ∀ j, (orders j).Perm xs ∧ Falling key (orders j) := by
    intro j
    dsimp only [orders]
    split
    · exact ⟨hswap, hfswapped⟩
    · exact ⟨hys, hf⟩
  refine ⟨orders, horders, fun read hread => ?_⟩
  apply hread.not_nodup (Nat.zero_le k) (x := a)
  · intro i hi
    have hle : i * size ≤ (k + 1) * size := Nat.mul_le_mul_right _ hi
    have hlength := (horders i).1.length_eq.trans hys.length_eq.symm
    rw [Ne, page_eq_nil_iff hsize, hlength]
    simp only [List.length_append, List.length_cons]
    omega
  · refine mem_page (i := size - 1) (by omega) ?_
    have hindex : k * size + (size - 1) = front.length := by omega
    rw [hindex]
    simp [orders]
  · refine mem_page (i := 0) hsize ?_
    have hindex : (k + 1) * size + 0 = front.length + 1 := by omega
    rw [hindex]
    simp [orders, swapped]

end Sorted
end AiBackend.Pages
