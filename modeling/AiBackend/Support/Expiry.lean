import Mathlib.Algebra.Order.Ring.Rat
import Mathlib.Logic.Function.Basic
import Mathlib.Tactic.Linarith

/-!
# Keys that expire

A store in which every entry carries the time at which it goes.  What is read
at some time was set less than its time to live before, and has whatever
property it was set with.
-/

namespace AiBackend

/-- The value under every key, and when it goes. -/
structure Expiring (κ α : Type) where
  entries : κ → Option (α × ℚ)

namespace Expiring

variable {κ α : Type}

def empty : Expiring κ α := ⟨fun _ => none⟩

/-- `GET`, at a time. -/
def get (m : Expiring κ α) (time : ℚ) (k : κ) : Option α :=
  (m.entries k).bind fun entry => if time < entry.2 then some entry.1 else none

section Commands

variable [DecidableEq κ] (m : Expiring κ α) (k : κ)

/-- `SET ... EX`, at a time. -/
def setex (time ttl : ℚ) (a : α) : Expiring κ α :=
  ⟨Function.update m.entries k (some (a, time + ttl))⟩

/-- `DEL`. -/
def delete : Expiring κ α := ⟨Function.update m.entries k none⟩

variable {m k} {j : κ} (time ttl : ℚ) (a : α)

@[simp] theorem entries_setex_self :
    (m.setex k time ttl a).entries k = some (a, time + ttl) := Function.update_self ..

theorem entries_setex_of_ne (h : j ≠ k) : (m.setex k time ttl a).entries j = m.entries j :=
  Function.update_of_ne h ..

@[simp] theorem entries_delete_self : (m.delete k).entries k = none := Function.update_self ..

theorem entries_delete_of_ne (h : j ≠ k) : (m.delete k).entries j = m.entries j :=
  Function.update_of_ne h ..

end Commands

section Get

variable {m : Expiring κ α} {time : ℚ} {k j : κ} {a : α}

theorem get_eq_some_iff :
    m.get time k = some a ↔ ∃ expireAt, m.entries k = some (a, expireAt) ∧ time < expireAt := by
  unfold get
  cases hentry : m.entries k with
  | none => simp
  | some entry =>
      rw [Option.bind_some]
      constructor
      · intro h
        split at h
        next hlive =>
          obtain rfl := Option.some.inj h
          exact ⟨entry.2, rfl, hlive⟩
        next => cases h
      · rintro ⟨expireAt, hsome, hlive⟩
        obtain rfl := Option.some.inj hsome
        exact if_pos hlive

variable [DecidableEq κ]

theorem get_setex_self (m : Expiring κ α) (k : κ) (set ttl : ℚ) (a : α) :
    (m.setex k set ttl a).get time k = if time < set + ttl then some a else none := by
  rw [get, entries_setex_self, Option.bind_some]

theorem get_setex_of_ne (h : j ≠ k) (set ttl : ℚ) (a : α) :
    (m.setex k set ttl a).get time j = m.get time j := by
  rw [get, entries_setex_of_ne _ _ _ h, get]

theorem get_delete_self (m : Expiring κ α) (k : κ) : (m.delete k).get time k = none := by
  rw [get, entries_delete_self, Option.bind_none]

theorem get_delete_of_ne (h : j ≠ k) : (m.delete k).get time j = m.get time j := by
  rw [get, entries_delete_of_ne h, get]

end Get

/-! ## What entries were set with -/

/-- Every entry with the time to live has the property, of its key, its value
and the time at which it was set. -/
def Set (ttl : ℚ) (P : κ → α → ℚ → Prop) (m : Expiring κ α) : Prop :=
  ∀ k a expireAt, m.entries k = some (a, expireAt) → P k a (expireAt - ttl)

section Set

variable {ttl : ℚ} {P Q : κ → α → ℚ → Prop} {m : Expiring κ α} {time : ℚ} {k : κ} {a : α}

theorem set_empty (ttl : ℚ) (P : κ → α → ℚ → Prop) : Set ttl P empty :=
  fun _ _ _ h => by cases h

theorem Set.imp (h : Set ttl P m) (himp : ∀ k a time, P k a time → Q k a time) : Set ttl Q m :=
  fun k a expireAt hentry => himp k a _ (h k a expireAt hentry)

/-- What is read was set less than its time to live before. -/
theorem Set.get (h : Set ttl P m) (hget : m.get time k = some a) :
    ∃ set, time - ttl < set ∧ P k a set := by
  obtain ⟨expireAt, hentry, hlive⟩ := get_eq_some_iff.mp hget
  exact ⟨expireAt - ttl, by linarith, h k a expireAt hentry⟩

variable [DecidableEq κ]

theorem Set.setex (h : Set ttl P m) (ha : P k a time) : Set ttl P (m.setex k time ttl a) := by
  intro j b expireAt hentry
  by_cases hj : j = k
  · subst hj
    rw [entries_setex_self] at hentry
    obtain ⟨rfl, rfl⟩ := Prod.mk.inj (Option.some.inj hentry)
    rwa [add_sub_cancel_right]
  · rw [entries_setex_of_ne _ _ _ hj] at hentry
    exact h j b expireAt hentry

theorem Set.delete (h : Set ttl P m) (k : κ) : Set ttl P (m.delete k) := by
  intro j b expireAt hentry
  by_cases hj : j = k
  · subst hj
    rw [entries_delete_self] at hentry
    cases hentry
  · rw [entries_delete_of_ne hj] at hentry
    exact h j b expireAt hentry

end Set

end Expiring
end AiBackend
