import Mathlib.Data.List.Basic

-- Ranges of a memory that are gone through one after the other. A range is a start and a size.
namespace Ranges

-- Each range starts where the one before ends. None of them is empty or larger than `m`.
inductive Chain (m : ℕ) : ℕ → List (ℕ × ℕ) → ℕ → Prop
  | nil {a : ℕ} : Chain m a [] a
  | cons {a b n : ℕ} {rs : List (ℕ × ℕ)} (pos : 0 < n) (le : n ≤ m) (c : Chain m (a + n) rs b) :
    Chain m a ((a, n) :: rs) b

namespace Chain

variable {m a b x : ℕ} {rs : List (ℕ × ℕ)}

theorem le (c : Chain m a rs b) : a ≤ b := by
  induction c
  case nil  => exact Nat.le_refl _
  case cons => omega

-- No range reaches over the end.
theorem within (c : Chain m a rs b) : ∀ r ∈ rs, a ≤ r.1 ∧ r.1 + r.2 ≤ b := by
  induction c
  case nil => nofun
  case cons pos le c hi =>
    intro r hr
    have := c.le
    cases hr
    case head    => exact ⟨Nat.le_refl _, this⟩
    case tail hr =>
      have := hi r hr
      omega

-- The ranges contain what is between the start and the end.
theorem mem_iff (c : Chain m a rs b) : (∃ r ∈ rs, r.1 ≤ x ∧ x < r.1 + r.2) ↔ a ≤ x ∧ x < b := by
  induction c
  case nil => simp
  case cons a b n rs pos le c hi =>
    have := c.le
    rw [List.exists_mem_cons_iff, hi]
    omega

theorem flatten_eq {α : Type*} {l : List α} (c : Chain m a rs b) :
    (rs.map fun r => (l.drop r.1).take r.2).flatten = (l.drop a).take (b - a) := by
  induction c
  case nil => simp
  case cons a b n rs pos le c hi =>
    have hn : b - a = n + (b - (a + n)) := by have := c.le; omega
    rw [List.map_cons, List.flatten_cons, hi, hn, List.take_add, List.drop_drop]

end Chain
end Ranges
