import Mathlib.Data.List.Basic

-- Condition variables. A thread that waits is notified at some point, or wakes up spuriously, and
-- resumes when it has the lock again.
structure Condition (Waiter : Type*) where
  -- Those that have not been notified.
  waiting : List Waiter := []
  -- Those that have been notified and have not resumed.
  notified : List Waiter := []

namespace Condition

variable {Waiter : Type*} {c c' : Condition Waiter} {w : Waiter}

def wait (c : Condition Waiter) (w : Waiter) : Condition Waiter :=
  { c with waiting := c.waiting ++ [w] }

-- `notify_one` picks any of those that wait.
inductive NotifyOne : Condition Waiter → Condition Waiter → Prop
  | nobody {notified : List Waiter} : NotifyOne ⟨[], notified⟩ ⟨[], notified⟩
  | one {l r notified : List Waiter} {w : Waiter} :
    NotifyOne ⟨l ++ w :: r, notified⟩ ⟨l ++ r, notified ++ [w]⟩

inductive Resume : Condition Waiter → Waiter → Condition Waiter → Prop
  | notified {l r waiting : List Waiter} {w : Waiter} :
    Resume ⟨waiting, l ++ w :: r⟩ w ⟨waiting, l ++ r⟩
  | spurious {l r notified : List Waiter} {w : Waiter} :
    Resume ⟨l ++ w :: r, notified⟩ w ⟨l ++ r, notified⟩

-- If somebody waits, at least `n` have been notified.
def Covers (c : Condition Waiter) (n : Nat) : Prop :=
  c.waiting ≠ [] → n ≤ c.notified.length

namespace Covers

variable {m n : Nat}

theorem zero : c.Covers 0 :=
  fun _ => Nat.zero_le _

theorem mono (h : c.Covers n) (hm : m ≤ n) : c.Covers m :=
  fun hw => Nat.le_trans hm (h hw)

theorem notifyOne (h : c.Covers n) (hn : NotifyOne c c') : c'.Covers (n + 1) := by
  cases hn
  case nobody => exact fun hw => absurd rfl hw
  case one    =>
    intro _
    have hle : n ≤ _ := h (by simp)
    rw [List.length_append]
    exact Nat.succ_le_succ hle

theorem resume (h : c.Covers n) (hr : Resume c w c') : c'.Covers (n - 1) := by
  cases hr
  case notified =>
    intro hw
    have hle : n ≤ _ := h hw
    simp at hle ⊢
    omega
  case spurious =>
    intro _
    exact Nat.le_trans (Nat.sub_le n 1) (h (by simp))

-- When all that have been notified have resumed, nobody waits for what is there.
theorem eq_zero (h : c.Covers n) (hn : c.notified = []) (hw : c.waiting ≠ []) : n = 0 := by
  have := h hw
  simpa [hn] using this

end Covers
end Condition
