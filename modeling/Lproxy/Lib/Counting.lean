import Mathlib.Data.Finset.Card
import Mathlib.Order.Interval.Finset.Nat

-- A loop that counts up as long as a condition holds of the number.
namespace Counting

variable (p : ℕ → Bool)

-- `fuel` bounds the number of the tests; without an answer the loop has not ended yet.
def upWhile : (fuel i : ℕ) → Option ℕ
  | 0, _        => none
  | fuel + 1, i => if p i then upWhile fuel (i + 1) else some i

-- A number is the first one from `i` on of which the condition does not hold.
structure First (i n : ℕ) : Prop where
  le : i ≤ n
  stop : ¬p n
  before : ∀ k, i ≤ k → k < n → p k

variable {p} {fuel i n : ℕ}

-- The loop ends as soon as it has fuel for the numbers up to the first one.
theorem upWhile_of_first (h : First p i n) (hf : n < i + fuel) : upWhile p fuel i = some n := by
  induction fuel generalizing i
  case zero         => have := h.le; omega
  case succ fuel hi =>
    rw [upWhile]
    by_cases he : i = n
    case pos => rw [if_neg (he ▸ h.stop), he]
    case neg =>
      have hle : i + 1 ≤ n := Nat.lt_of_le_of_ne h.le he
      have hb : ∀ k, i + 1 ≤ k → k < n → p k := fun k hk => h.before k (by omega)
      rw [if_pos (h.before i (Nat.le_refl i) hle)]
      exact hi ⟨hle, h.stop, hb⟩ (by omega)

theorem exists_first (h : ∃ n, i ≤ n ∧ ¬p n) : ∃ n, First p i n := by
  have ⟨hle, hn⟩ := Nat.find_spec h
  refine ⟨Nat.find h, hle, hn, fun k hk hlt => ?_⟩
  by_contra hp
  exact Nat.find_min h hlt ⟨hk, hp⟩

-- Of distinct names, the first that does not belong to a finite set is among the next ones, as many
-- as there are elements and one more.
theorem exists_first_of_finite {α : Type*} [DecidableEq α] {f : ℕ → α} (hf : f.Injective)
    {s : Finset α} (hp : ∀ n, p n → f n ∈ s) : ∃ n, First p i n ∧ n ≤ i + s.card := by
  have ⟨n, hm, hn⟩ : ∃ n ∈ Finset.Icc i (i + s.card), ¬p n := by
    by_contra h
    have hs : (Finset.Icc i (i + s.card)).image f ⊆ s := by
      intro a ha
      have ⟨n, hm, he⟩ := Finset.mem_image.mp ha
      exact he ▸ hp n (by simpa using not_exists.mp h n ∘ fun hn => ⟨hm, hn⟩)
    have hc := Finset.card_le_card hs
    rw [Finset.card_image_of_injective _ hf, Nat.card_Icc] at hc
    omega
  have ⟨hi, hle⟩ := Finset.mem_Icc.mp hm
  have ⟨k, h⟩ := exists_first ⟨n, hi, hn⟩
  refine ⟨k, h, ?_⟩
  by_contra hlt
  exact hn (h.before n hi (by omega))

end Counting
