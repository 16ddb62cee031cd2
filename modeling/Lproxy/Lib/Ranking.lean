import Mathlib.Data.List.Basic

-- Lists whose elements have ranks, and the taking out of one element after the other by its rank.
namespace Ranking

variable {α : Type*} {rank : α → ℕ} {l r : List α} {x : α} {n : ℕ}

-- In the list `l ++ x :: r`, the element `x` is the first one of the least rank.
structure First (rank : α → ℕ) (l : List α) (x : α) (r : List α) : Prop where
  before : ∀ y ∈ l, rank x < rank y
  after : ∀ y ∈ r, rank x ≤ rank y

-- The elements with a rank below `n`, ordered by their ranks; those of one rank are in the order of
-- the list.
def byRank (rank : α → ℕ) (n : ℕ) (l : List α) : List α :=
  (List.range n).flatMap fun i => l.filter (rank · = i)

@[simp]
theorem byRank_nil : byRank rank n [] = [] := by
  simp [byRank]

theorem byRank_succ : byRank rank (n + 1) l = byRank rank n l ++ l.filter (rank · = n) := by
  simp [byRank, List.range_succ]

theorem byRank_eq_nil (h : ∀ y ∈ l, n ≤ rank y) : byRank rank n l = [] := by
  simp only [byRank, List.flatMap_eq_nil_iff, List.mem_range, List.filter_eq_nil_iff]
  intro i hi y hy
  have := h y hy
  simp only [decide_eq_true_eq]
  omega

-- Taking out the first element of the least rank leaves the order of the others.
theorem byRank_first (h : First rank l x r) (hn : rank x < n) :
    byRank rank n (l ++ x :: r) = x :: byRank rank n (l ++ r) := by
  induction n
  case zero      => omega
  case succ n hi =>
    rw [byRank_succ, byRank_succ]
    by_cases hx : rank x < n
    case pos =>
      have hne : rank x ≠ n := by omega
      simp [hi hx, hne]
    case neg =>
      have he : rank x = n := by omega
      have hl : ∀ y ∈ l, rank y ≠ n := fun y hy => by
        have := h.before y hy
        omega
      have hnil {k : List α} (hk : ∀ y ∈ k, rank x ≤ rank y) : byRank rank n k = [] :=
        byRank_eq_nil fun y hy => he ▸ hk y hy
      have hle : ∀ y ∈ l ++ r, rank x ≤ rank y := by
        intro y hy
        cases List.mem_append.mp hy
        case inl hy => exact Nat.le_of_lt (h.before y hy)
        case inr hy => exact h.after y hy
      have hle' : ∀ y ∈ l ++ x :: r, rank x ≤ rank y := by
        intro y hy
        cases List.mem_append.mp hy
        case inl hy => exact Nat.le_of_lt (h.before y hy)
        case inr hy =>
          cases hy
          case head   => exact Nat.le_refl _
          case tail h' => exact h.after y h'
      rw [hnil hle, hnil hle']
      have hf : l.filter (rank · = n) = [] := by simpa using hl
      simp [hf, he]

-- Where the ranks are the positions of the first of some conditions that hold, the elements come
-- condition by condition, and those without one come last.
theorem byRank_findIdx {κ : Type*} {p : α → κ → Bool} {ks : List κ}
    (h : ks.Pairwise fun a b => ∀ x, p x a → p x b = false) (l : List α) :
    byRank (fun x => ks.findIdx (p x)) (ks.length + 1) l =
      (ks.flatMap fun k => l.filter (p · k)) ++ l.filter fun x => ks.all fun k => !p x k := by
  induction ks generalizing l
  case nil          => simp [byRank]
  case cons k ks hi =>
    have ⟨hk, h⟩ := List.pairwise_cons.mp h
    have hr : byRank (fun x => (k :: ks).findIdx (p x)) (ks.length + 1 + 1) l =
        l.filter (p · k) ++
          byRank (fun x => ks.findIdx (p x)) (ks.length + 1) (l.filter fun x => !p x k) := by
      rw [byRank, List.range_succ_eq_map, List.flatMap_cons, List.flatMap_map]
      congr 1
      · apply List.filter_congr
        intro x _
        cases hp : p x k <;> simp [List.findIdx_cons, hp]
      · rw [byRank]
        congr 1
        funext i
        rw [List.filter_filter]
        apply List.filter_congr
        intro x _
        cases hp : p x k <;> simp [List.findIdx_cons, hp]
    have hf : (ks.flatMap fun k' => (l.filter fun x => !p x k).filter (p · k')) =
        ks.flatMap fun k' => l.filter (p · k') := by
      apply List.flatMap_congr
      intro k' hm
      rw [List.filter_filter]
      apply List.filter_congr
      intro x _
      cases hp : p x k
      case false => simp
      case true  => simp [hk k' hm x hp]
    rw [List.length_cons, hr, hi h, hf, List.filter_filter]
    simp [Bool.and_comm]

end Ranking
