import Lproxy.Lib.Ranking
import Lproxy.Lib.Transition

namespace Lproxy.Log

-- What `priority_queue::settings` has been given: the member by which the elements are told apart,
-- and the values of it that go first.
structure Settings (α κ : Type*) where
  valueMp : α → κ
  vfactor : List κ

-- A `log_tools::priority_queue`. `maxValue` is the position to which the iterator `max_value`
-- refers, or `none` if it refers to no element: the end of the list, or an element that has been
-- erased.
@[ext]
structure PriorityQueue (α : Type*) where
  c : List α
  maxValue : Option Nat
  valid : ∀ i ∈ maxValue, i < c.length

namespace PriorityQueue

variable {α ρ κ ι : Type*}

-- The iterator is that of the beginning of the empty list, which is its end.
def empty : PriorityQueue α where
  c := []
  maxValue := none
  valid := nofun

-- No iterator of a list is invalidated when an element is appended to it.
def push (q : PriorityQueue α) (x : α) : PriorityQueue α where
  c := q.c ++ [x]
  maxValue := q.maxValue
  valid i h := by
    have := q.valid i h
    simp
    omega

variable [BEq κ]

-- The nested loops of `top`.
def search (key : α → κ) (vfactor : List κ) (c : List α) : Option Nat :=
  vfactor.findSome? fun factor => c.findIdx? fun x => key x == factor

-- `top` with the key of an element as it is found. `none` models the access to the element at the
-- beginning of the empty list.
def topBy (key : α → κ) (vfactor : List κ) (q : PriorityQueue α) : Option (α × PriorityQueue α) :=
  let i := (search key vfactor q.c).getD 0
  if h : i < q.c.length then
    some (q.c[i], { c := q.c, maxValue := some i, valid := by simpa using h })
  else
    none

-- `priority_queue<value_type, PriorityFactor>::top`
def top (s : Settings α κ) (q : PriorityQueue α) : Option (α × PriorityQueue α) :=
  q.topBy s.valueMp s.vfactor

-- `priority_queue<value_type*, PriorityFactor>::top`, with what the pointers refer to at the time.
def topPtr (s : Settings α κ) (heap : ρ → α) (q : PriorityQueue ρ) : Option (ρ × PriorityQueue ρ) :=
  q.topBy (fun p => s.valueMp (heap p)) s.vfactor

-- `none` models the erasure at an iterator that refers to no element.
def pop (q : PriorityQueue α) : Option (PriorityQueue α) :=
  q.maxValue.map fun i => { c := q.c.eraseIdx i, maxValue := none, valid := nofun }

-- As many times as is said, a call of `front` followed by one of `pop`: what `front` returns.
def drain (front : PriorityQueue α → Option (α × PriorityQueue α)) :
    Nat → PriorityQueue α → Option (List α)
  | 0, _     => some []
  | n + 1, q => do
    let (x, q) ← front q
    let q ← q.pop
    let xs ← drain front n q
    return x :: xs

-- The calls of the members of a queue. An `ι` is what `front` depends on besides the queue.
inductive Label (ι α : Type*)
  | push (x : α)
  | front (w : ι) (x : α)
  | pop

-- One call of a member that is defined.
inductive Step (front : ι → PriorityQueue α → Option (α × PriorityQueue α)) :
    PriorityQueue α → Label ι α → PriorityQueue α → Prop
  | push {q : PriorityQueue α} (x : α) : Step front q (.push x) (q.push x)
  | front {q q' : PriorityQueue α} {w : ι} {x : α} (h : front w q = some (x, q')) :
    Step front q (.front w x) q'
  | pop {q q' : PriorityQueue α} (h : q.pop = some q') : Step front q .pop q'

-- In the list `l ++ x :: r`, which is in the order of the pushes, the element `x` is the first one
-- that has the first factor that any element has; or the first one of all if no element has a
-- factor.
inductive Selected (key : α → κ) (vfactor : List κ) (l : List α) (x : α) (r : List α) : Prop
  | factor {before after : List κ} {factor : κ} (hv : vfactor = before ++ factor :: after)
    (hb : ∀ g ∈ before, ∀ y ∈ l ++ x :: r, (key y == g) = false) (hx : key x == factor)
    (hl : ∀ y ∈ l, (key y == factor) = false)
  | none (hv : ∀ g ∈ vfactor, ∀ y ∈ x :: r, (key y == g) = false) (hl : l = [])

variable {key : α → κ} {vfactor : List κ} {q q' : PriorityQueue α} {l r : List α} {x : α}

theorem search_eq_some {xs : List α} {i : Nat} (h : search key vfactor xs = some i) :
    ∃ before factor after, vfactor = before ++ factor :: after ∧
      (∀ g ∈ before, ∀ y ∈ xs, (key y == g) = false) ∧ ∃ hi : i < xs.length, key xs[i] == factor ∧
        ∀ y ∈ xs.take i, (key y == factor) = false := by
  have ⟨before, factor, after, hv, hi, hb⟩ := List.findSome?_eq_some_iff.mp h
  have ⟨hlt, hx, hl⟩ := List.findIdx?_eq_some_iff_getElem.mp hi
  refine ⟨before, factor, after, hv, fun g hg => List.findIdx?_eq_none_iff.mp (hb g hg),
    hlt, hx, ?_⟩
  intro y hy
  have ⟨j, hj, he⟩ := List.mem_take_iff_getElem.mp hy
  subst he
  simpa using hl j (by omega)

theorem search_eq_none {xs : List α} (h : search key vfactor xs = none) :
    ∀ g ∈ vfactor, ∀ y ∈ xs, (key y == g) = false := by
  intro g hg
  exact List.findIdx?_eq_none_iff.mp (List.findSome?_eq_none_iff.mp h g hg)

theorem split_at {xs : List α} {i : Nat} (h : i < xs.length) :
    xs = xs.take i ++ xs[i] :: xs.drop (i + 1) := by
  simp

theorem selected_of_search {xs : List α} {found : Option Nat} (hs : search key vfactor xs = found)
    (h : found.getD 0 < xs.length) :
    Selected key vfactor (xs.take (found.getD 0)) xs[found.getD 0]
      (xs.drop (found.getD 0 + 1)) := by
  have hc := split_at h
  cases found
  case none   =>
    have hn := search_eq_none hs
    exact .none (fun g hg y hy => hn g hg y (hc ▸ List.mem_append_right _ hy)) rfl
  case some i =>
    have ⟨before, factor, after, hv, hb, _, hx, hl⟩ := search_eq_some hs
    exact .factor hv (fun g hg y hy => hb g hg y (by rwa [← hc] at hy)) hx hl

-- What `top` finds, in the terms of the list.
theorem topBy_eq_some (h : q.topBy key vfactor = some (x, q')) :
    ∃ l r, q.c = l ++ x :: r ∧ Selected key vfactor l x r ∧ q'.c = q.c ∧
      q'.maxValue = some l.length := by
  unfold topBy at h
  simp only at h
  split at h
  case isFalse  => cases h
  case isTrue hi =>
    cases h
    refine ⟨_, _, split_at hi, selected_of_search rfl hi, rfl, ?_⟩
    rw [List.length_take_of_le (Nat.le_of_lt hi)]

-- It finds something in every list that is not empty.
theorem topBy_isSome_iff : (∃ p, q.topBy key vfactor = some p) ↔ q.c ≠ [] := by
  have h : (search key vfactor q.c).getD 0 < q.c.length ↔ q.c ≠ [] := by
    rw [← List.length_pos_iff]
    constructor
    case mp  => omega
    case mpr =>
      intro h
      cases hs : search key vfactor q.c
      case none   => exact h
      case some i =>
        have ⟨_, _, _, _, _, hi, _⟩ := search_eq_some hs
        exact hi
  rw [← h]
  unfold topBy
  simp only
  split
  case isTrue hi  => simp [hi]
  case isFalse hi => simp [hi]

theorem pop_eq_some (hc : q.c = l ++ x :: r) (hm : q.maxValue = some l.length)
    (h : q.pop = some q') : q'.c = l ++ r ∧ q'.maxValue = none := by
  rw [pop, hm, Option.map_some] at h
  cases h
  simp [hc, List.eraseIdx_append]

-- The ranks by which the elements leave the queue: the position of their factor.
abbrev rank (key : α → κ) (vfactor : List κ) (x : α) : Nat :=
  vfactor.findIdx (key x == ·)

theorem rank_append {before after : List κ} (h : ∀ g ∈ before, (key x == g) = false) :
    rank key (before ++ after) x = rank key after x + before.length := by
  rw [rank, List.findIdx_append, List.findIdx_eq_length_of_false h, if_neg (Nat.lt_irrefl _)]

theorem rank_le : rank key vfactor x ≤ vfactor.length :=
  List.findIdx_le_length

theorem Selected.first (h : Selected key vfactor l x r) :
    Ranking.First (rank key vfactor) l x r := by
  cases h
  case none hv hl =>
    subst hl
    have hr (y : α) (hy : y ∈ x :: r) : rank key vfactor y = vfactor.length :=
      List.findIdx_eq_length_of_false fun g hg => hv g hg y hy
    refine ⟨nofun, fun y hy => ?_⟩
    exact Nat.le_of_eq ((hr x (List.mem_cons_self ..)).trans
      (hr y (List.mem_cons_of_mem _ hy)).symm)
  case factor before after factor hv hb hx hl =>
    subst hv
    have hr (y : α) (hy : y ∈ l ++ x :: r) : rank key (before ++ factor :: after) y =
        rank key (factor :: after) y + before.length := rank_append fun g hg => hb g hg y hy
    have h₀ : rank key (factor :: after) x = 0 := by simp [rank, List.findIdx_cons, hx]
    constructor
    case before =>
      intro y hy
      have h₁ : rank key (factor :: after) y = rank key after y + 1 := by
        simp [rank, List.findIdx_cons, hl y hy]
      rw [hr x (by simp), hr y (by simp [hy]), h₀, h₁]
      omega
    case after =>
      intro y hy
      rw [hr x (by simp), hr y (by simp [hy]), h₀]
      omega

-- The last call of `front` in a run was made upon the elements `l ++ x :: r` and has returned `x`;
-- since then `ys` have been pushed, and nothing has been popped.
inductive Fronted (get : ι → α → κ) (vfactor : List κ) (l : List α) (x : α) (r : List α) :
    List (PriorityQueue α × Label ι α) → List α → Prop
  | front {tr : List (PriorityQueue α × Label ι α)} {q : PriorityQueue α} {w : ι}
    (hc : q.c = l ++ x :: r) (hs : Selected (get w) vfactor l x r) :
    Fronted get vfactor l x r (tr ++ [(q, .front w x)]) []
  | push {tr : List (PriorityQueue α × Label ι α)} {q : PriorityQueue α} {ys : List α} {y : α}
    (h : Fronted get vfactor l x r tr ys) :
    Fronted get vfactor l x r (tr ++ [(q, .push y)]) (ys ++ [y])

-- The elements that are pushed in a run.
def Label.pushed : Label ι α → List α
  | push x => [x]
  | _      => []

def pushed (tr : List (PriorityQueue α × Label ι α)) : List α :=
  tr.flatMap fun p => p.2.pushed

-- What the last `front` since the last `pop` has returned, and what has been popped before.
def Label.take : Option α × List α → Label ι α → Option α × List α
  | p, push _    => p
  | p, front _ x => (some x, p.2)
  | p, pop       => (none, p.2 ++ p.1.toList)

@[simp]
theorem Label.take_push {p : Option α × List α} {y : α} :
    (push y : Label ι α).take p = p := rfl

@[simp]
theorem Label.take_front {p : Option α × List α} {w : ι} {y : α} :
    (front w y).take p = (some y, p.2) := rfl

@[simp]
theorem Label.take_pop {p : Option α × List α} :
    (pop : Label ι α).take p = (none, p.2 ++ p.1.toList) := rfl

-- The elements that are popped in a run: each `pop` takes what the last `front` has returned.
def popped (tr : List (PriorityQueue α × Label ι α)) : List α :=
  (tr.foldl (fun p e => e.2.take p) (none, [])).2

-- The elements by their factors, in the order of the factors, and at last those without one. The
-- elements of one part are in their order in the list.
def partition (key : α → κ) (vfactor : List κ) (c : List α) : List α :=
  (vfactor.flatMap fun factor => c.filter (key · == factor)) ++
    c.filter fun x => vfactor.all fun factor => !key x == factor

-- What the order of a queue is, in every run.
structure Orders (get : ι → α → κ) (vfactor : List κ)
    (front : ι → PriorityQueue α → Option (α × PriorityQueue α)) : Prop where
  -- The queue consists of what has been pushed and not been popped, in the order of the pushes.
  perm : ∀ tr q, Transition.Run (Step front) .empty tr q → (q.c ++ popped tr).Perm (pushed tr)
  pushed : ∀ tr q, Transition.Run (Step front) .empty tr q → q.c.Sublist (pushed tr)
  appends : ∀ tr q x q', Transition.Run (Step front) .empty (tr ++ [(q, .push x)]) q' →
    q'.c = q.c ++ [x]
  selects : ∀ tr q w x q', Transition.Run (Step front) .empty (tr ++ [(q, .front w x)]) q' →
    q'.c = q.c ∧ ∃ l r, q.c = l ++ x :: r ∧ Selected (get w) vfactor l x r
  front_iff : ∀ w q, (∃ p, front w q = some p) ↔ q.c ≠ []
  pop_iff : ∀ tr q, Transition.Run (Step front) .empty tr q →
    ((∃ q', q.pop = some q') ↔ ∃ l x r ys, Fronted get vfactor l x r tr ys)
  pop : ∀ tr q q', Transition.Run (Step front) .empty (tr ++ [(q, .pop)]) q' →
    ∃ l x r ys, Fronted get vfactor l x r tr ys ∧ q.c = l ++ x :: r ++ ys ∧ q'.c = l ++ r ++ ys
  drain : ∀ w q, drain (front w) q.c.length q = some (partition (get w) vfactor q.c)

section Run

variable {get : ι → α → κ} {front : ι → PriorityQueue α → Option (α × PriorityQueue α)}
  {tr : List (PriorityQueue α × Label ι α)}

-- The iterator refers to what the last call of `front` has returned.
structure Remembers (get : ι → α → κ) (vfactor : List κ) (tr : List (PriorityQueue α × Label ι α))
    (q : PriorityQueue α) : Prop where
  valid : ∀ i, q.maxValue = some i → ∃ l x r ys, Fronted get vfactor l x r tr ys ∧
    q.c = l ++ x :: r ++ ys ∧ i = l.length
  invalid : q.maxValue = none → ∀ l x r ys, ¬Fronted get vfactor l x r tr ys
  pushed : q.c.Sublist (pushed tr)
  perm : (q.c ++ popped tr).Perm (PriorityQueue.pushed tr)

theorem pushed_snoc {p : PriorityQueue α × Label ι α} :
    pushed (tr ++ [p]) = pushed tr ++ p.2.pushed := by
  simp [pushed]

theorem popped_push {y : α} : popped (tr ++ [(q, .push y)]) = popped tr := by
  simp [popped]

theorem popped_front {w : ι} : popped (tr ++ [(q, .front w x)]) = popped tr := by
  simp [popped]

-- A `pop` takes what the last `front` has returned.
theorem Fronted.popped {ys : List α} (h : Fronted get vfactor l x r tr ys) :
    popped (tr ++ [(q, .pop)]) = popped tr ++ [x] := by
  have hl : (tr.foldl (fun p e => e.2.take p) (none, [])).1 = some x := by
    induction h
    case front  => simp
    case push h => simpa using h
  simp [PriorityQueue.popped, hl]

theorem Fronted.of_push {y : α} {zs : List α}
    (h : Fronted get vfactor l x r (tr ++ [(q, .push y)]) zs) :
    ∃ ys, Fronted get vfactor l x r tr ys := by
  generalize ht : tr ++ [(q, Label.push y)] = tr' at h
  cases h
  case front    => simp at ht
  case push h   =>
    have ⟨ht, _⟩ := List.append_inj' ht rfl
    exact ⟨_, ht ▸ h⟩

theorem Fronted.not_pop {ys : List α} : ¬Fronted get vfactor l x r (tr ++ [(q, .pop)]) ys := by
  intro h
  generalize ht : tr ++ [(q, Label.pop)] = tr' at h
  cases h <;> simp at ht

namespace Remembers

theorem empty : Remembers get vfactor [] empty where
  valid _ h := by cases h
  invalid _ l x r ys h := by
    generalize ht : ([] : List (PriorityQueue α × Label ι α)) = tr at h
    cases h <;> simp at ht
  pushed := .refl _
  perm := .refl _

-- What is pushed comes after everything that is there, so that the position of the iterator stays.
theorem of_push {y : α} (h : Remembers get vfactor tr q) :
    Remembers get vfactor (tr ++ [(q, .push y)]) (q.push y) where
  valid i hi := by
    have ⟨l, x, r, ys, hf, hc, hl⟩ := h.valid i hi
    exact ⟨l, x, r, _, hf.push, by simp [PriorityQueue.push, hc], hl⟩
  invalid hm l x r ys hf := by
    have ⟨_, hf⟩ := hf.of_push
    exact h.invalid hm _ _ _ _ hf
  pushed := by
    rw [pushed_snoc]
    exact h.pushed.append (.refl _)
  perm := by
    rw [pushed_snoc, popped_push]
    have hmove : (q.c ++ [y] ++ popped tr).Perm (q.c ++ popped tr ++ [y]) := by
      rw [List.append_assoc, List.append_assoc]
      exact List.perm_append_comm.append_left q.c
    exact hmove.trans (h.perm.append_right [y])

theorem of_front {w : ι} (h : Remembers get vfactor tr q)
    (hx : q.topBy (get w) vfactor = some (x, q')) :
    Remembers get vfactor (tr ++ [(q, .front w x)]) q' := by
  have ⟨l, r, hc, hs, hc', hm⟩ := topBy_eq_some hx
  constructor
  case valid =>
    intro i hi
    rw [hm] at hi
    exact ⟨l, x, r, [], .front hc hs, by rw [hc', hc, List.append_nil], (Option.some.inj hi).symm⟩
  case invalid =>
    intro hn
    rw [hm] at hn
    cases hn
  case pushed =>
    rw [hc', pushed_snoc]
    simpa [Label.pushed] using h.pushed
  case perm =>
    rw [hc', pushed_snoc, popped_front]
    simpa [Label.pushed] using h.perm

-- A pop takes out what the last `front` has returned.
theorem pop_eq_some (h : Remembers get vfactor tr q) (hp : q.pop = some q') :
    ∃ l x r ys, Fronted get vfactor l x r tr ys ∧ q.c = l ++ x :: r ++ ys ∧ q'.c = l ++ r ++ ys ∧
      q'.maxValue = none := by
  cases hm : q.maxValue
  case none   => simp [PriorityQueue.pop, hm] at hp
  case some i =>
    have ⟨l, x, r, ys, hf, hc, hl⟩ := h.valid i hm
    have ⟨hc', hm'⟩ := PriorityQueue.pop_eq_some (l := l) (x := x) (r := r ++ ys)
      (by simp [hc]) (hl ▸ hm) hp
    exact ⟨l, x, r, ys, hf, hc, by simp [hc'], hm'⟩

theorem of_pop (h : Remembers get vfactor tr q) (hp : q.pop = some q') :
    Remembers get vfactor (tr ++ [(q, .pop)]) q' := by
  have ⟨l, x, r, ys, hf, hc, hc', hm⟩ := h.pop_eq_some hp
  constructor
  case valid =>
    intro i hi
    rw [hm] at hi
    cases hi
  case invalid => exact fun _ _ _ _ _ => Fronted.not_pop
  case pushed  =>
    have hsub : q'.c.Sublist q.c := by
      rw [hc, hc']
      exact ((List.sublist_cons_self x r).append_left l).append_right ys
    rw [pushed_snoc]
    simpa [Label.pushed] using hsub.trans h.pushed
  case perm =>
    -- What is popped comes from between `l` and `r`.
    have hmove : (l ++ r ++ ys ++ (popped tr ++ [x])).Perm (l ++ x :: r ++ ys ++ popped tr) := by
      have h₁ : l ++ r ++ ys ++ (popped tr ++ [x]) = l ++ (r ++ ys ++ popped tr) ++ [x] := by simp
      have h₂ : l ++ x :: r ++ ys ++ popped tr = l ++ x :: (r ++ ys ++ popped tr) := by simp
      rw [h₁, h₂]
      exact (List.perm_append_singleton x _).trans List.perm_middle.symm
    rw [hc', hf.popped, pushed_snoc]
    simpa [Label.pushed] using hmove.trans (hc ▸ h.perm)

theorem run (hf : ∀ w q, front w q = q.topBy (get w) vfactor)
    (h : Transition.Run (Step front) .empty tr q) : Remembers get vfactor tr q := by
  induction h
  case nil      => exact empty
  case snoc e h =>
    cases e
    case push     => exact h.of_push
    case front hx => exact h.of_front (hf _ _ ▸ hx)
    case pop hp   => exact h.of_pop hp

end Remembers

-- The iterator refers to an element if and only if there is one that `front` has returned.
theorem pop_iff (h : Remembers get vfactor tr q) :
    (∃ q', q.pop = some q') ↔ ∃ l x r ys, Fronted get vfactor l x r tr ys := by
  constructor
  case mp =>
    intro ⟨q', hp⟩
    have ⟨l, x, r, ys, hf, _⟩ := h.pop_eq_some hp
    exact ⟨l, x, r, ys, hf⟩
  case mpr =>
    intro ⟨l, x, r, ys, hf⟩
    cases hm : q.maxValue
    case none   => exact absurd hf (h.invalid hm l x r ys)
    case some i => exact ⟨_, by rw [pop, hm, Option.map_some]⟩

-- A queue is emptied by ranks.
theorem drain_eq {w : ι} {n : Nat} (hf : ∀ q, front w q = q.topBy key vfactor)
    (hn : q.c.length = n) :
    drain (front w) n q = some (Ranking.byRank (rank key vfactor) (vfactor.length + 1) q.c) := by
  induction n generalizing q
  case zero      => simp [drain, List.length_eq_zero_iff.mp hn]
  case succ n hi =>
    have ⟨(x, q₁), (ht : q.topBy key vfactor = some (x, q₁))⟩ :=
      topBy_isSome_iff.mpr (List.ne_nil_of_length_eq_add_one hn)
    have ⟨l, r, hc, hs, hc₁, hm⟩ := topBy_eq_some ht
    have hp : q₁.pop = some ⟨l ++ r, none, nofun⟩ := by
      rw [pop, hm, Option.map_some]
      congr 1
      ext1
      · simp [hc₁, hc, List.eraseIdx_append]
      · rfl
    have hlen : (l ++ r).length = n := by
      rw [hc] at hn
      simp at hn ⊢
      omega
    have hi := hi (q := ⟨l ++ r, none, nofun⟩) hlen
    rw [hc, Ranking.byRank_first hs.first (Nat.lt_succ_of_le rank_le)]
    simp [drain, hf, ht, hp, hi]

theorem drain_partition {w : ι} [EquivBEq κ] (hf : ∀ q, front w q = q.topBy key vfactor)
    (hv : vfactor.Pairwise fun a b => (a == b) = false) :
    drain (front w) q.c.length q = some (partition key vfactor q.c) := by
  rw [drain_eq hf rfl, partition, Ranking.byRank_findIdx]
  apply hv.imp
  intro a b hab x ha
  by_contra hb
  have hb : key x == b := by simpa using hb
  rw [BEq.trans (BEq.symm ha) hb] at hab
  cases hab

theorem orders [EquivBEq κ] (hf : ∀ w q, front w q = q.topBy (get w) vfactor)
    (hv : vfactor.Pairwise fun a b => (a == b) = false) : Orders get vfactor front where
  perm _ _ h          := (Remembers.run hf h).perm
  appends tr q x q' h := by
    have ⟨_, e⟩ := h.of_snoc
    cases e
    rfl
  selects tr q w x q' h := by
    have ⟨_, e⟩ := h.of_snoc
    cases e
    case front hx =>
      have ⟨l, r, hc, hs, hc', _⟩ := topBy_eq_some (hf w q ▸ hx)
      exact ⟨hc', l, r, hc, hs⟩
  front_iff w q       := hf w q ▸ topBy_isSome_iff
  pop_iff _ _ h       := pop_iff (.run hf h)
  pop tr q q' h       := by
    have ⟨h, e⟩ := h.of_snoc
    cases e
    case pop hp =>
      have ⟨l, x, r, ys, hy, hc, hc', _⟩ := (Remembers.run hf h).pop_eq_some hp
      exact ⟨l, x, r, ys, hy, hc, hc'⟩
  pushed _ _ h        := (Remembers.run hf h).pushed
  drain w q           := drain_partition (hf w) hv

end Run

-- A queue of values and a queue of pointers, whose targets may change between the calls.
theorem priority_queue_order [EquivBEq κ] (s : Settings α κ)
    (hv : s.vfactor.Pairwise fun a b => (a == b) = false) :
    Orders (fun _ : Unit => s.valueMp) s.vfactor (fun _ => top s) ∧
      Orders (fun (heap : ρ → α) p => s.valueMp (heap p)) s.vfactor (topPtr s) :=
  ⟨orders (fun _ _ => rfl) hv, orders (fun _ _ => rfl) hv⟩

-- Numbered messages with their levels, of which the levels 50 and 40 go first.
def sampleSettings : Settings (Nat × Nat) Nat where
  valueMp := Prod.snd
  vfactor := [50, 40]

theorem priority_queue_order_sample :
    Orders (fun _ : Unit => sampleSettings.valueMp) sampleSettings.vfactor
        (fun _ => top sampleSettings) ∧
      Orders (fun (heap : Nat → Nat × Nat) p => sampleSettings.valueMp (heap p))
        sampleSettings.vfactor (topPtr sampleSettings) :=
  priority_queue_order sampleSettings (by decide)

example : drain (top sampleSettings) 6 ((((((empty.push (1, 20)).push (2, 30)).push (3, 40)).push
    (4, 50)).push (5, 50)).push (6, 40)) =
      some [(4, 50), (5, 50), (3, 40), (6, 40), (1, 20), (2, 30)] := by
  decide

end PriorityQueue
end Lproxy.Log
