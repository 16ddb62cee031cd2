import Lproxy.Lib.Outstanding

-- Systems that work by asynchronous operations: an operation completes, and later its handler runs.
-- An `ι` is what a handler finds besides the outcome.
structure Asynchronous (σ ℓ Op Outcome ι : Type*) where
  io : σ → List (Outstanding Op Outcome)
  withIo : σ → List (Outstanding Op Outcome) → σ
  completes : Op → Outcome → Prop
  handle : ι → σ → Op → Outcome → σ
  -- The labels of the steps.
  complete : Op → Outcome → ℓ
  deliver : Op → Outcome → ι → ℓ

namespace Asynchronous

variable {σ ℓ Op Outcome ι : Type*} (A : Asynchronous σ ℓ Op Outcome ι)

-- A step completes an operation or runs its handler.
inductive Works (s : σ) : ℓ → σ → Prop
  | complete {l r : List (Outstanding Op Outcome)} {op : Op} {o : Outcome}
    (h : A.io s = l ++ ⟨op, none⟩ :: r) (c : A.completes op o) :
    Works s (A.complete op o) (A.withIo s (l ++ ⟨op, some o⟩ :: r))
  | deliver {l r : List (Outstanding Op Outcome)} {op : Op} {o : Outcome} {i : ι}
    (h : A.io s = l ++ ⟨op, some o⟩ :: r) :
    Works s (A.deliver op o i) (A.handle i (A.withIo s (l ++ r)) op o)

-- It is the operation `x`, where the order of the others does not matter.
inductive Concerns (s : σ) (x : Outstanding Op Outcome) (others : List (Outstanding Op Outcome)) :
    ℓ → σ → Prop
  | complete {op : Op} {o : Outcome} {io : List (Outstanding Op Outcome)} (hx : x = ⟨op, none⟩)
    (c : A.completes op o) (h : io.Perm (⟨op, some o⟩ :: others)) :
    Concerns s x others (A.complete op o) (A.withIo s io)
  | deliver {op : Op} {o : Outcome} {i : ι} {io : List (Outstanding Op Outcome)}
    (hx : x = ⟨op, some o⟩) (h : io.Perm others) :
    Concerns s x others (A.deliver op o i) (A.handle i (A.withIo s io) op o)

-- It is the only operation.
inductive Single (s : σ) (op : Op) : Option Outcome → ℓ → σ → Prop
  | complete {o : Outcome} (c : A.completes op o) :
    Single s op none (A.complete op o) (A.withIo s [⟨op, some o⟩])
  | deliver {o : Outcome} {i : ι} :
    Single s op (some o) (A.deliver op o i) (A.handle i (A.withIo s []) op o)

variable {A} {s t : σ} {lb : ℓ} {op : Op} {x : Outstanding Op Outcome}
  {others : List (Outstanding Op Outcome)}

theorem Concerns.perm {others' : List (Outstanding Op Outcome)} (c : A.Concerns s x others lb t)
    (h : others.Perm others') : A.Concerns s x others' lb t := by
  cases c
  case complete hx c io => exact .complete hx c (io.trans (h.cons _))
  case deliver hx io    => exact .deliver hx (io.trans h)

namespace Works

-- A step concerns one of the operations.
theorem exists_concerns {ops : List (Outstanding Op Outcome)} (w : A.Works s lb t)
    (h : (A.io s).Perm ops) :
    ∃ y ∈ ops, ∃ others, ops.Perm (y :: others) ∧ A.Concerns s y others lb t := by
  -- An operation among them, and the others.
  have among {l r : List (Outstanding Op Outcome)} {y : Outstanding Op Outcome}
      (hio : A.io s = l ++ y :: r) : y ∈ ops ∧ ops.Perm (y :: (l ++ r)) := by
    have hp : ops.Perm (y :: (l ++ r)) := h.symm.trans (hio ▸ List.perm_middle)
    exact ⟨hp.mem_iff.mpr (List.mem_cons_self ..), hp⟩
  cases w
  case complete hio c =>
    have ⟨hm, hp⟩ := among hio
    exact ⟨_, hm, _, hp, .complete rfl c List.perm_middle⟩
  case deliver hio    =>
    have ⟨hm, hp⟩ := among hio
    exact ⟨_, hm, _, hp, .deliver rfl (.refl _)⟩

theorem concerns (w : A.Works s lb t) (h : (A.io s).Perm (x :: others)) :
    A.Concerns s x others lb t ∨ ∃ y ∈ others, ∃ others', others.Perm (y :: others') ∧
      A.Concerns s y (x :: others') lb t := by
  obtain ⟨y, hy, rest, hp, c⟩ := w.exists_concerns h
  cases List.mem_cons.mp hy
  case inl he =>
    subst he
    exact .inl (c.perm (List.perm_cons _ |>.mp hp).symm)
  case inr hy =>
    obtain ⟨l, r, ho⟩ := List.append_of_mem hy
    have ho : others.Perm (y :: (l ++ r)) := ho ▸ List.perm_middle
    have hr : (y :: rest).Perm (y :: x :: (l ++ r)) := hp.symm.trans ((ho.cons x).trans (.swap ..))
    exact .inr ⟨y, hy, l ++ r, ho, c.perm (List.perm_cons _ |>.mp hr)⟩

theorem single {o : Option Outcome} (w : A.Works s lb t) (h : A.io s = [⟨op, o⟩]) :
    A.Single s op o lb t := by
  have only {l r : List (Outstanding Op Outcome)} {y : Outstanding Op Outcome}
      (hio : A.io s = l ++ y :: r) : y = ⟨op, o⟩ ∧ l = [] ∧ r = [] := by
    rw [h] at hio
    cases l
    case nil  => cases hio; exact ⟨rfl, rfl, rfl⟩
    case cons => simp at hio
  cases w
  case complete hio c =>
    obtain ⟨he, rfl, rfl⟩ := only hio
    cases he
    exact .complete c
  case deliver hio    =>
    obtain ⟨he, rfl, rfl⟩ := only hio
    cases he
    exact .deliver

end Works
end Asynchronous
