import Mathlib.Data.List.TakeDrop

-- Asynchronous operations: an operation that has been initiated is outstanding until its handler
-- runs. While it is outstanding it is pending, or it has completed and its handler is queued.
structure Outstanding (Op Outcome : Type*) where
  op : Op
  outcome : Option Outcome := none
  deriving DecidableEq, Repr

namespace Outstanding

variable {Op Outcome : Type*} {x : Outstanding Op Outcome} {l : List (Outstanding Op Outcome)}

-- Cancelling completes the pending operations of a kind `p` with `aborted`. A queued handler keeps
-- the outcome it was queued with.
def abort (p : Op → Bool) (aborted : Outcome) (x : Outstanding Op Outcome) :
    Outstanding Op Outcome :=
  if p x.op ∧ x.outcome.isNone then { x with outcome := some aborted } else x

@[simp]
theorem abort_op (p : Op → Bool) (a : Outcome) : (x.abort p a).op = x.op := by
  unfold abort
  split <;> rfl

theorem abort_outcome (p : Op → Bool) (a : Outcome) :
    (x.abort p a).outcome = x.outcome ∨ x.outcome = none ∧ (x.abort p a).outcome = some a := by
  unfold abort
  split
  case isTrue h  => exact .inr ⟨by simpa using h.2, rfl⟩
  case isFalse h => exact .inl rfl

theorem abort_eq (p : Op → Bool) (a : Outcome) :
    x.abort p a = x ∨ x.outcome = none ∧ (x.abort p a).outcome = some a := by
  unfold abort
  split
  case isTrue h  => exact .inr ⟨by simpa using h.2, rfl⟩
  case isFalse h => exact .inl rfl

-- An operation that is started when there is no other is the only one.
theorem only_started {op : Op} (h : l = []) : l ++ [⟨op, none⟩] = [⟨op, none⟩] := by
  rw [h, List.nil_append]

-- The operation at a position, and what is before and after it.
theorem eq_append_of_getElem? {i : Nat} (h : l[i]? = some x) :
    l = l.take i ++ x :: l.drop (i + 1) := by
  have ⟨_, hg⟩ := List.getElem?_eq_some_iff.mp h
  rw [← hg, List.cons_getElem_drop_succ, List.take_append_drop]

theorem set_eq_append {i : Nat} (h : l[i]? = some x) (y : Outstanding Op Outcome) :
    l.set i y = l.take i ++ y :: l.drop (i + 1) := by
  have ⟨hlt, _⟩ := List.getElem?_eq_some_iff.mp h
  rw [List.set_eq_take_append_cons_drop, if_pos hlt]

-- An operation of a list that is, in another order, `x` and some others, is `x` or one of these.
theorem perm_cons_cases {l r others : List (Outstanding Op Outcome)} {y : Outstanding Op Outcome}
    (h : (l ++ y :: r).Perm (x :: others)) :
    (y = x ∧ (l ++ r).Perm others) ∨
      y ∈ others ∧ ∃ others', others.Perm (y :: others') ∧ (l ++ r).Perm (x :: others') := by
  have hp := List.perm_middle.symm.trans h
  cases List.mem_cons.mp (hp.mem_iff.mp (List.mem_cons_self ..))
  case inl he =>
    subst he
    exact .inl ⟨rfl, hp.cons_inv⟩
  case inr hm =>
    have ⟨a, b, he⟩ := List.append_of_mem hm
    have ho : others.Perm (y :: (a ++ b)) := he ▸ List.perm_middle
    exact .inr ⟨hm, a ++ b, ho, ((hp.trans (ho.cons x)).trans (.swap y x _)).cons_inv⟩

theorem exists_of_perm {others : List (Outstanding Op Outcome)} (h : l.Perm (x :: others)) :
    ∃ l₁ l₂, l = l₁ ++ x :: l₂ ∧ (l₁ ++ l₂).Perm others := by
  have ⟨l₁, l₂, he⟩ := List.append_of_mem (h.mem_iff.mpr (List.mem_cons_self ..))
  exact ⟨l₁, l₂, he, (List.perm_middle.symm.trans (he ▸ h)).cons_inv⟩

-- An operation that is inserted anywhere can be thought of as the first of the others.
theorem perm_insert {l r others : List (Outstanding Op Outcome)} (h : (l ++ r).Perm (x :: others))
    (y : Outstanding Op Outcome) : (l ++ y :: r).Perm (x :: y :: others) :=
  (List.perm_middle.trans (h.cons y)).trans (.swap x y others)

-- An operation of a kind is still there, or it has been replaced by one of the kind.
theorem exists_replaced {p : Op → Bool} {ops ops' new : List Op} {op op' x : Op}
    (ho : ops' = ops ++ new) (hn : op' ∈ new) (hp : p op → p op') (hm : x ∈ op :: ops) (hx : p x) :
    ∃ y ∈ ops', p y := by
  rw [ho]
  cases List.mem_cons.mp hm
  case inl he => exact ⟨op', List.mem_append_right _ hn, hp (he ▸ hx)⟩
  case inr hm => exact ⟨x, List.mem_append_left _ hm, hx⟩

-- An operation of another kind is still there.
theorem mem_of_ne {p : Op → Bool} {ops ops' new : List Op} {op x : Op} (ho : ops' = ops ++ new)
    (hp : p op = false) (hm : x ∈ op :: ops) (hx : p x) : x ∈ ops' := by
  rw [ho]
  refine List.mem_append_left _ ((List.mem_cons.mp hm).resolve_left ?_)
  intro he
  simp [← he, hx] at hp

-- If there is at most one operation of a kind, the others are of other kinds.
theorem alone {p : Op → Bool} {op : Op} {o : Option Outcome} {r : List (Outstanding Op Outcome)}
    {io : List (Outstanding Op Outcome)} (hle : (io.map Outstanding.op).countP p ≤ 1)
    (h : io = l ++ ⟨op, o⟩ :: r) (hp : p op) : ∀ x ∈ l ++ r, p x.op = false := by
  intro x hx
  rw [h, List.map_append, List.map_cons, List.countP_append, List.countP_cons_of_pos hp] at hle
  have hz : ((l ++ r).map Outstanding.op).countP p = 0 := by
    rw [List.map_append, List.countP_append]
    omega
  simpa using List.countP_eq_zero.mp hz x.op (List.mem_map_of_mem hx)

-- How a handler leaves the operations: some of those that were pending have been aborted, and those
-- of `new` have been started.
structure Continues (aborted : Outcome) (l : List (Outstanding Op Outcome)) (new : List Op)
    (l' : List (Outstanding Op Outcome)) : Prop where
  mem : ∀ x ∈ l', x ∈ l ∨ (∃ y ∈ l, y.op = x.op ∧ x.outcome = some aborted) ∨
    x.op ∈ new ∧ (x.outcome = none ∨ x.outcome = some aborted)
  ops : l'.map op = l.map op ++ new
  queued : ∀ x ∈ l, x.outcome.isSome → x ∈ l'

namespace Continues

variable {aborted : Outcome} {l l' : List (Outstanding Op Outcome)} {new : List Op}

theorem refl (l : List (Outstanding Op Outcome)) : Continues aborted l [] l :=
  ⟨fun _ h => .inl h, by simp, fun _ h _ => h⟩

theorem start (c : Continues aborted l new l') (op : Op) :
    Continues aborted l (new ++ [op]) (l' ++ [⟨op, none⟩]) where
  mem := by
    intro x hx
    cases List.mem_append.mp hx
    case inl hx =>
      rcases c.mem x hx with h | h | ⟨h, ho⟩
      · exact .inl h
      · exact .inr (.inl h)
      · exact .inr (.inr ⟨List.mem_append_left _ h, ho⟩)
    case inr hx =>
      cases List.mem_singleton.mp hx
      exact .inr (.inr ⟨by simp, .inl rfl⟩)
  ops := by simp [c.ops]
  queued := fun x hx ho => List.mem_append_left _ (c.queued x hx ho)

theorem abort (c : Continues aborted l new l') (p : Op → Bool) :
    Continues aborted l new (l'.map (Outstanding.abort p aborted)) where
  mem := by
    intro x hx
    have ⟨y, hy, he⟩ := List.mem_map.mp hx
    subst he
    rcases y.abort_eq p aborted with h | ⟨_, h⟩
    case inl =>
      rw [h]
      exact c.mem y hy
    case inr =>
      rw [abort_op]
      rcases c.mem y hy with h' | ⟨z, hz, he, _⟩ | ⟨h', _⟩
      · exact .inr (.inl ⟨y, h', rfl, h⟩)
      · exact .inr (.inl ⟨z, hz, he, h⟩)
      · exact .inr (.inr ⟨h', .inr h⟩)
  ops := by
    rw [← c.ops, List.map_map]
    exact List.map_congr_left fun x _ => abort_op p aborted
  queued := by
    intro x hx ho
    refine List.mem_map.mpr ⟨x, c.queued x hx ho, ?_⟩
    have hn : x.outcome.isNone = false := by cases h : x.outcome <;> simp_all
    simp [Outstanding.abort, hn]

end Continues
end Outstanding
