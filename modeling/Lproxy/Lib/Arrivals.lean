import Lproxy.Lib.Outstanding

-- What operations have returned, while their handlers are queued.
namespace Outstanding

variable {Op Outcome α : Type*} {op : Op} {o aborted : Outcome} {p : Op → Bool}
  {l r io : List (Outstanding Op Outcome)}

-- `returns` is what the outcome of an operation carries, if that is of interest.
def arrived? (returns : Op → Outcome → Option α) (x : Outstanding Op Outcome) : Option α :=
  x.outcome.bind (returns x.op)

def arrivals (returns : Op → Outcome → Option α) (io : List (Outstanding Op Outcome)) : List α :=
  io.filterMap (arrived? returns)

variable {returns : Op → Outcome → Option α}

theorem filterMap_snoc {β γ : Type*} (f : β → Option γ) (l : List β) (a : β) :
    (l ++ [a]).filterMap f = l.filterMap f ++ (f a).toList := by
  rw [List.filterMap_append]
  cases h : f a <;> simp [h]

@[simp]
theorem arrivals_nil : arrivals returns [] = [] :=
  rfl

@[simp]
theorem arrivals_start (io : List (Outstanding Op Outcome)) (op : Op) :
    arrivals returns (io ++ [⟨op, none⟩]) = arrivals returns io :=
  (filterMap_snoc ..).trans (List.append_nil _)

-- An operation that is aborted returns nothing.
theorem arrivals_abort (h : ∀ op, returns op aborted = none) (p : Op → Bool)
    (io : List (Outstanding Op Outcome)) :
    arrivals returns (io.map (Outstanding.abort p aborted)) = arrivals returns io := by
  rw [arrivals, List.filterMap_map]
  refine congrArg (io.filterMap ·) (funext fun x => ?_)
  rcases x.abort_eq p aborted with hx | ⟨hn, ha⟩
  case inl => exact congrArg (arrived? returns) hx
  case inr => simp [arrived?, hn, ha, h]

theorem arrivals_middle (x : Outstanding Op Outcome) : arrivals returns (l ++ x :: r) =
    arrivals returns l ++ ((arrived? returns x).toList ++ arrivals returns r) := by
  rw [arrivals, List.filterMap_append, List.filterMap_cons]
  cases arrived? returns x <;> rfl

section Alone

-- At most one of the operations is of a kind that returns something of interest.
variable (hp : ∀ op o a, returns op o = some a → p op)

include hp

theorem arrivals_others {y : Option Outcome} (hle : (io.map Outstanding.op).countP p ≤ 1)
    (hio : io = l ++ ⟨op, y⟩ :: r) (h : p op) :
    arrivals returns l = [] ∧ arrivals returns r = [] := by
  have hz := alone hle hio h
  have none {x : Outstanding Op Outcome} (hx : x ∈ l ++ r) : arrived? returns x = none := by
    by_contra hn
    have ⟨a, ha⟩ := Option.ne_none_iff_exists'.mp hn
    have ⟨_, _, hr⟩ := Option.bind_eq_some_iff.mp ha
    exact absurd (hp _ _ _ hr) (by simp [hz x hx])
  exact ⟨List.filterMap_eq_nil_iff.mpr fun x hx => none (List.mem_append_left _ hx),
    List.filterMap_eq_nil_iff.mpr fun x hx => none (List.mem_append_right _ hx)⟩

-- What an operation returns is the last to arrive,
theorem arrivals_complete (hle : (io.map Outstanding.op).countP p ≤ 1)
    (hio : io = l ++ ⟨op, none⟩ :: r) :
    arrivals returns (l ++ ⟨op, some o⟩ :: r) = arrivals returns io ++ (returns op o).toList := by
  rw [hio, arrivals_middle, arrivals_middle]
  cases ha : returns op o
  case none   => simp [arrived?, ha]
  case some a =>
    have ⟨hl, hr⟩ := arrivals_others hp hle hio (hp _ _ _ ha)
    simp [arrived?, ha, hl, hr]

-- and the first to be handled.
theorem arrivals_dequeue (hle : (io.map Outstanding.op).countP p ≤ 1)
    (hio : io = l ++ ⟨op, some o⟩ :: r) :
    arrivals returns io = (returns op o).toList ++ arrivals returns (l ++ r) := by
  have happ : arrivals returns (l ++ r) = arrivals returns l ++ arrivals returns r :=
    List.filterMap_append ..
  rw [happ, hio, arrivals_middle]
  cases ha : returns op o
  case none   => simp [arrived?, ha]
  case some a =>
    have ⟨hl, hr⟩ := arrivals_others hp hle hio (hp _ _ _ ha)
    simp [arrived?, ha, hl, hr]

end Alone
end Outstanding
