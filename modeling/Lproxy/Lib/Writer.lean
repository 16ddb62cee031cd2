import Lproxy.Lib.Outstanding
import Mathlib.Data.List.Infix

-- A party that hands frames to asynchronous writes. There is one operation at a time upon which,
-- sooner or later, it writes the next frame.
structure FrameWriter (Op Outcome α : Type*) where
  -- The frame that an operation writes.
  frame? : Op → Option α
  failed : Outcome → Bool
  aborted : Outcome
  failed_aborted : failed aborted

namespace FrameWriter

variable {Op Outcome α : Type*} (W : FrameWriter Op Outcome α)

-- The frames that have been handed to an operation and not been sent; `none` if it has failed.
def owes (op : Op) : Option Outcome → Option (List α)
  | none   => some (W.frame? op).toList
  | some o => if (W.frame? op).isSome ∧ W.failed o then none else some []

-- What is sent when an operation completes.
def sentBy (op : Op) (o : Outcome) : List α :=
  if W.failed o then [] else (W.frame? op).toList

structure Sends (sends : Op → Bool) (handed sent : List α) (io : List (Outstanding Op Outcome)) :
    Prop where
  inOrder : sent <+: handed
  clear : ∀ x ∈ io, sends x.op → ∀ as, W.owes x.op x.outcome = some as → handed = sent ++ as

variable {W} {sends sends' : Op → Bool} {handed sent : List α} {op : Op} {o : Outcome}
  {l r io io' : List (Outstanding Op Outcome)} {new : List Op}

theorem owes_completed {as : List α} (h : W.owes op (some o) = some as) : as = [] := by
  simp only [owes] at h
  split at h <;> cases h
  rfl

theorem owes_aborted {as : List α} (h : W.owes op (some W.aborted) = some as) :
    W.frame? op = none := by
  have h : W.frame? op = none ∧ as = [] := by simpa [owes, W.failed_aborted] using h
  exact h.1

theorem owes_of_none (h : W.frame? op = none) (o : Option Outcome) : W.owes op o = some [] := by
  cases o <;> simp [owes, h]

theorem sentBy_of_none (h : W.frame? op = none) : W.sentBy op o = [] := by
  simp [sentBy, h]

namespace Sends

theorem complete (h : W.Sends sends handed sent (l ++ ⟨op, none⟩ :: r))
    (hz : sends op → ∀ x ∈ l ++ r, sends x.op = false) (hf : (W.frame? op).isSome → sends op) :
    W.Sends sends handed (sent ++ W.sentBy op o) (l ++ ⟨op, some o⟩ :: r) := by
  by_cases hs : sends op
  case pos =>
    have hop : handed = sent ++ (W.frame? op).toList := h.clear ⟨op, none⟩ (by simp) hs _ rfl
    constructor
    case inOrder =>
      unfold sentBy
      split
      case isTrue  => simpa using h.inOrder
      case isFalse => exact hop ▸ List.prefix_rfl
    case clear =>
      intro x hx hxs as ha
      cases eq_or_ne x ⟨op, some o⟩
      case inr he =>
        have := hz hs x (by simpa [he] using hx)
        simp [this] at hxs
      case inl he =>
        subst he
        cases owes_completed ha
        cases hn : W.frame? op
        case none   => simpa [sentBy, hn] using hop
        case some f =>
          have : W.failed o = false := by simpa [owes, hn] using ha
          simpa [sentBy, hn, this] using hop
  case neg =>
    have hn : W.frame? op = none := by simpa using mt hf hs
    rw [sentBy_of_none hn, List.append_nil]
    refine ⟨h.inOrder, fun x hx hxs => h.clear x ?_ hxs⟩
    have hne : x ≠ ⟨op, some o⟩ := by
      intro he
      subst he
      exact hs hxs
    simp [hne] at hx ⊢
    tauto

-- One of the operations that have been started is the next one upon which the party writes.
theorem filterMap_frame? (hc : new.countP sends ≤ 1) (hf : ∀ {op}, (W.frame? op).isSome → sends op)
    (hm : op ∈ new) (hs : sends op) : new.filterMap W.frame? = (W.frame? op).toList := by
  have ⟨l, r, he⟩ := List.append_of_mem hm
  rw [he, List.countP_append, List.countP_cons_of_pos hs] at hc
  have none {l : List Op} (hz : l.countP sends = 0) : l.filterMap W.frame? = [] := by
    rw [List.filterMap_eq_nil_iff]
    intro op' hm
    have hn := List.countP_eq_zero.mp hz op' hm
    simpa using mt hf hn
  rw [he, List.filterMap_append, List.filterMap_cons, none (by omega), none (by omega)]
  cases W.frame? op <;> rfl

-- The handler of an operation runs.
theorem deliver (h : W.Sends sends handed sent (l ++ ⟨op, some o⟩ :: r))
    (i : Outstanding.Continues W.aborted (l ++ r) new io')
    (hz : sends op → ∀ x ∈ l ++ r, sends x.op = false) (hs : ∀ {op}, sends' op → sends op)
    (hn : ∀ op' ∈ new, sends' op' → sends op) (hc : (io'.map (·.op)).countP sends' ≤ 1)
    (hf : ∀ {op}, (W.frame? op).isSome → sends' op)
    (ho : W.owes op (some o) = none → new = []) :
    W.Sends sends' (handed ++ new.filterMap W.frame?) sent io' := by
  refine ⟨h.inOrder.trans (List.prefix_append ..), ?_⟩
  have silent {y : Outstanding Op Outcome} (hm : y ∈ l ++ r) (hy : sends y.op) :
      new.filterMap W.frame? = [] := by
    rw [List.filterMap_eq_nil_iff]
    intro op' hop
    by_contra hne
    have := hz (hn op' hop (hf (Option.isSome_iff_ne_none.mpr hne))) y hm
    simp [this] at hy
  have old {y : Outstanding Op Outcome} (hm : y ∈ l ++ r) : y ∈ l ++ ⟨op, some o⟩ :: r := by
    simp at hm ⊢
    tauto
  intro x hx hxs as ha
  rcases i.mem x hx with hm | ⟨y, hm, he, hy⟩ | ⟨hm, hy⟩
  case inl =>
    rw [silent hm (hs hxs), List.append_nil]
    exact h.clear x (old hm) (hs hxs) as ha
  case inr.inl =>
    have hys : sends y.op := he ▸ hs hxs
    rw [hy] at ha
    have hd : W.frame? y.op = none := he ▸ owes_aborted ha
    rw [silent hm hys, List.append_nil, owes_completed ha]
    exact h.clear y (old hm) hys [] (owes_of_none hd _)
  case inr.inr =>
    have hle : new.countP sends' ≤ 1 := by
      rw [i.ops, List.countP_append] at hc
      omega
    have hop : handed = sent := by
      cases hp : W.owes op (some o)
      case none    => simp [ho hp] at hm
      case some bs =>
        have := h.clear ⟨op, some o⟩ (by simp) (hn _ hm hxs) bs hp
        rwa [owes_completed hp, List.append_nil] at this
    rw [hop, filterMap_frame? hle hf hm hxs]
    rcases hy with hy | hy <;> rw [hy] at ha
    · cases ha
      rfl
    · rw [owes_aborted ha, owes_completed ha]
      rfl

end Sends
end FrameWriter
