import Lproxy.Lib.Channel
import Lproxy.Lib.Outstanding

-- A party that reads the frames of a channel by asynchronous operations. There is one operation at
-- a time upon which, sooner or later, it reads.
structure FrameReader (Op Outcome α β : Type*) where
  frame : α → List β
  header : Nat
  -- What had been got of a frame when an operation started, if it is a read from the channel.
  before : Op → Option (List β)
  room : Op → Nat
  -- What a read has returned, if it has not failed.
  bytes : Outcome → Option (List β)
  aborted : Outcome
  -- The operations whose handler looks at a frame.
  looks : Op → Bool
  header_le : ∀ {op b}, before op = some b → header ≤ b.length + room op
  looks_of_before : ∀ {op b}, before op = some b → looks op
  bytes_aborted : bytes aborted = none

namespace FrameReader

variable {Op Outcome α β : Type*} (R : FrameReader Op Outcome α β)

-- What the completion of an operation takes from the channel.
def Takes (op : Op) (o : Outcome) (c c' : Channel α β) : Prop :=
  match R.before op, R.bytes o with
  | some _, some d => c.Reads R.frame (R.room op) d c'
  | _, _           => c' = c

-- How the channel stands while an operation is outstanding upon which the party reads. `acc` holds
-- of the frames that the party has taken notice of.
inductive Ready (acc : List α → Prop) (c : Channel α β) : Op → Option Outcome → Prop
  | waiting {op : Op} {b : List β} (hb : R.before op = some b)
    (h : c.Reading R.frame R.header acc b none) : Ready acc c op none
  | read {op : Op} {o : Outcome} {b d : List β} (hb : R.before op = some b)
    (ho : R.bytes o = some d) (h : c.Reading R.frame R.header acc b (some d)) :
    Ready acc c op (some o)
  | failed {op : Op} {o : Outcome} {b : List β} (hb : R.before op = some b)
    (ho : R.bytes o = none) : Ready acc c op (some o)
  | between {op : Op} {o : Option Outcome} (hp : c.part = []) (ha : acc c.done)
    (hl : R.looks op = false) : Ready acc c op o

-- What has been read and is about to be looked at.
def InHand (x : Outstanding Op Outcome) : Prop :=
  (R.before x.op).isSome ∧ ∃ o, x.outcome = some o ∧ (R.bytes o).isSome

structure Receives (acc : List α → Prop) (reads : Op → Bool) (c : Channel α β)
    (io : List (Outstanding Op Outcome)) : Prop where
  ready : ∀ x ∈ io, reads x.op → R.Ready acc c x.op x.outcome
  settled : acc c.done ∨ (∃ x ∈ io, R.InHand x) ∧ ∃ as a, c.done = as ++ [a] ∧ acc as

variable {R} {acc acc' : List α → Prop} {reads reads' : Op → Bool} {c c' : Channel α β}
  {io io' : List (Outstanding Op Outcome)} {op : Op} {new : List Op}

theorem Takes.sent {o : Outcome} (h : R.Takes op o c c') : c'.sent = c.sent := by
  unfold Takes at h
  split at h
  case h_1 => exact Channel.Reads.sent h
  case h_2 => rw [h]

theorem before_of_not_looks (h : R.looks op = false) : R.before op = none := by
  cases hb : R.before op
  case none   => rfl
  case some b => simp [R.looks_of_before hb] at h

namespace Ready

variable {o : Option Outcome}

theorem send (h : R.Ready acc c op o) (a : Option α) : R.Ready acc (c.send a) op o := by
  cases h
  case waiting hb h     => exact .waiting hb (h.send a)
  case read hb ho h     => exact .read hb ho (h.send a)
  case failed hb ho     => exact .failed hb ho
  case between hp ha hl => exact .between hp ha hl

theorem mono (h : R.Ready acc c op o) (hm : ∀ {as}, acc as → acc' as) : R.Ready acc' c op o := by
  cases h
  case waiting hb h     => exact .waiting hb (h.mono hm)
  case read hb ho h     => exact .read hb ho (h.mono hm)
  case failed hb ho     => exact .failed hb ho
  case between hp ha hl => exact .between hp (hm ha) hl

theorem abort (h : R.Ready acc c op o) : R.Ready acc c op (some R.aborted) := by
  cases h
  case waiting hb _     => exact .failed hb R.bytes_aborted
  case read hb _ _      => exact .failed hb R.bytes_aborted
  case failed hb _      => exact .failed hb R.bytes_aborted
  case between hp ha hl => exact .between hp ha hl

theorem complete {o : Outcome} (h : R.Ready acc c op none) (ht : R.Takes op o c c') :
    R.Ready acc c' op (some o) := by
  unfold Takes at ht
  cases h
  case between hp ha hl =>
    rw [before_of_not_looks hl] at ht
    exact ht ▸ .between hp ha hl
  case waiting hb h =>
    cases ho : R.bytes o <;> rw [hb, ho] at ht
    case none => exact .failed hb ho
    case some => exact .read hb ho (h.read ht (R.header_le hb))

-- The party has taken notice of what has been read before, when an operation has not completed.
theorem noted (h : R.Ready acc c op none) : acc c.done := by
  cases h
  case waiting h    => exact h.done.resolve_right (by simp)
  case between ha _ => exact ha

end Ready

namespace Receives

theorem send (h : R.Receives acc reads c io) (a : Option α) :
    R.Receives acc reads (c.send a) io :=
  ⟨fun x hx hr => (h.ready x hx hr).send a, h.settled⟩

variable {l r : List (Outstanding Op Outcome)} {o : Outcome}

theorem complete (h : R.Receives acc reads c (l ++ ⟨op, none⟩ :: r))
    (hz : reads op → ∀ x ∈ l ++ r, reads x.op = false) (hb : ∀ {op}, R.looks op → reads op)
    (ht : R.Takes op o c c') : R.Receives acc reads c' (l ++ ⟨op, some o⟩ :: r) := by
  by_cases hr : reads op
  case pos =>
    have hop : R.Ready acc c op none := h.ready ⟨op, none⟩ (by simp) hr
    have hop' := hop.complete ht
    constructor
    case ready =>
      intro x hx hxr
      cases eq_or_ne x ⟨op, some o⟩
      case inl he =>
        subst he
        exact hop'
      case inr he =>
        have := hz hr x (by simpa [he] using hx)
        simp [this] at hxr
    case settled =>
      cases hop'
      case between ha _ => exact .inl ha
      case failed b hb ho =>
        have he : c' = c := by simpa [Takes, hb, ho] using ht
        exact .inl (he ▸ hop.noted)
      case read b d hb h ho =>
        cases h.done
        case inl hn => exact .inl hn
        case inr hn =>
          exact .inr ⟨⟨⟨op, some o⟩, by simp, by simp [hb], o, rfl, by simp [ho]⟩, hn.2⟩
  case neg =>
    have hn : R.before op = none := by
      cases hn : R.before op
      case none   => rfl
      case some b => exact absurd (hb (R.looks_of_before hn)) hr
    have he : c' = c := by simpa [Takes, hn] using ht
    subst he
    constructor
    case ready =>
      intro x hx hxr
      have hne : x ≠ ⟨op, some o⟩ := by
        intro he
        subst he
        exact hr hxr
      refine h.ready x ?_ hxr
      simp [hne] at hx ⊢
      tauto
    case settled =>
      apply h.settled.imp_right
      intro ⟨⟨x, hx, hh⟩, hd⟩
      refine ⟨⟨x, ?_, hh⟩, hd⟩
      have hne : x ≠ ⟨op, none⟩ := by
        intro he
        subst he
        simp [InHand, hn] at hh
      simp [hne] at hx ⊢
      tauto

-- An operation upon which the party does not read is taken out of the queue.
theorem dequeue (h : R.Receives acc reads c (l ++ ⟨op, some o⟩ :: r)) (hb : R.looks op = false) :
    R.Receives acc reads c (l ++ r) := by
  constructor
  case ready =>
    intro x hx hxr
    refine h.ready x ?_ hxr
    simp at hx ⊢
    tauto
  case settled =>
    apply h.settled.imp_right
    intro ⟨⟨x, hx, hh⟩, hd⟩
    refine ⟨⟨x, ?_, hh⟩, hd⟩
    have hne : x ≠ ⟨op, some o⟩ := by
      intro he
      subst he
      simp [InHand, before_of_not_looks hb] at hh
    simp [hne] at hx ⊢
    tauto

-- When a read has failed, it was the only one.
theorem noted_of_failed (h : R.Receives acc reads c (l ++ ⟨op, some o⟩ :: r))
    (hz : ∀ x ∈ l ++ r, reads x.op = false) (hb : ∀ {op}, R.looks op → reads op)
    (ho : R.bytes o = none) : acc c.done := by
  refine h.settled.resolve_right ?_
  intro ⟨⟨x, hx, hbx, o', hox, hdx⟩, _⟩
  have hne : x ≠ ⟨op, some o⟩ := by
    intro he
    subst he
    cases hox
    simp [ho] at hdx
  have ⟨b, hbx⟩ := Option.isSome_iff_exists.mp hbx
  have := hz x (by simpa [hne] using hx)
  simp [hb (R.looks_of_before hbx)] at this

-- The handler of an operation upon which the party does not read starts none upon which it does.
theorem quiet (h : R.Receives acc reads c io) (i : Outstanding.Continues R.aborted io new io')
    (hm : ∀ {as}, acc as → acc' as) (hr : ∀ op, reads' op → reads op)
    (hn : ∀ op' ∈ new, reads' op' = false) : R.Receives acc' reads' c io' := by
  constructor
  case ready =>
    intro x hx hxr
    rcases i.mem x hx with hx | ⟨y, hx, he, ho⟩ | ⟨hx, _⟩
    case inl     => exact (h.ready x hx (hr _ hxr)).mono hm
    case inr.inl =>
      rw [← he] at hxr ⊢
      rw [ho]
      exact ((h.ready y hx (hr _ hxr)).mono hm).abort
    case inr.inr => simp [hn _ hx] at hxr
  case settled =>
    apply h.settled.imp hm
    intro ⟨⟨x, hx, hh⟩, as, a, hd, ha⟩
    have ⟨_, o, ho, _⟩ := hh
    exact ⟨⟨x, i.queued x hx (by simp [ho]), hh⟩, as, a, hd, hm ha⟩

-- The operation upon which the party has read passes its turn on.
theorem pass (i : Outstanding.Continues R.aborted io new io') (hz : ∀ x ∈ io, reads' x.op = false)
    (ha : acc c.done) (hn : ∀ op' ∈ new, reads' op' → R.Ready acc c op' none) :
    R.Receives acc reads' c io' := by
  refine ⟨fun x hx hr => ?_, .inl ha⟩
  rcases i.mem x hx with hx | ⟨y, hx, he, _⟩ | ⟨hx, ho⟩
  case inl     => simp [hz x hx] at hr
  case inr.inl => simp [← he, hz y hx] at hr
  case inr.inr =>
    cases x with | mk op' o' => ?_
    rcases ho with ho | ho <;> subst ho
    · exact hn _ hx hr
    · exact (hn _ hx hr).abort

end Receives
end FrameReader
