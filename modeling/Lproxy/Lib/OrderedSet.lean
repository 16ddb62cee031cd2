import Mathlib.Data.List.Basic
import Mathlib.Order.Defs.Unbundled

-- Sets that know their elements by an order only: an element is taken to be in a set if one of the
-- same place in the order is in it.

-- Neither of two elements comes before the other.
def Tied {α : Type*} (lt : α → α → Prop) (x y : α) : Prop :=
  ¬lt x y ∧ ¬lt y x

structure OrderedSet (α : Type*) (lt : α → α → Prop) where
  elems : List α
  sorted : elems.Pairwise lt

namespace Tied

variable {α : Type*} {lt : α → α → Prop} {x y z : α}

theorem symm (h : Tied lt x y) : Tied lt y x :=
  And.symm h

variable [IsStrictWeakOrder α lt]

theorem trans (h : Tied lt x y) (h' : Tied lt y z) : Tied lt x z :=
  IsStrictWeakOrder.incomp_trans x y z h h'

end Tied

namespace OrderedSet

variable {α : Type*} {lt : α → α → Prop} [DecidableRel lt]

-- The place of an element is searched from the beginning. An element that is tied with it stays.
def insertInto (lt : α → α → Prop) [DecidableRel lt] (x : α) : List α → List α
  | []     => [x]
  | y :: l => if lt x y then x :: y :: l else if lt y x then y :: insertInto lt x l else y :: l

def findIn (lt : α → α → Prop) [DecidableRel lt] (x : α) : List α → Option α
  | []     => none
  | y :: l => if lt x y then none else if lt y x then findIn lt x l else some y

theorem mem_insertInto {x z : α} {l : List α} (h : z ∈ insertInto lt x l) : z = x ∨ z ∈ l := by
  induction l
  case nil         => exact .inl (List.mem_singleton.mp h)
  case cons y l hi =>
    rw [insertInto] at h
    split at h
    case isTrue => exact List.mem_cons.mp h
    case isFalse =>
      split at h
      case isFalse => exact .inr h
      case isTrue  =>
        cases List.mem_cons.mp h
        case inl h => exact .inr (h ▸ List.mem_cons_self ..)
        case inr h => exact (hi h).imp_right (List.mem_cons_of_mem _)

theorem sorted_insertInto [IsStrictWeakOrder α lt] {x : α} {l : List α} (h : l.Pairwise lt) :
    (insertInto lt x l).Pairwise lt := by
  induction l
  case nil         => exact List.pairwise_singleton ..
  case cons y l hi =>
    have ⟨hy, hl⟩ := List.pairwise_cons.mp h
    rw [insertInto]
    split
    case isTrue hx =>
      apply List.pairwise_cons.mpr ⟨_, h⟩
      intro z hz
      cases List.mem_cons.mp hz
      case inl hz => exact hz ▸ hx
      case inr hz => exact IsTrans.trans _ _ _ hx (hy z hz)
    case isFalse =>
      split
      case isFalse  => exact h
      case isTrue hx =>
        apply List.pairwise_cons.mpr ⟨_, hi hl⟩
        intro z hz
        cases mem_insertInto hz
        case inl hz => exact hz ▸ hx
        case inr hz => exact hy z hz

variable [IsStrictWeakOrder α lt]

def empty : OrderedSet α lt where
  elems := []
  sorted := .nil

def insert (s : OrderedSet α lt) (x : α) : OrderedSet α lt where
  elems := insertInto lt x s.elems
  sorted := sorted_insertInto s.sorted

def find? (s : OrderedSet α lt) (x : α) : Option α :=
  findIn lt x s.elems

def size (s : OrderedSet α lt) : Nat :=
  s.elems.length

def ofList (lt : α → α → Prop) [DecidableRel lt] [IsStrictWeakOrder α lt] (l : List α) :
    OrderedSet α lt :=
  l.foldl insert empty

-- An element of the same place in the order is in the set.
def Has (s : OrderedSet α lt) (x : α) : Prop :=
  ∃ y ∈ s.elems, Tied lt x y

variable {s : OrderedSet α lt} {x y z : α} {l : List α}

theorem findIn_isSome_iff (h : l.Pairwise lt) :
    (findIn lt x l).isSome ↔ ∃ y ∈ l, Tied lt x y := by
  induction l
  case nil         => simp [findIn]
  case cons y l hi =>
    have ⟨hy, hl⟩ := List.pairwise_cons.mp h
    rw [findIn, List.exists_mem_cons_iff]
    split
    case isTrue hx =>
      -- What comes later than `y` comes later than `x` as well.
      have hn : ¬∃ z ∈ l, Tied lt x z := by
        intro ⟨z, hz, ht⟩
        exact ht.1 (IsTrans.trans _ _ _ hx (hy z hz))
      simp [Tied, hx] at hn ⊢
      exact hn
    case isFalse hx =>
      split
      case isTrue hx'  => simp [hi hl, Tied, hx']
      case isFalse hx' => simp [Tied, hx, hx']

theorem find?_isSome_iff : (s.find? x).isSome ↔ s.Has x :=
  findIn_isSome_iff s.sorted

theorem has_insert_iff : (s.insert z).Has x ↔ Tied lt x z ∨ s.Has x := by
  have ⟨l, h⟩ := s
  simp only [Has, insert]
  induction l
  case nil         => simp [insertInto]
  case cons y l hi =>
    have hi := hi (List.pairwise_cons.mp h).2
    rw [insertInto]
    split
    case isTrue  => simp
    case isFalse hz =>
      split
      case isTrue  => simp only [List.exists_mem_cons_iff, hi, or_left_comm]
      case isFalse hz' =>
        constructor
        case mp  => exact .inr
        case mpr =>
          intro hx
          cases hx
          case inl hx => exact ⟨y, List.mem_cons_self .., hx.trans ⟨hz, hz'⟩⟩
          case inr hx => exact hx

-- An element is inserted unless there is one of its place.
theorem size_insert_of_has (h : s.Has z) : (s.insert z).size = s.size := by
  have ⟨l, hs⟩ := s
  simp only [Has, size, insert] at h ⊢
  induction l
  case nil         => simp at h
  case cons y l hi =>
    have ⟨hy, hl⟩ := List.pairwise_cons.mp hs
    rw [insertInto]
    split
    case isTrue hz =>
      have ⟨x, hx, ht⟩ := h
      cases hx
      case head    => exact absurd hz ht.1
      case tail hx => exact absurd (IsTrans.trans _ _ _ hz (hy x hx)) ht.1
    case isFalse =>
      split
      case isFalse   => rfl
      case isTrue hz =>
        have ⟨x, hx, ht⟩ := h
        cases hx
        case head    => exact absurd hz ht.2
        case tail hx => rw [List.length_cons, List.length_cons, hi hl ⟨x, hx, ht⟩]

theorem size_insert_of_not_has (h : ¬s.Has z) : (s.insert z).size = s.size + 1 := by
  have ⟨l, hs⟩ := s
  simp only [Has, size, insert] at h ⊢
  induction l
  case nil         => rfl
  case cons y l hi =>
    rw [List.exists_mem_cons_iff, not_or] at h
    rw [insertInto]
    split
    case isTrue  => rfl
    case isFalse hz =>
      split
      case isFalse hz' => exact absurd ⟨hz, hz'⟩ h.1
      case isTrue      =>
        rw [List.length_cons, List.length_cons, hi (List.pairwise_cons.mp hs).2 h.2]

theorem has_foldl_insert_iff : (l.foldl insert s).Has x ↔ s.Has x ∨ ∃ y ∈ l, Tied lt x y := by
  induction l generalizing s
  case nil         => simp
  case cons y l hi =>
    rw [List.foldl_cons, hi, has_insert_iff, List.exists_mem_cons_iff, or_left_comm, or_assoc]

theorem has_ofList_iff : (ofList lt l).Has x ↔ ∃ y ∈ l, Tied lt x y := by
  rw [ofList, has_foldl_insert_iff]
  simp [Has, empty]

theorem size_foldl_insert_le : (l.foldl insert s).size ≤ s.size + l.length := by
  induction l generalizing s
  case nil         => simp
  case cons y l hi =>
    rw [List.foldl_cons, List.length_cons]
    have h := hi (s := s.insert y)
    by_cases hy : s.Has y
    case pos => rw [size_insert_of_has hy] at h; omega
    case neg => rw [size_insert_of_not_has hy] at h; omega

theorem size_foldl_insert_eq_iff : (l.foldl insert s).size = s.size + l.length ↔
    (∀ x ∈ l, ¬s.Has x) ∧ l.Pairwise fun x y => ¬Tied lt x y := by
  induction l generalizing s
  case nil         => simp
  case cons y l hi =>
    rw [List.foldl_cons, List.length_cons, List.forall_mem_cons, List.pairwise_cons]
    by_cases hy : s.Has y
    case pos =>
      have hle := size_foldl_insert_le (l := l) (s := s.insert y)
      rw [size_insert_of_has hy] at hle
      constructor
      case mp  => omega
      case mpr => exact fun h => absurd hy h.1.1
    case neg =>
      have h := hi (s := s.insert y)
      rw [size_insert_of_not_has hy, Nat.add_assoc, Nat.add_comm 1] at h
      rw [h]
      simp only [has_insert_iff, not_or]
      constructor
      case mp  =>
        intro ⟨hl, hp⟩
        exact ⟨⟨hy, fun x hx => (hl x hx).2⟩, fun x hx ht => (hl x hx).1 ht.symm, hp⟩
      case mpr =>
        intro ⟨⟨_, hl⟩, ht, hp⟩
        exact ⟨fun x hx => ⟨fun h => ht x hx h.symm, hl x hx⟩, hp⟩

-- A list fills a set of its length if and only if no two of its elements have the same place.
theorem size_ofList_eq_iff :
    (ofList lt l).size = l.length ↔ l.Pairwise fun x y => ¬Tied lt x y := by
  have h : (l.foldl insert (empty : OrderedSet α lt)).size = _ ↔ _ := size_foldl_insert_eq_iff
  simpa [Has, size, empty, ofList] using h

end OrderedSet
