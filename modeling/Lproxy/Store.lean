import Lproxy.Lib.Condition
import Lproxy.Lib.Transition

-- The bounded store that producers and consumers share.
namespace Lproxy

-- `Store<T, std::queue<T>>`, followed by what a run adds to it: the elements in the order in which
-- they have been pushed and popped. A producer that waits keeps its element.
structure Store (Thread Element : Type*) where
  store : List Element
  capacity : Nat
  condFull : Condition (Thread × Element)
  condEmpty : Condition Thread
  pushed : List Element
  popped : List Element

namespace Store

variable {Thread Element : Type*}

section Definitions

variable (s : Store Thread Element)

def size : Nat :=
  s.store.length

def empty : Prop :=
  s.store = []

def full : Prop :=
  s.size ≥ s.capacity

instance : Decidable s.empty :=
  inferInstanceAs (Decidable (s.store = []))

instance : Decidable s.full :=
  inferInstanceAs (Decidable (s.size ≥ s.capacity))

-- Whether a thread is inside a call.
def Blocked (t : Thread) : Prop :=
  (∃ e, (t, e) ∈ s.condFull.waiting ++ s.condFull.notified) ∨
    t ∈ s.condEmpty.waiting ++ s.condEmpty.notified

-- A new store of the given capacity.
def new (capacity : Nat) : Store Thread Element where
  store := []
  capacity := capacity
  condFull := {}
  condEmpty := {}
  pushed := []
  popped := []

-- The body of `push` once the lock is held, up to the wait or the end.
inductive Push (t : Thread) (e : Element) : Store Thread Element → Prop
  | wait (h : s.full) : Push t e { s with condFull := s.condFull.wait (t, e) }
  | push {c : Condition Thread} (h : ¬s.full) (n : Condition.NotifyOne s.condEmpty c) :
    Push t e { s with store := s.store ++ [e], condEmpty := c, pushed := s.pushed ++ [e] }

-- The body of `pop` once the lock is held, up to the wait or the end.
inductive Pop (t : Thread) : Store Thread Element → Prop
  | wait (h : s.empty) : Pop t { s with condEmpty := s.condEmpty.wait t }
  | pop {e : Element} {rest : List Element} {c : Condition (Thread × Element)}
    (h : s.store = e :: rest) (n : Condition.NotifyOne s.condFull c) :
    Pop t { s with store := rest, condFull := c, popped := s.popped ++ [e] }

end Definitions

inductive Label (Thread Element : Type*)
  | push (t : Thread) (e : Element)
  | pop (t : Thread)
  | resumePush (t : Thread) (e : Element)
  | resumePop (t : Thread)
  -- `push` or `pop` with a null pointer.
  | null (t : Thread)
  -- `reserve` or `reserve_unsafe`.
  | reserve (capacity : Nat)

-- One thing that happens to the store. What a thread does while it holds the lock is one step. The
-- `pop` that returns a reference is left out: it cannot be instantiated.
inductive Step (s : Store Thread Element) : Label Thread Element → Store Thread Element → Prop
  | push {t : Thread} {e : Element} {s' : Store Thread Element} (h : ¬s.Blocked t)
    (b : s.Push t e s') : Step s (.push t e) s'
  | pop {t : Thread} {s' : Store Thread Element} (h : ¬s.Blocked t) (b : s.Pop t s') :
    Step s (.pop t) s'
  | resumePush {t : Thread} {e : Element} {c : Condition (Thread × Element)}
    {s' : Store Thread Element} (r : Condition.Resume s.condFull (t, e) c)
    (b : { s with condFull := c }.Push t e s') : Step s (.resumePush t e) s'
  | resumePop {t : Thread} {c : Condition Thread} {s' : Store Thread Element}
    (r : Condition.Resume s.condEmpty t c) (b : { s with condEmpty := c }.Pop t s') :
    Step s (.resumePop t) s'
  | null {t : Thread} (h : ¬s.Blocked t) : Step s (.null t) s
  | reserve {capacity : Nat} : Step s (.reserve capacity) { s with capacity := capacity }

variable {s s' : Store Thread Element} {lb : Label Thread Element}

section Fifo

-- Nothing is lost, doubled or put in another order.
def Fifo (s : Store Thread Element) : Prop :=
  s.popped ++ s.store = s.pushed

theorem Push.fifo {t : Thread} {e : Element} (b : s.Push t e s') (h : s.Fifo) : s'.Fifo := by
  cases b
  case wait => exact h
  case push => rw [Fifo, ← List.append_assoc, h]

theorem Pop.fifo {t : Thread} (b : s.Pop t s') (h : s.Fifo) : s'.Fifo := by
  cases b
  case wait      => exact h
  case pop hs _  =>
    rw [Fifo, hs] at h
    rw [Fifo, List.append_assoc]
    exact h

theorem Step.fifo (h : s.Fifo) (e : Step s lb s') : s'.Fifo := by
  cases e
  case push b       => exact b.fifo h
  case pop b        => exact b.fifo h
  case resumePush b => exact b.fifo h
  case resumePop b  => exact b.fifo h
  case null         => exact h
  case reserve      => exact h

end Fifo

section Capacity

def Label.isReserve : Label Thread Element → Prop
  | reserve _ => True
  | _         => False

theorem Push.size_le {t : Thread} {e : Element} (b : s.Push t e s') (h : s.size ≤ s.capacity) :
    s'.size ≤ s'.capacity ∧ s'.capacity = s.capacity := by
  cases b
  case wait       => exact ⟨h, rfl⟩
  case push hf _  =>
    refine ⟨?_, rfl⟩
    simp only [full, size] at hf h
    simp only [size, List.length_append, List.length_singleton]
    omega

theorem Pop.size_le {t : Thread} (b : s.Pop t s') (h : s.size ≤ s.capacity) :
    s'.size ≤ s'.capacity ∧ s'.capacity = s.capacity := by
  cases b
  case wait     => exact ⟨h, rfl⟩
  case pop hs _ =>
    simp only [size, hs, List.length_cons] at h
    exact ⟨Nat.le_of_succ_le h, rfl⟩

-- As long as the capacity is not changed, it is kept to.
theorem Step.size_le (h : s.size ≤ s.capacity) (hr : ¬lb.isReserve) (e : Step s lb s') :
    s'.size ≤ s'.capacity ∧ s'.capacity = s.capacity := by
  cases e
  case push b       => exact b.size_le h
  case pop b        => exact b.size_le h
  case resumePush b => exact b.size_le h
  case resumePop b  => exact b.size_le h
  case null         => exact ⟨h, rfl⟩
  case reserve      => exact absurd trivial hr

end Capacity

-- In every run of a store of a fixed capacity.
theorem store_fifo {capacity : Nat}
    (r : Transition.Reachable (· = new capacity)
      (Transition.Guarded Step fun _ lb => ¬lb.isReserve) s) :
    s.popped ++ s.store = s.pushed ∧ s.size ≤ capacity := by
  have h : s.Fifo ∧ s.size ≤ s.capacity ∧ s.capacity = capacity := by
    induction r
    case init h =>
      subst h
      exact ⟨rfl, Nat.zero_le _, rfl⟩
    case step e ih =>
      have ⟨hf, hs, hc⟩ := ih
      have ⟨hs', hc'⟩ := e.step.size_le hs e.cond
      exact ⟨e.step.fifo hf, hs', hc'.trans hc⟩
  exact ⟨h.1, h.2.2 ▸ h.2.1⟩

section Wakeup

-- Somebody waits only for what those that have been notified leave.
structure Awake (s : Store Thread Element) : Prop where
  producers : s.condFull.Covers (s.capacity - s.size)
  consumers : s.condEmpty.Covers s.size

-- A change of the capacity makes no room that nobody is notified of.
def Covered (s : Store Thread Element) : Label Thread Element → Prop
  | .reserve capacity => s.condFull.Covers (capacity - s.size)
  | _                 => True

theorem Push.awake {t : Thread} {e : Element} (b : s.Push t e s')
    (hp : s.condFull.Covers (s.capacity - s.size - 1)) (hc : s.condEmpty.Covers s.size) :
    s'.Awake := by
  cases b
  case wait h =>
    have h : s.capacity - s.size = 0 := Nat.sub_eq_zero_of_le h
    exact ⟨h ▸ .zero, hc⟩
  case push h n =>
    refine ⟨hp.mono ?_, ?_⟩
    · simp [size]
      omega
    · simpa [size] using hc.notifyOne n

theorem Pop.awake {t : Thread} (b : s.Pop t s') (hp : s.condFull.Covers (s.capacity - s.size))
    (hc : s.condEmpty.Covers (s.size - 1)) : s'.Awake := by
  cases b
  case wait h  =>
    have h : s.size = 0 := List.length_eq_zero_iff.mpr h
    exact ⟨hp, h ▸ .zero⟩
  case pop e rest c h n =>
    have hs : s.size = rest.length + 1 := congrArg List.length h
    rw [hs] at hp hc
    refine ⟨(hp.notifyOne n).mono ?_, hc⟩
    show s.capacity - rest.length ≤ s.capacity - (rest.length + 1) + 1
    omega

theorem Step.awake (h : s.Awake) (hc : s.Covered lb) (e : Step s lb s') : s'.Awake := by
  cases e
  case push b         => exact b.awake (h.producers.mono (Nat.sub_le ..)) h.consumers
  case pop b          => exact b.awake h.producers (h.consumers.mono (Nat.sub_le ..))
  case resumePush r b => exact b.awake (h.producers.resume r) h.consumers
  case resumePop r b  => exact b.awake h.producers (h.consumers.resume r)
  case null           => exact h
  case reserve        => exact ⟨hc, h.consumers⟩

theorem awake_reachable {capacity : Nat}
    (r : Transition.Reachable (· = new capacity) (Transition.Guarded Step Covered) s) :
    s.Awake := by
  induction r
  case step e ih => exact e.step.awake ih e.cond
  case init h    =>
    subst h
    exact ⟨fun h => absurd rfl h, fun h => absurd rfl h⟩

-- When all that have been notified have resumed, a producer waits only for a full store and a
-- consumer for an empty one.
theorem no_lost_wakeup {capacity : Nat}
    (r : Transition.Reachable (· = new capacity) (Transition.Guarded Step Covered) s)
    (hp : s.condFull.notified = []) (hc : s.condEmpty.notified = []) :
    (s.condFull.waiting ≠ [] → s.full) ∧ (s.condEmpty.waiting ≠ [] → s.empty) := by
  have h := awake_reachable r
  exact ⟨fun hw => Nat.le_of_sub_eq_zero (h.producers.eq_zero hp hw),
    fun hw => List.length_eq_zero_iff.mp (h.consumers.eq_zero hc hw)⟩

end Wakeup

section Sample

-- A store of capacity one that is full, while a second producer waits.
def sampleStore (capacity : Nat) : Store Nat Nat where
  store := [7]
  capacity := capacity
  condFull := ⟨[(1, 8)], []⟩
  condEmpty := {}
  pushed := [7]
  popped := []

theorem sampleStore_reachable {cond : Store Nat Nat → Label Nat Nat → Prop}
    (h : ∀ s t e, cond s (.push t e)) :
    Transition.Reachable (· = new 1) (Transition.Guarded Step cond) (sampleStore 1) := by
  have r : Transition.Reachable (· = new 1) (Transition.Guarded Step cond) (new 1) := .init rfl
  have r := r.step ⟨.push (by simp [Blocked, new]) (.push (e := 7) (by decide) .nobody), h _ 0 7⟩
  exact r.step ⟨.push (by simp [Blocked, new]) (.wait (e := 8) (by decide)), h _ 1 8⟩

-- The waiting producer is notified when its predecessor's element is taken.
theorem store_fifo_two_producers :
    ∃ s : Store Nat Nat, s.popped = [7] ∧ s.store = [8] ∧ s.popped ++ s.store = s.pushed ∧
      s.size ≤ 1 := by
  have r := @sampleStore_reachable (fun _ lb => ¬lb.isReserve) fun _ _ _ => id
  have r := r.step ⟨.pop (t := 2) (by simp [Blocked, sampleStore])
    (.pop rfl (.one (l := []) (r := []))), id⟩
  have r := r.step ⟨.resumePush (.notified (l := []) (r := [])) (.push (by decide) .nobody), id⟩
  exact ⟨_, rfl, rfl, store_fifo r⟩

theorem no_lost_wakeup_full : (sampleStore 1).full :=
  (no_lost_wakeup (sampleStore_reachable fun _ _ _ => trivial) rfl rfl).1 nofun

-- Room that is made by a change of the capacity is not announced.
theorem reserve_without_notification : ∃ s : Store Nat Nat,
    Transition.Reachable (· = new 1) Step s ∧ s.condFull.notified = [] ∧
      s.condEmpty.notified = [] ∧ s.condFull.waiting ≠ [] ∧ ¬s.full := by
  have r := (@sampleStore_reachable (fun _ _ => True) fun _ _ _ => trivial).of_guarded
  exact ⟨_, r.step (@Step.reserve _ _ _ 2), rfl, rfl, nofun, by decide⟩

end Sample

end Store
end Lproxy
