import Mathlib.Data.List.Infix

-- A channel that delivers frames in the order in which they are sent. A read returns the next
-- frame, or as much of it as there is room for.
structure Channel (α β : Type*) where
  -- The frames that have been read as a whole.
  done : List α
  -- What has been read of the next frame.
  part : List β
  queue : List α

namespace Channel

variable {α β : Type*}

def empty : Channel α β :=
  ⟨[], [], []⟩

-- The frames that have been sent so far.
def sent (c : Channel α β) : List α :=
  c.done ++ c.queue

def send (c : Channel α β) (a : Option α) : Channel α β :=
  { c with queue := c.queue ++ a.toList }

inductive Reads (bytes : α → List β) (room : Nat) (d : List β) (c : Channel α β) :
    Channel α β → Prop
  | whole {a : α} {queue : List α} (hq : c.queue = a :: queue) (h : c.part ++ d = bytes a)
    (hr : d.length ≤ room) : Reads bytes room d c ⟨c.done ++ [a], [], queue⟩
  | part {a : α} {queue : List α} {rest : List β} (hq : c.queue = a :: queue)
    (h : c.part ++ d ++ rest = bytes a) (hn : rest ≠ []) (hr : d.length = room) :
    Reads bytes room d c { c with part := c.part ++ d }

-- Decides `Reads`.
def read? [DecidableEq β] (bytes : α → List β) (room : Nat) (d : List β) (c : Channel α β) :
    Option (Channel α β) :=
  match c.queue with
  | []         => none
  | a :: queue =>
    if c.part ++ d = bytes a ∧ d.length ≤ room then some ⟨c.done ++ [a], [], queue⟩
    else if c.part ++ d <+: bytes a ∧ c.part ++ d ≠ bytes a ∧ d.length = room then
      some { c with part := c.part ++ d }
    else none

-- How a channel stands to a reader that had got `before` of the next frame when it started to read,
-- and whose read has returned what `d` says, if it is a part of a frame at least `header` bytes.
-- `acc` holds of the frames that the reader has taken notice of.
inductive Reading (bytes : α → List β) (header : Nat) (acc : List α → Prop) (c : Channel α β)
    (before : List β) : Option (List β) → Prop
  | waiting (hp : c.part = before) (ha : acc c.done) : Reading bytes header acc c before none
  | whole {a : α} {as : List α} {d : List β} (hd : c.done = as ++ [a]) (hp : c.part = [])
    (ha : acc as) (hb : before ++ d = bytes a) : Reading bytes header acc c before (some d)
  | part {a : α} {d rest : List β} (hm : a ∈ c.queue) (hn : rest ≠ []) (ha : acc c.done)
    (hp : c.part = before ++ d) (hb : before ++ d ++ rest = bytes a)
    (hh : header ≤ (before ++ d).length) : Reading bytes header acc c before (some d)

variable {bytes : α → List β} {room : Nat} {before d : List β} {c c' : Channel α β}
  {acc acc' : List α → Prop}

@[simp]
theorem sent_send (a : Option α) : (c.send a).sent = c.sent ++ a.toList := by
  simp [sent, send]

theorem mem_sent_of_done {a : α} (h : a ∈ c.done) : a ∈ c.sent :=
  List.mem_append_left _ h

theorem mem_sent_of_queue {a : α} (h : a ∈ c.queue) : a ∈ c.sent :=
  List.mem_append_right _ h

-- A read leaves what has been sent as it was.
theorem Reads.sent (h : Reads bytes room d c c') : c'.sent = c.sent := by
  cases h
  case whole hq h hr => simp [Channel.sent, hq]
  case part          => rfl

theorem Reads.of_read? [DecidableEq β] (h : c.read? bytes room d = some c') :
    Reads bytes room d c c' := by
  unfold read? at h
  split at h
  case h_1 => cases h
  case h_2 a queue hq =>
    split at h
    case isTrue hw =>
      cases h
      exact .whole hq hw.1 hw.2
    case isFalse =>
      split at h <;> cases h
      case isTrue hp =>
        have ⟨⟨rest, he⟩, hne, hr⟩ := hp
        refine .part hq he ?_ hr
        intro hn
        subst hn
        exact hne (by simpa using he)

namespace Reading

variable {header : Nat} {o : Option (List β)}

theorem send (h : Reading bytes header acc c before o) (a : Option α) :
    Reading bytes header acc (c.send a) before o := by
  cases h
  case waiting hp ha          => exact .waiting hp ha
  case whole hd hp ha hb      => exact .whole hd hp ha hb
  case part hm hn ha hp hb hh => exact .part (List.mem_append_left _ hm) hn ha hp hb hh

theorem mono (h : Reading bytes header acc c before o) (hm : ∀ {as}, acc as → acc' as) :
    Reading bytes header acc' c before o := by
  cases h
  case waiting hp ha          => exact .waiting hp (hm ha)
  case whole hd hp ha hb      => exact .whole hd hp (hm ha) hb
  case part hq hn ha hp hb hh => exact .part hq hn (hm ha) hp hb hh

-- A read that has been waiting returns.
theorem read (h : Reading bytes header acc c before none) (r : Reads bytes room d c c')
    (hh : header ≤ before.length + room) : Reading bytes header acc c' before (some d) := by
  cases h
  case waiting hp ha =>
    cases r
    case whole hq h hr   => exact .whole rfl rfl ha (hp ▸ h)
    case part hq h hn hr =>
      subst hp
      exact .part (by simp [hq]) hn ha rfl h (by simpa [hr] using hh)

-- What the reader has taken notice of, but for a frame that it has just got as a whole.
theorem done (h : Reading bytes header acc c before o) :
    acc c.done ∨ o.isSome ∧ ∃ as a, c.done = as ++ [a] ∧ acc as := by
  cases h
  case waiting ha       => exact .inl ha
  case whole hd _ ha _  => exact .inr ⟨rfl, _, _, hd, ha⟩
  case part ha _ _ _    => exact .inl ha

end Reading
end Channel
