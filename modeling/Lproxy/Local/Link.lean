import Lproxy.Local.Turn
import Lproxy.Lib.Reader
import Lproxy.Lib.Writer
import Lproxy.Wire

-- The two channels that connect a session with its server.
namespace Lproxy.Local

open List (filterMap_cons)

def Event.unpacked? : Event → Option Data
  | unpacked d => some d
  | _          => none

-- The operations whose handler looks at a packet.
def Op.looks : Op → Bool
  | rightRead .. | leftWrite _ (.relay (.readHandler ..)) => true
  | _                                                     => false

def Op.dataRequest? : Op → Option Packet
  | rightWrite lss .rightWriteHandler => some lss
  | _                                 => none

-- What a step sends to the server.
def Label.sent : Label → Option Packet
  | complete (.rightWrite lss _) .done => some lss
  | _                                  => none

-- What a step takes from the server.
def Label.Takes : Label → Wire → Wire → Prop
  | complete (.rightRead lss rest) (.bytes d), c, c' =>
    c.Reads Packet.toData (offered lss rest) d c'
  | _, c, c'                                         => c' = c

-- The session as a reader of the frames of its server, and as a writer of frames with data.
def reader : FrameReader Op Outcome Packet Byte where
  frame := Packet.toData
  header := 4
  before
    | .rightRead lss rest => some (heldBefore lss rest)
    | _                   => none
  room
    | .rightRead lss rest => offered lss rest
    | _                   => 0
  bytes
    | .bytes d => some d
    | _        => none
  aborted := .error .operationAborted
  looks := Op.looks
  header_le := by
    intro op b h
    cases op <;> cases h
    exact header_le
  looks_of_before := by
    intro op b h
    cases op <;> cases h
    rfl
  bytes_aborted := rfl

def writer : FrameWriter Op Outcome Packet where
  frame? := Op.dataRequest?
  failed := Outcome.failed
  aborted := .error .operationAborted
  failed_aborted := rfl

section Labels

variable {op : Op} {o : Outcome} {f : Packet} {c c' : Wire}

theorem reader_before {b : Data} (h : reader.before op = some b) :
    ∃ lss rest, op = .rightRead lss rest := by
  cases op <;> cases h
  exact ⟨_, _, rfl⟩

theorem reader_bytes {d : Data} (h : reader.bytes o = some d) : o = .bytes d := by
  cases o <;> cases h
  rfl

theorem Label.of_mem_sent (h : f ∈ (Label.complete op o).sent.toList) :
    ∃ next, op = .rightWrite f next ∧ o = .done := by
  simp only [sent] at h
  split at h
  case h_1 he =>
    cases he
    cases List.mem_singleton.mp h
    exact ⟨_, rfl, rfl⟩
  case h_2    => cases h

theorem Label.takes_complete (h : (Label.complete op o).Takes c c') : reader.Takes op o c c' := by
  cases op
  case rightRead => cases o <;> exact h
  all_goals exact h

-- What has been sent stays as it is when a part of it is taken.
theorem Label.takes_sent {lb : Label} (h : lb.Takes c c') : c'.sent = c.sent := by
  cases lb
  case complete => exact (takes_complete h).sent
  all_goals exact congrArg Channel.sent h

end Labels

namespace Session

variable {cfg : Config} {ch : Choice} {s t u : Session} {op op' : Op} {o : Outcome} {c c' : Wire}
  {new run : List Op}

def unpacked (s : Session) : List Data :=
  s.log.filterMap Event.unpacked?

-- The encryptor of a session that has completed the handshake, whether it has been made or not.
def cipher (cfg : Config) (s : Session) : Option Crypto.Aes :=
  if s.status = .data then s.getAes cfg else none

section Chain

-- At most one operation is about to read from the server, and at most one is about to send.
theorem Serial.reading (i : Serial run s) : (ops run s).countP s.reads ≤ 1 := by
  have hl := Op.length_eq (ops run s)
  by_cases h : s.status ≠ .data ∨ 0 < (ops run s).countP Op.inGreeting
  case pos =>
    have := i.single h
    have : (ops run s).countP s.reads ≤ _ := List.countP_le_length
    omega
  case neg =>
    have hd : s.status = .data := by
      by_contra hd
      exact h (.inl hd)
    have hg : ∀ op ∈ ops run s, op.inGreeting = false := by
      have hz : (ops run s).countP Op.inGreeting = 0 := by
        by_contra hz
        exact h (.inr (Nat.pos_of_ne_zero hz))
      simpa using List.countP_eq_zero.mp hz
    refine (List.countP_mono_left fun op hop hr => ?_).trans i.right
    simpa [reads, hd, hg op hop] using hr

theorem Serial.sending (i : Serial run s) : (ops run s).countP s.sends ≤ 1 := by
  have hl := Op.length_eq (ops run s)
  by_cases hd : s.status = .data
  case pos =>
    refine (List.countP_mono_left fun op hop hr => ?_).trans i.left
    simpa [sends, hd] using hr
  case neg =>
    have := i.single (.inl hd)
    have : (ops run s).countP s.sends ≤ _ := List.countP_le_length
    omega

end Chain

-- A handler that looks at a packet is `right_read_handler`.
theorem rightReadDone_of_entry {bt : Nat} {lss : Packet} (e : RightEntry op o bt lss)
    (d : Delivered cfg ch s op o t) : RightReadDone cfg ch s bt lss t := by
  cases e
  case read =>
    cases d
    case right e r     => cases e; exact r
    case retried h     => cases h
    case unreachable h => cases h
  case written =>
    cases d
    case right e r     => cases e; exact r
    case connected h   => simp at h
    case retried h     => cases h
    case unreachable h => cases h

end Session
end Lproxy.Local
