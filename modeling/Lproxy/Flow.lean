import Lproxy.Relay

-- One direction of a connection from end to end. A session reads the bytes of its peer and sends
-- them as frames, and the other session reads the frames and writes their payloads.
namespace Lproxy

-- How the bytes of one read become a frame, and how its payload becomes the bytes again.
structure Coding where
  pack : Data → Packet
  decrypt : Data → Data
  framed : ∀ {d}, d.length ≤ maxLength → (pack d).Framed
  isData : ∀ d, IsData (pack d)
  length_toData : ∀ d, (pack d).toData.length = 4 + d.length
  decrypt_pack : ∀ d, decrypt (pack d).data = d

-- The chain of a session that reads bytes and sends them as frames: a read is outstanding, and
-- perhaps some bytes have arrived; or the write of a frame is outstanding or has been done.
inductive Pump
  | reading (arrived : Option Data)
  | sending (d : Data) (done : Bool)
  deriving DecidableEq

namespace Pump

-- The bytes that have been read and are in no frame that has been sent.
def held : Pump → Data
  | reading arrived => arrived.getD []
  | sending d false => d
  | sending _ true  => []

-- What is left to be done about what has been read. It pays for the frame that is to be sent.
def cost : Pump → Nat
  | reading none     => 0
  | reading (some d) => 23 + 5 * d.length
  | sending d false  => 22 + 5 * d.length
  | sending _ true   => 1

-- The buffer of a read.
def Valid (k : Pump) : Prop :=
  k.held.length ≤ maxLength

-- One thing that happens to the chain, with the bytes that it takes and the frame that it sends.
inductive Move (pack : Data → Packet) : Pump → Data → Option Packet → Pump → Prop
  | read {d : Data} (ne : d ≠ []) (le : d.length ≤ maxLength) :
    Move pack (.reading none) d none (.reading (some d))
  | pack {d : Data} : Move pack (.reading (some d)) [] none (.sending d false)
  | send {d : Data} : Move pack (.sending d false) [] (some (pack d)) (.sending d true)
  | next {d : Data} : Move pack (.sending d true) [] none (.reading none)

variable {pack : Data → Packet} {k k' : Pump} {d : Data} {sent : Option Packet}

theorem Move.valid (m : Move pack k d sent k') (h : k.Valid) : k'.Valid := by
  cases m
  case read le => exact le
  case pack    => exact h
  case send    => exact Nat.zero_le _
  case next    => exact Nat.zero_le _

-- Until it waits in vain, the chain can move on.
theorem progress (pack : Data → Packet) (k : Pump) (source : Data) :
    k = .reading none ∧ source = [] ∨
      ∃ d rest sent k', source = d ++ rest ∧ Move pack k d sent k' := by
  cases k
  case reading arrived =>
    cases arrived
    case some => exact .inr ⟨[], source, _, _, rfl, .pack⟩
    case none =>
      by_cases hs : source = []
      case pos => exact .inl ⟨rfl, hs⟩
      case neg =>
        refine .inr ⟨source.take maxLength, source.drop maxLength, _, _,
          (List.take_append_drop ..).symm, .read ?_ (List.length_take_le ..)⟩
        simpa [maxLength] using hs
  case sending d done =>
    cases done
    case false => exact .inr ⟨[], source, _, _, rfl, .send⟩
    case true  => exact .inr ⟨[], source, _, _, rfl, .next⟩

end Pump

-- What is left of the bytes of the peer, the two chains, and the frames that have been sent.
structure Flow where
  source : Data
  pump : Pump
  frames : List Frame
  relay : Relay

namespace Flow

variable {c : Coding} {f g : Flow} {data : Data}

-- One thing that happens to a flow. What is sent is on its way to the other session.
inductive Move (c : Coding) : Flow → Flow → Prop
  | pump {d source : Data} {k k' : Pump} {fs gs : List Frame} {r : Relay} {sent : Option Packet}
    (m : k.Move c.pack d sent k') (h : gs.map Frame.packet = sent.toList) :
    Move c ⟨d ++ source, k, fs, r⟩
      ⟨source, k', fs ++ gs, { r with unread := r.unread ++ stream gs }⟩
  | relay {source : Data} {k : Pump} {fs : List Frame} {r r' : Relay} (m : r.Move c.decrypt fs r') :
    Move c ⟨source, k, fs, r⟩ ⟨source, k, fs, r'⟩

-- The bytes of the peer are `data` since the first frame: they have been sent, are held, or have
-- not been read yet.
structure Carries (c : Coding) (data : Data) (f : Flow) : Prop where
  bytes : payloads c.decrypt f.frames ++ f.pump.held ++ f.source = data
  valid : f.pump.Valid
  on : f.relay.On c.decrypt f.frames

-- Everything has been read, and both chains wait for more.
structure Idle (f : Flow) : Prop where
  source : f.source = []
  pump : f.pump = .reading none
  relay : f.relay.Idle

def work (f : Flow) : Nat :=
  40 * f.source.length + f.pump.cost + f.relay.work

-- Every frame that is sent is one.
theorem exists_frames (c : Coding) {k k' : Pump} {d : Data} {sent : Option Packet}
    (m : k.Move c.pack d sent k') (h : k.Valid) :
    ∃ gs : List Frame, gs.map Frame.packet = sent.toList := by
  cases m
  case send d => exact ⟨[⟨c.pack d, c.framed h, c.isData d⟩], rfl⟩
  all_goals exact ⟨[], rfl⟩

-- What a step of the first chain does to the bytes, and to what is left to be done.
theorem pump_move {k k' : Pump} {d : Data} {sent : Option Packet} {gs : List Frame}
    (m : k.Move c.pack d sent k') (h : gs.map Frame.packet = sent.toList) :
    payloads c.decrypt gs ++ k'.held = k.held ++ d ∧
      k'.cost + 5 * (stream gs).length < 40 * d.length + k.cost := by
  cases m
  case read ne _ =>
    cases List.map_eq_nil_iff.mp h
    have := List.length_pos_iff.mpr ne
    simp [payloads, Pump.held, Pump.cost]
    omega
  case pack =>
    cases List.map_eq_nil_iff.mp h
    simp [payloads, Pump.held, Pump.cost]
  case next =>
    cases List.map_eq_nil_iff.mp h
    simp [payloads, Pump.held, Pump.cost]
  case send d =>
    obtain ⟨f, hg, hf⟩ := List.map_eq_singleton_iff.mp h
    subst hg
    have hl := c.length_toData d
    constructor
    · simp [payloads, Pump.held, hf, c.decrypt_pack]
    · simp only [stream_cons, stream_nil, List.append_nil, Frame.bytes, hf, hl, Pump.cost]
      omega

theorem Carries.move (h : f.Carries c data) (m : Move c f g) :
    g.Carries c data ∧ g.work < f.work := by
  cases m
  case pump d source k k' fs gs r sent m hg =>
    obtain ⟨hb, hc⟩ := pump_move m hg
    refine ⟨⟨?_, m.valid h.valid, h.on.extend gs⟩, ?_⟩
    · have := h.bytes
      simp only [payloads, List.flatMap_append, List.append_assoc] at this hb ⊢
      rw [← this, ← List.append_assoc (List.flatMap _ gs), hb, List.append_assoc]
    · simp only [work, Relay.work, List.length_append]
      omega
  case relay m =>
    obtain ⟨on, hw⟩ := h.on.move m
    exact ⟨⟨h.bytes, h.valid, on⟩, Nat.add_lt_add_left hw _⟩

-- How a flow looks from outside: what the peer has not sent yet, and what is on its way between the
-- sessions, of which `sent` are the packets.
structure Shows (f : Flow) (source wire : Data) (sent : List Packet) : Prop where
  source : f.source = source
  wire : f.relay.unread = wire
  sent : f.frames.map Frame.packet = sent

section Shows

variable {d source wire wire' : Data} {sent : List Packet} {p : Option Packet} {k : Pump}
  {r : Relay}

theorem Carries.pumped (h : f.Carries c data) (o : f.Shows (d ++ source) wire sent)
    (m : f.pump.Move c.pack d p k) : ∃ g : Flow, g.Carries c data ∧ g.work < f.work ∧
      g.Shows source (wire ++ p.toList.flatMap Packet.toData) (sent ++ p.toList) ∧ g.pump = k ∧
      ∃ u, g.relay = { f.relay with unread := u } := by
  have ⟨gs, hg⟩ := exists_frames c m h.valid
  have hb : p.toList.flatMap Packet.toData = stream gs := by
    rw [← hg, List.flatMap_map]
    rfl
  cases f with | mk source' k' fs r' => ?_
  cases o.source
  have ⟨h', hw⟩ := h.move (.pump m hg)
  refine ⟨_, h', hw, ⟨rfl, ?_, ?_⟩, rfl, _, rfl⟩
  · rw [hb, ← o.wire]
  · rw [List.map_append, hg, ← o.sent]

theorem Carries.relayed (h : f.Carries c data) (o : f.Shows source wire sent)
    (m : f.relay.Move c.decrypt f.frames r) : ∃ g : Flow, g.Carries c data ∧ g.work < f.work ∧
      g.Shows source r.unread sent ∧ g.pump = f.pump ∧ g.relay = r := by
  have ⟨h', hw⟩ := h.move (.relay m)
  exact ⟨_, h', hw, ⟨o.source, rfl, o.sent⟩, rfl, rfl⟩

end Shows

-- Until both chains wait in vain, one of them can move on.
theorem Carries.progress (h : f.Carries c data) : f.Idle ∨
    (∃ d source p k, f.source = d ++ source ∧ f.pump.Move c.pack d p k) ∨
      ∃ r, f.relay.Move c.decrypt f.frames r := by
  cases f.pump.progress c.pack f.source
  case inr m => exact .inr (.inl m)
  case inl hp =>
    cases h.on.progress
    case inr m  => exact .inr (.inr m)
    case inl hr => exact .inl ⟨hp.2, hp.1, hr⟩

-- What has been written is a part of the bytes of the peer, and in the end it is all of them.
theorem Carries.isPrefix (h : f.Carries c data) : f.relay.written <+: data :=
  h.on.isPrefix.trans ⟨_, by rw [← List.append_assoc]; exact h.bytes⟩

theorem Carries.written (h : f.Carries c data) (hi : f.Idle) : f.relay.written = data := by
  have hb := h.bytes
  rw [hi.source, hi.pump] at hb
  rw [h.on.written hi.relay, ← hb]
  simp [Pump.held]

end Flow
end Lproxy
