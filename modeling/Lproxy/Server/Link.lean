import Lproxy.Server.Turn
import Lproxy.Lib.Reader
import Lproxy.Lib.Writer
import Lproxy.Wire

-- The two channels that connect a session with its local.
namespace Lproxy

namespace Server

open List (filterMap_cons)

def Event.unpacked? : Event → Option Data
  | unpacked d => some d
  | _          => none

-- The operations whose handler looks at a packet.
def Op.looks : Op → Bool
  | leftRead .. | rightWrite _ _ (.readHandler ..) => true
  | _                                              => false

def Op.dataReply? : Op → Option Packet
  | leftWrite lss .leftWriteHandler => some lss
  | _                               => none

-- What a step sends to the local.
def Label.sent : Label → Option Packet
  | complete (.leftWrite lss _) .done => some lss
  | _                                 => none

theorem Label.of_mem_sent {op : Op} {o : Outcome} {f : Packet}
    (h : f ∈ (Label.complete op o).sent.toList) : ∃ next, op = .leftWrite f next ∧ o = .done := by
  simp only [sent] at h
  split at h
  case h_1 he =>
    cases he
    cases List.mem_singleton.mp h
    exact ⟨_, rfl, rfl⟩
  case h_2    => cases h

-- What a step takes from the local.
def Label.Takes : Label → Wire → Wire → Prop
  | complete (.leftRead lss rest) (.bytes d), c, c' =>
    c.Reads Packet.toData (offered lss rest) d c'
  | _, c, c'                                        => c' = c

-- The session as a reader of the frames of its local, and as a writer of frames with data.
def reader : FrameReader Op Outcome Packet Byte where
  frame := Packet.toData
  header := 4
  before
    | .leftRead lss rest => some (heldBefore lss rest)
    | _                  => none
  room
    | .leftRead lss rest => offered lss rest
    | _                  => 0
  bytes
    | .bytes d => some d
    | _        => none
  aborted := .error .operationAborted
  looks := Op.looks
  header_le := by
    intro op b h
    cases op <;> cases h
    exact header_le
  looks_of_before := by
    intro op b h
    cases op <;> cases h
    rfl
  bytes_aborted := rfl

def writer : FrameWriter Op Outcome Packet where
  frame? := Op.dataReply?
  failed := Outcome.failed
  aborted := .error .operationAborted
  failed_aborted := rfl

theorem reader_before {op : Op} {b : Data} (h : reader.before op = some b) :
    ∃ lss rest, op = .leftRead lss rest := by
  cases op <;> cases h
  exact ⟨_, _, rfl⟩

theorem reader_bytes {o : Outcome} {d : Data} (h : reader.bytes o = some d) : o = .bytes d := by
  cases o <;> cases h
  rfl

theorem Label.takes_complete {op : Op} {o : Outcome} {c c' : Wire}
    (h : (Label.complete op o).Takes c c') : reader.Takes op o c c' := by
  cases op
  case leftRead => cases o <;> exact h
  all_goals exact h

-- What has been sent stays as it is when a part of it is taken.
theorem Label.takes_sent {lb : Label} {c c' : Wire} (h : lb.Takes c c') : c'.sent = c.sent := by
  cases lb
  case complete => exact (takes_complete h).sent
  all_goals exact congrArg Channel.sent h

namespace Session

variable {cfg : Config} {ch : Choice} {s t u : Session} {op op' : Op} {o : Outcome} {c c' : Wire}
  {encryptor : Option Crypto.Aes} {new run : List Op}

def unpacked (s : Session) : List Data :=
  s.log.filterMap Event.unpacked?

section Chain

theorem countP_or_le (p q : Op → Bool) (l : List Op) :
    l.countP (fun op => p op || q op) ≤ l.countP p + l.countP q := by
  induction l
  case nil          => simp
  case cons op l ih =>
    simp only [List.countP_cons]
    cases hp : p op <;> cases hq : q op <;> simp <;> omega

-- At most one operation is about to read from the local, and at most one is about to send.
theorem Inv.reading (i : Inv cfg run s) : (ops run s).countP Op.inReading ≤ 1 := by
  have hle : (ops run s).countP Op.inReading ≤ _ := countP_or_le Op.inLeft Op.inConnect _
  have hl := i.left
  by_cases hs : s.socks5State = .connected
  case pos =>
    have := i.connect hs
    omega
  case neg =>
    have := i.chain hs
    omega

theorem Inv.sending (i : Inv cfg run s) : (ops run s).countP s.sends ≤ 1 := by
  have hr := i.right
  by_cases hs : s.socks5State = .connected
  case pos =>
    have he : s.sends = Op.inRight := by
      funext op
      simp [sends, hs]
    rwa [he]
  case neg =>
    have he : s.sends = fun op => op.inRight || op.inReading := by
      funext op
      simp [sends, hs]
    have h₁ := countP_or_le Op.inRight Op.inReading (ops run s)
    have h₂ : (ops run s).countP Op.inReading ≤ _ := countP_or_le Op.inLeft Op.inConnect _
    have := i.chain hs
    rw [he]
    omega

end Chain

section Unpacked

theorem requestProcessed_unpacked (r : RequestProcessed cfg s t) :
    t.unpacked = s.unpacked ∧ t.aesEncryptor = s.aesEncryptor ∧ t.status = s.status := by
  cases r <;> simp [unpacked, filterMap_cons, Event.unpacked?]

theorem respToLocal_unpacked {v : Session × Option Exn} (r : RespToLocal cfg s v) :
    v.1.unpacked = s.unpacked ∧ v.1.aesEncryptor = s.aesEncryptor ∧ v.1.status = s.status := by
  cases r <;> simp [unpacked, filterMap_cons, Event.unpacked?]

-- A handler that looks at no packet unpacks none.
theorem delivered_unpacked (d : Delivered cfg ch s op o t)
    (hn : ∀ {bt lss}, ¬LeftEntry op o bt lss) :
    t.unpacked = s.unpacked ∧ t.aesEncryptor = s.aesEncryptor := by
  cases d
  case left e _               => exact absurd e hn
  case unresolved p _ _ _ _ r =>
    have ⟨h₁, h₂, _⟩ := respToLocal_unpacked r
    cases p <;> exact ⟨h₁, h₂⟩
  case unreachable p _ _ _ r  =>
    have ⟨h₁, h₂, _⟩ := respToLocal_unpacked r
    cases p <;> exact ⟨h₁, h₂⟩
  case connected p _ _ _ r    =>
    have ⟨h₁, h₂, _⟩ := respToLocal_unpacked r
    cases p <;> exact ⟨h₁, h₂⟩
  case resolved p _ _ _ _     =>
    cases p <;> simp [unpacked, connecting, timerCancelled, Event.unpacked?]
  case retried p _ _ _ _      =>
    cases p <;> simp [unpacked, connecting, timerCancelled, Event.unpacked?]
  all_goals simp [unpacked, filterMap_cons, Event.unpacked?]

-- A handler that looks at a packet is `left_read_handler`.
theorem leftReadDone_of_entry {bt : Nat} {lss : Packet} (e : LeftEntry op o bt lss)
    (d : Delivered cfg ch s op o t) : LeftReadDone cfg ch s bt lss t := by
  cases e
  case read =>
    cases d
    case left e r       => cases e; exact r
    case unsupported ho => simp at ho
  case written =>
    cases d
    case left e r       => cases e; exact r
    case unsupported ho => simp at ho

-- A session that has an encryptor keeps it.
theorem delivered_encryptor {a : Crypto.Aes} (i : Inv cfg [op] s) (d : Delivered cfg ch s op o t)
    (h : s.aesEncryptor = some a) : t.aesEncryptor = some a := by
  by_cases he : ∃ bt lss, LeftEntry op o bt lss
  case neg =>
    have ⟨_, ha⟩ := delivered_unpacked d fun e => he ⟨_, _, e⟩
    rw [ha, h]
  case pos =>
    have ⟨bt, lss, e⟩ := he
    have r := leftReadDone_of_entry e d
    cases r
    case exchange ha _ _ _ _ => simp [i.not_keyed e ha] at h
    case request r           =>
      have ⟨_, hk, _⟩ := requestProcessed_unpacked r
      exact hk.trans h
    all_goals exact h

-- A session that has completed the handshake stays so.
theorem delivered_data (i : Inv cfg [op] s) (j : Inv cfg [] t) (d : Delivered cfg ch s op o t)
    (h : s.status = .data) : t.status = .data := by
  have ⟨_, hl, _⟩ := delivered_logs d
  have ht := j.trail
  rw [hl, List.filterMap_append, i.trail, h] at ht
  cases hs : t.status <;> simp [hs, Server.trail] at ht ⊢

end Unpacked

end Session
end Server
end Lproxy
