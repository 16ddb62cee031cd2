import Lproxy.Packet

namespace Lproxy.Socks5

-- `lproxy::socks5::unsupported_version` and `lproxy::socks5::illegal_data_type`.
inductive Error
  | unsupportedVersion
  | illegalDataType
  deriving DecidableEq, Repr

-- `lproxy::socks5::server::state`.
inductive State
  | opening
  | connecting
  | connected
  deriving DecidableEq, Repr

-- The states in the order in which `socks5_state` takes them.
def State.rank : State → Nat
  | opening    => 0
  | connecting => 1
  | connected  => 2

theorem State.rank_le (st : State) : st.rank ≤ 2 := by
  cases st <;> decide

theorem State.rank_le_one {st : State} (h : st ≠ connected) : st.rank ≤ 1 := by
  cases st <;> simp [rank] at h ⊢

theorem State.eq_connected_of_rank {st : State} (h : 2 ≤ st.rank) : st = connected := by
  cases st <;> simp [rank] at h ⊢

-- What a pointer to the first byte of `p` reads: past the end it is whatever lies there.
def memory (p : Data) (beyond : Nat → Byte) (i : Nat) : Byte :=
  p[i]?.getD (beyond i)

theorem memory_of_lt {p : Data} {beyond : Nat → Byte} {i : Nat} (h : i < p.length) :
    memory p beyond i = p[i] := by
  simp [memory, h]

def readRange (mem : Nat → Byte) (start size : Nat) : Data :=
  (List.range size).map fun i => mem (start + i)

@[simp]
theorem length_readRange (mem : Nat → Byte) (start size : Nat) :
    (readRange mem start size).length = size := by
  simp [readRange]

theorem readRange_memory {p : Data} {beyond : Nat → Byte} {start size : Nat}
    (h : start + size ≤ p.length) :
    readRange (memory p beyond) start size = (p.drop start).take size := by
  apply List.ext_getElem (by simp; omega)
  intro i h₁ _
  simp only [length_readRange] at h₁
  simp [readRange, memory_of_lt (show start + i < p.length by omega)]

-- `ident_req`, the greeting of a client.
structure IdentReq where
  version : Byte
  numberOfMethods : Byte
  methods : Data
  deriving DecidableEq, Repr

def IdentReq.parse (mem : Nat → Byte) (len : Nat) : Except Error IdentReq :=
  if len < 3 then .error .illegalDataType
  else if mem 0 ≠ 0x05 then .error .unsupportedVersion
  else .ok ⟨mem 0, mem 1, readRange mem 2 (mem 1).toNat⟩

-- `ident_resp::pack`.
def identResp (r : IdentReq) : Data :=
  if 0x00 ∈ r.methods then [r.version, 0x00] else [0x05, 0xff]

inductive Address
  | ipv4 (ip : Vector Byte 4)
  | domain (len : Byte) (name : Data)
  | ipv6 (ip : Vector Byte 16)
  deriving DecidableEq, Repr

-- `req`, the request of a client.
structure Req where
  cmd : Byte
  addrType : Byte
  destAddr : Address
  destPort : UInt16
  deriving DecidableEq, Repr

def port (high low : Byte) : UInt16 :=
  ((high.toUInt16 <<< 8) &&& 0xff00) ||| low.toUInt16

namespace Req

def parse (mem : Nat → Byte) (len : Nat) : Except Error Req :=
  if len < 7 then .error .illegalDataType
  else if mem 0 ≠ 0x05 then .error .unsupportedVersion
  else if mem 1 ≠ 0x01 ∧ mem 1 ≠ 0x02 ∧ mem 1 ≠ 0x03 then .error .illegalDataType
  else if mem 2 ≠ 0x00 then .error .illegalDataType
  else if mem 3 = 0x01 then
    .ok ⟨mem 1, mem 3, .ipv4 (.ofFn fun i => mem (4 + i)), port (mem 8) (mem 9)⟩
  else if mem 3 = 0x03 then
    let domainLen := (mem 4).toNat
    .ok ⟨mem 1, mem 3, .domain (mem 4) (readRange mem 5 domainLen),
      port (mem (5 + domainLen)) (mem (6 + domainLen))⟩
  else if mem 3 = 0x04 then
    .ok ⟨mem 1, mem 3, .ipv6 (.ofFn fun i => mem (4 + i)), port (mem 20) (mem 21)⟩
  else .error .illegalDataType

-- How many bytes a request whose address has the given layout takes.
def size (p : Data) : Nat :=
  if p.getD 3 0 = 0x01 then 10 else if p.getD 3 0 = 0x03 then 7 + (p.getD 4 0).toNat else 22

-- A complete request of RFC 1928: nothing is missing and nothing follows.
structure WellFormed (p : Data) : Prop where
  version : p[0]? = some 0x05
  cmd : p[1]? = some 0x01 ∨ p[1]? = some 0x02 ∨ p[1]? = some 0x03
  reserved : p[2]? = some 0x00
  addrType : p[3]? = some 0x01 ∨ p[3]? = some 0x03 ∨ p[3]? = some 0x04
  length : p.length = size p

variable {p : Data} {beyond : Nat → Byte}

theorem WellFormed.seven_le (w : WellFormed p) : 7 ≤ p.length := by
  rw [w.length, size]
  split <;> try split
  all_goals omega

-- A well-formed request is accepted, and its command is the one that it names.
theorem parse_wellFormed (w : WellFormed p) :
    ∃ r, parse (memory p beyond) p.length = .ok r ∧ p[1]? = some r.cmd := by
  have hl := w.seven_le
  have ⟨hv, hc, hr, ha, _⟩ := w
  have get {i : Nat} {b : Byte} (h : p[i]? = some b) : memory p beyond i = b := by simp [memory, h]
  have ⟨c, hc', hcm⟩ : ∃ c, p[1]? = some c ∧ (c = 0x01 ∨ c = 0x02 ∨ c = 0x03) := by
    rcases hc with hc | hc | hc <;> exact ⟨_, hc, by simp⟩
  have hcm' : ¬(c ≠ 0x01 ∧ c ≠ 0x02 ∧ c ≠ 0x03) := by tauto
  have hlen : ¬p.length < 7 := by omega
  rcases ha with ha | ha | ha <;>
    simp [parse, hlen, get hv, get hr, get ha, get hc', hcm', hc']

end Req

-- `resp`, the reply to a request, with the fields that the setters have set.
structure Resp where
  reply : Byte
  addrType : Byte
  bindAddr : Address
  bindPort : UInt16
  deriving DecidableEq, Repr

namespace Resp

def setIPv4 (r : Resp) (ip : Vector Byte 4) : Resp :=
  { r with addrType := 0x01, bindAddr := .ipv4 ip }

def setIPv6 (r : Resp) (ip : Vector Byte 16) : Resp :=
  { r with addrType := 0x04, bindAddr := .ipv6 ip }

def setDomain (r : Resp) (name : Data) : Resp :=
  { r with addrType := 0x03, bindAddr := .domain (.ofNat name.length) name }

def setBindPort (r : Resp) (port : UInt16) : Resp :=
  { r with bindPort := port }

-- `resp::pack`. An address that is not of the kind that `AddrType` names makes `boost::get` throw;
-- the setters exclude that.
def pack (r : Resp) : Except Error Data :=
  let portBytes : Data := [((r.bindPort >>> 8) &&& 0xff).toUInt8, (r.bindPort &&& 0xff).toUInt8]
  if r.reply > 0x08 then .error .illegalDataType
  else
    match r.addrType, r.bindAddr with
    | 0x01, .ipv4 ip         => .ok ([0x05, r.reply, 0x00, 0x01] ++ ip.toList ++ portBytes)
    | 0x03, .domain len name =>
      -- `data.assign` takes the bytes up to `data_arr + 6 + domain.Len`.
      .ok (([0x05, r.reply, 0x00, 0x03, len] ++ name.take len.toNat ++ portBytes).take
        (6 + len.toNat))
    | 0x04, .ipv6 ip         => .ok ([0x05, r.reply, 0x00, 0x04] ++ ip.toList ++ portBytes)
    | _, _                   => .error .illegalDataType

end Resp
end Lproxy.Socks5
