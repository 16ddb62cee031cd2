import Lproxy.Socks5

-- What a reply looks like on the wire, and what the offsets of a request find in it.
namespace Lproxy.Socks5

namespace Req

-- The part of the constructor that reads the address and the port.
def address (mem : Nat → Byte) : Option (Address × UInt16) :=
  if mem 3 = 0x01 then some (.ipv4 (.ofFn fun i => mem (4 + i)), port (mem 8) (mem 9))
  else if mem 3 = 0x03 then
    let domainLen := (mem 4).toNat
    some (.domain (mem 4) (readRange mem 5 domainLen),
      port (mem (5 + domainLen)) (mem (6 + domainLen)))
  else if mem 3 = 0x04 then some (.ipv6 (.ofFn fun i => mem (4 + i)), port (mem 20) (mem 21))
  else none

theorem parse_eq (mem : Nat → Byte) (len : Nat) :
    parse mem len =
      if len < 7 then .error .illegalDataType
      else if mem 0 ≠ 0x05 then .error .unsupportedVersion
      else if mem 1 ≠ 0x01 ∧ mem 1 ≠ 0x02 ∧ mem 1 ≠ 0x03 then .error .illegalDataType
      else if mem 2 ≠ 0x00 then .error .illegalDataType
      else match address mem with
        | some (destAddr, destPort) => .ok ⟨mem 1, mem 3, destAddr, destPort⟩
        | none                      => .error .illegalDataType := by
  unfold parse address
  split_ifs <;> rfl

end Req

-- An address that one of the setters of a reply accepts.
inductive BindAddr
  | ipv4 (ip : Vector Byte 4)
  | ipv6 (ip : Vector Byte 16)
  | domain (name : Data) (h : name.length < 256)

namespace BindAddr

def type : BindAddr → Byte
  | ipv4 _     => 0x01
  | ipv6 _     => 0x04
  | domain _ _ => 0x03

def bytes : BindAddr → Data
  | ipv4 ip       => ip.toList
  | ipv6 ip       => ip.toList
  | domain name _ => .ofNat name.length :: name

def address : BindAddr → Address
  | ipv4 ip       => .ipv4 ip
  | ipv6 ip       => .ipv6 ip
  | domain name _ => .domain (.ofNat name.length) name

def isDomain : BindAddr → Bool
  | domain _ _ => true
  | _          => false

-- How many bytes a reply with the address has.
def size : BindAddr → Nat
  | ipv4 _        => 10
  | ipv6 _        => 22
  | domain name _ => 7 + name.length

end BindAddr

namespace Resp

def setBindAddr (r : Resp) : BindAddr → Resp
  | .ipv4 ip       => r.setIPv4 ip
  | .ipv6 ip       => r.setIPv6 ip
  | .domain name _ => r.setDomain name

-- The reply of RFC 1928.
def wire (reply : Byte) (addr : BindAddr) (port : UInt16) : Data :=
  [0x05, reply, 0x00, addr.type] ++ addr.bytes ++
    [.ofNat (port.toNat / 256), .ofNat (port.toNat % 256)]

-- The encoder produces the reply, from which the reader of requests gets the address and the port.
def Readable (r : Resp) (addr : BindAddr) (port : UInt16) : Prop :=
  ∃ d, ((r.setBindAddr addr).setBindPort port).pack = .ok d ∧ d = wire r.reply addr port ∧
    d.length = addr.size ∧
    ∀ beyond, Req.address (memory d beyond) = some (addr.address, port)

variable {r : Resp} {addr : BindAddr} {port : UInt16}

theorem portBytes_eq (port : UInt16) :
    ((port >>> 8) &&& 0xff).toUInt8 = .ofNat (port.toNat / 256) ∧
      (port &&& 0xff).toUInt8 = .ofNat (port.toNat % 256) := by
  have := port.toNat_lt
  constructor <;> apply UInt8.toNat_inj.mp
  case left  => rw [Packet.highByte_toNat, UInt8.toNat_ofNat']; omega
  case right => rw [Packet.lowByte_toNat, UInt8.toNat_ofNat']; omega

theorem length_wire (reply : Byte) (addr : BindAddr) (port : UInt16) :
    (wire reply addr port).length = addr.size := by
  cases addr <;> simp [wire, BindAddr.bytes, BindAddr.size]
  omega

-- The bytes of a reply, from the address on.
theorem memory_wire (reply : Byte) (addr : BindAddr) (port : UInt16) (beyond : Nat → Byte) {i : Nat}
    {b : Byte} (h : (addr.bytes ++ [.ofNat (port.toNat / 256), .ofNat (port.toNat % 256)])[i]? =
      some b) : memory (wire reply addr port) beyond (4 + i) = b := by
  have hw : wire reply addr port = [0x05, reply, 0x00, addr.type] ++ (addr.bytes ++
      [.ofNat (port.toNat / 256), .ofNat (port.toNat % 256)]) := List.append_assoc ..
  rw [memory, hw, List.getElem?_append_right (by simp)]
  simp [h]

theorem port_eq (p : UInt16) :
    Socks5.port (.ofNat (p.toNat / 256)) (.ofNat (p.toNat % 256)) = p := by
  have ⟨hh, hl⟩ := portBytes_eq p
  rw [← hh, ← hl]
  exact Packet.dataLen_make (v := 0) (t := 0) (n := p) (d := [])

-- Whatever the kind of the address is, its reply is read back.
theorem address_wire (reply : Byte) (addr : BindAddr) (port : UInt16) (beyond : Nat → Byte) :
    Req.address (memory (wire reply addr port) beyond) = some (addr.address, port) := by
  have hm {i : Nat} {b : Byte} := @memory_wire reply addr port beyond i b
  cases addr
  case ipv4 ip =>
    have ht : memory (wire reply (.ipv4 ip) port) beyond 3 = 0x01 := rfl
    have hip : Vector.ofFn (fun i : Fin 4 => memory (wire reply (.ipv4 ip) port) beyond (4 + i)) =
        ip := by
      apply Vector.ext
      intro i hi
      rw [Vector.getElem_ofFn]
      exact hm (by simp [BindAddr.bytes, List.getElem?_append_left, hi])
    have hh : memory (wire reply (.ipv4 ip) port) beyond 8 = .ofNat (port.toNat / 256) :=
      @hm 4 _ (by simp [BindAddr.bytes])
    have hl : memory (wire reply (.ipv4 ip) port) beyond 9 = .ofNat (port.toNat % 256) :=
      @hm 5 _ (by simp [BindAddr.bytes])
    rw [Req.address, if_pos ht, hh, hl, hip, port_eq, BindAddr.address]
  case ipv6 ip =>
    have ht : memory (wire reply (.ipv6 ip) port) beyond 3 = 0x04 := rfl
    have hip : Vector.ofFn (fun i : Fin 16 => memory (wire reply (.ipv6 ip) port) beyond (4 + i)) =
        ip := by
      apply Vector.ext
      intro i hi
      rw [Vector.getElem_ofFn]
      exact hm (by simp [BindAddr.bytes, List.getElem?_append_left, hi])
    have hh : memory (wire reply (.ipv6 ip) port) beyond 20 = .ofNat (port.toNat / 256) :=
      @hm 16 _ (by simp [BindAddr.bytes])
    have hl : memory (wire reply (.ipv6 ip) port) beyond 21 = .ofNat (port.toNat % 256) :=
      @hm 17 _ (by simp [BindAddr.bytes])
    rw [Req.address, ht, if_neg (by decide), if_neg (by decide), if_pos rfl, hh, hl, hip,
      port_eq, BindAddr.address]
  case domain name hn =>
    have ht : memory (wire reply (.domain name hn) port) beyond 3 = 0x03 := rfl
    have hlen : memory (wire reply (.domain name hn) port) beyond 4 = .ofNat name.length :=
      @hm 0 _ (by simp [BindAddr.bytes])
    have hmod : (UInt8.ofNat name.length).toNat = name.length := by
      rw [UInt8.toNat_ofNat']
      omega
    have hname : readRange (memory (wire reply (.domain name hn) port) beyond) 5 name.length =
        name := by
      rw [readRange_memory (by simp [length_wire, BindAddr.size])]
      simp [wire, BindAddr.bytes]
    have hh : memory (wire reply (.domain name hn) port) beyond (5 + name.length) =
        .ofNat (port.toNat / 256) := by
      rw [show 5 + name.length = 4 + (name.length + 1) by omega]
      exact hm (by simp [BindAddr.bytes])
    have hl : memory (wire reply (.domain name hn) port) beyond (6 + name.length) =
        .ofNat (port.toNat % 256) := by
      rw [show 6 + name.length = 4 + (name.length + 2) by omega]
      exact hm (by simp [BindAddr.bytes])
    rw [Req.address, ht, if_neg (by decide), if_pos rfl]
    simp only [hlen, hmod, hname, hh, hl, port_eq, BindAddr.address]

theorem pack_ipv4 (h : r.reply ≤ 0x08) (ip : Vector Byte 4) :
    ((r.setBindAddr (.ipv4 ip)).setBindPort port).pack = .ok (wire r.reply (.ipv4 ip) port) := by
  have ⟨hh, hl⟩ := portBytes_eq port
  simp [pack, setBindAddr, setIPv4, setBindPort, UInt8.not_lt.mpr h, hh, hl, wire, BindAddr.type,
    BindAddr.bytes]

theorem pack_ipv6 (h : r.reply ≤ 0x08) (ip : Vector Byte 16) :
    ((r.setBindAddr (.ipv6 ip)).setBindPort port).pack = .ok (wire r.reply (.ipv6 ip) port) := by
  have ⟨hh, hl⟩ := portBytes_eq port
  simp [pack, setBindAddr, setIPv6, setBindPort, UInt8.not_lt.mpr h, hh, hl, wire, BindAddr.type,
    BindAddr.bytes]

-- The last byte of a reply with a domain name is cut off.
theorem pack_domain (h : r.reply ≤ 0x08) {name : Data} (hn : name.length < 256) :
    ((r.setBindAddr (.domain name hn)).setBindPort port).pack =
      .ok (wire r.reply (.domain name hn) port).dropLast := by
  have ⟨hh, hl⟩ := portBytes_eq port
  have hmod : (UInt8.ofNat name.length).toNat = name.length := by
    rw [UInt8.toNat_ofNat']
    omega
  have hd : (wire r.reply (.domain name hn) port).dropLast =
      (wire r.reply (.domain name hn) port).take (6 + name.length) := by
    rw [List.dropLast_eq_take, length_wire, BindAddr.size]
    congr 1
    omega
  rw [hd]
  simp [pack, setBindAddr, setDomain, setBindPort, UInt8.not_lt.mpr h, hh, hl, wire,
    BindAddr.type, BindAddr.bytes, hmod]

-- Exactly the replies without a domain name are encoded as the reader of requests decodes them.
theorem readable_iff (h : r.reply ≤ 0x08) (addr : BindAddr) (port : UInt16) :
    Readable r addr port ↔ addr.isDomain = false := by
  cases addr
  case ipv4 ip =>
    have hr : Readable r (.ipv4 ip) port :=
      ⟨_, pack_ipv4 h ip, rfl, length_wire .., fun _ => address_wire ..⟩
    exact iff_of_true hr rfl
  case ipv6 ip =>
    have hr : Readable r (.ipv6 ip) port :=
      ⟨_, pack_ipv6 h ip, rfl, length_wire .., fun _ => address_wire ..⟩
    exact iff_of_true hr rfl
  case domain name hn =>
    refine iff_of_false ?_ (by simp [BindAddr.isDomain])
    intro ⟨d, hp, _, hs, _⟩
    cases (pack_domain h hn).symm.trans hp
    rw [List.length_dropLast, length_wire, BindAddr.size] at hs
    omega

-- A reply to a request for a connection that has succeeded.
theorem readable_iff_ipv4 : (0x00 : Byte) ≤ 0x08 ∧
    (Readable ⟨0x00, 0, .domain 0 [], 0⟩ (.ipv4 (.replicate 4 127)) 80 ↔
      (BindAddr.ipv4 (.replicate 4 127)).isDomain = false) :=
  ⟨by decide, readable_iff (r := ⟨0x00, 0, .domain 0 [], 0⟩) (by decide) _ _⟩

-- The reply for the name "a" and port 80 ends with the high byte of the port.
theorem not_readable_domain : ¬∀ (r : Resp) (addr : BindAddr) (port : UInt16), r.reply ≤ 0x08 →
    Readable r addr port := by
  intro h
  have ⟨d, hp, _, hs, _⟩ := h ⟨0x00, 0, .domain 0 [], 0⟩ (.domain [97] (by decide)) 80 (by decide)
  have he : d = [5, 0, 0, 3, 1, 97, 0] := by
    cases hp
    decide
  simp [he, BindAddr.size] at hs

end Resp
end Lproxy.Socks5
