import Mathlib.Data.List.Basic
import Mathlib.Data.UInt

namespace Lproxy

abbrev Byte := UInt8

abbrev Data := List Byte

-- A string of 32 bytes: the shared authentication key and the key of a session.
abbrev Key := { k : Data // k.length = 32 }

-- A buffer after `d` has been written to its front.
def overwrite (buf d : Data) : Data :=
  d ++ buf.drop d.length

def zeros (n : Nat) : Data :=
  List.replicate n 0

@[simp]
theorem length_zeros (n : Nat) : (zeros n).length = n :=
  List.length_replicate

theorem length_overwrite {buf d : Data} (h : d.length ≤ buf.length) :
    (overwrite buf d).length = buf.length := by
  simp [overwrite]
  omega

@[simp]
theorem take_overwrite (buf d : Data) : (overwrite buf d).take d.length = d := by
  simp [overwrite]

-- `__packet`.
structure Packet where
  version : Byte
  type : Byte
  dataLenHighByte : Byte
  dataLenLowByte : Byte
  data : Data
  deriving DecidableEq, Repr

namespace Packet

-- The constructor of `__packet` that takes the data length as one number.
def make (version packType : Byte) (dataLen : UInt16) (data : Data) : Packet where
  version := version
  type := packType
  dataLenHighByte := ((dataLen >>> 8) &&& 0xff).toUInt8
  dataLenLowByte := (dataLen &&& 0xff).toUInt8
  data := data

-- The receiving constructor of `local::reply` and `server::request`.
def receiving (dataInitialLength : Nat) : Packet where
  version := 0xff
  type := 0xff
  dataLenHighByte := 0x00
  dataLenLowByte := 0x00
  data := zeros dataInitialLength

def dataLen (p : Packet) : UInt16 :=
  ((p.dataLenHighByte.toUInt16 <<< 8) &&& 0xff00) ||| p.dataLenLowByte.toUInt16

-- `get_vdata_from_lss_pack`, the bytes of `buffers()` in their order.
def toData (p : Packet) : Data :=
  [p.version, p.type, p.dataLenHighByte, p.dataLenLowByte] ++ p.data

-- The packet after a read into `buffers()` has returned `d`: the read fills the header fields first
-- and leaves what it does not reach as it was.
def fill (p : Packet) : Data → Packet
  | []                    => p
  | [v]                   => { p with version := v }
  | [v, t]                => { p with version := v, type := t }
  | [v, t, h]             => { p with version := v, type := t, dataLenHighByte := h }
  | v :: t :: h :: l :: d => ⟨v, t, h, l, overwrite p.data d⟩

variable {p : Packet}

@[simp]
theorem length_toData : p.toData.length = 4 + p.data.length := by
  simp [toData]
  omega

@[simp]
theorem drop_toData : p.toData.drop 4 = p.data :=
  rfl

theorem toData_fill (d : Data) : (p.fill d).toData = overwrite p.toData d := by
  rcases d with _ | ⟨v, _ | ⟨t, _ | ⟨h, _ | ⟨l, d⟩⟩⟩⟩ <;> simp [fill, toData, overwrite]

theorem length_fill {d : Data} (h : d.length ≤ 4 + p.data.length) :
    (p.fill d).data.length = p.data.length := by
  have h' := congrArg List.length (p.toData_fill d)
  rw [length_overwrite (by simpa using h)] at h'
  simpa using h'

@[simp]
theorem data_receiving (n : Nat) : (receiving n).data = zeros n :=
  rfl

@[simp]
theorem data_make {v t : Byte} {n : UInt16} {d : Data} : (make v t n d).data = d :=
  rfl

@[simp]
theorem type_make {v t : Byte} {n : UInt16} {d : Data} : (make v t n d).type = t :=
  rfl

theorem highByte_shift (b : Byte) : ((b.toUInt16 <<< 8) &&& 0xff00).toNat = b.toNat <<< 8 := by
  have h : ∀ v : BitVec 8,
      (((UInt8.ofBitVec v).toUInt16 <<< 8) &&& 0xff00).toNat = (UInt8.ofBitVec v).toNat <<< 8 := by
    decide
  exact h b.toBitVec

theorem dataLen_toNat :
    p.dataLen.toNat = 256 * p.dataLenHighByte.toNat + p.dataLenLowByte.toNat := by
  have hl := p.dataLenLowByte.toNat_lt
  simp only [dataLen, UInt16.toNat_or, UInt8.toNat_toUInt16, highByte_shift]
  rw [← Nat.shiftLeft_add_eq_or_of_lt (by simpa using hl)]
  omega

theorem dataLen_lt : p.dataLen.toNat < 65536 :=
  p.dataLen.toNat_lt

-- The two bytes in which a number is written.
theorem highByte_toNat (n : UInt16) : (((n >>> 8) &&& 0xff).toUInt8).toNat = n.toNat / 256 := by
  have := n.toNat_lt
  simp only [UInt16.toNat_toUInt8, UInt16.toNat_and, UInt16.toNat_shiftRight]
  rw [show (0xff : UInt16).toNat = 2 ^ 8 - 1 from rfl, Nat.and_two_pow_sub_one_eq_mod,
    Nat.shiftRight_eq_div_pow, show UInt16.toNat 8 % 16 = 8 from rfl]
  omega

theorem lowByte_toNat (n : UInt16) : ((n &&& 0xff).toUInt8).toNat = n.toNat % 256 := by
  simp only [UInt16.toNat_toUInt8, UInt16.toNat_and]
  rw [show (0xff : UInt16).toNat = 2 ^ 8 - 1 from rfl, Nat.and_two_pow_sub_one_eq_mod]
  omega

@[simp]
theorem dataLen_make {v t : Byte} {n : UInt16} {d : Data} : (make v t n d).dataLen = n := by
  apply UInt16.toNat_inj.mp
  simp only [dataLen_toNat, make]
  rw [highByte_toNat, lowByte_toNat]
  omega

-- The length field gives the number of bytes of the payload.
def Framed (p : Packet) : Prop :=
  p.dataLen.toNat = p.data.length

theorem framed_make {v t : Byte} {d : Data} (h : d.length < 65536) :
    (make v t (.ofNat d.length) d).Framed := by
  simpa [Framed] using h

-- A receive buffer that has got a packet, and whatever follows it.
def StartsWith (lss p : Packet) : Prop :=
  p.toData <+: lss.toData

variable {lss : Packet}

namespace StartsWith

theorem header (h : lss.StartsWith p) : lss.type = p.type ∧ lss.dataLen = p.dataLen := by
  have ⟨rest, h⟩ := h
  simp only [toData, List.cons_append, List.nil_append, List.cons.injEq] at h
  have ⟨_, ht, hh, hl, _⟩ := h
  exact ⟨ht.symm, by rw [dataLen, dataLen, hh, hl]⟩

theorem payload (h : lss.StartsWith p) (hf : p.Framed) :
    lss.data.take lss.dataLen.toNat = p.data := by
  rw [h.header.2, hf]
  have ⟨rest, h⟩ := h
  simp only [toData, List.cons_append, List.nil_append, List.cons.injEq] at h
  rw [← h.2.2.2.2, List.take_left]

end StartsWith
end Packet
end Lproxy
