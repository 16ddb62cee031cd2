import Lproxy.Crypto.Rsa
import Lproxy.Socks5
import Mathlib.Tactic.SplitIfs

namespace Lproxy

-- `session::status_t`.
inductive Status
  | notConnected
  | connected
  | hello
  | auth
  | data
  deriving DecidableEq, Repr

-- The order of the statuses.
inductive Status.Next : Status → Status → Prop
  | connected : Next .notConnected .connected
  | hello     : Next .connected .hello
  | auth      : Next .hello .auth
  | data      : Next .auth .data

-- `__request_type::PackType`: what a local sends. A byte that names no enumerator takes the
-- `default` label of the handlers, which is also the label of `bad`.
inductive RequestType
  | hello
  | exchange
  | data
  | zipdata
  | bad
  deriving DecidableEq, Repr

namespace RequestType

def toByte : RequestType → Byte
  | hello    => 0x00
  | exchange => 0x02
  | data     => 0x06
  | zipdata  => 0x17
  | bad      => 0xff

def ofByte (b : Byte) : RequestType :=
  if b = 0x00 then hello
  else if b = 0x02 then exchange
  else if b = 0x06 then data
  else if b = 0x17 then zipdata
  else bad

@[simp]
theorem ofByte_toByte (t : RequestType) : ofByte t.toByte = t := by
  cases t <;> rfl

end RequestType

-- `__reply_type::PackType`: what a server sends.
inductive ReplyType
  | hello
  | exchange
  | deny
  | timeout
  | data
  | zipdata
  | bad
  deriving DecidableEq, Repr

namespace ReplyType

def toByte : ReplyType → Byte
  | hello    => 0x01
  | exchange => 0x03
  | deny     => 0x04
  | timeout  => 0x05
  | data     => 0x06
  | zipdata  => 0x17
  | bad      => 0xff

def ofByte (b : Byte) : ReplyType :=
  if b = 0x01 then hello
  else if b = 0x03 then exchange
  else if b = 0x04 then deny
  else if b = 0x05 then timeout
  else if b = 0x06 then data
  else if b = 0x17 then zipdata
  else bad

@[simp]
theorem ofByte_toByte (t : ReplyType) : ofByte t.toByte = t := by
  cases t <;> rfl

end ReplyType

-- A packet that carries a part of the relayed data.
def IsData (lss : Packet) : Prop :=
  lss.type = ReplyType.data.toByte ∨ lss.type = ReplyType.zipdata.toByte

instance : DecidablePred IsData := fun _ =>
  inferInstanceAs (Decidable (_ ∨ _))

theorem RequestType.isData_iff {lss : Packet} :
    IsData lss ↔ ofByte lss.type = data ∨ ofByte lss.type = zipdata := by
  simp only [ofByte, IsData, ReplyType.toByte]
  split_ifs <;> simp_all

theorem RequestType.not_isData {lss : Packet}
    (h : ofByte lss.type ≠ data ∧ ofByte lss.type ≠ zipdata) : ¬IsData lss := by
  rw [isData_iff]
  tauto

theorem ReplyType.isData_iff {lss : Packet} :
    IsData lss ↔ ofByte lss.type = data ∨ ofByte lss.type = zipdata := by
  simp only [ofByte, IsData, ReplyType.toByte]
  split_ifs <;> simp_all

theorem ReplyType.not_isData {lss : Packet}
    (h : ofByte lss.type ≠ data ∧ ofByte lss.type ≠ zipdata) : ¬IsData lss := by
  rw [isData_iff]
  tauto

-- The exceptions that a handler of a read can meet.
inductive Exn
  | incompleteData (less : Int)
  | wrongLssStatus
  | wrongPacketType
  | socks5 (e : Socks5.Error)
  | encrypt
  | decrypt
  -- Any other `std::exception`.
  | other
  deriving DecidableEq, Repr

-- What the completion of an asynchronous operation reports as its error.
inductive ErrorCode
  | operationAborted
  | other
  deriving DecidableEq, Repr

-- `readbuffer::max_length` and `readbuffer::length_handshake`.
def maxLength : Nat := 4096
def lengthHandshake : Nat := 1024

-- A conversion of a `std::size_t` to an `int`.
def toInt (n : Int) : Int :=
  n.bmod (2 ^ 32)

-- The error is the `less()` of the `incomplete_data` that is thrown.
def lssPackIntegrityCheck (bytesTransferred : Nat) (lssData : Packet) : Except Int Unit :=
  if bytesTransferred < 4 then .error (toInt 0xffffffff)
  else
    let less := toInt (lssData.dataLen.toNat + 4 - bytesTransferred)
    if less > 0 then .error less else .ok ()

-- `none` models the result `false`, upon which the bytes from `startPos` on are dropped.
def cutLss (startPos lssLen : Nat) (lss : Packet) : Option Packet :=
  if lssLen < startPos + 4 then none
  else
    let buf := lss.toData
    some {
      version := buf.getD startPos 0
      type := buf.getD (startPos + 1) 0
      dataLenHighByte := buf.getD (startPos + 2) 0
      dataLenLowByte := buf.getD (startPos + 3) 0
      data := (buf.take lssLen).drop (startPos + 4)
    }

-- The handler that the write of a payload is bound to: the read handler once more, for what is left
-- in the packet, or the write handler.
inductive WriteNext
  | readHandler (bytesTransferred : Nat) (lss : Packet)
  | writeHandler
  deriving DecidableEq, Repr

def writeNext (bytesTransferred : Nat) (restLssDataLen : Int) (lss : Packet) : WriteNext :=
  match cutLss (bytesTransferred - restLssDataLen).toNat bytesTransferred lss with
  | some lss =>
    if restLssDataLen > 0 then .readHandler restLssDataLen.toNat lss else .writeHandler
  | none     => .writeHandler

-- The packet and the left-over buffer that a read handler is called with when a read of `d` has
-- completed. The read was made into the packet itself if the left-over buffer has size zero, and
-- otherwise into the left-over buffer, which was filled with zeros.
def readCompleted (lss : Packet) (rest : Nat) (d : Data) : Packet × Data :=
  if rest = 0 then (lss.fill d, []) else (lss, overwrite (zeros rest) d)

-- The correction with which `server::session::left_read_handler` and
-- `local::session::right_read_handler` start.
def rectify (bytesTransferred : Nat) (lss : Packet) (dataRest : Data) : Nat × Packet :=
  if dataRest.length > 0 then
    (bytesTransferred + (lss.data.length + 4), { lss with data := lss.data ++ dataRest })
  else
    (bytesTransferred, lss)

-- The packet that the next read is appended to when data is missing. If `bytesTransferred` is more
-- than the size of the packet, the code only prints "impossible!!".
def trim (bytesTransferred : Nat) (lss : Packet) : Packet :=
  if bytesTransferred < lss.data.length + 4 then
    { lss with data := lss.data.take (bytesTransferred - 4) }
  else lss

end Lproxy
