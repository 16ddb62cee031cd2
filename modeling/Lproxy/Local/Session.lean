import Lproxy.Receive
import Lproxy.Lib.Outstanding
import Mathlib.Tactic.Simps.Basic

namespace Lproxy.Local

-- `lproxy::local::config`, and the crypto library.
structure Config where
  cpp : CryptoPP
  -- The MD5 hash, in hex, of the key in the configuration file.
  authKey : Key
  zipOn : Bool

structure Endpoint where
  address : Data
  port : UInt16
  deriving DecidableEq, Repr

-- The handler that an `async_write` to `socket_right` is bound to.
inductive RightWriteNext
  | helloHandler
  | exchangeHandler
  | rightWriteHandler
  | cancel
  deriving DecidableEq, Repr

-- The handler that a read from `socket_left` is bound to.
inductive LeftReadNext
  | leftReadSocks5Step1
  | leftReadHandler
  deriving DecidableEq, Repr

-- The handler that a write to `socket_left` is bound to.
inductive LeftWriteNext
  | leftWriteSocks5Step1Handler
  | relay (next : WriteNext)
  deriving DecidableEq, Repr

-- The asynchronous operations of a session, each with what its handler is bound to.
inductive Op
  | resolve
  -- `boost::asio::async_connect`, which tries one endpoint after the other.
  | connectAny (first : Endpoint) (rest : List Endpoint)
  -- A further attempt; `rest` are the endpoints from the bound iterator on.
  | connect (endpoint : Endpoint) (rest : List Endpoint)
  -- A read from `socket_right`: into `lssReply` if `rest` is zero, and otherwise into a left-over
  -- buffer of that size.
  | rightRead (lssReply : Packet) (rest : Nat)
  | rightWrite (lssRequest : Packet) (next : RightWriteNext)
  | leftRead (next : LeftReadNext)
  | leftWrite (data : Data) (next : LeftWriteNext)
  deriving DecidableEq, Repr

inductive Outcome
  | error (code : ErrorCode)
  -- The failure of `async_connect`, with the iterator at which it has stopped.
  | unconnected (code : ErrorCode) (rest : List Endpoint)
  | done
  | bytes (d : Data)
  | endpoints (first : Endpoint) (rest : List Endpoint)
  deriving DecidableEq, Repr

def Outcome.failed : Outcome → Bool
  | .error _ | .unconnected .. => true
  | _                          => false

-- What a session does, as far as the results speak about it.
inductive Event
  | started (op : Op)
  | cancelled
  | statusSet (status : Status)
  -- `pack_data` has encrypted `plain`, or `unpack_reply_data` has decrypted it.
  | packed (plain : Data)
  | unpacked (plain : Data)
  -- Undefined behaviour, or a failed assertion.
  | fault
  deriving DecidableEq

-- The members of `lproxy::local::session`, followed by what a run adds to them: the operations that
-- are outstanding on the session's sockets and its resolver, and the log.
@[ext]
structure Session where
  status : Status
  randomStr : Data
  -- `none` models the empty vector that the key is until the exchange.
  dataKey : Option Key
  aesEncryptor : Option Crypto.Aes
  io : List (Outstanding Op Outcome)
  log : List Event
  deriving DecidableEq

-- A session that has just been constructed.
def Session.initial : Session where
  status := .notConnected
  randomStr := []
  dataKey := none
  aesEncryptor := none
  io := []
  log := []

-- What a handler finds that is not up to the session: the random string for an exchange, and the
-- state of the random number generator of the RSA encryption.
structure Choice where
  randomStr : Data
  rng : Nat

namespace Session

variable (s : Session)

@[simps]
def note (e : Event) : Session :=
  { s with log := s.log ++ [e] }

@[simps]
def start (op : Op) : Session :=
  { s with io := s.io ++ [⟨op, none⟩], log := s.log ++ [.started op] }

@[simps]
def setStatus (status : Status) : Session :=
  { s with status := status, log := s.log ++ [.statusSet status] }

@[simps]
def abort (p : Op → Bool) : Session :=
  { s with io := s.io.map (Outstanding.abort p (.error .operationAborted)) }

end Session

namespace Op

def isRight : Op → Bool
  | connectAny .. | connect .. | rightRead .. | rightWrite .. => true
  | _                                                         => false

-- The resolver is not reached by `session::cancel`.
def isCancellable : Op → Bool
  | resolve => false
  | _       => true

end Op

namespace Session

@[simps!]
def cancel (s : Session) : Session :=
  (s.abort Op.isCancellable).note .cancelled

-- `socket_right.close()`.
@[simps!]
def closeRight (s : Session) : Session :=
  s.abort Op.isRight

end Session

-- `dataLen` is the length that is written into the header.
def pack (type : RequestType) (dataLen : Nat) (data : Data) : Packet :=
  .make 0x00 type.toByte (.ofNat dataLen) data

def packHello : Packet :=
  pack .hello 0 []

def packBad : Packet :=
  pack .bad 0x00 []

namespace Session

-- Fails if the construction of the `crypto::Rsa` or the encryption throws.
def packExchange (cfg : Config) (ch : Choice) (s : Session) (keysize : UInt16) (publicKey : Data) :
    Session × Except Exn Packet :=
  let s := { s with randomStr := ch.randomStr }
  match Crypto.Rsa.ofPublicKey cfg.cpp keysize.toUInt64 publicKey with
  | none     => (s, .error .other)
  | some rsa =>
    match rsa.encrypt cfg.cpp ch.rng (cfg.authKey.val ++ s.randomStr) with
    | .ok cipher             => (s, .ok (pack .exchange cipher.length cipher))
    | .error .exception      => (s, .error .encrypt)
    | .error .divisionByZero => (s.note .fault, .error .other)

-- The encryptor, which is made when it is needed first; `none` if the assertion on the length of
-- the key fails.
def getAes (cfg : Config) (s : Session) : Option Crypto.Aes :=
  match s.aesEncryptor with
  | some aes => some aes
  | none     => s.dataKey.map (Crypto.Aes.raw256 cfg.cpp)

-- The header gets the length of the plaintext. `none` models the failed assertion.
def packData (cfg : Config) (s : Session) (dataLeft : Data) : Session × Option Packet :=
  match s.getAes cfg with
  | none     => (s.note .fault, none)
  | some aes =>
    ({ s with aesEncryptor := some aes }.note (.packed dataLeft),
      some (pack (if cfg.zipOn then .zipdata else .data) dataLeft.length
        (aes.encrypt cfg.cpp dataLeft)))

-- On success the key size and the public key. A length below two makes the range of the public key
-- run backwards, and the assignment throws.
def unpackReplyHello (s : Session) (reply : Packet) : Session × Except Exn (UInt16 × Data) :=
  if reply.dataLen.toNat < 2 then (s.note .fault, .error .other)
  else
    let keysize := (((reply.data.getD 0 0).toUInt16 <<< 8) &&& 0xff00) |||
      (reply.data.getD 1 0).toUInt16
    (s, .ok (keysize, (reply.data.take reply.dataLen.toNat).drop 2))

-- Sets `data_key`; on success the random string of the reply. If the plaintext has less than 32
-- bytes, what is copied into `data_key` is not defined, and the assignment of the random string
-- throws.
def unpackReplyExchange (cfg : Config) (s : Session) (reply : Packet) :
    Session × Except Exn Data :=
  let aes := Crypto.Aes.raw256 cfg.cpp cfg.authKey
  let plaintext := aes.decrypt cfg.cpp (reply.data.take reply.dataLen.toNat)
  if h : (plaintext.take 32).length = 32 then
    ({ s with dataKey := some ⟨plaintext.take 32, h⟩ }, .ok (plaintext.drop 32))
  else
    (s.note .fault, .error .other)

-- The plaintext, and the length of what has not been processed yet. `none` models a failed
-- assertion.
def unpackReplyData (cfg : Config) (s : Session) (lssLength : Nat) (reply : Packet) :
    Session × Option (Data × Int) :=
  match s.getAes cfg with
  | none     => (s.note .fault, none)
  | some aes =>
    let dataLen := reply.dataLen.toNat
    let plain := aes.decrypt cfg.cpp (reply.data.take dataLen)
    ({ s with aesEncryptor := some aes }.note (.unpacked plain),
      some (plain, toInt (lssLength - (4 + dataLen))))

end Session
end Lproxy.Local
