import Lproxy.Receive
import Lproxy.Lib.Outstanding
import Mathlib.Tactic.Simps.Basic

namespace Lproxy.Server

-- The parts of the networking library whose results the session looks into.
structure Boost where
  addressV4ToString : Vector Byte 4 → Data
  addressV6ToString : Vector Byte 16 → Data
  -- Whether `ip::address::from_string` accepts a string; otherwise it throws.
  isAddress : Data → Bool

-- `lproxy::server::config`, and the libraries.
structure Config where
  cpp : CryptoPP
  boost : Boost
  rsaKeysize : UInt16
  rsaPublickeyHex : Data
  rsakey : Crypto.RsaKey
  zipOn : Bool
  -- Each key is inserted as a null-terminated string.
  cipherAuthKeySet : List { k : Data // 0 ∉ k }
  -- `from_string(bind_addr_socks5).to_v4()`, or `none` if that throws.
  bindAddrSocks5 : Option (Vector Byte 4)
  bindPortSocks5 : UInt16
  timeout : Nat

-- An endpoint that a resolver has returned, with its address as `to_string` writes it.
structure Endpoint where
  address : Data
  port : UInt16
  deriving DecidableEq, Repr

inductive Proto
  | tcp
  | udp
  deriving DecidableEq, Repr

-- The handler that an `async_write` to `socket_left` is bound to.
inductive LeftWriteNext
  | helloHandler
  | exchangeHandler
  | leftWriteHandler
  | cancel
  deriving DecidableEq, Repr

-- The asynchronous operations of a session, each with what its handler is bound to.
inductive Op
  -- A read from `socket_left`: into `lssRequest` if `rest` is zero, and otherwise into a left-over
  -- buffer of that size.
  | leftRead (lssRequest : Packet) (rest : Nat)
  | leftWrite (lssReply : Packet) (next : LeftWriteNext)
  | rightRead (proto : Proto)
  | rightWrite (proto : Proto) (data : Data) (next : WriteNext)
  | resolve (proto : Proto) (name : Data) (port : UInt16)
  -- `rest` are the endpoints from the bound iterator on.
  | connect (proto : Proto) (endpoint : Endpoint) (rest : List Endpoint)
  | timerWait
  deriving DecidableEq, Repr

inductive Outcome
  | error (code : ErrorCode)
  | done
  | bytes (d : Data)
  | endpoints (first : Endpoint) (rest : List Endpoint)
  deriving DecidableEq, Repr

def Outcome.failed : Outcome → Bool
  | .error _ => true
  | _        => false

-- What a session does, as far as the results speak about it.
inductive Event
  | started (op : Op)
  | cancelled
  | statusSet (status : Status)
  -- An exchange packet has been decrypted to `plain`.
  | exchangeDecrypted (plain : Data)
  | socks5RequestProcessing (rq : Socks5.Req)
  -- A SOCKS5 reply has been packed and is about to be sent.
  | socks5Resp (reply : Byte)
  -- `pack_data` has encrypted `plain`, or `unpack_data` has decrypted it.
  | packed (plain : Data)
  | unpacked (plain : Data)
  -- The code reads `aes_encryptor` while it is null.
  | encryptorNotInitialized
  -- Undefined behaviour, or a failed assertion.
  | fault
  deriving DecidableEq

-- The values of `socks5_cmd`. It is not initialised; a value that is no enumerator goes the way of
-- `CMD_UNSUPPORT`.
inductive Cmd
  | connect
  | bind
  | udp
  | unsupport
  deriving DecidableEq, Repr

-- The members of `lproxy::server::session`, followed by what a run adds to them: the clock, the
-- operations that are outstanding on the session's sockets, resolvers and timer, and the log.
@[ext]
structure Session where
  status : Status
  socks5State : Socks5.State
  socks5Cmd : Cmd
  destName : Data
  destPort : UInt16
  socks5RespReply : Byte
  aesEncryptor : Option Crypto.Aes
  -- `timer_right.expires_at()`
  expiresAt : Nat
  now : Nat
  io : List (Outstanding Op Outcome)
  log : List Event

-- A session that has just been constructed. The constructor leaves `socks5_cmd`, `dest_port` and
-- `socks5_resp_reply` uninitialised.
structure Session.Initial (s : Session) : Prop where
  status : s.status = .notConnected
  socks5State : s.socks5State = .opening
  aesEncryptor : s.aesEncryptor = none
  io : s.io = []
  log : s.log = []

-- What a handler finds that is not up to the session: the random bytes for a new key, the memory
-- past the end of a payload, and whether `socket_right_udp.open` succeeds.
structure Choice where
  dataKey : Key
  beyond : Nat → Byte
  udpOpened : Bool

namespace Session

variable (s : Session)

@[simps]
def note (e : Event) : Session :=
  { s with log := s.log ++ [e] }

@[simps]
def start (op : Op) : Session :=
  { s with io := s.io ++ [⟨op, none⟩], log := s.log ++ [.started op] }

@[simps]
def setStatus (status : Status) : Session :=
  { s with status := status, log := s.log ++ [.statusSet status] }

@[simps]
def abort (p : Op → Bool) : Session :=
  { s with io := s.io.map (Outstanding.abort p (.error .operationAborted)) }

end Session

namespace Op

def isTimerWait : Op → Bool
  | timerWait => true
  | _         => false

def isRight (p : Proto) : Op → Bool
  | rightRead q | rightWrite q _ _ | connect q _ _ => p = q
  | _                                              => false

-- The resolvers are not reached by `session::cancel`.
def isCancellable : Op → Bool
  | resolve .. => false
  | _          => true

end Op

namespace Session

@[simps!]
def cancel (s : Session) : Session :=
  (s.abort Op.isCancellable).note .cancelled

@[simps!]
def timerCancel (s : Session) : Session :=
  s.abort Op.isTimerWait

-- `socket_right_tcp.close()` and `socket_right_udp.close()`.
@[simps!]
def closeRight (p : Proto) (s : Session) : Session :=
  s.abort (Op.isRight p)

-- `timer_right.expires_from_now` followed by `timer_right.async_wait`.
@[simps!]
def timerRestart (cfg : Config) (s : Session) : Session :=
  { s.abort Op.isTimerWait with expiresAt := s.now + cfg.timeout }.start .timerWait

end Session

-- The bytes of `d` up to its first null byte.
def cString (d : Data) : Data :=
  d.takeWhile (· ≠ 0)

def genHelloData (cfg : Config) : Data :=
  [((cfg.rsaKeysize >>> 8) &&& 0xff).toUInt8, (cfg.rsaKeysize &&& 0xff).toUInt8] ++
    cfg.rsaPublickeyHex

def pack (type : ReplyType) (data : Data) : Packet :=
  .make 0x00 type.toByte (.ofNat data.length) data

def packHello (cfg : Config) : Packet :=
  pack .hello (genHelloData cfg)

def packBad : Packet :=
  pack .bad []

def packTimeout : Packet :=
  pack .timeout []

def packDeny : Packet :=
  pack .deny []

namespace Session

-- `none` models a failed assertion. The key is handed to `crypto::Aes` as a null-terminated string.
def packExchange (cfg : Config) (ch : Choice) (s : Session) (authKey randomStr : Data) :
    Option (Session × Packet) :=
  if h : authKey.length = 32 ∧ (cString authKey).length = 32 then
    let s := { s with aesEncryptor := some (Crypto.Aes.raw256 cfg.cpp ch.dataKey) }
    let aes := Crypto.Aes.raw256 cfg.cpp ⟨cString authKey, h.2⟩
    some (s, pack .exchange (aes.encrypt cfg.cpp (ch.dataKey.val ++ randomStr)))
  else none

def packData (cfg : Config) (s : Session) (data : Data) : Session × Packet :=
  match s.aesEncryptor with
  | none     =>
    ((s.note .encryptorNotInitialized).start (.leftWrite packDeny .cancel), packDeny)
  | some aes =>
    (s.note (.packed data), pack (if cfg.zipOn then .zipdata else .data) (aes.encrypt cfg.cpp data))

-- On success `auth_key` and `random_str`. If the plaintext has less than 32 bytes, `plain.begin() +
-- 32` is past its end; the assignment of the range that runs backwards throws.
def unpackRequestExchange (cfg : Config) (s : Session) (request : Packet) :
    Session × Except Exn (Data × Data) :=
  match (Crypto.Rsa.ofRsaKey cfg.rsakey).decrypt cfg.cpp
      (request.data.take request.dataLen.toNat) with
  | .error .exception      => (s, .error .decrypt)
  | .error .divisionByZero => (s.note .fault, .error .other)
  | .ok plain              =>
    let s := s.note (.exchangeDecrypted plain)
    if plain.length < 32 then (s.note .fault, .error .other)
    else (s, .ok (plain.take 32, plain.drop 32))

-- On success the plaintext and the length of what has not been processed yet. Without an encryptor
-- the code goes on to dereference the null pointer.
def unpackData (cfg : Config) (s : Session) (lssReplyLength : Nat) (request : Packet) :
    Session × Option (Data × Int) :=
  match s.aesEncryptor with
  | none     =>
    (((s.note .encryptorNotInitialized).start (.leftWrite packDeny .cancel)).note .fault, none)
  | some aes =>
    let cipherLen := request.dataLen.toNat
    let plain := aes.decrypt cfg.cpp (request.data.take cipherLen)
    (s.note (.unpacked plain), some (plain, toInt (lssReplyLength - (4 + cipherLen))))

def packSocks5Resp (cfg : Config) (s : Session) : Except Exn Data :=
  match cfg.bindAddrSocks5 with
  | none      => .error .other
  | some ipv4 =>
    let resp : Socks5.Resp := ⟨s.socks5RespReply, 0x01, .ipv4 ipv4, cfg.bindPortSocks5⟩
    ((resp.setIPv4 ipv4).setBindPort cfg.bindPortSocks5).pack.mapError .socks5

-- Fails if an exception leaves it.
def socks5RespToLocal (cfg : Config) (s : Session) : Session × Option Exn :=
  match s.packSocks5Resp cfg with
  | .error e => (s, some e)
  | .ok data =>
    let s := s.note (.socks5Resp s.socks5RespReply)
    let s := if s.socks5RespReply = 0x00 then { s with socks5State := .connected } else s
    let (s, dataReply) := s.packData cfg data
    let s := s.start (.leftWrite dataReply .leftWriteHandler)
    if s.socks5RespReply = 0x00 then (s.start (.leftRead (.receiving maxLength) 0), none)
    else (s, none)

end Session
end Lproxy.Server
