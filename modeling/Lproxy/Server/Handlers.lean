import Lproxy.Server.Session

namespace Lproxy.Server.Session

variable (cfg : Config) (ch : Choice)

-- `start`; `remoteError` is the error of `socket_left.remote_endpoint`.
def startSession (s : Session) (remoteError : Bool) : Session :=
  if remoteError then s
  else
    ((s.setStatus .connected).start (.leftRead (.receiving lengthHandshake) 0)).setStatus .hello

@[simps!]
def sendBad (s : Session) : Session :=
  s.start (.leftWrite packBad .cancel)

-- The name is handed to the resolver as a null-terminated string.
def resovleConnectTcp (s : Session) : Session :=
  (s.timerRestart cfg).start (.resolve .tcp (cString s.destName) s.destPort)

def resovleOpenUdp (s : Session) : Session :=
  s.start (.resolve .udp (cString s.destName) s.destPort)

-- The text "0.0.0.0".
def anyAddress : Data :=
  [48, 46, 48, 46, 48, 46, 48]

def destNameOf : Socks5.Address → Data
  | .ipv4 ip       => cfg.boost.addressV4ToString ip
  | .domain _ name => name
  | .ipv6 ip       => cfg.boost.addressV6ToString ip

def socks5RequestProcessing (s : Session) (rq : Socks5.Req) : Session × Option Exn :=
  let s := s.note (.socks5RequestProcessing rq)
  let s := { s with destName := destNameOf cfg rq.destAddr, destPort := rq.destPort }
  if rq.cmd = 0x01 then
    ({ s with socks5Cmd := .connect }.resovleConnectTcp cfg, none)
  else if rq.cmd = 0x02 then
    { s with socks5Cmd := .unsupport, socks5RespReply := 0x07 }.socks5RespToLocal cfg
  else if rq.cmd = 0x03 then
    if s.destName = anyAddress then
      { s with
        socks5Cmd := .udp
        socks5RespReply := if ch.udpOpened then 0x00 else 0x01 }.socks5RespToLocal cfg
    else
      ({ s with socks5Cmd := .udp }.resovleOpenUdp, none)
  else
    { s with socks5Cmd := .unsupport, socks5RespReply := 0x07 }.socks5RespToLocal cfg

-- `case request::hello` of `left_read_handler`.
def leftReadHello (s : Session) (lssRequest : Packet) : Session × Option Exn :=
  if s.status ≠ .hello then (s, some .wrongLssStatus)
  else if lssRequest.dataLen ≠ 0 then (s, some .wrongPacketType)
  else (s.start (.leftWrite (packHello cfg) .helloHandler), none)

-- `case request::exchange` of `left_read_handler`.
def leftReadExchange (s : Session) (lssRequest : Packet) : Session × Option Exn :=
  if s.status ≠ .auth then (s, some .wrongLssStatus)
  else
    match s.unpackRequestExchange cfg lssRequest with
    | (s, .error e)                => (s, some e)
    | (s, .ok (authKey, randomStr)) =>
      if authKey ∉ cfg.cipherAuthKeySet.map (·.val) then
        (s.start (.leftWrite packDeny .cancel), none)
      else
        match s.packExchange cfg ch authKey randomStr with
        | none                    => (s.note .fault, none)
        | some (s, exchangeReply) => (s.start (.leftWrite exchangeReply .exchangeHandler), none)

-- `case CONNECTED` of the `socks5_state` switch.
def leftReadConnected (s : Session) (bytesTransferred : Nat) (lssRequest : Packet)
    (plainData : Data) (restLssDataLen : Int) : Session × Option Exn :=
  let next := writeNext bytesTransferred restLssDataLen lssRequest
  match s.socks5Cmd with
  | .connect => (s.start (.rightWrite .tcp plainData next), none)
  | .udp     =>
    if cfg.boost.isAddress s.destName then (s.start (.rightWrite .udp plainData next), none)
    else (s, some .other)
  | .bind | .unsupport => (s.sendBad, none)

-- `case request::zipdata` and `case request::data` of `left_read_handler`. Nothing is unzipped yet.
def leftReadData (s : Session) (bytesTransferred : Nat) (lssRequest : Packet) :
    Session × Option Exn :=
  if s.status ≠ .data then (s, some .wrongLssStatus)
  else
    match s.unpackData cfg bytesTransferred lssRequest with
    | (s, none)                             => (s, none)
    | (s, some (plainData, restLssDataLen)) =>
      if restLssDataLen < 0 then (s, some (.incompleteData (0 - restLssDataLen)))
      else
        match s.socks5State with
        | .opening | .connecting =>
          let s := { s with socks5State := .connecting }
          match Socks5.Req.parse (Socks5.memory plainData ch.beyond) plainData.length with
          | .error e => (s, some (.socks5 e))
          | .ok rq   => s.socks5RequestProcessing cfg ch rq
        | .connected => s.leftReadConnected cfg bytesTransferred lssRequest plainData restLssDataLen

-- The `try` block of `left_read_handler`.
def leftReadTry (s : Session) (bytesTransferred : Nat) (lssRequest : Packet) :
    Session × Option Exn :=
  match lssPackIntegrityCheck bytesTransferred lssRequest with
  | .error less => (s, some (.incompleteData less))
  | .ok ()      =>
    match RequestType.ofByte lssRequest.type with
    | .hello           => s.leftReadHello cfg lssRequest
    | .exchange        => s.leftReadExchange cfg ch lssRequest
    | .zipdata | .data => s.leftReadData cfg ch bytesTransferred lssRequest
    | .bad             => (s.cancel, none)

-- The `catch` clauses of `left_read_handler`.
def leftReadCatch (s : Session) (bytesTransferred : Nat) (lssRequest : Packet) : Exn → Session
  | .wrongPacketType     => s.sendBad
  | .incompleteData less =>
    if less > 0 then s.start (.leftRead (trim bytesTransferred lssRequest) less.toNat)
    else s.sendBad
  | .socks5 _            => s.sendBad
  | .wrongLssStatus | .encrypt | .decrypt | .other => s.cancel

def leftReadHandler (s : Session) (error : Bool) (bytesTransferred : Nat) (lssRequest : Packet)
    (dataLeftRest : Data) : Session :=
  let (bytesTransferred, lssRequest) := rectify bytesTransferred lssRequest dataLeftRest
  if error then s.cancel
  else
    match s.leftReadTry cfg ch bytesTransferred lssRequest with
    | (s, none)   => s
    | (s, some e) => s.leftReadCatch bytesTransferred lssRequest e

def helloHandler (s : Session) (error : Bool) : Session :=
  if error then s.cancel
  else (s.start (.leftRead (.receiving lengthHandshake) 0)).setStatus .auth

def exchangeHandler (s : Session) (error : Bool) : Session :=
  if error then s.cancel
  else (s.start (.leftRead (.receiving lengthHandshake) 0)).setStatus .data

-- An address of a UDP peer that is not well formed makes `from_string` throw out of the handler.
def leftWriteHandler (s : Session) (error : Bool) : Session :=
  if error then s.cancel
  else if s.status = .data ∧ s.socks5RespReply ≠ 0x00 then s.cancel
  else if s.socks5State = .connected then
    match s.socks5Cmd with
    | .connect           => s.start (.rightRead .tcp)
    | .udp               => if cfg.boost.isAddress s.destName then s.start (.rightRead .udp) else s
    | .bind | .unsupport => s.sendBad
  else
    s.start (.leftRead (.receiving lengthHandshake) 0)

def rightWriteHandler (s : Session) (error : Bool) : Session :=
  if error then s.sendBad
  else
    match s.socks5Cmd with
    | .connect | .udp    => s.start (.leftRead (.receiving maxLength) 0)
    | .bind | .unsupport => s.sendBad

def rightReadHandler (s : Session) (error : Bool) (dataRight : Data) : Session :=
  if error then s.sendBad
  else
    let (s, dataReply) := s.packData cfg dataRight
    s.start (.leftWrite dataReply .leftWriteHandler)

-- The lambda that waits for `timer_right`.
def timerHandler (s : Session) (error : Bool) : Session :=
  if error then s
  else if s.expiresAt > s.now then s
  else s.start (.leftWrite packTimeout .cancel)

-- `endpoints` is `none` upon an error; a list that a resolver returns is not empty.
def tcpResolveHandler (s : Session) (endpoints : Option (Endpoint × List Endpoint)) : Session :=
  let s := s.timerCancel
  match endpoints with
  | some (endpoint, rest) => (s.timerRestart cfg).start (.connect .tcp endpoint rest)
  | none                  => ({ s with socks5RespReply := 0x04 }.socks5RespToLocal cfg).1

def udpResolveHandler (s : Session) (endpoints : Option (Endpoint × List Endpoint)) : Session :=
  match endpoints with
  | some (endpoint, rest) => s.start (.connect .udp endpoint rest)
  | none                  => ({ s with socks5RespReply := 0x04 }.socks5RespToLocal cfg).1

def tcpConnectHandler (s : Session) (error : Bool) (endpoints : List Endpoint) : Session :=
  let s := s.timerCancel
  if !error then ({ s with socks5RespReply := 0x00 }.socks5RespToLocal cfg).1
  else
    match endpoints with
    | endpoint :: rest =>
      ((s.closeRight .tcp).timerRestart cfg).start (.connect .tcp endpoint rest)
    | []               => ({ s with socks5RespReply := 0x03 }.socks5RespToLocal cfg).1

-- Upon success the bound iterator is dereferenced, which may be the end iterator.
def udpConnectHandler (s : Session) (error : Bool) (endpoints : List Endpoint) : Session :=
  if !error then
    match endpoints with
    | endpoint :: _ =>
      ({ s with
        destName := endpoint.address
        socks5RespReply := if ch.udpOpened then 0x00 else 0x01 }.socks5RespToLocal cfg).1
    | []            => s.note .fault
  else
    match endpoints with
    | endpoint :: rest => (s.closeRight .udp).start (.connect .udp endpoint rest)
    | []               => ({ s with socks5RespReply := 0x03 }.socks5RespToLocal cfg).1

end Lproxy.Server.Session
