import Lproxy.Local.Session

namespace Lproxy.Local.Session

variable (cfg : Config) (ch : Choice)

-- `start`; `remoteError` is the error of `socket_left.remote_endpoint`.
def startSession (s : Session) (remoteError : Bool) : Session :=
  if remoteError then s else s.start .resolve

-- `endpoints` is `none` upon an error; a list that a resolver returns is not empty.
def resolveHandler (s : Session) (endpoints : Option (Endpoint × List Endpoint)) : Session :=
  match endpoints with
  | some (endpoint, rest) => s.start (.connectAny endpoint rest)
  | none                  => s.cancel

def connectHandler (s : Session) (error : Bool) (endpoints : List Endpoint) : Session :=
  if !error then (s.setStatus .connected).start (.rightWrite packHello .helloHandler)
  else
    match endpoints with
    | endpoint :: rest => s.closeRight.start (.connect endpoint rest)
    | []               => s.cancel

def helloHandler (s : Session) (error : Bool) : Session :=
  if !error then (s.start (.rightRead (.receiving lengthHandshake) 0)).setStatus .hello
  else s.cancel

def exchangeHandler (s : Session) (error : Bool) : Session :=
  if !error then (s.start (.rightRead (.receiving lengthHandshake) 0)).setStatus .auth
  else s.cancel

-- `case reply::hello` of `right_read_handler`.
def rightReadHello (s : Session) (lssReply : Packet) : Session × Option Exn :=
  if s.status ≠ .hello then (s, some .wrongLssStatus)
  else
    match s.unpackReplyHello lssReply with
    | (s, .error e)                 => (s, some e)
    | (s, .ok (keysize, publicKey)) =>
      match s.packExchange cfg ch keysize publicKey with
      | (s, .error e)             => (s, some e)
      | (s, .ok exchangeRequest) => (s.start (.rightWrite exchangeRequest .exchangeHandler), none)

-- `case reply::exchange` of `right_read_handler`.
def rightReadExchange (s : Session) (lssReply : Packet) : Session × Option Exn :=
  if s.status ≠ .auth then (s, some .wrongLssStatus)
  else
    match s.unpackReplyExchange cfg lssReply with
    | (s, .error e)           => (s, some e)
    | (s, .ok replyRandomStr) =>
      if replyRandomStr ≠ s.randomStr then (s.cancel, none)
      else ((s.start (.leftRead .leftReadSocks5Step1)).setStatus .data, none)

-- `case reply::zipdata` and `case reply::data` of `right_read_handler`. Nothing is unzipped yet.
def rightReadData (s : Session) (bytesTransferred : Nat) (lssReply : Packet) :
    Session × Option Exn :=
  if s.status ≠ .data then (s, some .wrongLssStatus)
  else
    match s.unpackReplyData cfg bytesTransferred lssReply with
    | (s, none)                             => (s, none)
    | (s, some (dataRight, restLssDataLen)) =>
      if restLssDataLen < 0 then (s, some (.incompleteData (0 - restLssDataLen)))
      else
        (s.start (.leftWrite dataRight
          (.relay (writeNext bytesTransferred restLssDataLen lssReply))), none)

-- The `try` block of `right_read_handler`.
def rightReadTry (s : Session) (bytesTransferred : Nat) (lssReply : Packet) :
    Session × Option Exn :=
  match lssPackIntegrityCheck bytesTransferred lssReply with
  | .error less => (s, some (.incompleteData less))
  | .ok ()      =>
    match ReplyType.ofByte lssReply.type with
    | .hello                   => s.rightReadHello cfg ch lssReply
    | .exchange                => s.rightReadExchange cfg lssReply
    | .zipdata | .data         => s.rightReadData cfg bytesTransferred lssReply
    | .deny | .timeout | .bad  => (s.cancel, none)

-- The `catch` clauses of `right_read_handler`.
def rightReadCatch (s : Session) (bytesTransferred : Nat) (lssReply : Packet) : Exn → Session
  | .incompleteData less =>
    if less > 0 then s.start (.rightRead (trim bytesTransferred lssReply) less.toNat)
    else s.cancel
  | _                    => s.cancel

def rightReadHandler (s : Session) (error : Bool) (bytesTransferred : Nat) (lssReply : Packet)
    (dataRightRest : Data) : Session :=
  let (bytesTransferred, lssReply) := rectify bytesTransferred lssReply dataRightRest
  if error then s.cancel
  else
    match s.rightReadTry cfg ch bytesTransferred lssReply with
    | (s, none)   => s
    | (s, some e) => s.rightReadCatch bytesTransferred lssReply e

@[simps!]
def sendBad (s : Session) : Session :=
  s.start (.rightWrite packBad .cancel)

-- The greeting is parsed from the whole buffer: its size, and not the number of bytes that have
-- been read, is what `ident_req` is given.
def leftReadSocks5Step1 (s : Session) (error : Bool) (d : Data) : Session :=
  if error then s.sendBad
  else
    let dataLeft := overwrite (zeros maxLength) d
    match Socks5.IdentReq.parse (Socks5.memory dataLeft fun _ => 0) dataLeft.length with
    | .ok ir   => s.start (.leftWrite (Socks5.identResp ir) .leftWriteSocks5Step1Handler)
    | .error _ => s.sendBad

def leftWriteSocks5Step1Handler (s : Session) (error : Bool) : Session :=
  if error then s.sendBad
  else (s.start (.leftRead .leftReadHandler)).start (.rightRead (.receiving lengthHandshake) 0)

def leftReadHandler (s : Session) (error : Bool) (dataLeft : Data) : Session :=
  if error then s.sendBad
  else
    match s.packData cfg dataLeft with
    | (s, some dataRequest) => s.start (.rightWrite dataRequest .rightWriteHandler)
    | (s, none)             => s

def rightWriteHandler (s : Session) (error : Bool) : Session :=
  if error then s.cancel else s.start (.leftRead .leftReadHandler)

def leftWriteHandler (s : Session) (error : Bool) : Session :=
  if error then s.cancel else s.start (.rightRead (.receiving maxLength) 0)

end Lproxy.Local.Session
