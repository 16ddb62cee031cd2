import Lproxy.Server.LeftRead

-- What the delivery of a completion does.
namespace Lproxy.Server

namespace Op

-- The operations upon whose failure the session only cancels.
def cancelsOnError : Op → Bool
  | leftRead .. | rightWrite _ _ (.readHandler ..) => true
  | leftWrite _ next                               => next ≠ .cancel
  | _                                              => false

-- The operations upon whose failure the session sends a bad packet.
def sendsBadOnError : Op → Bool
  | rightRead _ | rightWrite _ _ .writeHandler => true
  | _                                          => false

-- The operations that are outstanding only after the exchange.
def afterAuth : Op → Bool
  | leftWrite _ .leftWriteHandler | rightRead _ | rightWrite .. | resolve .. | connect .. |
    timerWait => true
  | _         => false

end Op

namespace Session

variable {cfg : Config} {ch : Choice} {s t : Session}

-- The calls of `left_read_handler` without an error, with its arguments after the correction with
-- which it starts.
inductive LeftEntry : Op → Outcome → Nat → Packet → Prop
  | read {lss : Packet} {rest : Nat} {d : Data} :
    LeftEntry (.leftRead lss rest) (.bytes d) (entry lss rest d).1 (entry lss rest d).2
  | written {p : Proto} {d : Data} {bt : Nat} {lss : Packet} :
    LeftEntry (.rightWrite p d (.readHandler bt lss)) .done bt lss

-- The session in which the resolver's handler, or that of a connect attempt, goes on. Only the
-- handlers for TCP cancel the timer.
def timerCancelled (s : Session) : Proto → Session
  | .tcp => s.timerCancel
  | .udp => s

@[simp]
theorem timerCancelled_status (p : Proto) : (s.timerCancelled p).status = s.status := by
  cases p <;> rfl

-- The session after the start of a connect attempt for a protocol.
def connecting (cfg : Config) (s : Session) (e : Endpoint) (rest : List Endpoint) : Proto → Session
  | .tcp => (s.timerRestart cfg).start (.connect .tcp e rest)
  | .udp => s.start (.connect .udp e rest)

-- The session in which a connect attempt has succeeded, before it replies.
def connectedTo (ch : Choice) (s : Session) (rest : List Endpoint) : Proto → Session
  | .tcp => { s with socks5RespReply := 0x00 }
  | .udp => { s with
    destName := (rest.head?.map Endpoint.address).getD s.destName
    socks5RespReply := if ch.udpOpened then 0x00 else 0x01 }

-- What the delivery of a completion does to a session from which the operation has been removed.
inductive Delivered (cfg : Config) (ch : Choice) (s : Session) : Op → Outcome → Session → Prop
  | left {op : Op} {o : Outcome} {bt : Nat} {lss : Packet} {t : Session} (e : LeftEntry op o bt lss)
    (h : LeftReadDone cfg ch s bt lss t) : Delivered cfg ch s op o t
  | cancelled {op : Op} {code : ErrorCode} (h : op.cancelsOnError) :
    Delivered cfg ch s op (.error code) s.cancel
  | farewell {lss : Packet} {o : Outcome} : Delivered cfg ch s (.leftWrite lss .cancel) o s.cancel
  | hello {lss : Packet} :
    Delivered cfg ch s (.leftWrite lss .helloHandler) .done
      ((s.start (.leftRead (.receiving lengthHandshake) 0)).setStatus .auth)
  | exchange {lss : Packet} :
    Delivered cfg ch s (.leftWrite lss .exchangeHandler) .done
      ((s.start (.leftRead (.receiving lengthHandshake) 0)).setStatus .data)
  | refused {lss : Packet} (h : s.status = .data) (hr : s.socks5RespReply ≠ 0x00) :
    Delivered cfg ch s (.leftWrite lss .leftWriteHandler) .done s.cancel
  | replied {lss : Packet} {p : Proto} (h : ¬(s.status = .data ∧ s.socks5RespReply ≠ 0x00))
    (hs : s.socks5State = .connected) :
    Delivered cfg ch s (.leftWrite lss .leftWriteHandler) .done (s.start (.rightRead p))
  | address {lss : Packet} (hs : s.socks5State = .connected) :
    Delivered cfg ch s (.leftWrite lss .leftWriteHandler) .done s
  | again {lss : Packet} (h : ¬(s.status = .data ∧ s.socks5RespReply ≠ 0x00))
    (hs : s.socks5State ≠ .connected) :
    Delivered cfg ch s (.leftWrite lss .leftWriteHandler) .done
      (s.start (.leftRead (.receiving lengthHandshake) 0))
  | written {p : Proto} {d : Data} (hc : s.socks5Cmd = .connect ∨ s.socks5Cmd = .udp) :
    Delivered cfg ch s (.rightWrite p d .writeHandler) .done
      (s.start (.leftRead (.receiving maxLength) 0))
  | unsupported {op : Op} {o : Outcome} (hc : s.socks5Cmd = .bind ∨ s.socks5Cmd = .unsupport)
    (ho : (∃ lss, op = .leftWrite lss .leftWriteHandler ∧ s.socks5State = .connected) ∨
      ∃ p d, op = .rightWrite p d .writeHandler) : Delivered cfg ch s op o s.sendBad
  | broken {op : Op} {code : ErrorCode} (h : op.sendsBadOnError) :
    Delivered cfg ch s op (.error code) s.sendBad
  | relayed {p : Proto} {d : Data} {lss : Packet} (hp : Packs cfg s d lss) :
    Delivered cfg ch s (.rightRead p) (.bytes d)
      ((s.note (.packed d)).start (.leftWrite lss .leftWriteHandler))
  | timerIdle {o : Outcome} (h : o = .done → s.now < s.expiresAt) :
    Delivered cfg ch s .timerWait o s
  | timeout (h : s.expiresAt ≤ s.now) :
    Delivered cfg ch s .timerWait .done (s.start (.leftWrite packTimeout .cancel))
  | resolved {p : Proto} {name : Data} {port : UInt16} {e : Endpoint} {rest : List Endpoint} :
    Delivered cfg ch s (.resolve p name port) (.endpoints e rest)
      ((s.timerCancelled p).connecting cfg e rest p)
  | unresolved {p : Proto} {name : Data} {port : UInt16} {code : ErrorCode}
    {u : Session × Option Exn}
    (h : RespToLocal cfg { s.timerCancelled p with socks5RespReply := 0x04 } u) :
    Delivered cfg ch s (.resolve p name port) (.error code) u.1
  | connected {p : Proto} {e : Endpoint} {rest : List Endpoint} {u : Session × Option Exn}
    (h : RespToLocal cfg ((s.timerCancelled p).connectedTo ch rest p) u) :
    Delivered cfg ch s (.connect p e rest) .done u.1
  | endOfList {e : Endpoint} : Delivered cfg ch s (.connect .udp e []) .done (s.note .fault)
  | retried {p : Proto} {e e' : Endpoint} {rest : List Endpoint} {code : ErrorCode} :
    Delivered cfg ch s (.connect p e (e' :: rest)) (.error code)
      (((s.timerCancelled p).closeRight p).connecting cfg e' rest p)
  | unreachable {p : Proto} {e : Endpoint} {code : ErrorCode} {u : Session × Option Exn}
    (h : RespToLocal cfg { s.timerCancelled p with socks5RespReply := 0x03 } u) :
    Delivered cfg ch s (.connect p e []) (.error code) u.1

theorem leftWriteHandler_delivered {lss : Packet} :
    Delivered cfg ch s (.leftWrite lss .leftWriteHandler) .done (s.leftWriteHandler cfg false) := by
  unfold leftWriteHandler
  simp only [Bool.false_eq_true, if_false]
  split <;> [skip; split]
  case isTrue h         => exact .refused h.1 h.2
  case isFalse.isFalse h hs => exact .again h hs
  case isFalse.isTrue h hs =>
    cases hc : s.socks5Cmd
    case connect   => exact .replied h hs
    case bind      => exact .unsupported (.inl hc) (.inl ⟨lss, rfl, hs⟩)
    case unsupport => exact .unsupported (.inr hc) (.inl ⟨lss, rfl, hs⟩)
    case udp       =>
      by_cases ha : cfg.boost.isAddress s.destName
      case pos => simpa only [ha] using .replied h hs
      case neg => simpa only [ha] using .address hs

theorem rightWriteHandler_delivered {p : Proto} {d : Data} :
    Delivered cfg ch s (.rightWrite p d .writeHandler) .done (s.rightWriteHandler false) := by
  unfold rightWriteHandler
  cases hc : s.socks5Cmd
  case connect   => exact .written (.inl hc)
  case udp       => exact .written (.inr hc)
  case bind      => exact .unsupported (.inl hc) (.inr ⟨p, d, rfl⟩)
  case unsupport => exact .unsupported (.inr hc) (.inr ⟨p, d, rfl⟩)

theorem rightReadHandler_delivered (ha : s.aesEncryptor.isSome) {p : Proto} {d : Data} :
    Delivered cfg ch s (.rightRead p) (.bytes d) (s.rightReadHandler cfg false d) := by
  have ⟨lss, hp, he⟩ := packData_cases cfg ha d
  simpa [rightReadHandler, he] using .relayed hp

theorem timerHandler_delivered :
    Delivered cfg ch s .timerWait .done (s.timerHandler false) := by
  unfold timerHandler
  simp only [Bool.false_eq_true, if_false]
  split_ifs with h
  case pos => exact .timerIdle fun _ => h
  case neg => exact .timeout (by omega)

theorem udpConnectHandler_delivered (ha : s.aesEncryptor.isSome) {e : Endpoint}
    {rest : List Endpoint} :
    Delivered cfg ch s (.connect .udp e rest) .done (s.udpConnectHandler cfg ch false rest) := by
  cases rest
  case nil  => exact .endOfList
  case cons =>
    exact .connected (p := .udp) (socks5RespToLocal_cases (s := s.connectedTo ch _ .udp) ha)

theorem deliver_delivered {op : Op} {o : Outcome} (c : Completes op o)
    (he : ∀ {bt lss}, LeftEntry op o bt lss → Holds bt lss)
    (ha : s.status = .data → s.aesEncryptor.isSome) (hd : op.afterAuth → s.status = .data) :
    Delivered cfg ch s op o (s.deliver cfg ch op o) := by
  have resp {u : Session} (hu : u.aesEncryptor = s.aesEncryptor) (h : op.afterAuth) :
      RespToLocal cfg u (u.socks5RespToLocal cfg) :=
    socks5RespToLocal_cases (hu ▸ ha (hd h))
  cases c
  case leftRead => exact .left .read (leftReadHandler_done ha _ (he .read))
  case rightRead => exact rightReadHandler_delivered (ha (hd rfl))
  case timerWait => exact timerHandler_delivered
  case leftWrite next =>
    cases next
    case helloHandler     => exact .hello
    case exchangeHandler  => exact .exchange
    case leftWriteHandler => exact leftWriteHandler_delivered
    case cancel           => exact .farewell
  case rightWrite next =>
    cases next
    case writeHandler => exact rightWriteHandler_delivered
    case readHandler bt lss =>
      exact .left .written (leftReadHandler_done ha [] (he .written))
  case resolve p _ _ _ _ =>
    cases p
    · exact .resolved (p := .tcp)
    · exact .resolved (p := .udp)
  case connect p _ _ =>
    cases p
    case tcp => exact .connected (p := .tcp) (resp rfl rfl)
    case udp => exact udpConnectHandler_delivered (ha (hd rfl))
  case error =>
    cases op
    case leftRead  => exact .cancelled rfl
    case rightRead => exact .broken rfl
    case timerWait => exact .timerIdle (by simp)
    case leftWrite next =>
      cases next
      case cancel => exact .farewell
      all_goals exact .cancelled rfl
    case rightWrite next =>
      cases next
      case writeHandler => exact .broken rfl
      case readHandler  => exact .cancelled rfl
    case resolve p _ _ =>
      cases p
      · exact .unresolved (p := .tcp) (resp rfl rfl)
      · exact .unresolved (p := .udp) (resp rfl rfl)
    case connect p _ rest =>
      cases p <;> cases rest
      · exact .unreachable (p := .tcp) (resp rfl rfl)
      · exact .retried (p := .tcp)
      · exact .unreachable (p := .udp) (resp rfl rfl)
      · exact .retried (p := .udp)

end Session
end Lproxy.Server
