import Lproxy.Local.RightRead

-- What the delivery of a completion does.
namespace Lproxy.Local

namespace Op

-- The operations upon whose failure the session only cancels.
def cancelsOnError : Op → Bool
  | leftRead _ | leftWrite _ .leftWriteSocks5Step1Handler => false
  | connectAny .. | connect ..                           => false
  | _                                                    => true

-- The operations upon whose failure the session sends a bad packet.
def sendsBadOnError : Op → Bool
  | leftRead _ | leftWrite _ .leftWriteSocks5Step1Handler => true
  | _                                                    => false

end Op

namespace Session

variable {cfg : Config} {ch : Choice} {s t : Session}

-- The calls of `right_read_handler` without an error, with its arguments after the correction with
-- which it starts.
inductive RightEntry : Op → Outcome → Nat → Packet → Prop
  | read {lss : Packet} {rest : Nat} {d : Data} :
    RightEntry (.rightRead lss rest) (.bytes d) (entry lss rest d).1 (entry lss rest d).2
  | written {d : Data} {bt : Nat} {lss : Packet} :
    RightEntry (.leftWrite d (.relay (.readHandler bt lss))) .done bt lss

-- The endpoints that are left when an attempt to connect has failed.
inductive Failed : Op → Outcome → List Endpoint → Prop
  | connectAny {e : Endpoint} {rest rest' : List Endpoint} {code : ErrorCode} :
    Failed (.connectAny e rest) (.unconnected code rest') rest'
  | aborted {e : Endpoint} {rest : List Endpoint} {code : ErrorCode} :
    Failed (.connectAny e rest) (.error code) []
  | connect {e : Endpoint} {rest : List Endpoint} {code : ErrorCode} :
    Failed (.connect e rest) (.error code) rest

-- What the delivery of a completion does to a session from which the operation has been removed.
inductive Delivered (cfg : Config) (ch : Choice) (s : Session) : Op → Outcome → Session → Prop
  | right {op : Op} {o : Outcome} {bt : Nat} {lss : Packet} {t : Session}
    (e : RightEntry op o bt lss) (h : RightReadDone cfg ch s bt lss t) : Delivered cfg ch s op o t
  | cancelled {op : Op} {code : ErrorCode} (h : op.cancelsOnError) :
    Delivered cfg ch s op (.error code) s.cancel
  | broken {op : Op} {code : ErrorCode} (h : op.sendsBadOnError) :
    Delivered cfg ch s op (.error code) s.sendBad
  | farewell {lss : Packet} {o : Outcome} : Delivered cfg ch s (.rightWrite lss .cancel) o s.cancel
  | resolved {e : Endpoint} {rest : List Endpoint} :
    Delivered cfg ch s .resolve (.endpoints e rest) (s.start (.connectAny e rest))
  | connected {op : Op} (h : (∃ e rest, op = .connectAny e rest) ∨ ∃ e rest, op = .connect e rest) :
    Delivered cfg ch s op .done
      ((s.setStatus .connected).start (.rightWrite packHello .helloHandler))
  | retried {op : Op} {o : Outcome} {e : Endpoint} {rest : List Endpoint}
    (h : Failed op o (e :: rest)) : Delivered cfg ch s op o (s.closeRight.start (.connect e rest))
  | unreachable {op : Op} {o : Outcome} (h : Failed op o []) : Delivered cfg ch s op o s.cancel
  | hello {lss : Packet} :
    Delivered cfg ch s (.rightWrite lss .helloHandler) .done
      ((s.start (.rightRead (.receiving lengthHandshake) 0)).setStatus .hello)
  | exchange {lss : Packet} :
    Delivered cfg ch s (.rightWrite lss .exchangeHandler) .done
      ((s.start (.rightRead (.receiving lengthHandshake) 0)).setStatus .auth)
  | greeted {d : Data} {ir : Socks5.IdentReq}
    (h : Socks5.IdentReq.parse (Socks5.memory (overwrite (zeros maxLength) d) fun _ => 0)
      (overwrite (zeros maxLength) d).length = .ok ir) :
    Delivered cfg ch s (.leftRead .leftReadSocks5Step1) (.bytes d)
      (s.start (.leftWrite (Socks5.identResp ir) .leftWriteSocks5Step1Handler))
  | badGreeting {d : Data} :
    Delivered cfg ch s (.leftRead .leftReadSocks5Step1) (.bytes d) s.sendBad
  | opened {d : Data} :
    Delivered cfg ch s (.leftWrite d .leftWriteSocks5Step1Handler) .done
      ((s.start (.leftRead .leftReadHandler)).start (.rightRead (.receiving lengthHandshake) 0))
  | packed {d : Data} {aes : Crypto.Aes} (h : s.getAes cfg = some aes) :
    Delivered cfg ch s (.leftRead .leftReadHandler) (.bytes d)
      (({ s with aesEncryptor := some aes }.note (.packed d)).start
        (.rightWrite (pack (if cfg.zipOn then .zipdata else .data) d.length
          (aes.encrypt cfg.cpp d)) .rightWriteHandler))
  | assertion {d : Data} (h : s.getAes cfg = none) :
    Delivered cfg ch s (.leftRead .leftReadHandler) (.bytes d) (s.note .fault)
  | written {lss : Packet} :
    Delivered cfg ch s (.rightWrite lss .rightWriteHandler) .done
      (s.start (.leftRead .leftReadHandler))
  | relayed {d : Data} :
    Delivered cfg ch s (.leftWrite d (.relay .writeHandler)) .done
      (s.start (.rightRead (.receiving maxLength) 0))

theorem connectHandler_delivered {op : Op} {o : Outcome} {rest : List Endpoint}
    (h : Failed op o rest) : Delivered cfg ch s op o (s.connectHandler true rest) := by
  cases rest
  case nil  => exact .unreachable h
  case cons => exact .retried h

theorem step1_delivered {d : Data} :
    Delivered cfg ch s (.leftRead .leftReadSocks5Step1) (.bytes d)
      (s.leftReadSocks5Step1 false d) := by
  unfold leftReadSocks5Step1
  simp only [Bool.false_eq_true, if_false]
  split
  case h_1 h => exact .greeted h
  case h_2   => exact .badGreeting

theorem leftReadHandler_delivered {d : Data} :
    Delivered cfg ch s (.leftRead .leftReadHandler) (.bytes d) (s.leftReadHandler cfg false d) := by
  unfold leftReadHandler packData
  cases ha : s.getAes cfg
  case none => exact .assertion ha
  case some => exact .packed ha

theorem deliver_delivered {op : Op} {o : Outcome} (c : Completes op o)
    (he : ∀ {bt lss}, RightEntry op o bt lss → Holds bt lss) :
    Delivered cfg ch s op o (s.deliver cfg ch op o) := by
  cases c
  case resolve     => exact .resolved
  case connectAny  => exact .connected (.inl ⟨_, _, rfl⟩)
  case connect     => exact .connected (.inr ⟨_, _, rfl⟩)
  case unconnected => exact connectHandler_delivered .connectAny
  case rightRead   => exact .right .read (rightReadHandler_done _ (he .read))
  case rightWrite next =>
    cases next
    case helloHandler      => exact .hello
    case exchangeHandler   => exact .exchange
    case rightWriteHandler => exact .written
    case cancel            => exact .farewell
  case leftRead next _ _ _ =>
    cases next
    case leftReadSocks5Step1 => exact step1_delivered
    case leftReadHandler     => exact leftReadHandler_delivered
  case leftWrite next =>
    rcases next with _ | (_ | _)
    case leftWriteSocks5Step1Handler => exact .opened
    case relay.readHandler bt lss =>
      exact .right .written (rightReadHandler_done [] (he .written))
    case relay.writeHandler          => exact .relayed
  case error =>
    cases op
    case resolve    => exact .cancelled rfl
    case connectAny => exact connectHandler_delivered .aborted
    case connect    => exact connectHandler_delivered .connect
    case rightRead  => exact .cancelled rfl
    case rightWrite next =>
      cases next
      case cancel => exact .farewell
      all_goals exact .cancelled rfl
    case leftRead next => cases next <;> exact .broken rfl
    case leftWrite next =>
      rcases next with _ | (_ | _)
      case leftWriteSocks5Step1Handler => exact .broken rfl
      all_goals exact .cancelled rfl

end Session
end Lproxy.Local
