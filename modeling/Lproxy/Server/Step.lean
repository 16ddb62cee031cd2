import Lproxy.Server.Handlers
import Lproxy.Lib.Asynchronous
import Lproxy.Lib.Transition

namespace Lproxy.Server

-- What an operation can complete with. Any operation can fail.
inductive Completes : Op → Outcome → Prop
  | error {op : Op} {code : ErrorCode} : Completes op (.error code)
  | leftRead {lss : Packet} {rest : Nat} {d : Data} (ne : d ≠ [])
    (le : d.length ≤ offered lss rest) : Completes (.leftRead lss rest) (.bytes d)
  | leftWrite {lss : Packet} {next : LeftWriteNext} : Completes (.leftWrite lss next) .done
  | rightRead {p : Proto} {d : Data} (ne : p = .tcp → d ≠ []) (le : d.length ≤ maxLength) :
    Completes (.rightRead p) (.bytes d)
  | rightWrite {p : Proto} {d : Data} {next : WriteNext} : Completes (.rightWrite p d next) .done
  | resolve {p : Proto} {name : Data} {port : UInt16} {first : Endpoint} {rest : List Endpoint} :
    Completes (.resolve p name port) (.endpoints first rest)
  | connect {p : Proto} {e : Endpoint} {rest : List Endpoint} : Completes (.connect p e rest) .done
  | timerWait : Completes .timerWait .done

-- Runs the handler of a completed operation.
def Session.deliver (cfg : Config) (ch : Choice) (s : Session) : Op → Outcome → Session
  | .leftRead lss rest, .bytes d =>
    let (lss, dataLeftRest) := readCompleted lss rest d
    s.leftReadHandler cfg ch false d.length lss dataLeftRest
  | .leftRead lss rest, _ => s.leftReadHandler cfg ch true 0 lss (zeros rest)
  | .leftWrite _ .helloHandler, o => s.helloHandler o.failed
  | .leftWrite _ .exchangeHandler, o => s.exchangeHandler o.failed
  | .leftWrite _ .leftWriteHandler, o => s.leftWriteHandler cfg o.failed
  | .leftWrite _ .cancel, _ => s.cancel
  | .rightRead _, .bytes d => s.rightReadHandler cfg false d
  | .rightRead _, _ => s.rightReadHandler cfg true []
  | .rightWrite _ _ .writeHandler, o => s.rightWriteHandler o.failed
  | .rightWrite _ _ (.readHandler bytesTransferred lss), o =>
    s.leftReadHandler cfg ch o.failed bytesTransferred lss []
  | .resolve .tcp _ _, .endpoints e rest => s.tcpResolveHandler cfg (some (e, rest))
  | .resolve .tcp _ _, _ => s.tcpResolveHandler cfg none
  | .resolve .udp _ _, .endpoints e rest => s.udpResolveHandler cfg (some (e, rest))
  | .resolve .udp _ _, _ => s.udpResolveHandler cfg none
  | .connect .tcp _ rest, o => s.tcpConnectHandler cfg o.failed rest
  | .connect .udp _ rest, o => s.udpConnectHandler cfg ch o.failed rest
  | .timerWait, o => s.timerHandler o.failed

-- The calls of `left_read_handler`: its arguments, when it is the handler of a completed operation.
def leftReadCall : Op → Outcome → Option (Bool × Nat × Packet × Data)
  | .leftRead lss rest, .bytes d                       =>
    some (false, d.length, readCompleted lss rest d)
  | .leftRead lss rest, _                              => some (true, 0, lss, zeros rest)
  | .rightWrite _ _ (.readHandler bytesTransferred lss), o =>
    some (o.failed, bytesTransferred, lss, [])
  | _, _                                               => none

inductive Label
  | start (remoteError : Bool)
  | complete (op : Op) (outcome : Outcome)
  | deliver (op : Op) (outcome : Outcome) (ch : Choice)
  | tick (duration : Nat)

-- One thing that happens to a session. Handlers are atomic, and an operation completes before its
-- handler runs, any number of steps later. A wait on the timer does not end well before the timer
-- expires.
inductive Step (cfg : Config) (s : Session) : Label → Session → Prop
  | start {remoteError : Bool} (h : s.status = .notConnected) :
    Step cfg s (.start remoteError) (s.startSession remoteError)
  | complete {l r : List (Outstanding Op Outcome)} {op : Op} {o : Outcome}
    (h : s.io = l ++ ⟨op, none⟩ :: r) (c : Completes op o)
    (expired : op = .timerWait → o = .done → s.expiresAt ≤ s.now) :
    Step cfg s (.complete op o) { s with io := l ++ ⟨op, some o⟩ :: r }
  | deliver {l r : List (Outstanding Op Outcome)} {op : Op} {o : Outcome} {ch : Choice}
    (h : s.io = l ++ ⟨op, some o⟩ :: r) :
    Step cfg s (.deliver op o ch) ({ s with io := l ++ r }.deliver cfg ch op o)
  | tick {d : Nat} : Step cfg s (.tick d) { s with now := s.now + d }

abbrev Reachable (cfg : Config) : Session → Prop :=
  Transition.Reachable Session.Initial (Step cfg)

abbrev Session.asynchronous (cfg : Config) : Asynchronous Session Label Op Outcome Choice where
  io := Session.io
  withIo s io := { s with io := io }
  completes := Completes
  handle ch s op o := s.deliver cfg ch op o
  complete := .complete
  deliver := .deliver

-- All that happens to a session that has been started, besides that time passes.
theorem Step.works {cfg : Config} {s t : Session} {lb : Label} (e : Step cfg s lb t)
    (h : s.status ≠ .notConnected) : (∃ d, lb = .tick d ∧ t = { s with now := s.now + d }) ∨
      (Session.asynchronous cfg).Works s lb t := by
  cases e
  case start hi        => exact absurd hi h
  case tick d          => exact .inl ⟨d, rfl, rfl⟩
  case complete hi c _ => exact .inr (.complete hi c)
  case deliver hi      => exact .inr (.deliver hi)

end Lproxy.Server
