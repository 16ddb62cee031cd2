import Lproxy.Local.Handlers
import Lproxy.Lib.Asynchronous
import Lproxy.Lib.Transition

namespace Lproxy.Local

-- What an operation can complete with. Any operation can fail.
inductive Completes : Op → Outcome → Prop
  | error {op : Op} {code : ErrorCode} : Completes op (.error code)
  | resolve {first : Endpoint} {rest : List Endpoint} : Completes .resolve (.endpoints first rest)
  | connectAny {e : Endpoint} {rest : List Endpoint} : Completes (.connectAny e rest) .done
  | unconnected {e : Endpoint} {rest rest' : List Endpoint} {code : ErrorCode}
    (h : rest' <:+ rest) : Completes (.connectAny e rest) (.unconnected code rest')
  | connect {e : Endpoint} {rest : List Endpoint} : Completes (.connect e rest) .done
  | rightRead {lss : Packet} {rest : Nat} {d : Data} (ne : d ≠ [])
    (le : d.length ≤ offered lss rest) : Completes (.rightRead lss rest) (.bytes d)
  | rightWrite {lss : Packet} {next : RightWriteNext} : Completes (.rightWrite lss next) .done
  | leftRead {next : LeftReadNext} {d : Data} (ne : d ≠ []) (le : d.length ≤ maxLength) :
    Completes (.leftRead next) (.bytes d)
  | leftWrite {d : Data} {next : LeftWriteNext} : Completes (.leftWrite d next) .done

-- Runs the handler of a completed operation.
def Session.deliver (cfg : Config) (ch : Choice) (s : Session) : Op → Outcome → Session
  | .resolve, .endpoints e rest => s.resolveHandler (some (e, rest))
  | .resolve, _ => s.resolveHandler none
  | .connectAny .., .unconnected _ rest => s.connectHandler true rest
  | .connectAny .., o => s.connectHandler o.failed []
  | .connect _ rest, o => s.connectHandler o.failed rest
  | .rightRead lss rest, .bytes d =>
    let (lss, dataRightRest) := readCompleted lss rest d
    s.rightReadHandler cfg ch false d.length lss dataRightRest
  | .rightRead lss rest, _ => s.rightReadHandler cfg ch true 0 lss (zeros rest)
  | .rightWrite _ .helloHandler, o => s.helloHandler o.failed
  | .rightWrite _ .exchangeHandler, o => s.exchangeHandler o.failed
  | .rightWrite _ .rightWriteHandler, o => s.rightWriteHandler o.failed
  | .rightWrite _ .cancel, _ => s.cancel
  | .leftRead .leftReadSocks5Step1, .bytes d => s.leftReadSocks5Step1 false d
  | .leftRead .leftReadSocks5Step1, _ => s.leftReadSocks5Step1 true []
  | .leftRead .leftReadHandler, .bytes d => s.leftReadHandler cfg false d
  | .leftRead .leftReadHandler, _ => s.leftReadHandler cfg true []
  | .leftWrite _ .leftWriteSocks5Step1Handler, o => s.leftWriteSocks5Step1Handler o.failed
  | .leftWrite _ (.relay .writeHandler), o => s.leftWriteHandler o.failed
  | .leftWrite _ (.relay (.readHandler bytesTransferred lss)), o =>
    s.rightReadHandler cfg ch o.failed bytesTransferred lss []

-- The calls of `right_read_handler`: its arguments, when it is the handler of a completed
-- operation.
def rightReadCall : Op → Outcome → Option (Bool × Nat × Packet × Data)
  | .rightRead lss rest, .bytes d                             =>
    some (false, d.length, readCompleted lss rest d)
  | .rightRead lss rest, _                                    => some (true, 0, lss, zeros rest)
  | .leftWrite _ (.relay (.readHandler bytesTransferred lss)), o =>
    some (o.failed, bytesTransferred, lss, [])
  | _, _                                                      => none

inductive Label
  | start (remoteError : Bool)
  | complete (op : Op) (outcome : Outcome)
  | deliver (op : Op) (outcome : Outcome) (ch : Choice)

-- One thing that happens to a session.
inductive Step (cfg : Config) (s : Session) : Label → Session → Prop
  | start {remoteError : Bool} (h : s = .initial) :
    Step cfg s (.start remoteError) (s.startSession remoteError)
  | complete {l r : List (Outstanding Op Outcome)} {op : Op} {o : Outcome}
    (h : s.io = l ++ ⟨op, none⟩ :: r) (c : Completes op o) :
    Step cfg s (.complete op o) { s with io := l ++ ⟨op, some o⟩ :: r }
  | deliver {l r : List (Outstanding Op Outcome)} {op : Op} {o : Outcome} {ch : Choice}
    (h : s.io = l ++ ⟨op, some o⟩ :: r) :
    Step cfg s (.deliver op o ch) ({ s with io := l ++ r }.deliver cfg ch op o)

abbrev Reachable (cfg : Config) : Session → Prop :=
  Transition.Reachable (· = Session.initial) (Step cfg)

abbrev Session.asynchronous (cfg : Config) : Asynchronous Session Label Op Outcome Choice where
  io := Session.io
  withIo s io := { s with io := io }
  completes := Completes
  handle ch s op o := s.deliver cfg ch op o
  complete := .complete
  deliver := .deliver

-- All that happens to a session that has been started.
theorem Step.works {cfg : Config} {s t : Session} {lb : Label} (e : Step cfg s lb t)
    (h : s ≠ .initial) : (Session.asynchronous cfg).Works s lb t := by
  cases e
  case start hi      => exact absurd hi h
  case complete hi c => exact .complete hi c
  case deliver hi    => exact .deliver hi

end Lproxy.Local
