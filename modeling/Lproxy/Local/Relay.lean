import Lproxy.Local.Reading
import Lproxy.Local.Schedule
import Lproxy.Relay

-- How a session relays what the server sends. It refines the chain that reads frames and writes
-- their payloads, while the other direction goes its own way.
namespace Lproxy.Local

-- The operation that is outstanding in a stage of the chain.
def stageOp : Stage → Outstanding Op Outcome
  | .reading lss rest arrived => ⟨.rightRead lss rest, arrived.map .bytes⟩
  | .writing plain next done  =>
    ⟨.leftWrite plain (.relay next), if done then some .done else none⟩

-- What the other direction has outstanding.
inductive Serves : Outstanding Op Outcome → Prop
  | reading : Serves ⟨.leftRead .leftReadHandler, none⟩
  | read {d : Data} : Serves ⟨.leftRead .leftReadHandler, some (.bytes d)⟩
  | writing {lss : Packet} : Serves ⟨.rightWrite lss .rightWriteHandler, none⟩
  | written {lss : Packet} : Serves ⟨.rightWrite lss .rightWriteHandler, some .done⟩

namespace Event

-- The bytes of the remote that are sent to the client.
def toClient : Event → Data
  | started (.leftWrite plain (.relay _)) => plain
  | _                                     => []

-- Whether the session is about to end.
def ends : Event → Bool
  | cancelled | fault | started (.rightWrite _ .cancel) => true
  | _                                                   => false

end Event

namespace Session

-- The operations that are outstanding, apart from the one of the chain.
def Others (x : Outstanding Op Outcome) (s : Session) : Prop :=
  ∃ others, s.io.Perm (x :: others) ∧ ∀ y ∈ others, Serves y

-- A session that is ready to relay, and has read no frame since.
structure Established (cfg : Config) (aes : Crypto.Aes) (s : Session) : Prop
    extends Relaying cfg aes s where
  io : ∃ n ≤ maxLength, s.Others ⟨.rightRead (.receiving n) 0, none⟩

-- The session has come from one with the log `log` to a state of the chain.
structure Relays (cfg : Config) (aes : Crypto.Aes) (log : List Event) (r : Relay) (s : Session) :
    Prop extends Relaying cfg aes s where
  io : s.Others (stageOp r.stage)
  log : Relayed Event.toClient Event.ends log r.written s.log

end Session

-- Nothing fails, and what the server sends does not arrive.
def Label.Undisturbed : Label → Prop
  | complete (.rightRead ..) _ => False
  | complete _ o               => o.failed = false
  | _                          => True

-- A session takes a step while a stream of bytes is on its way to it. A read from `socket_right`
-- takes the bytes at the front of the stream.
inductive RelayStep (cfg : Config) : Session × Data → Label → Session × Data → Prop
  | arrive {s t : Session} {lss : Packet} {rest : Nat} {d unread : Data}
    (e : Step cfg s (.complete (.rightRead lss rest) (.bytes d)) t) :
    RelayStep cfg (s, d ++ unread) (.complete (.rightRead lss rest) (.bytes d)) (t, unread)
  | other {s t : Session} {lb : Label} {unread : Data} (e : Step cfg s lb t)
    (h : lb.Undisturbed) : RelayStep cfg (s, unread) lb (t, unread)

-- A read does not end inside the header of a frame.
def Aligned (fs : List Frame) (x : Session × Data) : Label → Prop
  | .complete (.rightRead ..) (.bytes d) =>
    inHeader fs ((stream fs).length - (x.2.length - d.length)) = false
  | _                                    => True

-- Everything has been read, and the session waits for more.
def Finished (x : Session × Data) : Prop :=
  x.2 = [] ∧ ∃ lss rest, ⟨.rightRead lss rest, none⟩ ∈ x.1.io

namespace Session

variable {cfg : Config} {ch : Choice} {aes : Crypto.Aes} {log : List Event} {s t : Session}
  {g g' : Stage} {bt : Nat} {lss : Packet}

-- Starts the operation of a stage.
def carryOn (aes : Crypto.Aes) (s : Session) : Stage → Session
  | .reading lss rest _   => s.start (.rightRead lss rest)
  | .writing plain next _ =>
    ({ s with aesEncryptor := some aes }.note (.unpacked plain)).start
      (.leftWrite plain (.relay next))

theorem completed_stageOp {op : Op} {o : Outcome} (ho : stageOp g = ⟨op, some o⟩) :
    (readHandler cfg).completed ch s g = s.deliver cfg ch op o := by
  cases g
  case reading _ _ arrived => cases arrived <;> cases ho; rfl
  case writing _ _ done    => cases done <;> cases ho; rfl

theorem deliver_stage (h : s.Relaying cfg aes) (hv : g.Valid)
    (hp : g.proceed (aes.decrypt cfg.cpp) = some g') {op : Op} {o : Outcome}
    (ho : stageOp g = ⟨op, some o⟩) : s.deliver cfg ch op o = s.carryOn aes g' := by
  rw [← completed_stageOp ho, (readHandler_lawful cfg).completed_proceed h hv hp]
  cases g' <;> rfl

theorem eq_reading {rest : Nat} (h : stageOp g = ⟨.rightRead lss rest, none⟩) :
    g = .reading lss rest none := by
  cases g
  case writing => cases h
  case reading _ _ arrived =>
    cases arrived <;> cases h
    rfl

theorem ready_of_stageOp {op : Op} {o : Outcome} (h : stageOp g = ⟨op, some o⟩) : g.Ready := by
  cases g
  case reading _ _ arrived => cases arrived <;> cases h; rfl
  case writing _ _ done    => cases done <;> cases h; rfl

theorem stageOp_of_ready (h : g.Ready) : ∃ op o, stageOp g = ⟨op, some o⟩ := by
  cases g
  case reading _ _ arrived =>
    cases arrived
    case none => cases h
    case some => exact ⟨_, _, rfl⟩
  case writing _ _ done =>
    cases h
    exact ⟨_, _, rfl⟩

theorem carryOn_io (h : ¬g.Ready) : (s.carryOn aes g).io = s.io ++ [stageOp g] := by
  cases g
  case reading lss rest arrived =>
    cases arrived
    case none => rfl
    case some => exact absurd rfl h
  case writing plain next done =>
    cases done
    case false => rfl
    case true  => exact absurd rfl h

-- The encryptor is made when it is needed first.
theorem Relaying.carryOn (h : s.Relaying cfg aes) (g : Stage) :
    (s.carryOn aes g).Relaying cfg aes := by
  cases g
  case reading => exact { h with }
  case writing => exact { h with getAes := rfl }

namespace Relays

variable {r : Relay} {l l' others : List (Outstanding Op Outcome)}

-- The operation of the chain has completed.
theorem complete (i : s.Relays cfg aes log r) (hp : (l ++ l').Perm others)
    (hs : ∀ y ∈ others, Serves y) (g : Stage) (u : Data) :
    { s with io := l ++ stageOp g :: l' }.Relays cfg aes log ⟨g, u, r.written⟩ := { i with
  io := ⟨others, List.perm_middle.trans (hp.cons _), hs⟩ }

-- Its handler has run.
theorem handle (i : s.Relays cfg aes log r) (hp : (l ++ l').Perm others)
    (hs : ∀ y ∈ others, Serves y) (hv : r.stage.Valid)
    (hg : r.stage.proceed (aes.decrypt cfg.cpp) = some g) {op : Op} {o : Outcome}
    (ho : stageOp r.stage = ⟨op, some o⟩) :
    ({ s with io := l ++ l' }.deliver cfg ch op o).Relays cfg aes log
      ⟨g, r.unread, r.written ++ g.plain⟩ := by
  have h : { s with io := l ++ l' }.Relaying cfg aes := { i with }
  rw [deliver_stage h hv hg ho]
  exact { h.carryOn g with
    io := by
      refine ⟨others, ?_, hs⟩
      rw [carryOn_io (Stage.not_ready_of_proceed hg)]
      exact (List.perm_append_singleton ..).trans (hp.cons _)
    log := by
      cases g
      case reading => simpa [Session.carryOn, Stage.plain] using i.log.quiet rfl rfl
      case writing =>
        exact (i.log.quiet (e := .unpacked _) rfl rfl).snoc
          (e := .started (.leftWrite _ (.relay _))) rfl }

-- An operation of the other direction has completed.
theorem completeOther (i : s.Relays cfg aes log r) (hp : (l ++ l').Perm (stageOp r.stage :: others))
    (hs : ∀ y ∈ others, Serves y) {y : Outstanding Op Outcome} (hy : Serves y) :
    { s with io := l ++ y :: l' }.Relays cfg aes log r := { i with
  io := ⟨y :: others, Outstanding.perm_insert hp y, by simpa [hy] using hs⟩ }

-- The other direction starts an operation.
theorem startOther (i : s.Relays cfg aes log r) {op : Op} (hy : Serves ⟨op, none⟩)
    (hw : (Event.started op).toClient = []) (he : (Event.started op).ends = false) :
    (s.start op).Relays cfg aes log r where
  toRelaying := { i with }
  io := by
    have ⟨others, hp, hs⟩ := i.io
    refine ⟨_ :: others, Outstanding.perm_insert (r := []) ?_ _, by simpa [hy] using hs⟩
    rwa [List.append_nil]
  log := i.log.quiet hw he

-- The handler of such an operation starts the next one.
theorem deliverOther (i : s.Relays cfg aes log r) (hp : (l ++ l').Perm (stageOp r.stage :: others))
    (hs : ∀ y ∈ others, Serves y) {op : Op} {o : Outcome} (hy : Serves ⟨op, some o⟩) :
    ({ s with io := l ++ l' }.deliver cfg ch op o).Relays cfg aes log r := by
  have j : { s with io := l ++ l' }.Relays cfg aes log r := { i with io := ⟨others, hp, hs⟩ }
  generalize { s with io := l ++ l' } = t at j
  cases hy
  case written lss => exact j.startOther .reading rfl rfl
  case read d =>
    let lss := pack (if cfg.zipOn then .zipdata else .data) d.length (aes.encrypt cfg.cpp d)
    have heq : t.deliver cfg ch (.leftRead .leftReadHandler) (.bytes d) =
        ({ t with aesEncryptor := some aes }.note (.packed d)).start
          (.rightWrite lss .rightWriteHandler) := by
      simp [deliver, leftReadHandler, packData, j.getAes, lss]
    have jn : ({ t with aesEncryptor := some aes }.note (.packed d)).Relays cfg aes log r :=
      { j with getAes := rfl, log := j.log.quiet rfl rfl }
    exact heq ▸ jn.startOther .writing rfl rfl

variable {fs : List Frame} {lb : Label} {unread : Data}

-- A step of the session is one of the chain, or one of the other direction.
theorem step (i : s.Relays cfg aes log r) (on : r.On (aes.decrypt cfg.cpp) fs)
    (e : RelayStep cfg (s, r.unread) lb (t, unread)) (ha : Aligned fs (s, r.unread) lb) :
    ∃ r', (r' = r ∨ r.Move (aes.decrypt cfg.cpp) fs r') ∧ r'.unread = unread ∧
      t.Relays cfg aes log r' := by
  have ⟨others, hp, hs⟩ := i.io
  cases r with | mk g u w => ?_
  cases e
  case arrive lss rest d e =>
    cases e with | complete hio c => ?_
    cases c with | rightRead ne le => ?_
    cases Outstanding.perm_cons_cases (hio ▸ hp)
    case inr hm => cases hs _ hm.1
    case inl hm =>
      have ⟨he, hp'⟩ := hm
      cases eq_reading he.symm
      have cut : inHeader fs ((stream fs).length - unread.length) = false := by
        simpa [Aligned] using ha
      exact ⟨_, .inr (.arrive ne le cut), rfl,
        i.complete hp' hs (.reading lss rest (some d)) unread⟩
  case other hl e =>
    cases e
    case start h => exact absurd ((congrArg status h).symm.trans i.status) nofun
    case complete op o hio c =>
      cases Outstanding.perm_cons_cases (hio ▸ hp)
      case inl hm =>
        have ⟨he, hp'⟩ := hm
        cases g
        case reading lss rest arrived =>
          cases arrived <;> cases he
          cases hl
        case writing plain next done =>
          cases done <;> cases he
          cases c
          case error     => cases hl
          case leftWrite =>
            exact ⟨_, .inr .write, rfl, i.complete hp' hs (.writing plain next true) u⟩
      case inr hm =>
        have ⟨hm, others', ho, hp'⟩ := hm
        have hs' : ∀ y ∈ others', Serves y := fun y hy => hs y (ho.mem_iff.mpr (.tail _ hy))
        refine ⟨_, .inl rfl, rfl, i.completeOther hp' hs' ?_⟩
        cases hs _ hm
        case reading =>
          cases c
          case error    => cases hl
          case leftRead => exact .read
        case writing =>
          cases c
          case error      => cases hl
          case rightWrite => exact .written
    case deliver op o ch hio =>
      cases Outstanding.perm_cons_cases (hio ▸ hp)
      case inl hm =>
        have ⟨he, hp'⟩ := hm
        have ⟨_, _, _, a⟩ := on
        have ⟨g', _, _, hg, _⟩ := a.handle (ready_of_stageOp he.symm)
        exact ⟨_, .inr (.handle hg), rfl, i.handle hp' hs a.valid hg he.symm⟩
      case inr hm =>
        have ⟨hm, others', ho, hp'⟩ := hm
        have hs' : ∀ y ∈ others', Serves y := fun y hy => hs y (ho.mem_iff.mpr (.tail _ hy))
        exact ⟨_, .inl rfl, rfl, i.deliverOther hp' hs' (hs _ hm)⟩

-- Whatever the chain can do next, the session can do.
theorem move {r' : Relay} (i : s.Relays cfg aes log r) (hv : r.stage.Valid)
    (m : r.Move (aes.decrypt cfg.cpp) fs r') :
    ∃ lb t, RelayStep cfg (s, r.unread) lb (t, r'.unread) ∧ Aligned fs (s, r.unread) lb ∧
      t.Relays cfg aes log r' := by
  have ⟨others, hp, hs⟩ := i.io
  have ⟨l, l', hio, hp'⟩ := Outstanding.exists_of_perm hp
  cases m
  case arrive lss rest d u w ne le cut =>
    refine ⟨_, _, .arrive (.complete hio (.rightRead ne le)), ?_,
      i.complete hp' hs (.reading lss rest (some d)) u⟩
    simpa [Aligned] using cut
  case write plain u w next =>
    exact ⟨_, _, .other (.complete hio .leftWrite) rfl, trivial,
      i.complete hp' hs (.writing plain next true) u⟩
  case handle g h =>
    have ⟨op, o, ho⟩ := stageOp_of_ready (Stage.ready_of_proceed h)
    exact ⟨.deliver op o sampleChoice, _, .other (.deliver (ho ▸ hio)) trivial, trivial,
      i.handle hp' hs hv h ho⟩

theorem finished_iff (i : s.Relays cfg aes log r) : r.Idle ↔ Finished (s, r.unread) := by
  have ⟨others, hp, hs⟩ := i.io
  constructor
  case mp =>
    intro ⟨hu, lss, rest, hg⟩
    exact ⟨hu, lss, rest, hp.mem_iff.mpr (by simp [hg, stageOp])⟩
  case mpr =>
    intro ⟨hu, lss, rest, hm⟩
    cases List.mem_cons.mp (hp.mem_iff.mp hm)
    case inl he => exact ⟨hu, lss, rest, eq_reading he.symm⟩
    case inr hm => cases hs _ hm

theorem refines : Relay.Refines (aes.decrypt cfg.cpp) fs
    (Transition.Guarded (RelayStep cfg) (Aligned fs)) (Relays cfg aes log) where
  forth := fun i on ⟨e, ha⟩ => i.step on e ha
  back := fun i hv m =>
    have ⟨lb, t, e, ha, i'⟩ := i.move hv m
    ⟨lb, t, ⟨e, ha⟩, i'⟩

end Relays

-- A session that relays and to which frames are sent sends their payloads to the client, and does
-- not end. From any state of the run, everything can be read and sent.
theorem relays_frames {fs : List Frame} {x : Session × Data} (e : s.Established cfg aes)
    (hx : Transition.Reachable (· = (s, stream fs))
      (Transition.Guarded (RelayStep cfg) (Aligned fs)) x) :
    (∃ written, Relayed Event.toClient Event.ends s.log written x.1.log ∧
      written <+: payloads (aes.decrypt cfg.cpp) fs ∧
      (Finished x → written = payloads (aes.decrypt cfg.cpp) fs)) ∧
    ∃ y, Transition.Reachable (· = x) (Transition.Guarded (RelayStep cfg) (Aligned fs)) y ∧
      Finished y := by
  have ⟨n, hn, hio⟩ := e.io
  have ⟨r, hu, on, i⟩ := Relays.refines.reachable hn { e with io := hio, log := .refl } hx
  have ⟨r', y, hy, ⟨hu', _, i'⟩, idle⟩ := Relays.refines.exists_idle ⟨hu, on, i⟩
  refine ⟨⟨r.written, i.log, on.isPrefix, fun hf => on.written (i.finished_iff.mpr ?_)⟩, y, hy, ?_⟩
  · rw [hu]
    exact hf
  · simpa [hu'] using i'.finished_iff.mp idle

end Session
end Lproxy.Local
