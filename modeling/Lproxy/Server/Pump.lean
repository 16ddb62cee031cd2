import Lproxy.Codec
import Lproxy.Flow
import Lproxy.Server.Frames
import Lproxy.Server.Link
import Lproxy.Server.Opening

-- How a session that is connected sends what the remote sends, while it relays what the local
-- sends.
namespace Lproxy.Server

-- The operation that is outstanding for what the remote sends.
def pumpOp (cfg : Config) (aes : Crypto.Aes) : Pump → Outstanding Op Outcome
  | .reading arrived => ⟨.rightRead .tcp, arrived.map .bytes⟩
  | .sending d done  =>
    ⟨.leftWrite (dataReply cfg aes d) .leftWriteHandler, if done then some .done else none⟩

-- A wait on the timer that has been cancelled.
inductive Stopped : Outstanding Op Outcome → Prop
  | mk {code : ErrorCode} : Stopped ⟨.timerWait, some (.error code)⟩

-- The bytes that a completion gets from the remote.
def Label.fromRemote : Label → Data
  | complete (.rightRead _) (.bytes d) => d
  | _                                  => []

-- Whether time passes.
def Label.ticks : Label → Bool
  | tick _ => true
  | _      => false

section Frame

variable (cfg : Config) (aes : Crypto.Aes)

theorem framed_dataReply {d : Data} (h : d.length ≤ maxLength) : (dataReply cfg aes d).Framed := by
  have hm : maxLength = 4096 := rfl
  exact pack_framed (by simp; omega)

theorem length_dataReply (d : Data) : (dataReply cfg aes d).toData.length = 4 + d.length := by
  simp [dataReply]

-- The frames of a session, as a local decrypts them.
def coding {cpp : CryptoPP} (h : cfg.cpp = cpp) : Coding where
  pack := dataReply cfg aes
  decrypt := aes.decrypt cpp
  framed := framed_dataReply cfg aes
  isData := fun _ => isData_pack
  length_toData := length_dataReply cfg aes
  decrypt_pack := fun d => by rw [dataReply, data_pack, ← h, Crypto.Aes.decrypt_encrypt]

end Frame

namespace Session

-- A session that relays in both directions, and has come from one with the log `log`. The waits on
-- the timer have been cancelled.
structure Pumps (cfg : Config) (aes : Crypto.Aes) (log : List Event) (k : Pump) (r : Relay)
    (waits : List (Outstanding Op Outcome)) (s : Session) : Prop extends Relaying aes s where
  io : s.io.Perm (pumpOp cfg aes k :: stageOp r.stage :: waits)
  stopped : ∀ y ∈ waits, Stopped y
  log : Relayed Event.toRemote Event.ends log r.written s.log

abbrev Concerns (cfg : Config) := (asynchronous cfg).Concerns

variable {cfg : Config} {aes : Crypto.Aes} {log : List Event} {k : Pump} {r : Relay}
  {waits l : List (Outstanding Op Outcome)} {s t : Session} {lb : Label} {fs : List Frame}
  {wire : Data} {ch : Choice} {op : Op} {o : Outcome}

theorem exists_concerns {ops : List (Outstanding Op Outcome)} (h : s.io.Perm ops)
    (hd : s.status = .data) (e : Step cfg s lb t) :
    (∃ d, lb = .tick d ∧ t = { s with now := s.now + d }) ∨
      ∃ y ∈ ops, ∃ others, ops.Perm (y :: others) ∧ Concerns cfg s y others lb t :=
  (e.works (by simp [hd])).imp_right (·.exists_concerns h)

namespace Pumps

theorem serves_pumpOp (k : Pump) : Serves (pumpOp cfg aes k) := by
  cases k
  case reading arrived => cases arrived <;> constructor
  case sending d done  => cases done <;> constructor

theorem serves_waits (p : s.Pumps cfg aes log k r waits) : ∀ y ∈ waits, Serves y := by
  intro y hy
  cases p.stopped y hy
  exact .stopped

theorem relays (p : s.Pumps cfg aes log k r waits) : s.Relays aes log r := { p with
  io := ⟨_, p.io.trans (.swap ..), by simpa [serves_pumpOp] using p.serves_waits⟩ }

-- The handler of the chain that relays the frames of the local has run.
theorem handle {g : Stage} (p : s.Pumps cfg aes log k r waits)
    (io : l.Perm (pumpOp cfg aes k :: waits)) (hv : r.stage.Valid)
    (hg : r.stage.proceed (aes.decrypt cfg.cpp) = some g) (ho : stageOp r.stage = ⟨op, some o⟩) :
    ({ s with io := l }.deliver cfg ch op o).Pumps cfg aes log k
      ⟨g, r.unread, r.written ++ g.plain⟩ waits := by
  have io' : (l ++ []).Perm (pumpOp cfg aes k :: waits) := (List.append_nil l).symm ▸ io
  have i : ({ s with io := l ++ [] }.deliver cfg ch op o).Relays aes log
      ⟨g, r.unread, r.written ++ g.plain⟩ :=
    p.relays.handle io' (by simpa [serves_pumpOp] using p.serves_waits) hv hg ho
  rw [List.append_nil] at i
  refine { i with stopped := p.stopped, io := ?_ }
  rw [deliver_stage (s := { s with io := l }) { p with } hv hg ho,
    carryOn_io (Stage.not_ready_of_proceed hg)]
  exact (List.perm_append_singleton ..).trans ((io.cons _).trans (.swap ..))

-- The handler of another operation has run.
theorem others (ch : Choice) {y : Outstanding Op Outcome} (p : s.Pumps cfg aes log k r waits)
    (hy : Serves y) (io : l.Perm (stageOp r.stage :: waits)) (ho : y = ⟨op, some o⟩) :
    ({ s with io := l }.deliver cfg ch op o).Relays aes log r := by
  have io' : (l ++ []).Perm (stageOp r.stage :: waits) := (List.append_nil l).symm ▸ io
  have i : ({ s with io := l ++ [] }.deliver cfg ch op o).Relays aes log r :=
    p.relays.deliverOther io' p.serves_waits (ho ▸ hy)
  rwa [List.append_nil] at i

-- The handler of the chain that reads the remote's bytes has run.
theorem handlePump (ch : Choice) (p : s.Pumps cfg aes log k r waits)
    (io : l.Perm (stageOp r.stage :: waits)) (ho : pumpOp cfg aes k = ⟨op, some o⟩) :
    ∃ k', k.Move (dataReply cfg aes) [] none k' ∧
      ({ s with io := l }.deliver cfg ch op o).Pumps cfg aes log k' r waits := by
  have i := p.others ch (serves_pumpOp k) io ho
  cases k
  case reading arrived =>
    cases arrived with | none => cases ho | some d => ?_
    cases ho
    refine ⟨_, .pack, { i with stopped := p.stopped, io := ?_ }⟩
    simpa [deliver, rightReadHandler, packData, p.aesEncryptor, pumpOp, dataReply] using
      (List.perm_append_singleton ..).trans (io.cons _)
  case sending d done =>
    cases done <;> cases ho
    refine ⟨_, .next, { i with stopped := p.stopped, io := ?_ }⟩
    simpa [deliver, leftWriteHandler, Outcome.failed, p.status, p.socks5RespReply, p.socks5State,
      p.socks5Cmd, pumpOp] using (List.perm_append_singleton ..).trans (io.cons _)

-- The chain that reads the remote's bytes has gone on.
theorem intake (p : s.Pumps cfg aes log k r waits) (hc : lb.Calm)
    (c : Concerns cfg s (pumpOp cfg aes k) (stageOp r.stage :: waits) lb t) :
    lb.fromLocal = [] ∧ ∃ k', k.Move (dataReply cfg aes) lb.fromRemote lb.sent k' ∧
      t.Pumps cfg aes log k' r waits := by
  cases c with
  | complete hx c io =>
    cases k
    case reading arrived =>
      cases arrived <;> cases hx
      cases c
      case error             => cases hc
      case rightRead d le ne => exact ⟨rfl, _, .read (ne rfl) le, { p with io := io }⟩
    case sending d done =>
      cases done <;> cases hx
      cases c
      case error     => cases hc
      case leftWrite => exact ⟨rfl, _, .send, { p with io := io }⟩
  | deliver hx io => exact ⟨rfl, p.handlePump _ io hx⟩

-- The chain that relays the frames of the local has gone on.
theorem output (p : s.Pumps cfg aes log k r waits) (on : r.On (aes.decrypt cfg.cpp) fs)
    (hu : r.unread = lb.fromLocal ++ wire) (hc : lb.Calm)
    (ha : Aligned fs (s, lb.fromLocal ++ wire) lb)
    (c : Concerns cfg s (stageOp r.stage) (pumpOp cfg aes k :: waits) lb t) :
    lb.fromRemote = [] ∧ lb.sent = none ∧ ∃ r', r.Move (aes.decrypt cfg.cpp) fs r' ∧
      r'.unread = wire ∧ t.Pumps cfg aes log k r' waits := by
  cases r with | mk g u w => ?_
  cases hu
  cases c with
  | complete hx c io =>
    cases g
    case reading lss rest arrived =>
      cases arrived <;> cases hx
      cases c
      case error            => cases hc
      case leftRead d ne le =>
        have cut : inHeader fs ((stream fs).length - wire.length) = false := by
          simpa [Aligned, Label.fromLocal] using ha
        exact ⟨rfl, rfl, _, .arrive ne le cut, rfl, { p with io := io.trans (.swap ..) }⟩
    case writing plain next done =>
      cases done <;> cases hx
      cases c
      case error      => cases hc
      case rightWrite => exact ⟨rfl, rfl, _, .write, rfl, { p with io := io.trans (.swap ..) }⟩
  | @deliver op o ch l hx io =>
    obtain ⟨_, _, _, a⟩ := on
    obtain ⟨g', _, _, hg, _⟩ := a.handle (ready_of_stageOp hx)
    exact ⟨rfl, rfl, _, .handle hg, rfl, p.handle io a.valid hg hx⟩

-- The handler of a wait on the timer has run.
theorem wait {y : Outstanding Op Outcome} {others : List (Outstanding Op Outcome)}
    (p : s.Pumps cfg aes log k r waits) (hy : y ∈ waits)
    (ho : (pumpOp cfg aes k :: stageOp r.stage :: waits).Perm (y :: others))
    (c : Concerns cfg s y others lb t) :
    lb.fromLocal = [] ∧ lb.fromRemote = [] ∧ lb.sent = none ∧
      ∃ waits', t.Pumps cfg aes log k r waits' ∧ waits'.length < waits.length := by
  have ⟨a, b, hw⟩ := List.append_of_mem hy
  subst hw
  have hp : (pumpOp cfg aes k :: stageOp r.stage :: a ++ y :: b).Perm
      (y :: (pumpOp cfg aes k :: stageOp r.stage :: a ++ b)) :=
    List.perm_middle
  cases c with
  | complete hx => cases hx ▸ p.stopped y hy
  | deliver hx io =>
    cases hx ▸ p.stopped y hy
    refine ⟨rfl, rfl, rfl, a ++ b, { p with io := ?_, stopped := ?_ }, by simp⟩
    · exact io.trans (List.perm_cons _ |>.mp (ho.symm.trans hp))
    · intro z hz
      exact p.stopped z (List.perm_middle.mem_iff.mpr (.tail _ hz))

-- A step of the session is one of its two chains, or the handler of a wait on the timer runs, or
-- time passes.
theorem step (p : s.Pumps cfg aes log k r waits) (on : r.On (aes.decrypt cfg.cpp) fs)
    (hu : r.unread = lb.fromLocal ++ wire) (e : Step cfg s lb t) (hc : lb.Calm)
    (ha : Aligned fs (s, lb.fromLocal ++ wire) lb) :
    (∃ k', k.Move (dataReply cfg aes) lb.fromRemote lb.sent k' ∧ r.unread = wire ∧
        t.Pumps cfg aes log k' r waits) ∨
      lb.fromRemote = [] ∧ lb.sent = none ∧
        ((∃ r', r.Move (aes.decrypt cfg.cpp) fs r' ∧ r'.unread = wire ∧
            t.Pumps cfg aes log k r' waits) ∨
          r.unread = wire ∧ ∃ waits', t.Pumps cfg aes log k r waits' ∧
            (waits'.length < waits.length ∨ waits' = waits ∧ lb.ticks)) := by
  rcases exists_concerns p.io p.status e with ⟨d, hl, ht⟩ | ⟨y, hy, others, ho, c⟩
  case inl =>
    subst hl ht
    exact .inr ⟨rfl, rfl, .inr ⟨hu, waits, { p with }, .inr ⟨rfl, rfl⟩⟩⟩
  case inr =>
    rcases List.mem_cons.mp hy with h | hy
    case inl =>
      subst h
      have ⟨hs, k', m, p'⟩ := p.intake hc (c.perm (List.perm_cons _ |>.mp ho).symm)
      rw [hs] at hu
      exact .inl ⟨k', m, hu, p'⟩
    case inr =>
      rcases List.mem_cons.mp hy with h | hy
      case inl =>
        subst h
        have hp : others.Perm (pumpOp cfg aes k :: waits) :=
          List.perm_cons _ |>.mp (ho.symm.trans (.swap ..))
        have ⟨hr, hs, r', m, hu', p'⟩ := p.output on hu hc ha (c.perm hp)
        exact .inr ⟨hr, hs, .inl ⟨r', m, hu', p'⟩⟩
      case inr =>
        have ⟨hl, hr, hs, waits', p', hlt⟩ := p.wait hy ho c
        rw [hl] at hu
        exact .inr ⟨hr, hs, .inr ⟨hu, waits', p', .inl hlt⟩⟩

-- Whatever the chains can do next, the session can do.
theorem pump {d : Data} {sent : Option Packet} {k' : Pump} (p : s.Pumps cfg aes log k r waits)
    (m : k.Move (dataReply cfg aes) d sent k') :
    ∃ lb t, Step cfg s lb t ∧ lb.Calm ∧ lb.ticks = false ∧ lb.fromRemote = d ∧ lb.fromLocal = [] ∧
      lb.sent = sent ∧ (∀ fs x, Aligned fs x lb) ∧ t.Pumps cfg aes log k' r waits := by
  have ⟨l, l', hio, hp⟩ := Outstanding.exists_of_perm p.io
  have io (x : Outstanding Op Outcome) : (l ++ x :: l').Perm (x :: stageOp r.stage :: waits) :=
    List.perm_middle.trans (hp.cons x)
  cases m
  case read ne le =>
    exact ⟨_, _, .complete hio (.rightRead (fun _ => ne) le) nofun, rfl, rfl, rfl, rfl, rfl,
      fun _ _ => trivial, { p with io := io _ }⟩
  case send =>
    exact ⟨_, _, .complete hio .leftWrite nofun, rfl, rfl, rfl, rfl, rfl, fun _ _ => trivial,
      { p with io := io _ }⟩
  case pack =>
    have ⟨k', m, p'⟩ := p.handlePump sampleChoice hp rfl
    cases m
    exact ⟨_, _, .deliver hio, trivial, rfl, rfl, rfl, rfl, fun _ _ => trivial, p'⟩
  case next =>
    have ⟨k', m, p'⟩ := p.handlePump sampleChoice hp rfl
    cases m
    exact ⟨_, _, .deliver hio, trivial, rfl, rfl, rfl, rfl, fun _ _ => trivial, p'⟩

theorem relay {r' : Relay} (p : s.Pumps cfg aes log k r waits) (hv : r.stage.Valid)
    (m : r.Move (aes.decrypt cfg.cpp) fs r') :
    ∃ lb t, Step cfg s lb t ∧ lb.Calm ∧ lb.ticks = false ∧ r.unread = lb.fromLocal ++ r'.unread ∧
      lb.fromRemote = [] ∧ lb.sent = none ∧ Aligned fs (s, r.unread) lb ∧
      t.Pumps cfg aes log k r' waits := by
  obtain ⟨l, l', hio, hp⟩ := Outstanding.exists_of_perm (p.io.trans (.swap ..))
  have io (x : Outstanding Op Outcome) : (l ++ x :: l').Perm (pumpOp cfg aes k :: x :: waits) :=
    (List.perm_middle.trans (hp.cons x)).trans (.swap ..)
  cases m
  case arrive ne le cut =>
    exact ⟨_, _, .complete hio (.leftRead ne le) (by simp), rfl, rfl, rfl, rfl, rfl,
      by simpa [Aligned] using cut, { p with io := io _ }⟩
  case write =>
    exact ⟨_, _, .complete hio .rightWrite (by simp), rfl, rfl, rfl, rfl, rfl, trivial,
      { p with io := io _ }⟩
  case handle g h =>
    obtain ⟨op, o, ho⟩ := stageOp_of_ready (Stage.ready_of_proceed h)
    exact ⟨.deliver op o sampleChoice, _, .deliver (ho ▸ hio), trivial, rfl, rfl, rfl, rfl, trivial,
      p.handle hp hv h ho⟩

end Pumps
end Session
end Lproxy.Server
