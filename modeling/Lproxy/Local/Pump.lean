import Lproxy.Flow
import Lproxy.Local.Intake

-- How a session sends what its client sends, while it relays what the server sends.
namespace Lproxy.Local

-- The operation that is outstanding for what the client sends.
def pumpOp (cfg : Config) (aes : Crypto.Aes) : Pump → Outstanding Op Outcome
  | .reading arrived => ⟨.leftRead .leftReadHandler, arrived.map .bytes⟩
  | .sending d done  =>
    ⟨.rightWrite (dataRequest cfg aes d) .rightWriteHandler, if done then some .done else none⟩

-- The frames of a session, as a server decrypts them.
def coding (cfg : Config) (aes : Crypto.Aes) {cpp : CryptoPP} (h : cfg.cpp = cpp) : Coding where
  pack := dataRequest cfg aes
  decrypt := aes.decrypt cpp
  framed := Session.framed_dataRequest cfg aes
  isData := fun _ => isData_pack
  length_toData := Session.length_dataRequest cfg aes
  decrypt_pack := fun d => by rw [dataRequest, data_pack, ← h, Crypto.Aes.decrypt_encrypt]

namespace Session

-- A session that relays in both directions, and has come from one with the log `log`.
structure Pumps (cfg : Config) (aes : Crypto.Aes) (log : List Event) (k : Pump) (r : Relay)
    (s : Session) : Prop extends Relaying cfg aes s where
  io : s.io.Perm [pumpOp cfg aes k, stageOp r.stage]
  log : Relayed Event.toClient Event.ends log r.written s.log

namespace Pumps

variable {cfg : Config} {aes : Crypto.Aes} {log : List Event} {k : Pump} {r : Relay}
  {s t : Session} {lb : Label} {fs : List Frame} {back : Data}

theorem serves_pumpOp (k : Pump) : Serves (pumpOp cfg aes k) := by
  cases k
  case reading arrived => cases arrived <;> constructor
  case sending d done  => cases done <;> constructor

theorem relays (p : s.Pumps cfg aes log k r) : s.Relays cfg aes log r := { p with
  io := ⟨_, p.io.trans (.swap ..), by simp [serves_pumpOp]⟩ }

-- The handler of the chain that relays the frames of the server has run.
theorem handle {ch : Choice} {g : Stage} {op : Op} {o : Outcome} {l : List (Outstanding Op Outcome)}
    (p : s.Pumps cfg aes log k r) (io : l.Perm [pumpOp cfg aes k]) (hv : r.stage.Valid)
    (hg : r.stage.proceed (aes.decrypt cfg.cpp) = some g) (ho : stageOp r.stage = ⟨op, some o⟩) :
    ({ s with io := l }.deliver cfg ch op o).Pumps cfg aes log k
      ⟨g, r.unread, r.written ++ g.plain⟩ := by
  have io' : (l ++ []).Perm [pumpOp cfg aes k] := (List.append_nil l).symm ▸ io
  have i : ({ s with io := l ++ [] }.deliver cfg ch op o).Relays cfg aes log
      ⟨g, r.unread, r.written ++ g.plain⟩ :=
    p.relays.handle io' (by simp [serves_pumpOp]) hv hg ho
  rw [List.append_nil] at i
  refine { i with io := ?_ }
  rw [deliver_stage (s := { s with io := l }) { p with } hv hg ho,
    carryOn_io (Stage.not_ready_of_proceed hg)]
  exact io.append_right [_]

-- The handler of the chain that reads the client's bytes has run.
theorem handlePump (ch : Choice) {op : Op} {o : Outcome} {l : List (Outstanding Op Outcome)}
    (p : s.Pumps cfg aes log k r) (io : l.Perm [stageOp r.stage])
    (ho : pumpOp cfg aes k = ⟨op, some o⟩) :
    ∃ k', k.Move (dataRequest cfg aes) [] none k' ∧
      ({ s with io := l }.deliver cfg ch op o).Pumps cfg aes log k' r := by
  have io' : (l ++ []).Perm [stageOp r.stage] := (List.append_nil l).symm ▸ io
  have i : ({ s with io := l ++ [] }.deliver cfg ch op o).Relays cfg aes log r :=
    p.relays.deliverOther io' (by simp) (ho ▸ serves_pumpOp k)
  rw [List.append_nil] at i
  cases k
  case reading arrived =>
    cases arrived with | none => cases ho | some d => ?_
    cases ho
    have hg : { s with io := l }.getAes cfg = some aes := p.getAes
    refine ⟨_, .pack, { i with io := ?_ }⟩
    simpa [deliver, leftReadHandler, packData, hg, pumpOp, dataRequest] using
      (List.perm_append_singleton ..).trans (io.cons _)
  case sending d done =>
    cases done <;> cases ho
    exact ⟨_, .next, { i with io := (List.perm_append_singleton ..).trans (io.cons _) }⟩

-- The chain that reads the client's bytes has gone on.
theorem intake (p : s.Pumps cfg aes log k r) (hc : lb.Calm)
    (c : Concerns cfg s (pumpOp cfg aes k) [stageOp r.stage] lb t) :
    lb.fromServer = [] ∧
      ∃ k', k.Move (dataRequest cfg aes) lb.fromClient lb.sent k' ∧ t.Pumps cfg aes log k' r := by
  cases c with
  | complete hx c io =>
    cases k
    case reading arrived =>
      cases arrived <;> cases hx
      cases c
      case error            => cases hc
      case leftRead d ne le => exact ⟨rfl, _, .read ne le, { p with io := io }⟩
    case sending d done =>
      cases done <;> cases hx
      cases c
      case error      => cases hc
      case rightWrite => exact ⟨rfl, _, .send, { p with io := io }⟩
  | deliver hx io => exact ⟨rfl, p.handlePump _ io hx⟩

-- The chain that relays the frames of the server has gone on.
theorem output (p : s.Pumps cfg aes log k r) (on : r.On (aes.decrypt cfg.cpp) fs)
    (hu : r.unread = lb.fromServer ++ back) (hc : lb.Calm)
    (ha : Aligned fs (s, lb.fromServer ++ back) lb)
    (c : Concerns cfg s (stageOp r.stage) [pumpOp cfg aes k] lb t) :
    lb.fromClient = [] ∧ lb.sent = none ∧ ∃ r', r.Move (aes.decrypt cfg.cpp) fs r' ∧
      r'.unread = back ∧ t.Pumps cfg aes log k r' := by
  cases r with | mk g u w => ?_
  cases hu
  cases c with
  | complete hx c io =>
    cases g
    case reading lss rest arrived =>
      cases arrived <;> cases hx
      cases c
      case error             => cases hc
      case rightRead d ne le =>
        have cut : inHeader fs ((stream fs).length - back.length) = false := by
          simpa [Aligned, Label.fromServer] using ha
        exact ⟨rfl, rfl, _, .arrive ne le cut, rfl, { p with io := io.trans (.swap ..) }⟩
    case writing plain next done =>
      cases done <;> cases hx
      cases c
      case error     => cases hc
      case leftWrite => exact ⟨rfl, rfl, _, .write, rfl, { p with io := io.trans (.swap ..) }⟩
  | @deliver op o ch l hx io =>
    obtain ⟨_, _, _, a⟩ := on
    obtain ⟨g', _, _, hg, _⟩ := a.handle (ready_of_stageOp hx)
    exact ⟨rfl, rfl, _, .handle hg, rfl, p.handle io a.valid hg hx⟩

-- A step of the session is one of its two chains.
theorem step (p : s.Pumps cfg aes log k r) (on : r.On (aes.decrypt cfg.cpp) fs)
    (hu : r.unread = lb.fromServer ++ back) (e : Step cfg s lb t) (hc : lb.Calm)
    (ha : Aligned fs (s, lb.fromServer ++ back) lb) :
    (∃ k', k.Move (dataRequest cfg aes) lb.fromClient lb.sent k' ∧ r.unread = back ∧
        t.Pumps cfg aes log k' r) ∨
      lb.fromClient = [] ∧ lb.sent = none ∧ ∃ r', r.Move (aes.decrypt cfg.cpp) fs r' ∧
        r'.unread = back ∧ t.Pumps cfg aes log k r' := by
  cases concerns p.io p.status e
  case inl c =>
    have ⟨hs, k', m, p'⟩ := p.intake hc c
    rw [hs] at hu
    exact .inl ⟨k', m, hu, p'⟩
  case inr c =>
    have ⟨y, hy, others, ho, c⟩ := c
    cases List.mem_singleton.mp hy
    cases List.Perm.nil_eq (List.perm_cons _ |>.mp ho)
    exact .inr (p.output on hu hc ha c)

-- Whatever the chains can do next, the session can do.
theorem pump {d : Data} {sent : Option Packet} {k' : Pump} (p : s.Pumps cfg aes log k r)
    (m : k.Move (dataRequest cfg aes) d sent k') :
    ∃ lb t, Step cfg s lb t ∧ lb.Calm ∧ lb.fromClient = d ∧ lb.fromServer = [] ∧ lb.sent = sent ∧
      (∀ fs x, Aligned fs x lb) ∧ t.Pumps cfg aes log k' r := by
  have ⟨l, l', hio, hp⟩ := Outstanding.exists_of_perm p.io
  have io (x : Outstanding Op Outcome) : (l ++ x :: l').Perm [x, stageOp r.stage] :=
    List.perm_middle.trans (hp.cons x)
  cases m
  case read ne le =>
    exact ⟨_, _, .complete hio (.leftRead ne le), rfl, rfl, rfl, rfl, fun _ _ => trivial,
      { p with io := io _ }⟩
  case send =>
    exact ⟨_, _, .complete hio .rightWrite, rfl, rfl, rfl, rfl, fun _ _ => trivial,
      { p with io := io _ }⟩
  case pack =>
    have ⟨k', m, p'⟩ := p.handlePump sampleChoice hp rfl
    cases m
    exact ⟨_, _, .deliver hio, trivial, rfl, rfl, rfl, fun _ _ => trivial, p'⟩
  case next =>
    have ⟨k', m, p'⟩ := p.handlePump sampleChoice hp rfl
    cases m
    exact ⟨_, _, .deliver hio, trivial, rfl, rfl, rfl, fun _ _ => trivial, p'⟩

theorem relay {r' : Relay} (p : s.Pumps cfg aes log k r) (hv : r.stage.Valid)
    (m : r.Move (aes.decrypt cfg.cpp) fs r') :
    ∃ lb t, Step cfg s lb t ∧ lb.Calm ∧ r.unread = lb.fromServer ++ r'.unread ∧ lb.fromClient = [] ∧
      lb.sent = none ∧ Aligned fs (s, r.unread) lb ∧ t.Pumps cfg aes log k r' := by
  obtain ⟨l, l', hio, hp⟩ := Outstanding.exists_of_perm (p.io.trans (.swap ..))
  have io (x : Outstanding Op Outcome) : (l ++ x :: l').Perm [pumpOp cfg aes k, x] :=
    (List.perm_middle.trans (hp.cons x)).trans (.swap ..)
  cases m
  case arrive ne le cut =>
    exact ⟨_, _, .complete hio (.rightRead ne le), rfl, rfl, rfl, rfl, by simpa [Aligned] using cut,
      { p with io := io _ }⟩
  case write =>
    exact ⟨_, _, .complete hio .leftWrite, rfl, rfl, rfl, rfl, trivial, { p with io := io _ }⟩
  case handle g h =>
    obtain ⟨op, o, ho⟩ := stageOp_of_ready (Stage.ready_of_proceed h)
    exact ⟨.deliver op o sampleChoice, _, .deliver (ho ▸ hio), trivial, rfl, rfl, rfl, trivial,
      p.handle hp hv h ho⟩

end Pumps
end Session
end Lproxy.Local
