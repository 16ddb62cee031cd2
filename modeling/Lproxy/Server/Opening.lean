import Lproxy.Server.Relay

-- How a session gets from the request of a client to relaying: it reads the frame with the request,
-- resolves the name, connects to the remote, and answers.
namespace Lproxy.Server

-- How far the session has got.
inductive Progress
  | opening (lss : Packet) (rest : Nat) (arrived : Option Data)
  | resolving (name : Data) (port : UInt16) (found : Option (Endpoint × List Endpoint))
  | connecting (e : Endpoint) (rest : List Endpoint) (o : Option Outcome)
  | connected (r : Relay)

-- What is left to be done about what has been received.
def Progress.cost : Progress → Nat
  | opening lss rest arrived    => (Stage.reading lss rest arrived).cost
  | resolving _ _ none          => 5
  | resolving _ _ (some p)      => 3 + 3 * p.2.length
  | connecting _ rest none      => 2 + 3 * rest.length
  | connecting _ rest (some _)  => 1 + 3 * rest.length
  | connected r                 => r.stage.cost

-- The operation that is outstanding.
def progressOp : Progress → Outstanding Op Outcome
  | .opening lss rest arrived       => stageOp (.reading lss rest arrived)
  | .resolving name port found      =>
    ⟨.resolve .tcp name port, found.map fun p => .endpoints p.1 p.2⟩
  | .connecting e rest o            => ⟨.connect .tcp e rest, o⟩
  | .connected r                    => stageOp r.stage

-- A wait on the timer, which has been cancelled or goes on.
structure Waits (y : Outstanding Op Outcome) : Prop where
  op : y.op = .timerWait
  failed : ∀ o, y.outcome = some o → o.failed

-- The bytes that a completion gets from the local.
def Label.fromLocal : Label → Data
  | complete (.leftRead ..) (.bytes d) => d
  | _                                  => []

-- Nothing fails but attempts to connect after which there is another endpoint, and the timer does
-- not expire.
def Label.Calm : Label → Prop
  | complete (.connect _ _ rest) o => o.failed → rest ≠ []
  | complete .timerWait _          => False
  | complete _ o                   => o.failed = false
  | _                              => True

-- A read that starts in the first frame does not go on behind it.
def Separate (fs : List Frame) (x : Session × Data) : Label → Prop
  | .complete (.leftRead ..) (.bytes d) => ∀ f ∈ fs.head?,
    (stream fs).length - x.2.length < f.size →
      (stream fs).length - x.2.length + d.length ≤ f.size
  | _                                   => True

namespace Session

-- A session that is not connected yet.
structure Unconnected (aes : Crypto.Aes) (log : List Event) (state : Socks5.State) (s : Session) :
    Prop where
  status : s.status = .data
  socks5State : s.socks5State = state
  aesEncryptor : s.aesEncryptor = some aes
  log : Relayed Event.toRemote Event.ends log [] s.log

-- What is outstanding apart from `x` are waits on the timer.
def Awaits (x : Outstanding Op Outcome) (s : Session) : Prop :=
  ∃ others, s.io.Perm (x :: others) ∧ ∀ y ∈ others, Waits y

-- Nothing is outstanding but waits on the timer.
def Waiting (s : Session) : Prop :=
  ∀ y ∈ s.io, Waits y

-- The frames `fs` have been sent to the session, of which `wire` is still on its way. The first one
-- carries the request.
inductive Passes (cfg : Config) (aes : Crypto.Aes) (log : List Event) (wire : Data) :
    List Frame → Progress → Session → Prop
  | opening {fs : List Frame} {lss : Packet} {rest : Nat} {arrived : Option Data} {s : Session}
    (h : s.Unconnected aes log .opening) (io : s.Awaits (progressOp (.opening lss rest arrived)))
    (a : Relay.At (aes.decrypt cfg.cpp) [] fs ⟨.reading lss rest arrived, wire, []⟩)
    (whole : ∀ f ∈ fs.head?, (Stage.reading lss rest arrived).held.length ≤ f.size) :
    Passes cfg aes log wire fs (.opening lss rest arrived) s
  | resolving {f : Frame} {fs : List Frame} {name : Data} {port : UInt16}
    {found : Option (Endpoint × List Endpoint)} {s : Session}
    (h : s.Unconnected aes log .connecting)
    (hc : s.socks5Cmd = .connect) (io : s.Awaits (progressOp (.resolving name port found)))
    (hw : wire = stream fs) : Passes cfg aes log wire (f :: fs) (.resolving name port found) s
  | connecting {f : Frame} {fs : List Frame} {e : Endpoint} {rest : List Endpoint}
    {o : Option Outcome} {s : Session} (h : s.Unconnected aes log .connecting)
    (hc : s.socks5Cmd = .connect) (io : s.Awaits (progressOp (.connecting e rest o)))
    (ho : ∀ x, o = some x → x = .done ∨ x.failed ∧ rest ≠ []) (hw : wire = stream fs) :
    Passes cfg aes log wire (f :: fs) (.connecting e rest o) s
  | connected {f : Frame} {fs : List Frame} {r : Relay} {s : Session} (i : s.Relays aes log r)
    (on : r.On (aes.decrypt cfg.cpp) fs) (hw : r.unread = wire) :
    Passes cfg aes log wire (f :: fs) (.connected r) s

variable {cfg : Config} {ch : Choice} {aes : Crypto.Aes} {log : List Event} {s t : Session}
  {state : Socks5.State} {bt : Nat} {lss : Packet} {x : Outstanding Op Outcome}

theorem Unconnected.start (h : s.Unconnected aes log state) {op : Op}
    (hw : (Event.started op).toRemote = []) (he : (Event.started op).ends = false) :
    (s.start op).Unconnected aes log state := { h with
  log := h.log.quiet hw he }

theorem Unconnected.withIo (h : s.Unconnected aes log state) (io : List (Outstanding Op Outcome)) :
    Unconnected aes log state { s with io := io } :=
  { h with }

theorem Unconnected.abort (h : s.Unconnected aes log state) (p : Op → Bool) :
    (s.abort p).Unconnected aes log state :=
  { h with }

theorem Unconnected.timerRestart (h : s.Unconnected aes log state) (cfg : Config) :
    (s.timerRestart cfg).Unconnected aes log state := { h with
  log := by
    have hl := h.log.quiet (e := .started .timerWait) rfl rfl
    exact hl }

-- The request has been processed.
theorem Unconnected.requested (h : s.Unconnected aes log .opening) {plain name n : Data}
    {rq : Socks5.Req} {reply : Byte} {port : UInt16} :
    ((((s.note (.unpacked plain)).requested rq name .connect reply).timerRestart cfg).start
      (.resolve .tcp n port)).Unconnected aes log .connecting where
  status := h.status
  socks5State := rfl
  aesEncryptor := h.aesEncryptor
  log := by
    have hr := (h.log.quiet (e := .unpacked plain) rfl rfl).quiet (e := .socks5RequestProcessing rq)
      rfl rfl
    have ht := hr.quiet (e := .started .timerWait) rfl rfl
    exact ht.quiet (e := .started (.resolve .tcp n port)) rfl rfl

namespace Waiting

theorem start (h : s.Waiting) (op : Op) : (s.start op).Awaits ⟨op, none⟩ :=
  ⟨s.io, List.perm_append_singleton .., h⟩

theorem abort (h : s.Waiting) (p : Op → Bool) : (s.abort p).Waiting := by
  intro y hy
  have ⟨z, hz, he⟩ := List.mem_map.mp hy
  subst he
  have w := h z hz
  cases z.abort_eq p (.error .operationAborted)
  case inl he => rwa [he]
  case inr he =>
    refine ⟨(z.abort_op ..).trans w.op, fun o ho => ?_⟩
    cases he.2.symm.trans ho
    rfl

theorem timerRestart (h : s.Waiting) (cfg : Config) : (s.timerRestart cfg).Waiting := by
  intro y hy
  rw [timerRestart_io] at hy
  cases List.mem_append.mp hy
  case inl hy => exact h.abort Op.isTimerWait y hy
  case inr hy =>
    cases List.mem_singleton.mp hy
    exact ⟨rfl, nofun⟩

-- When the timer has been cancelled, none of the waits goes on.
theorem stopped (h : s.Waiting) : ∀ y ∈ s.timerCancel.io, Serves y := by
  intro y hy
  have ⟨z, hz, he⟩ := List.mem_map.mp hy
  have w := h z hz
  cases z with | mk op o => ?_
  cases w.op
  cases o
  case none =>
    subst he
    exact .stopped
  case some o =>
    subst he
    have hf := w.failed o rfl
    cases o <;> cases hf
    exact .stopped

end Waiting

-- What is left when the operation is taken away whose handler is to run.
theorem Awaits.taken {l r : List (Outstanding Op Outcome)} {y : Outstanding Op Outcome}
    (h : s.Awaits x) (hio : s.io = l ++ y :: r) :
    y = x ∧ { s with io := l ++ r }.Waiting ∨
      Waits y ∧ { s with io := l ++ r }.Awaits x := by
  have ⟨others, hp, hw⟩ := h
  cases Outstanding.perm_cons_cases (hio ▸ hp)
  case inl hm =>
    have ⟨he, hp'⟩ := hm
    exact .inl ⟨he, fun z hz => hw z (hp'.mem_iff.mp hz)⟩
  case inr hm =>
    have ⟨hm, others', ho, hp'⟩ := hm
    exact .inr ⟨hw _ hm, others', hp', fun z hz => hw z (ho.mem_iff.mpr (.tail _ hz))⟩

-- What is outstanding when an operation has completed.
theorem Awaits.completed {l r : List (Outstanding Op Outcome)} {op : Op} (h : s.Awaits x)
    (hio : s.io = l ++ ⟨op, none⟩ :: r) (o : Outcome) :
    x = ⟨op, none⟩ ∧ Awaits ⟨op, some o⟩ { s with io := l ++ ⟨op, some o⟩ :: r } ∨
      op = .timerWait := by
  have ⟨others, hp, hw⟩ := h
  cases Outstanding.perm_cons_cases (hio ▸ hp)
  case inl hm =>
    have ⟨he, hp'⟩ := hm
    exact .inl ⟨he.symm, others, List.perm_middle.trans (hp'.cons _), hw⟩
  case inr hm => exact .inr (hw _ hm.1).op

-- The operation can complete, and its handler can run.
theorem Awaits.complete {op : Op} {o : Outcome} (h : s.Awaits ⟨op, none⟩) (cfg : Config)
    (c : Completes op o) (hop : op ≠ .timerWait) :
    ∃ io, Step cfg s (.complete op o) { s with io := io } ∧
      Awaits ⟨op, some o⟩ { s with io := io } := by
  have ⟨others, hp, hw⟩ := h
  have ⟨l, r, hio, hp'⟩ := Outstanding.exists_of_perm hp
  exact ⟨l ++ ⟨op, some o⟩ :: r, .complete hio c fun h => absurd h hop, others,
    List.perm_middle.trans (hp'.cons _), hw⟩

theorem Awaits.deliver {op : Op} {o : Outcome} (h : s.Awaits ⟨op, some o⟩) (cfg : Config)
    (ch : Choice) :
    ∃ io, Step cfg s (.deliver op o ch) ({ s with io := io }.deliver cfg ch op o) ∧
      Waiting { s with io := io } := by
  have ⟨others, hp, hw⟩ := h
  have ⟨l, r, hio, hp'⟩ := Outstanding.exists_of_perm hp
  exact ⟨l ++ r, .deliver hio, fun y hy => hw y (hp'.mem_iff.mp hy)⟩

theorem Awaits.reads {rest : Nat} (h : s.Awaits x) (hm : ⟨.leftRead lss rest, none⟩ ∈ s.io) :
    x = ⟨.leftRead lss rest, none⟩ := by
  have ⟨others, hp, hw⟩ := h
  cases List.mem_cons.mp (hp.mem_iff.mp hm)
  case inl he => exact he.symm
  case inr hm => cases (hw _ hm).op

-- A step completes the operation, runs its handler, or concerns neither.
inductive Awaited (cfg : Config) (s : Session) (x : Outstanding Op Outcome) :
    Label → Session → Prop
  | complete {op : Op} {o : Outcome} {io : List (Outstanding Op Outcome)} (hx : x = ⟨op, none⟩)
    (c : Completes op o) (h : Awaits ⟨op, some o⟩ { s with io := io }) :
    Awaited cfg s x (.complete op o) { s with io := io }
  | deliver {op : Op} {o : Outcome} {ch : Choice} {io : List (Outstanding Op Outcome)}
    (hx : x = ⟨op, some o⟩) (h : Waiting { s with io := io }) :
    Awaited cfg s x (.deliver op o ch) ({ s with io := io }.deliver cfg ch op o)
  | other {lb : Label} {io : List (Outstanding Op Outcome)} {now : Nat} (hl : lb.fromLocal = [])
    (h : Awaits x { s with io := io, now := now }) :
    Awaited cfg s x lb { s with io := io, now := now }

theorem Awaits.step {lb : Label} (h : s.Awaits x) (hd : s.status = .data) (e : Step cfg s lb t)
    (hc : lb.Calm) : Awaited cfg s x lb t := by
  cases e
  case start hs => exact absurd (hd.symm.trans hs) nofun
  case tick     => exact .other rfl h
  case complete op o hio c _ =>
    cases h.completed hio o
    case inl hx => exact .complete hx.1 c hx.2
    case inr ho =>
      subst ho
      cases hc
  case deliver op o _ hio =>
    cases h.taken hio
    case inl hx => exact .deliver hx.1.symm hx.2
    case inr hw =>
      have ⟨hw, h'⟩ := hw
      cases hw.op
      have hf := hw.failed o rfl
      cases o <;> cases hf
      exact .other rfl h'

section Opening

variable {g : Stage} {done : Bool} {plain : Data} {next : WriteNext} {rq : Socks5.Req}

-- A session reads on in any state.
theorem leftReadTry_more {rest : Nat} {arrived : Option Data} (hh : Holds bt lss)
    {decrypt : Data → Data} {p : Packet}
    (he : enter decrypt bt lss = some (.reading p rest arrived)) :
    caught bt lss (s.leftReadTry cfg ch bt lss) = s.start (.leftRead p rest) := by
  unfold enter at he
  unfold leftReadTry
  rw [lssPackIntegrityCheck_eq hh] at he ⊢
  by_cases h₁ : bt < 4
  case pos => simp [h₁] at he
  by_cases h₂ : bt < 4 + lss.dataLen.toNat
  case pos =>
    have hl : ((4 + lss.dataLen.toNat - bt : Nat) : Int) > 0 := by omega
    simp only [h₁, h₂, hl, if_true, if_false] at he ⊢
    cases he
    simp only [caught, leftReadCatch, hl, if_true]
  simp only [h₁, h₂, if_false] at he
  split at he <;> cases he

-- A session that waits for a request processes the payload of the frame as one.
theorem leftReadTry_request (h : s.Unconnected aes log .opening) (hh : Holds bt lss)
    (he : enter (aes.decrypt cfg.cpp) bt lss = some (.writing plain next done))
    (hp : Socks5.Req.parse (Socks5.memory plain ch.beyond) plain.length = .ok rq)
    (hc : rq.cmd = 0x01) :
    caught bt lss (s.leftReadTry cfg ch bt lss) =
      ((((s.note (.unpacked plain)).requested rq (destNameOf cfg rq.destAddr) .connect
        s.socks5RespReply).timerRestart cfg).start
          (.resolve .tcp (cString (destNameOf cfg rq.destAddr)) rq.destPort)) := by
  unfold enter at he
  unfold leftReadTry
  rw [lssPackIntegrityCheck_eq hh] at he ⊢
  by_cases h₁ : bt < 4
  case pos => simp [h₁] at he
  by_cases h₂ : bt < 4 + lss.dataLen.toNat
  case pos =>
    have hl : ((4 + lss.dataLen.toNat - bt : Nat) : Int) > 0 := by omega
    simp only [h₁, h₂, hl, if_true, if_false] at he
    cases he
  simp only [h₁, h₂, if_false] at he ⊢
  split at he
  case isFalse   => cases he
  case isTrue ht =>
    simp only [Option.some.injEq, Stage.writing.injEq] at he
    have hr : ¬toInt (bt - (4 + lss.dataLen.toNat)) < 0 := by
      rw [restLen_eq hh (by omega)]
      omega
    have hd : s.leftReadData cfg ch bt lss =
        { s.note (.unpacked plain) with socks5State := .connecting }.socks5RequestProcessing
          cfg ch rq := by
      simp [leftReadData, unpackData, h.status, h.aesEncryptor, h.socks5State, hr, he.1, hp]
    rw [socks5RequestProcessing_eq] at hd
    simp only [hc, if_true] at hd
    cases RequestType.isData_iff.mp ht with
    | inl ht | inr ht => simp only [ht, hd, caught, note_socks5RespReply]

end Opening

section Relays

variable {r : Relay} {fs : List Frame} {wire : Data} {lb : Label}

-- A session that relays does not connect.
theorem Relays.not_connect (i : s.Relays aes log r) {p : Proto} {e : Endpoint}
    {rest : List Endpoint} {o : Option Outcome} : ⟨.connect p e rest, o⟩ ∉ s.io := by
  intro hm
  have ⟨others, hp, hs⟩ := i.io
  cases List.mem_cons.mp (hp.mem_iff.mp hm)
  case inl he =>
    cases r with | mk g u w => ?_
    cases g <;> cases he
  case inr hm => cases hs _ hm

theorem Relays.relayStep (i : s.Relays aes log r) (e : Step cfg s lb t) (hc : lb.Calm) :
    RelayStep cfg (s, lb.fromLocal ++ wire) lb (t, wire) := by
  cases e
  case start h   => exact .other (.start h) trivial
  case tick      => exact .other .tick trivial
  case deliver h => exact .other (.deliver h) trivial
  case complete op o hio c hx =>
    have e : Step cfg s (.complete op o) _ := .complete hio c hx
    cases op
    case leftRead =>
      cases c
      case error    => cases hc
      case leftRead => exact .arrive e
    case timerWait => cases hc
    case connect p e' rest =>
      have hm : ⟨.connect p e' rest, none⟩ ∈ s.io := by simp [hio]
      exact absurd hm i.not_connect
    all_goals exact .other e hc

-- Conversely, what it does is calm.
theorem Relays.calm (i : s.Relays aes log r) {u : Data}
    (e : RelayStep cfg (s, r.unread) lb (t, u)) :
    r.unread = lb.fromLocal ++ u ∧ Step cfg s lb t ∧ lb.Calm := by
  cases r with | mk g unread written => ?_
  cases e
  case arrive e  => exact ⟨rfl, e, rfl⟩
  case other h e =>
    refine ⟨?_, e, ?_⟩
    · cases lb
      case complete op o => cases op <;> first | rfl | cases h
      all_goals rfl
    · cases lb
      case complete op o =>
        cases op
        case leftRead  => cases h
        case connect   => exact fun hf => absurd (h.symm.trans hf) nofun
        case timerWait =>
          cases e with | complete hio => ?_
          have ⟨others, hp, hs⟩ := i.io
          cases Outstanding.perm_cons_cases (hio ▸ hp)
          case inr hm => cases hs _ hm.1
          case inl hm => cases g <;> cases hm.1
        all_goals exact h
      all_goals trivial

-- For a session that has read the first frame, what is sent begins with the second one.
theorem aligned_cons_iff {f : Frame} {x : Session × Data} (hl : x.2.length ≤ (stream fs).length) :
    Aligned (f :: fs) x lb ↔ Aligned fs x lb := by
  unfold Aligned
  split
  case h_1 d =>
    have hp : (stream (f :: fs)).length - (x.2.length - d.length) =
        f.size + ((stream fs).length - (x.2.length - d.length)) := by
      rw [stream_cons, List.length_append, f.length_bytes]
      omega
    rw [hp, inHeader_cons_add]
  case h_2 => exact .rfl

theorem separate_cons {f : Frame} {x : Session × Data} (hl : x.2.length ≤ (stream fs).length) :
    Separate (f :: fs) x lb := by
  unfold Separate
  split
  case h_2 => trivial
  case h_1 =>
    intro f' hf hlt
    cases hf
    rw [stream_cons, List.length_append, f.length_bytes] at hlt
    omega

end Relays

namespace Passes

variable {fs : List Frame} {rest : Nat} {d wire request : Data}

-- At first a new packet is being read, and nothing has been sent.
theorem start {n : Nat} (h : s.Unconnected aes log .opening) (hn : n ≤ maxLength)
    (io : s.Awaits ⟨.leftRead (.receiving n) 0, none⟩) :
    Passes cfg aes log [] [] (.opening (.receiving n) 0 none) s :=
  .opening h io ⟨.reading (pending_receiving hn), rfl, rfl, rfl⟩ nofun

-- Bytes of the first frame have arrived.
theorem arrive (h : s.Unconnected aes log .opening)
    (io : s.Awaits (progressOp (.opening lss rest (some d))))
    (a : Relay.At (aes.decrypt cfg.cpp) [] fs ⟨.reading lss rest none, d ++ wire, []⟩)
    (ne : d ≠ []) (le : d.length ≤ offered lss rest)
    (cut : inHeader fs ((stream fs).length - wire.length) = false)
    (sep : ∀ f ∈ fs.head?, (stream fs).length - (d ++ wire).length < f.size →
      (stream fs).length - (d ++ wire).length + d.length ≤ f.size) :
    Passes cfg aes log wire fs (.opening lss rest (some d)) s := by
  refine .opening h io (a.arrive ne le cut) ?_
  intro f hf
  cases fs with | nil => cases hf | cons => ?_
  cases hf
  have hlt := a.held_lt
  have hlen := congrArg List.length a.bytes
  have hs := sep f rfl
  simp only [Stage.held, Option.getD_none, Option.getD_some, List.append_nil,
    List.length_append] at *
  omega

-- The handler reads on, or it processes the request and resolves the name.
theorem handle (ch : Choice) (h : s.Unconnected aes log .opening) (hw : s.Waiting)
    (a : Relay.At (aes.decrypt cfg.cpp) [] fs ⟨.reading lss rest (some d), wire, []⟩)
    (whole : ∀ f ∈ fs.head?, (Stage.reading lss rest (some d)).held.length ≤ f.size)
    (hr : ∀ f ∈ fs.head?, aes.decrypt cfg.cpp f.packet.data = request)
    (w : Socks5.Req.WellFormed request) (hc : request[1]? = some 0x01) :
    ∃ g, Passes cfg aes log wire fs g (s.deliver cfg ch (.leftRead lss rest) (.bytes d)) ∧
      g.cost < (Progress.opening lss rest (some d)).cost := by
  cases a.valid with | arrived p ne le => ?_
  have hh := entry_holds p le
  have hheld := held_entry p le
  have hlen := length_held hh
  rw [hheld, List.length_append] at hlen
  have hb := a.bytes
  have hcut := a.cut
  simp only [Stage.held, Option.getD_some, ← hheld] at hb hcut whole
  rw [length_held hh] at hcut
  have hpos : 0 < (entry lss rest d).1 := by
    have := List.length_pos_iff.mpr ne
    omega
  obtain ⟨g, he, hv, hcost, hn⟩ := enter_at (aes.decrypt cfg.cpp) hh hpos hb hcut
  have hd : s.deliver cfg ch (.leftRead lss rest) (.bytes d) =
      caught (entry lss rest d).1 (entry lss rest d).2
        (s.leftReadTry cfg ch (entry lss rest d).1 (entry lss rest d).2) := rfl
  have hsum : (Progress.opening lss rest (some d)).cost = 3 * (entry lss rest d).1 + 1 := by
    rw [Progress.cost, Stage.cost, Stage.held, Option.getD_some, List.length_append, hlen]
  rw [hd, hsum]
  cases hn
  case inl hn =>
    obtain ⟨hg, lss', rest', hr⟩ := hn
    subst hr
    rw [leftReadTry_more hh he]
    refine ⟨.opening lss' rest' none, .opening (h.start rfl rfl) (hw.start _) ⟨hv, ?_, ?_, rfl⟩ ?_,
      Nat.lt_succ_of_le hcost⟩
    · rw [hg]
      exact hb
    · rw [hg, length_held hh]
      exact hcut
    · rw [hg]
      exact whole
  case inr hn =>
    obtain ⟨f, fs', hf, hbytes, _, hplain⟩ := hn
    subst hf
    -- Nothing of the second frame has been read.
    have hsize : (held (entry lss rest d).1 (entry lss rest d).2).length ≤ f.size := whole f rfl
    have hwire : wire = stream fs' := by
      have h₁ := congrArg List.length hb
      have h₂ := congrArg List.length hbytes
      simp only [List.length_append, stream_cons, f.length_bytes] at h₁ h₂
      have hz : g.held = [] := List.length_eq_zero_iff.mp (by omega)
      rwa [hz, List.nil_append] at hbytes
    rw [hr f rfl] at hplain
    have hseven := w.seven_le
    cases g with
    | reading =>
      have hz : request = [] := hplain.symm
      rw [hz] at hseven
      cases hseven
    | writing plain next done =>
      have he : enter (aes.decrypt cfg.cpp) (entry lss rest d).1 (entry lss rest d).2 =
        some (.writing request next done) := hplain ▸ he
      obtain ⟨rq, hp, hcmd⟩ :
        ∃ rq, Socks5.Req.parse (Socks5.memory request ch.beyond) request.length =
        .ok rq ∧ request[1]? = some rq.cmd := Socks5.Req.parse_wellFormed w
      have hcmd : rq.cmd = 0x01 := Option.some.inj (hcmd.symm.trans hc)
      rw [leftReadTry_request h hh he hp hcmd]
      have hw' : ((s.note (.unpacked request)).requested rq (destNameOf cfg rq.destAddr) .connect
        s.socks5RespReply).Waiting := hw
      refine ⟨.resolving _ _ none,
        .resolving h.requested rfl ((hw'.timerRestart cfg).start _) hwire, ?_⟩
      have hle : (entry lss rest d).1 ≤ (stream (f :: fs')).length := by
        rw [← hb, List.length_append, length_held hh]
        omega
      have hfour : ¬(entry lss rest d).1 < 4 := fun hlt =>
        absurd (eq_zero_of_inHeader hcut hlt hle) (by omega)
      show 5 < 3 * (entry lss rest d).1 + 1
      omega

-- The next endpoint is tried.
theorem connect {f : Frame} (h : s.Unconnected aes log .connecting) (hc : s.socks5Cmd = .connect)
    (hw : s.Waiting) (e : Endpoint) (rest : List Endpoint) :
    Passes cfg aes log (stream fs) (f :: fs) (.connecting e rest none)
      ((s.timerRestart cfg).start (.connect .tcp e rest)) :=
  .connecting ((h.timerRestart cfg).start rfl rfl) hc ((hw.timerRestart cfg).start _) nofun rfl

theorem retry {f : Frame} {e e' : Endpoint} {rest : List Endpoint} {o : Outcome}
    (h : s.Unconnected aes log .connecting) (hc : s.socks5Cmd = .connect) (hw : s.Waiting)
    (hf : o.failed) : Passes cfg aes log (stream fs) (f :: fs) (.connecting e' rest none)
      (s.deliver cfg ch (.connect .tcp e (e' :: rest)) o) := by
  cases o <;> cases hf
  exact connect ((h.abort _).abort _) hc ((hw.abort _).abort _) e' rest

-- The connection has been made, and the request is answered.
theorem accept {f : Frame} (h : s.Unconnected aes log .connecting) (hc : s.socks5Cmd = .connect)
    (hw : s.Waiting) (hb : cfg.bindAddrSocks5.isSome) (e : Endpoint) (rest : List Endpoint) :
    Passes cfg aes log (stream fs) (f :: fs)
      (.connected ⟨.reading (.receiving maxLength) 0 none, stream fs, []⟩)
      (s.deliver cfg ch (.connect .tcp e rest) .done) := by
  obtain ⟨ipv4, hip⟩ := Option.isSome_iff_exists.mp hb
  let u : Session := { s.timerCancel with socks5RespReply := 0x00 }
  obtain ⟨data, hd⟩ : ∃ data, u.packSocks5Resp cfg = .ok data := by
    simp [packSocks5Resp, hip, u, Socks5.Resp.pack, Socks5.Resp.setIPv4, Socks5.Resp.setBindPort,
      Except.mapError]
  obtain ⟨lss, _, he⟩ := socks5RespToLocal_eq (s := u) (by simp [u, h.aesEncryptor]) hd
  have heq : s.deliver cfg ch (.connect .tcp e rest) .done = u.accept data lss := by
    show (u.socks5RespToLocal cfg).1 = _
    rw [he, if_pos rfl]
  rw [heq]
  exact .connected {
    status := h.status
    socks5State := rfl
    socks5Cmd := hc
    socks5RespReply := rfl
    aesEncryptor := h.aesEncryptor
    io := by
      let reply : Outstanding Op Outcome := ⟨.leftWrite lss .leftWriteHandler, none⟩
      refine ⟨s.timerCancel.io ++ [reply], List.perm_append_singleton _ (_ ++ [reply]), ?_⟩
      intro y hy
      cases List.mem_append.mp hy
      case inl hy => exact hw.stopped y hy
      case inr hy =>
        cases List.mem_singleton.mp hy
        exact .writing
    log := by
      have hp := (h.log.quiet (e := .socks5Resp 0x00) rfl rfl).quiet (e := .packed data) rfl rfl
      have hs := hp.quiet (e := .started (.leftWrite lss .leftWriteHandler)) rfl rfl
      exact hs.quiet (e := .started (.leftRead (.receiving maxLength) 0)) rfl rfl }
    (.start le_rfl) rfl

-- What a step of the session does while the frames are on their way to it.
theorem step {lb : Label} {g : Progress} (p : Passes cfg aes log (lb.fromLocal ++ wire) fs g s)
    (e : Step cfg s lb t) (hc : lb.Calm) (ha : Aligned fs (s, lb.fromLocal ++ wire) lb)
    (hs : Separate fs (s, lb.fromLocal ++ wire) lb)
    (hr : ∀ f ∈ fs.head?, aes.decrypt cfg.cpp f.packet.data = request)
    (w : Socks5.Req.WellFormed request) (hcmd : request[1]? = some 0x01)
    (hb : cfg.bindAddrSocks5.isSome) : ∃ g', Passes cfg aes log wire fs g' t := by
  cases p
  case opening lss rest arrived a whole h io =>
    cases io.step h.status e hc
    case other io' hl =>
      rw [hl] at a
      exact ⟨_, .opening { h with } io' a whole⟩
    case complete o hx c io' =>
      cases arrived with | some => cases hx | none => ?_
      cases hx
      cases c
      case error       => cases hc
      case leftRead ne le =>
        refine ⟨_, arrive { h with } io' a ne le ?_ hs⟩
        simpa [Aligned, Label.fromLocal] using ha
    case deliver ch _ hx hw =>
      cases arrived with | none => cases hx | some d => ?_
      cases hx
      obtain ⟨g', p, _⟩ := handle ch (h.withIo _) hw a whole hr w hcmd
      exact ⟨g', p⟩
  case resolving found hw h hk io =>
    cases io.step h.status e hc
    case other io' hl =>
      rw [hl] at hw
      exact ⟨_, .resolving { h with } hk io' hw⟩
    case complete o hx c io' =>
      cases found with | some => cases hx | none => ?_
      cases hx
      cases c
      case error              => cases hc
      case resolve first rest =>
        exact ⟨.resolving _ _ (some (first, rest)), .resolving { h with } hk io' hw⟩
    case deliver ch _ hx hw' =>
      cases found with | none => cases hx | some p => ?_
      cases hx
      cases hw
      exact ⟨_, connect ((h.withIo _).abort _) hk (hw'.abort _) p.1 p.2⟩
  case connecting o ho hw h hk io =>
    cases io.step h.status e hc
    case other io' hl =>
      rw [hl] at hw
      exact ⟨_, .connecting { h with } hk io' ho hw⟩
    case complete o' hx c io' =>
      cases hx
      refine ⟨_, .connecting { h with } hk io' ?_ hw⟩
      intro o hx
      cases hx
      cases c
      case error   => exact .inr ⟨rfl, hc rfl⟩
      case connect => exact .inl rfl
    case deliver ch io' hx hw' =>
      cases hx
      cases hw
      cases ho _ rfl
      case inl hd =>
        subst hd
        exact ⟨_, accept (h.withIo io') hk hw' hb _ _⟩
      case inr hn =>
        obtain ⟨hf, ne⟩ := hn
        obtain ⟨e', rest', hrest⟩ := List.exists_cons_of_ne_nil ne
        subst hrest
        exact ⟨_, retry (h.withIo io') hk hw' hf⟩
  case connected r on hu i =>
    have hle := on.unread_le
    obtain ⟨r', hr', hu', i'⟩ := i.step on (hu ▸ i.relayStep e hc)
      ((aligned_cons_iff hle).mp (by rw [hu]; exact ha))
    cases hr'
    case inl hr' => exact ⟨_, .connected i' (hr' ▸ on) hu'⟩
    case inr m   => exact ⟨_, .connected i' (on.move m).1 hu'⟩

-- More frames are sent.
theorem extend {g : Progress} (p : Passes cfg aes log wire fs g s) (gs : List Frame) :
    ∃ g', Passes cfg aes log (wire ++ stream gs) (fs ++ gs) g' s ∧ g'.cost = g.cost := by
  cases p
  case opening lss rest arrived a whole h io =>
    refine ⟨_, .opening h io (a.extend gs) ?_, rfl⟩
    intro f hf
    cases fs
    case cons => exact whole f hf
    case nil =>
      have hb : (Stage.reading lss rest arrived).held ++ wire = [] := a.bytes
      rw [(List.append_eq_nil_iff.mp hb).1]
      exact Nat.zero_le _
  case resolving hw h hk io =>
    exact ⟨_, .resolving h hk io (hw ▸ (stream_append ..).symm), rfl⟩
  case connecting ho hw h hk io =>
    exact ⟨_, .connecting h hk io ho (hw ▸ (stream_append ..).symm), rfl⟩
  case connected r on hu i =>
    exact ⟨.connected ⟨r.stage, r.unread ++ stream gs, r.written⟩,
      .connected { i with } (on.extend gs) (by rw [hu]), rfl⟩

-- A step after which less is left to be done.
def Advances (cfg : Config) (aes : Crypto.Aes) (log : List Event) (wire : Data) (fs : List Frame)
    (g : Progress) (s : Session) : Prop :=
  ∃ lb t wire' g', wire = lb.fromLocal ++ wire' ∧ Step cfg s lb t ∧ lb.Calm ∧
    Aligned fs (s, wire) lb ∧ Separate fs (s, wire) lb ∧ Passes cfg aes log wire' fs g' t ∧
    5 * wire'.length + g'.cost < 5 * wire.length + g.cost

-- The session can read on until everything has been read.
theorem read (h : s.Unconnected aes log .opening)
    (io : s.Awaits (progressOp (.opening lss rest none)))
    (a : Relay.At (aes.decrypt cfg.cpp) [] fs ⟨.reading lss rest none, wire, []⟩) (hw : wire ≠ []) :
    Advances cfg aes log wire fs (.opening lss rest none) s := by
  obtain ⟨d, u, hu, ne, le, cut, front⟩ := a.readable hw
  subst hu
  have hlen := congrArg List.length a.bytes
  have hpos := List.length_pos_iff.mpr ne
  simp only [Stage.held, Option.getD_none, List.append_nil, List.length_append] at hlen
  obtain ⟨io', e, hio⟩ := io.complete cfg (.leftRead ne le) (by simp)
  have sep : ∀ f ∈ fs.head?, (stream fs).length - (d ++ u).length < f.size →
      (stream fs).length - (d ++ u).length + d.length ≤ f.size := by
    intro f hf _
    have := front f hf
    rw [List.length_append]
    omega
  refine ⟨_, _, u, _, rfl, e, rfl, ?_, sep, arrive { h with } hio a ne le cut sep, ?_⟩
  · simpa [Aligned] using cut
  · simp [Progress.cost, Stage.cost, Stage.held]
    omega

theorem move {g : Progress} (p : Passes cfg aes log wire fs g s)
    (hr : ∀ f ∈ fs.head?, aes.decrypt cfg.cpp f.packet.data = request)
    (w : Socks5.Req.WellFormed request) (hcmd : request[1]? = some 0x01)
    (hb : cfg.bindAddrSocks5.isSome) :
    Finished (s, wire) ∨ Advances cfg aes log wire fs g s := by
  cases p
  case opening lss rest arrived a whole h io =>
    cases arrived
    case none =>
      by_cases hw : wire = []
      case pos =>
        have ⟨_, hp, _⟩ := io
        exact .inl ⟨hw, lss, rest, hp.mem_iff.mpr (List.mem_cons_self ..)⟩
      case neg => exact .inr (read h io a hw)
    case some d =>
      have ⟨io', e, hw⟩ := io.deliver cfg sampleChoice
      have ⟨g', p, hc⟩ := handle sampleChoice (h.withIo io') hw a whole hr w hcmd
      exact .inr ⟨_, _, wire, g', rfl, e, trivial, trivial, trivial, p, Nat.add_lt_add_left hc _⟩
  case resolving f fs name port found hw h hk io =>
    cases found
    case none =>
      have c : Completes (.resolve .tcp name port) (.endpoints ⟨[], port⟩ []) := .resolve
      have ⟨io', e, hio⟩ := io.complete cfg c nofun
      refine .inr ⟨_, _, wire, .resolving name port (some (⟨[], port⟩, [])), rfl, e, rfl, trivial,
        trivial, .resolving { h with } hk hio hw, ?_⟩
      simp [Progress.cost]
    case some q =>
      have ⟨io', e, hw'⟩ := io.deliver cfg sampleChoice
      subst hw
      refine .inr ⟨_, _, _, _, rfl, e, trivial, trivial, trivial,
        connect ((h.withIo io').abort _) hk (hw'.abort _) q.1 q.2, ?_⟩
      simp [Progress.cost]
  case connecting f fs ep rest o ho hw h hk io =>
    cases o
    case none =>
      have ⟨io', e, hio⟩ := io.complete cfg .connect nofun
      refine .inr ⟨_, _, wire, .connecting ep rest (some .done), rfl, e, nofun, trivial, trivial,
        .connecting { h with } hk hio (fun x hx => .inl (Option.some.inj hx).symm) hw, ?_⟩
      simp [Progress.cost]
    case some o =>
      have ⟨io', e, hw'⟩ := io.deliver cfg sampleChoice
      subst hw
      cases ho _ rfl
      case inl hd =>
        subst hd
        refine .inr ⟨_, _, _, _, rfl, e, trivial, trivial, trivial,
          accept (h.withIo io') hk hw' hb ep rest, ?_⟩
        show 5 * _ + 0 < 5 * _ + (1 + 3 * rest.length)
        omega
      case inr hn =>
        have ⟨hf, ne⟩ := hn
        have ⟨e', rest', hrest⟩ := List.exists_cons_of_ne_nil ne
        subst hrest
        refine .inr ⟨_, _, _, _, rfl, e, trivial, trivial, trivial,
          retry (h.withIo io') hk hw' hf, ?_⟩
        simp [Progress.cost]
        omega
  case connected f fs r on hu i =>
    subst hu
    cases on.progress
    case inl idle => exact .inl (i.finished_iff.mp idle)
    case inr hm =>
      have ⟨r', m⟩ := hm
      have ⟨_, _, _, a⟩ := on
      have ⟨on', hlt⟩ := on.move m
      have ⟨lb, t, e, ha, i'⟩ := i.move a.valid m
      have ⟨hl, e', hc⟩ := i.calm e
      exact .inr ⟨lb, t, r'.unread, .connected r', hl, e', hc,
        (aligned_cons_iff on.unread_le).mpr ha, separate_cons on.unread_le,
        .connected i' on' rfl, hlt⟩

-- What has been written are payloads of the frames after the first one, and in the end it is all of
-- them.
theorem relayed {g : Progress} (p : Passes cfg aes log wire fs g s) :
    ∃ written, Relayed Event.toRemote Event.ends log written s.log ∧
      written <+: payloads (aes.decrypt cfg.cpp) fs.tail ∧
      (Finished (s, wire) → written = payloads (aes.decrypt cfg.cpp) fs.tail) := by
  cases p
  case opening lss rest arrived a _ h io =>
    refine ⟨[], h.log, List.nil_prefix, fun ⟨hw, _, _, hm⟩ => ?_⟩
    subst hw
    cases arrived
    case some => cases io.reads hm
    case none =>
      rw [a.finished]
      rfl
  case resolving h _ io =>
    exact ⟨[], h.log, List.nil_prefix, fun ⟨_, _, _, hm⟩ => nomatch io.reads hm⟩
  case connecting h _ io =>
    exact ⟨[], h.log, List.nil_prefix, fun ⟨_, _, _, hm⟩ => nomatch io.reads hm⟩
  case connected r on hu i =>
    subst hu
    exact ⟨r.written, i.log, on.isPrefix, fun hf => on.written (i.finished_iff.mpr hf)⟩

end Passes

end Session
end Lproxy.Server
