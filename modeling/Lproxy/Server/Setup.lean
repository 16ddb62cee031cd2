import Lproxy.Server.Opening
import Lproxy.Server.Pump

-- How a session gets from the request of a client to relaying when nothing comes behind the
-- request, and in how many steps.
namespace Lproxy.Server

-- The endpoints that a completion gets from the resolver, apart from the first one.
def Label.endpoints : Label → List Endpoint
  | complete (.resolve ..) (.endpoints _ rest) => rest
  | _                                          => []

-- The reply which says that the remote has been reached.
def Config.reply (cfg : Config) : Data :=
  match cfg.bindAddrSocks5 with
  | none      => []
  | some ipv4 =>
    ([0x05, 0x00, 0x00, 0x01] : Data) ++ ipv4.toList ++
      [((cfg.bindPortSocks5 >>> 8) &&& 0xff).toUInt8, (cfg.bindPortSocks5 &&& 0xff).toUInt8]

theorem Config.length_reply_le (cfg : Config) : cfg.reply.length ≤ maxLength := by
  unfold reply
  split <;> simp [maxLength]

theorem Config.length_reply {cfg : Config} (h : cfg.bindAddrSocks5.isSome) :
    cfg.reply.length = 10 := by
  obtain ⟨ipv4, hip⟩ := Option.isSome_iff_exists.mp h
  simp [reply, hip]

namespace Progress

def Opens : Progress → Prop
  | connected _ => False
  | _           => True

-- What is left to be done until the session relays, if a resolver returns at most `n` endpoints
-- after the first one. It pays for the waits on the timer that are to be started.
def price (n : Nat) : Progress → Nat
  | opening lss rest arrived   => 4 * (Stage.reading lss rest arrived).cost + 4 * n
  | resolving _ _ none         => 4 * n + 7
  | resolving _ _ (some p)     => 4 * p.2.length + 6
  | connecting _ rest none     => 4 * rest.length + 4
  | connecting _ rest (some _) => 4 * rest.length + 3
  | connected _                => 0

end Progress

namespace Session

variable {cfg : Config} {ch : Choice} {aes : Crypto.Aes} {log : List Event} {s t : Session}
  {bt n : Nat} {lss : Packet} {x : Outstanding Op Outcome} {lb : Label} {fs : List Frame}
  {wire request : Data} {g : Progress}

namespace LeftReadDone

-- The handler of a read starts at most two operations.
theorem length_io_le (h : LeftReadDone cfg ch s bt lss t) : t.io.length ≤ s.io.length + 2 := by
  cases h
  case exchange hp =>
    obtain ⟨_, hu, _⟩ := packExchange_some hp
    subst hu
    simp
  case request r   => cases r <;> simp
  all_goals simp

-- It connects no session by TCP.
theorem not_connected (h : LeftReadDone cfg ch s bt lss t) (hs : s.socks5State ≠ .connected) :
    t.socks5State = .connected → t.socks5Cmd ≠ .connect := by
  cases h
  case exchange hp =>
    obtain ⟨_, hu, _⟩ := packExchange_some hp
    subst hu
    exact fun h => absurd h hs
  case request r   => cases r <;> simp
  case badRequest  => simp
  all_goals exact fun h => absurd h (by assumption)

end LeftReadDone

-- A step completes the operation, runs its handler or the one of a wait, or lets time pass.
inductive Served (cfg : Config) (s : Session) (x : Outstanding Op Outcome) : Label → Session → Prop
  | complete {op : Op} {o : Outcome} {io : List (Outstanding Op Outcome)} (hx : x = ⟨op, none⟩)
    (c : Completes op o) (h : Awaits ⟨op, some o⟩ { s with io := io })
    (hl : io.length = s.io.length) : Served cfg s x (.complete op o) { s with io := io }
  | deliver {op : Op} {o : Outcome} {ch : Choice} {io : List (Outstanding Op Outcome)}
    (hx : x = ⟨op, some o⟩) (h : Waiting { s with io := io }) (hl : io.length + 1 = s.io.length) :
    Served cfg s x (.deliver op o ch) ({ s with io := io }.deliver cfg ch op o)
  | waited {o : Outcome} {ch : Choice} {io : List (Outstanding Op Outcome)}
    (h : Awaits x { s with io := io }) (hl : io.length + 1 = s.io.length) :
    Served cfg s x (.deliver .timerWait o ch) { s with io := io }
  | tick {d : Nat} : Served cfg s x (.tick d) { s with now := s.now + d }

theorem Awaits.served (h : s.Awaits x) (hd : s.status = .data) (e : Step cfg s lb t)
    (hc : lb.Calm) : Served cfg s x lb t := by
  cases e
  case start hs => exact absurd (hd.symm.trans hs) (by simp)
  case tick     => exact .tick
  case complete op o hio c _ =>
    cases h.completed hio o
    case inl hx => exact .complete hx.1 c hx.2 (by simp [hio])
    case inr ho =>
      subst ho
      cases hc
  case deliver op o _ hio =>
    cases h.taken hio
    case inl hx => exact .deliver hx.1.symm hx.2 (by simp [hio]; omega)
    case inr hw =>
      obtain ⟨hw, h'⟩ := hw
      cases hw.op
      have hf := hw.failed o rfl
      cases o <;> cases hf
      exact .waited h' (by simp [hio]; omega)

namespace Passes

theorem status (p : Passes cfg aes log wire fs g s) : s.status = .data := by
  cases p
  case opening h _      => exact h.status
  case resolving h _ _  => exact h.status
  case connecting h _ _ => exact h.status
  case connected i      => exact i.status

theorem awaits (p : Passes cfg aes log wire fs g s) (hg : g.Opens) : s.Awaits (progressOp g) := by
  cases p
  case connected => cases hg
  all_goals assumption

theorem log_opens (p : Passes cfg aes log wire fs g s) (hg : g.Opens) :
    Relayed Event.toRemote Event.ends log [] s.log := by
  cases p
  case connected        => cases hg
  case opening h _      => exact h.log
  case resolving h _ _  => exact h.log
  case connecting h _ _ => exact h.log

-- The clock and the waits may have changed.
theorem keep {io : List (Outstanding Op Outcome)} {now : Nat} (p : Passes cfg aes log wire fs g s)
    (hg : g.Opens) (h : Awaits (progressOp g) { s with io := io, now := now }) :
    Passes cfg aes log wire fs g { s with io := io, now := now } := by
  cases p
  case opening a whole u _       => exact .opening { u with } h a whole
  case resolving hw u hc _       => exact .resolving { u with } hc h hw
  case connecting ho hw u hc _   => exact .connecting { u with } hc h ho hw
  case connected                 => cases hg

-- What a step does, and how much less is left to be done after it.
def Advance (cfg : Config) (aes : Crypto.Aes) (log : List Event) (n : Nat) (wire : Data)
    (fs : List Frame) (k : Nat) (lb : Label) (t : Session) : Prop :=
  lb.fromRemote = [] ∧ lb.sent = none ∧
    ((∃ g, Passes cfg aes log wire fs g t ∧ g.Opens ∧
        (17 * wire.length + g.price n + t.io.length < k ∨
          lb.ticks ∧ 17 * wire.length + g.price n + t.io.length ≤ k)) ∨
      ∃ waits, fs ≠ [] ∧ wire = stream fs.tail ∧
        t.Pumps cfg aes log (.sending cfg.reply false)
          ⟨.reading (.receiving maxLength) 0 none, wire, []⟩ waits ∧ waits.length < k)

section Advance

variable {rest : Nat} {arrived : Option Data} {d : Data} {io : List (Outstanding Op Outcome)}

theorem handled (ch : Choice) (h : s.Unconnected aes log .opening)
    (hw : Waiting { s with io := io }) (hl : io.length + 1 = s.io.length)
    (a : Relay.At (aes.decrypt cfg.cpp) [] fs ⟨.reading lss rest (some d), wire, []⟩)
    (whole : ∀ f ∈ fs.head?, (Stage.reading lss rest (some d)).held.length ≤ f.size)
    (hr : ∀ f ∈ fs.head?, aes.decrypt cfg.cpp f.packet.data = request)
    (w : Socks5.Req.WellFormed request) (hc : request[1]? = some 0x01) :
    Advance cfg aes log n wire fs
      (17 * wire.length + (Progress.opening lss rest (some d)).price n + s.io.length)
      (.deliver (.leftRead lss rest) (.bytes d) ch)
      ({ s with io := io }.deliver cfg ch (.leftRead lss rest) (.bytes d)) := by
  have hu : { s with io := io }.Unconnected aes log .opening := h.withIo io
  obtain ⟨g, p, hcost⟩ := handle ch hu hw a whole hr w hc
  cases a.valid with | arrived pd ne le => ?_
  have done : LeftReadDone cfg ch { s with io := io } _ _
      ({ s with io := io }.deliver cfg ch (.leftRead lss rest) (.bytes d)) :=
    leftReadTry_done (fun _ => by simp [h.aesEncryptor]) (entry_holds pd le)
  have hio := done.length_io_le
  have hn := done.not_connected (by simp [h.socks5State])
  simp only at hio
  refine ⟨rfl, rfl, .inl ⟨g, p, ?_, .inl ?_⟩⟩
  · cases p
    case connected i => exact absurd i.socks5Cmd (hn i.socks5State)
    all_goals trivial
  · cases p
    case opening lss' rest' arrived' _ _ _ _ =>
      simp only [Progress.cost, Progress.price] at hcost ⊢
      omega
    case resolving found _ _ _ _ =>
      cases found <;> simp only [Progress.cost, Progress.price] at hcost ⊢ <;> omega
    case connecting o _ _ _ _ _ =>
      cases o <;> simp only [Progress.cost, Progress.price] at hcost ⊢ <;> omega
    case connected i => exact absurd i.socks5Cmd (hn i.socks5State)

-- The remote has been reached, and the reply is sent.
theorem accepted (ch : Choice) (h : s.Unconnected aes log .connecting) (hc : s.socks5Cmd = .connect)
    (hw : s.Waiting) (hb : cfg.bindAddrSocks5.isSome) (f : Frame) (e : Endpoint)
    (rest : List Endpoint) (u : Data) : ∃ waits, waits.length = s.io.length ∧
      (s.deliver cfg ch (.connect .tcp e rest) .done).Pumps cfg aes log (.sending cfg.reply false)
        ⟨.reading (.receiving maxLength) 0 none, u, []⟩ waits := by
  obtain ⟨ipv4, hip⟩ := Option.isSome_iff_exists.mp hb
  have io : (s.deliver cfg ch (.connect .tcp e rest) .done).io = s.timerCancel.io ++
      [⟨.leftWrite (dataReply cfg aes cfg.reply) .leftWriteHandler, none⟩,
        ⟨.leftRead (.receiving maxLength) 0, none⟩] := by
    simp [deliver, tcpConnectHandler, Outcome.failed, socks5RespToLocal, packSocks5Resp, hip,
      Socks5.Resp.setIPv4, Socks5.Resp.setBindPort, Socks5.Resp.pack, Except.mapError, packData,
      h.aesEncryptor, dataReply, Config.reply]
  have p : Passes cfg aes log (stream []) [f]
      (.connected ⟨.reading (.receiving maxLength) 0 none, stream [], []⟩)
      (s.deliver cfg ch (.connect .tcp e rest) .done) := accept h hc hw hb e rest
  cases p with | connected i => ?_
  refine ⟨s.timerCancel.io, by simp, { i with io := ?_, stopped := ?_ }⟩
  · rw [io]
    exact List.perm_append_comm
  · intro y hy
    have hop := (hw.abort _ y hy).op
    cases hw.stopped y hy <;> cases hop
    exact .mk

end Advance

-- What is left to be done before a step.
def due (n : Nat) (g : Progress) (wire : Data) (s : Session) : Nat :=
  17 * wire.length + g.price n + s.io.length

variable {op : Op} {o : Outcome} {io : List (Outstanding Op Outcome)} {u : Data}

-- The operation that is waited for has completed.
theorem completed (p : Passes cfg aes log ((Label.complete op o).fromLocal ++ wire) fs g s)
    (hg : g.Opens) (hx : progressOp g = ⟨op, none⟩) (c : Completes op o)
    (h : Awaits ⟨op, some o⟩ { s with io := io }) (hl : io.length = s.io.length)
    (hc : (Label.complete op o).Calm)
    (ha : Aligned fs (s, (Label.complete op o).fromLocal ++ wire) (.complete op o))
    (hs : Separate fs (s, (Label.complete op o).fromLocal ++ wire) (.complete op o))
    (hn : (Label.complete op o).endpoints.length ≤ n) :
    Advance cfg aes log n wire fs (due n g ((Label.complete op o).fromLocal ++ wire) s)
      (.complete op o) { s with io := io } := by
  cases p
  case connected => cases hg
  case opening lss rest arrived a whole u _ =>
    cases arrived <;> cases hx
    cases c
    case error                => cases hc
    case leftRead d ne le =>
      have cut : inHeader fs ((stream fs).length - wire.length) = false := by
        simpa [Aligned, Label.fromLocal] using ha
      refine ⟨rfl, rfl, .inl ⟨_, arrive { u with } h a ne le cut hs, trivial, .inl ?_⟩⟩
      have := List.length_pos_iff.mpr ne
      simp [due, Label.fromLocal, Progress.price, Stage.cost, Stage.held]
      omega
  case resolving found hw u hk _ =>
    cases found <;> cases hx
    cases c
    case error              => cases hc
    case resolve first rest =>
      refine ⟨rfl, rfl, .inl ⟨.resolving _ _ (some (first, rest)), .resolving { u with } hk h hw,
        trivial, .inl ?_⟩⟩
      simp only [due, Label.fromLocal, List.nil_append, Progress.price, Label.endpoints] at hn ⊢
      omega
  case connecting f fs e rest o' ho hw u hk _ =>
    cases o' <;> cases hx
    have ho : ∀ y, some o = some y → y = .done ∨ y.failed ∧ rest ≠ [] := by
      intro y hy
      cases hy
      cases c
      case error   => exact .inr ⟨rfl, hc rfl⟩
      case connect => exact .inl rfl
    refine ⟨rfl, rfl, .inl ⟨_, .connecting { u with } hk h ho hw, trivial, .inl ?_⟩⟩
    cases c <;> simp only [due, Label.fromLocal, List.nil_append, Progress.price] <;> omega

-- Its handler has run.
theorem delivered (ch : Choice) (p : Passes cfg aes log wire fs g s) (hg : g.Opens)
    (hx : progressOp g = ⟨op, some o⟩) (hw : Waiting { s with io := io })
    (hl : io.length + 1 = s.io.length)
    (hr : ∀ f ∈ fs.head?, aes.decrypt cfg.cpp f.packet.data = request)
    (w : Socks5.Req.WellFormed request) (hcmd : request[1]? = some 0x01)
    (hb : cfg.bindAddrSocks5.isSome) :
    Advance cfg aes log n wire fs (due n g wire s) (.deliver op o ch)
      ({ s with io := io }.deliver cfg ch op o) := by
  cases p
  case connected => cases hg
  case opening lss rest arrived a whole u _ =>
    cases arrived <;> cases hx
    exact handled ch u hw hl a whole hr w hcmd
  case resolving f fs name port found hu u hk _ =>
    cases found with | none => cases hx | some q => ?_
    cases hx
    cases hu
    refine ⟨rfl, rfl, .inl ⟨_, connect ((u.withIo _).abort _) hk (hw.abort _) q.1 q.2, trivial,
      .inl ?_⟩⟩
    simp [due, Progress.price, deliver, tcpResolveHandler]
    omega
  case connecting f fs e rest o' ho hu u hk _ =>
    cases hx
    cases hu
    cases ho _ rfl
    case inl hd =>
      subst hd
      obtain ⟨waits, hlen, h⟩ := accepted ch (u.withIo io) hk hw hb f e rest (stream fs)
      refine ⟨rfl, rfl, .inr ⟨waits, List.cons_ne_nil _ _, rfl, h, ?_⟩⟩
      simp [due, Progress.price, hlen]
      omega
    case inr hn =>
      obtain ⟨hf, ne⟩ := hn
      obtain ⟨e', rest', hrest⟩ := List.exists_cons_of_ne_nil ne
      subst hrest
      refine ⟨rfl, rfl, .inl ⟨_, retry (u.withIo io) hk hw hf, trivial, .inl ?_⟩⟩
      cases o <;> cases hf
      simp [due, Progress.price, deliver, tcpConnectHandler, Outcome.failed]
      omega

theorem wire_le (p : Passes cfg aes log wire fs g s) (hg : g.Opens) :
    wire.length ≤ (stream fs).length := by
  cases p
  case connected           => cases hg
  case resolving hw _ _ _  => simp [hw]
  case connecting hw _ _ _ => simp [hw]
  case opening a _ _ _     =>
    have hlen := congrArg List.length a.bytes
    simp only [List.length_append] at hlen
    omega

-- More frames are sent.
theorem append (p : Passes cfg aes log wire fs g s) (hg : g.Opens) (gs : List Frame) :
    Passes cfg aes log (wire ++ stream gs) (fs ++ gs) g s := by
  cases p
  case connected => cases hg
  case opening lss rest arrived a whole u io =>
    refine .opening u io (a.extend gs) ?_
    intro f hf
    cases fs
    case cons => exact whole f hf
    case nil =>
      have hb : (Stage.reading lss rest arrived).held ++ wire = [] := a.bytes
      rw [(List.append_eq_nil_iff.mp hb).1]
      exact Nat.zero_le _
  case resolving hw u hk io     => exact .resolving u hk io (hw ▸ (stream_append ..).symm)
  case connecting ho hw u hk io => exact .connecting u hk io ho (hw ▸ (stream_append ..).symm)

-- There is no second frame into which a read could go on.
theorem separate (p : Passes cfg aes log (lb.fromLocal ++ wire) fs g s) (hg : g.Opens)
    (hf : fs.length ≤ 1) : Separate fs (s, lb.fromLocal ++ wire) lb := by
  have hle := p.wire_le hg
  unfold Separate
  split
  case h_2 => trivial
  case h_1 d heq =>
    intro f hm _
    cases fs with | nil => cases hm | cons => ?_
    cases hm
    cases List.eq_nil_of_length_eq_zero (Nat.le_zero.mp (Nat.le_of_succ_le_succ hf))
    simp [Label.fromLocal] at hle ⊢
    omega

-- A step gets the session on, or time passes.
theorem advance (p : Passes cfg aes log (lb.fromLocal ++ wire) fs g s) (hg : g.Opens)
    (e : Step cfg s lb t) (hc : lb.Calm) (ha : Aligned fs (s, lb.fromLocal ++ wire) lb)
    (hs : Separate fs (s, lb.fromLocal ++ wire) lb)
    (hr : ∀ f ∈ fs.head?, aes.decrypt cfg.cpp f.packet.data = request)
    (w : Socks5.Req.WellFormed request) (hcmd : request[1]? = some 0x01)
    (hb : cfg.bindAddrSocks5.isSome) (hn : lb.endpoints.length ≤ n) :
    Advance cfg aes log n wire fs (due n g (lb.fromLocal ++ wire) s) lb t := by
  cases (p.awaits hg).served p.status e hc with
  | complete hx c h hl => exact p.completed hg hx c h hl hc ha hs hn
  | deliver hx hw hl   => exact p.delivered _ hg hx hw hl hr w hcmd hb
  | waited h hl        =>
    refine ⟨rfl, rfl, .inl ⟨g, p.keep hg h, hg, .inl ?_⟩⟩
    simp only [due, Label.fromLocal, List.nil_append]
    omega
  | tick               =>
    exact ⟨rfl, rfl, .inl ⟨g, p.keep hg (p.awaits hg), hg, .inr ⟨rfl, le_rfl⟩⟩⟩

-- The session can do something besides waiting for bytes.
def Moves (cfg : Config) (fs : List Frame) (wire : Data) (s : Session) : Prop :=
  ∃ lb t wire', wire = lb.fromLocal ++ wire' ∧ Step cfg s lb t ∧ lb.Calm ∧ lb.ticks = false ∧
    lb.fromRemote = [] ∧ lb.endpoints = [] ∧ Aligned fs (s, wire) lb

theorem moves_of_complete (h : s.Awaits ⟨op, none⟩) (c : Completes op o) (hop : op ≠ .timerWait)
    (hw : wire = (Label.complete op o).fromLocal ++ u) (hc : (Label.complete op o).Calm)
    (hr : (Label.complete op o).fromRemote = []) (hn : (Label.complete op o).endpoints = [])
    (ha : Aligned fs (s, wire) (.complete op o)) : Moves cfg fs wire s := by
  have ⟨io, e, _⟩ := h.complete cfg c hop
  exact ⟨_, _, u, hw, e, hc, rfl, hr, hn, ha⟩

theorem moves_of_deliver (h : s.Awaits ⟨op, some o⟩) : Moves cfg fs wire s := by
  have ⟨io, e, _⟩ := h.deliver cfg sampleChoice
  exact ⟨_, _, wire, rfl, e, trivial, rfl, rfl, rfl, trivial⟩

-- Unless it waits for the next bytes of a packet, and there are none, it can go on.
theorem moves (p : Passes cfg aes log wire fs g s) (hg : g.Opens) :
    (fs = [] ∧ wire = []) ∨ Moves cfg fs wire s := by
  cases p
  case connected => cases hg
  case opening lss rest arrived a whole u io =>
    cases arrived
    case some => exact .inr (moves_of_deliver io)
    case none =>
      by_cases hw : wire = []
      case pos =>
        subst hw
        exact .inl ⟨a.finished, rfl⟩
      case neg =>
        have ⟨d, u, hu, ne, le, cut, _⟩ := a.readable hw
        refine .inr (moves_of_complete io (.leftRead ne le) (by simp) hu rfl rfl rfl ?_)
        simpa [Aligned, hu] using cut
  case resolving name port found _ _ _ io =>
    cases found
    case some => exact .inr (moves_of_deliver io)
    case none =>
      have c : Completes (.resolve .tcp name port) (.endpoints ⟨[], port⟩ []) := .resolve
      exact .inr (moves_of_complete io c (by simp) rfl rfl rfl rfl trivial)
  case connecting o _ _ _ _ io =>
    cases o
    case some => exact .inr (moves_of_deliver io)
    case none =>
      exact .inr (moves_of_complete io .connect (by simp) rfl (by simp [Label.Calm, Outcome.failed])
        rfl rfl trivial)

end Passes

-- A session that relays resolves nothing.
theorem Pumps.endpoints_eq {k : Pump} {r : Relay} {waits : List (Outstanding Op Outcome)}
    (p : s.Pumps cfg aes log k r waits) (e : Step cfg s lb t) : lb.endpoints = [] := by
  rcases exists_concerns p.io p.status e with ⟨d, hl, _⟩ | ⟨y, hy, _, _, c⟩
  case inl => rw [hl]; rfl
  case inr =>
    cases c with
    | deliver                => rfl
    | @complete op _ _ hx c =>
      subst hx
      cases c with
      | resolve =>
        rcases List.mem_cons.mp hy with h | hy
        case inl => cases k <;> cases h
        case inr =>
          rcases List.mem_cons.mp hy with h | hy
          case inl => cases hs : r.stage <;> rw [hs] at h <;> cases h
          case inr => cases p.stopped _ hy
      | error => cases op <;> rfl
      | _     => rfl

end Session
end Lproxy.Server
