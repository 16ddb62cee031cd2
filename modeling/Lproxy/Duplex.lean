import Lproxy.Local.Pump
import Lproxy.Server.Pump
import Lproxy.Transparency
import Lproxy.Tunnel

-- A local session and a server session that relay the bytes of a client and those of a remote at
-- the same time. How the bytes are cut into reads is up to the network.
namespace Lproxy

-- The sessions, with the bytes that they have not read yet: `client` and `remote` from the two
-- peers, and `up` and `down` from the other session, of which `sentUp` and `sentDown` are the
-- packets.
structure Duplex where
  client : Data
  remote : Data
  sentUp : List Packet
  up : Data
  sentDown : List Packet
  down : Data
  atLocal : Local.Session
  atServer : Server.Session

namespace Duplex

open Tunnel (Label)

-- A session takes a step. A read takes the bytes that are at the front. Nothing fails.
inductive Step (l : Local.Config) (s : Server.Config) : Duplex → Label → Duplex → Prop
  | atLocal {client remote up down : Data} {sentUp sentDown : List Packet} {u t : Local.Session}
    {v : Server.Session} {lb : Local.Label} (e : Local.Step l u lb t) (hc : lb.Calm) :
    Step l s
      ⟨lb.fromClient ++ client, remote, sentUp, up, sentDown, lb.fromServer ++ down, u, v⟩
      (.atLocal lb)
      ⟨client, remote, sentUp ++ lb.sent.toList, up ++ lb.sent.toList.flatMap Packet.toData,
        sentDown, down, t, v⟩
  | atServer {client remote up down : Data} {sentUp sentDown : List Packet} {u : Local.Session}
    {v t : Server.Session} {lb : Server.Label} (e : Server.Step s v lb t) (hc : lb.Calm) :
    Step l s
      ⟨client, lb.fromRemote ++ remote, sentUp, lb.fromLocal ++ up, sentDown, down, u, v⟩
      (.atServer lb)
      ⟨client, remote, sentUp, up, sentDown ++ lb.sent.toList,
        down ++ lb.sent.toList.flatMap Packet.toData, u, t⟩

-- No read ends inside the header of a frame.
def Aligned (x : Duplex) : Label → Prop
  | .atLocal lb  => ∀ fs : List Frame, fs.map Frame.packet = x.sentDown →
    Local.Aligned fs (x.atLocal, x.down) lb
  | .atServer lb => ∀ fs : List Frame, fs.map Frame.packet = x.sentUp →
    Server.Aligned fs (x.atServer, x.up) lb

def ticks : Label → Bool
  | .atLocal _   => false
  | .atServer lb => lb.ticks

-- The bytes that a step gets from the client.
def fromClient : Label → Data
  | .atLocal lb => lb.fromClient
  | .atServer _ => []

-- A session can do something besides waiting.
def Moves (l : Local.Config) (s : Server.Config) (x : Duplex) : Prop :=
  ∃ lb y, Transition.Guarded (Step l s) Aligned x lb y ∧ ticks lb = false

-- Both sessions relay, and nothing is on its way between them. The server may still have to send
-- what it has got from the remote.
structure Established (l : Local.Config) (s : Server.Config) (aes : Crypto.Aes) (k : Pump)
    (waits : List (Outstanding Server.Op Server.Outcome)) (x : Duplex) : Prop where
  atLocal : ∃ n ≤ maxLength, x.atLocal.Pumps l aes x.atLocal.log (.reading none)
    ⟨.reading (.receiving n) 0 none, [], []⟩
  atServer : ∃ n ≤ maxLength, x.atServer.Pumps s aes x.atServer.log k
    ⟨.reading (.receiving n) 0 none, [], []⟩ waits
  valid : k.Valid
  up : x.up = []
  down : x.down = []
  sentUp : x.sentUp = []
  sentDown : x.sentDown = []

-- What the sessions are doing: the flow of the client's bytes, the one of the remote's bytes, and
-- the waits on the timer.
structure Flows where
  up : Flow
  down : Flow
  waits : List (Outstanding Server.Op Server.Outcome)

-- What is left to be done.
def Flows.work (a : Flows) : Nat :=
  a.up.work + a.down.work + a.waits.length

-- The bytes of the peers are those of the flows.
structure Carries (l : Local.Config) (s : Server.Config) (h : l.cpp = s.cpp) (aes : Crypto.Aes)
    (dataUp dataDown : Data) (logLocal : List Local.Event) (logServer : List Server.Event)
    (a : Flows) (x : Duplex) : Prop where
  atLocal : x.atLocal.Pumps l aes logLocal a.up.pump a.down.relay
  atServer : x.atServer.Pumps s aes logServer a.down.pump a.up.relay a.waits
  upward : a.up.Carries (Local.coding l aes h) dataUp
  downward : a.down.Carries (Server.coding s aes h.symm) dataDown
  up : a.up.Shows x.client x.up x.sentUp
  down : a.down.Shows x.remote x.down x.sentDown

variable {l : Local.Config} {s : Server.Config} {hcpp : l.cpp = s.cpp} {aes : Crypto.Aes}
  {dataUp dataDown : Data} {logLocal : List Local.Event} {logServer : List Server.Event}
  {a : Flows} {waits : List (Outstanding Server.Op Server.Outcome)} {x y : Duplex} {lb : Label}

theorem Step.exists_atLocal {lb : Local.Label} {t : Local.Session} (s : Server.Config)
    (client down : Data) (e : Local.Step l x.atLocal lb t) (h : lb.Calm)
    (hc : x.client = lb.fromClient ++ client) (hd : x.down = lb.fromServer ++ down) :
    ∃ y, Step l s x (.atLocal lb) y := by
  cases x
  cases hc
  cases hd
  exact ⟨_, .atLocal e h⟩

theorem Step.exists_atServer {lb : Server.Label} {t : Server.Session} (l : Local.Config)
    (remote up : Data) (e : Server.Step s x.atServer lb t) (h : lb.Calm)
    (hr : x.remote = lb.fromRemote ++ remote) (hu : x.up = lb.fromLocal ++ up) :
    ∃ y, Step l s x (.atServer lb) y := by
  cases x
  cases hr
  cases hu
  exact ⟨_, .atServer e h⟩

namespace Carries

-- A step of a session is one of a flow, or a wait on the timer ends or time passes.
theorem step (c : Carries l s hcpp aes dataUp dataDown logLocal logServer a x)
    (e : Step l s x lb y) (ha : x.Aligned lb) :
    ∃ b, Carries l s hcpp aes dataUp dataDown logLocal logServer b y ∧
      (b.work < a.work ∨ ticks lb ∧ b.work ≤ a.work) := by
  cases e
  case atLocal lb e hc =>
    rcases c.atLocal.step c.downward.on c.down.wire e hc (ha a.down.frames c.down.sent) with
      ⟨k, m, hd, p⟩ | ⟨hcl, hs, r, m, hd, p⟩
    case inl =>
      have ⟨f, upward, hlt, up, hk, u, hr⟩ := c.upward.pumped c.up m
      refine ⟨⟨f, a.down, a.waits⟩, ⟨hk ▸ p, hr ▸ { c.atServer with }, upward, c.downward, up, ?_⟩,
        .inl ?_⟩
      · exact ⟨c.down.source, hd, c.down.sent⟩
      · simp only [Flows.work]
        omega
    case inr =>
      have ⟨f, downward, hlt, down, hk, hr⟩ := c.downward.relayed c.down m
      have up := c.up
      rw [hcl] at up
      refine ⟨⟨a.up, f, a.waits⟩, ⟨hr ▸ p, hk ▸ c.atServer, c.upward, downward,
        by simpa [hs] using up, hd ▸ down⟩, .inl ?_⟩
      simp only [Flows.work]
      omega
  case atServer lb e hc =>
    rcases c.atServer.step c.upward.on c.up.wire e hc (ha a.up.frames c.up.sent) with
      ⟨k, m, hu, p⟩ | ⟨hr, hs, h⟩
    case inl =>
      have ⟨f, downward, hlt, down, hk, u, hr⟩ := c.downward.pumped c.down m
      refine ⟨⟨a.up, f, a.waits⟩, ⟨hr ▸ { c.atLocal with }, hk ▸ p, c.upward, downward, ?_, down⟩,
        .inl ?_⟩
      · exact ⟨c.up.source, hu, c.up.sent⟩
      · simp only [Flows.work]
        omega
    case inr =>
      have down := c.down
      rw [hr] at down
      rcases h with ⟨r, m, hu, p⟩ | ⟨hu, waits, p, hw⟩
      case inl =>
        have ⟨f, upward, hlt, up, hk, hr⟩ := c.upward.relayed c.up m
        refine ⟨⟨f, a.down, a.waits⟩, ⟨hk ▸ c.atLocal, hr ▸ p, upward, c.downward, hu ▸ up,
          by simpa [hs] using down⟩, .inl ?_⟩
        simp only [Flows.work]
        omega
      case inr =>
        refine ⟨⟨a.up, a.down, waits⟩, ⟨c.atLocal, p, c.upward, c.downward,
          ⟨c.up.source, hu, c.up.sent⟩, by simpa [hs] using down⟩, ?_⟩
        rcases hw with hlt | ⟨hw, ht⟩
        case inl => exact .inl (Nat.add_lt_add_left hlt _)
        case inr =>
          subst hw
          exact .inr ⟨ht, le_rfl⟩

theorem eq_of_sent {fs gs : List Frame} {sent : List Packet} (h : fs.map Frame.packet = sent)
    (h' : gs.map Frame.packet = sent) : fs = gs :=
  List.map_injective_iff.mpr Frame.packet_injective (h.trans h'.symm)

-- What the flows can do next, the sessions can do.
theorem moves_of_upward (c : Carries l s hcpp aes dataUp dataDown logLocal logServer a x)
    (h : ¬a.up.Idle) : x.Moves l s := by
  rcases c.upward.progress with hi | ⟨d, source, p, k, hs, m⟩ | ⟨r, m⟩
  case inl => exact absurd hi h
  case inr.inl =>
    have ⟨lb, t, e, hc, hd, hn, _, ha, _⟩ := c.atLocal.pump m
    have ⟨y, e'⟩ := Step.exists_atLocal s source x.down e hc (c.up.source.symm.trans (hd ▸ hs))
      (by rw [hn]; rfl)
    exact ⟨.atLocal lb, y, ⟨e', fun fs _ => ha fs _⟩, rfl⟩
  case inr.inr =>
    have ⟨_, _, _, at'⟩ := c.upward.on
    have ⟨lb, t, e, hc, ht, hu, hr, _, ha, _⟩ := c.atServer.relay at'.valid m
    have ⟨y, e'⟩ := Step.exists_atServer l x.remote r.unread e hc (by rw [hr]; rfl)
      (c.up.wire.symm.trans hu)
    refine ⟨.atServer lb, y, ⟨e', fun fs hf => ?_⟩, ht⟩
    rw [← c.up.wire, eq_of_sent hf c.up.sent]
    exact ha

theorem moves_of_downward (c : Carries l s hcpp aes dataUp dataDown logLocal logServer a x)
    (h : ¬a.down.Idle) : ∃ lb y, Transition.Guarded (Step l s) Aligned x lb y ∧ ticks lb = false ∧
      fromClient lb = [] := by
  rcases c.downward.progress with hi | ⟨d, source, p, k, hs, m⟩ | ⟨r, m⟩
  case inl => exact absurd hi h
  case inr.inl =>
    have ⟨lb, t, e, hc, ht, hd, hn, _, ha, _⟩ := c.atServer.pump m
    have ⟨y, e'⟩ := Step.exists_atServer l source x.up e hc (c.down.source.symm.trans (hd ▸ hs))
      (by rw [hn]; rfl)
    exact ⟨.atServer lb, y, ⟨e', fun fs _ => ha fs _⟩, ht, rfl⟩
  case inr.inr =>
    have ⟨_, _, _, at'⟩ := c.downward.on
    have ⟨lb, t, e, hc, hu, hr, _, ha, _⟩ := c.atLocal.relay at'.valid m
    have ⟨y, e'⟩ := Step.exists_atLocal s x.client r.unread e hc (by rw [hr]; rfl)
      (c.down.wire.symm.trans hu)
    refine ⟨.atLocal lb, y, ⟨e', fun fs hf => ?_⟩, rfl, hr⟩
    rw [← c.down.wire, eq_of_sent hf c.down.sent]
    exact ha

end Carries

variable {k : Pump} {p : Duplex}

-- The flows in the beginning.
theorem Established.carries (h : p.Established l s aes k waits) (hcpp : l.cpp = s.cpp) :
    ∃ a, Carries l s hcpp aes p.client (k.held ++ p.remote) p.atLocal.log p.atServer.log a p ∧
      a.work = 40 * (p.client.length + p.remote.length) + k.cost + waits.length := by
  have ⟨n, hn, atLocal⟩ := h.atLocal
  have ⟨m, hm, atServer⟩ := h.atServer
  refine ⟨⟨⟨p.client, .reading none, [], ⟨.reading (.receiving m) 0 none, [], []⟩⟩,
    ⟨p.remote, k, [], ⟨.reading (.receiving n) 0 none, [], []⟩⟩, waits⟩,
    ⟨atLocal, atServer, ?_, ?_, ?_, ?_⟩, ?_⟩
  · exact ⟨rfl, Nat.zero_le _, .start hm⟩
  · exact ⟨rfl, h.valid, .start hn⟩
  · exact ⟨rfl, h.up.symm, h.sentUp.symm⟩
  · exact ⟨rfl, h.down.symm, h.sentDown.symm⟩
  · simp [Flows.work, Flow.work, Relay.work, Stage.cost, Stage.held, heldBefore, Pump.cost]
    omega

open Transition

-- The remote gets the bytes of the client, and the client those of the remote, and neither session
-- ends. There is a bound on the number of steps, and when no session can do anything but wait, as
-- it can come to in any case, everything has been delivered.
theorem relays_both_ways (hcpp : l.cpp = s.cpp) (h : p.Established l s aes k waits)
    {tr : List (Duplex × Label)} (r : Run (Guarded (Step l s) Aligned) p tr x) :
    (∃ written, Relayed Server.Event.toRemote Server.Event.ends p.atServer.log written
      x.atServer.log ∧ written <+: p.client ∧
      (¬x.Moves l s → written = p.client)) ∧
    (∃ written, Relayed Local.Event.toClient Local.Event.ends p.atLocal.log written x.atLocal.log ∧
      written <+: k.held ++ p.remote ∧ (¬x.Moves l s → written = k.held ++ p.remote)) ∧
    (tr.countP fun e => !ticks e.2) ≤
      40 * (p.client.length + p.remote.length) + k.cost + waits.length ∧
    ∃ y, Reachable (· = x) (Guarded (Step l s) Aligned) y ∧ ¬y.Moves l s := by
  have ⟨a, c, hw⟩ := h.carries hcpp
  have ⟨b, c', hle⟩ := r.countP_le (Carries l s hcpp aes p.client (k.held ++ p.remote) p.atLocal.log
    p.atServer.log) Flows.work ticks (fun c e => c.step e.step e.cond) c
  have ⟨_, y, ry, _, hy⟩ := Reachable.exists_quiet (Carries l s hcpp aes p.client
    (k.held ++ p.remote) p.atLocal.log p.atServer.log) Flows.work ticks
    (fun c (e : Guarded (Step l s) Aligned _ _ _) => c.step e.step e.cond) c'
  refine ⟨⟨_, c'.atServer.log, c'.upward.isPrefix, fun hm => ?_⟩,
    ⟨_, c'.atLocal.log, c'.downward.isPrefix, fun hm => ?_⟩,
    (Nat.le_add_right ..).trans (hle.trans hw.le), y, ry, hy⟩
  · exact c'.upward.written (by_contra fun hi => hm (c'.moves_of_upward hi))
  · refine c'.downward.written (by_contra fun hi => hm ?_)
    have ⟨lb, y, e, ht, _⟩ := c'.moves_of_downward hi
    exact ⟨lb, y, e, ht⟩

section Sample

-- Two sessions that have been connected, a client that sends three bytes, and a remote that sends
-- one.
def new (t : Tunnel) : Duplex :=
  ⟨[1, 2, 3], [4], [], [], [], [], t.atLocal, t.atServer⟩

def stopped : Outstanding Server.Op Server.Outcome :=
  ⟨.timerWait, some (.error .operationAborted)⟩

def connected (t : Tunnel) : Bool :=
  t.atLocal.status = .data ∧ t.atLocal.getAes Local.sampleConfig = some sampleAes ∧
    t.atLocal.io =
      [⟨.rightRead (.receiving lengthHandshake) 0, none⟩, ⟨.leftRead .leftReadHandler, none⟩] ∧
    t.atServer.status = .data ∧ t.atServer.socks5State = .connected ∧
    t.atServer.socks5Cmd = .connect ∧ t.atServer.socks5RespReply = 0x00 ∧
    t.atServer.aesEncryptor = some sampleAes ∧
    t.atServer.io =
      [stopped, stopped, ⟨.leftRead (.receiving maxLength) 0, none⟩, ⟨.rightRead .tcp, none⟩]

theorem established_of_connected {t : Tunnel} (h : connected t) :
    (new t).Established Local.sampleConfig Server.sampleConfig sampleAes (.reading none)
      [stopped, stopped] := by
  have ⟨hs, ha, hio, hs', hst, hc, hr, ha', hio'⟩ := of_decide_eq_true h
  refine ⟨⟨lengthHandshake, by decide, ⟨hs, ha⟩, ?_, .refl⟩,
    ⟨maxLength, le_rfl, ⟨hs', hst, hc, hr, ha'⟩, ?_, ?_, .refl⟩, Nat.zero_le _, rfl, rfl, rfl, rfl⟩
  · exact hio ▸ .swap ..
  · have hp : [stopped, stopped, ⟨.leftRead (.receiving maxLength) 0, none⟩,
          ⟨.rightRead .tcp, none⟩].Perm
        [⟨.leftRead (.receiving maxLength) 0, none⟩, ⟨.rightRead .tcp, none⟩, stopped, stopped] :=
      @List.perm_append_comm _ [stopped, stopped] _
    exact hio' ▸ hp.trans (.swap ..)
  · simp [stopped, Server.Stopped.mk]

theorem relays_both_ways_sample : ∃ (p x : Duplex) (tr : List (Duplex × Label)),
    Run (Guarded (Step Local.sampleConfig Server.sampleConfig) Aligned) p tr x ∧
      (tr.countP fun e => !ticks e.2) ≤ 162 ∧
      Relayed Server.Event.toRemote Server.Event.ends p.atServer.log [1, 2, 3] x.atServer.log ∧
      Relayed Local.Event.toClient Local.Event.ends p.atLocal.log [4] x.atLocal.log := by
  have ⟨t, _, ht⟩ := Tunnel.exists_sampleRun (Tunnel.handshake ++ Tunnel.request ++
    (Server.connectRequest.drop 2 ++ Server.connection).map .atServer) connected (by decide +kernel)
  have h := established_of_connected ht
  have ⟨_, _, _, x, hx, hm⟩ := relays_both_ways rfl h .nil
  have ⟨p, tr, hp, r⟩ := hx.exists_run
  subst hp
  have ⟨⟨w, hw, _, he⟩, ⟨w', hw', _, he'⟩, hle, _⟩ := relays_both_ways rfl h r
  rw [he hm] at hw
  rw [he' hm] at hw'
  exact ⟨_, x, tr, r, hle, hw, hw'⟩

end Sample

end Duplex
end Lproxy
