import Lproxy.Duplex
import Lproxy.Handshake
import Lproxy.Local.Setup
import Lproxy.Negotiation
import Lproxy.Server.Setup

-- A connection from the greeting of the client on. The client waits for the reply to its request
-- before it sends its data, as SOCKS5 wants it to.
namespace Lproxy

-- What the two peers send. The client can do without authentication, and wants to connect.
structure Talk where
  methods : Data
  request : Data
  data : Data
  remote : Data
  offers : 0x00 ∈ methods
  length_le : methods.length ≤ 255
  wellFormed : Socks5.Req.WellFormed request
  connect : request[1]? = some 0x01

def Talk.greeting (k : Talk) : Data :=
  Socks5.greeting k.methods

theorem Talk.negotiates {l : Local.Config} {s : Server.Config} (k : Talk) (hcpp : l.cpp = s.cpp)
    (hb : s.bindAddrSocks5.isSome) : Path.Negotiates l s k.greeting k.request where
  greeting_ne := List.cons_ne_nil _ _
  greeting_le := by
    have := k.length_le
    rw [greeting, Local.Session.length_greeting, maxLength]
    omega
  answers _ := Local.Session.answers_greeting k.offers k.length_le
  wellFormed := k.wellFormed
  connect := k.connect
  cpp := hcpp
  bindAddr := hb

-- What is left to be done when the remote has been reached.
def Talk.later (k : Talk) (s : Server.Config) : Nat :=
  40 * (k.data.length + k.remote.length) + 5 * s.reply.length + 22

namespace Duplex

open Tunnel (Label)
open Transition

def endpoints : Label → List Server.Endpoint
  | .atLocal _   => []
  | .atServer lb => lb.endpoints

-- The client has been sent something of the server since the log `log`.
def Answered (log : List Local.Event) (u : Local.Session) : Prop :=
  ∃ written, written ≠ [] ∧ Relayed Local.Event.toClient Local.Event.ends log written u.log

-- The greeting and the request are each returned by one read, and the data are not read before the
-- client has been answered. The resolver finds at most `n` endpoints after the first one, and no
-- read ends inside the header of a frame.
structure Orderly (k : Talk) (log : List Local.Event) (n : Nat) (x : Duplex) (lb : Label) :
    Prop where
  aligned : x.Aligned lb
  greeting : fromClient lb ≠ [] → x.client = k.greeting ++ (k.request ++ k.data) →
    fromClient lb = k.greeting
  request : fromClient lb ≠ [] → x.client = k.request ++ k.data → fromClient lb = k.request
  patient : fromClient lb ≠ [] → x.client.length ≤ k.data.length → Answered log x.atLocal
  endpoints : (endpoints lb).length ≤ n

-- The local waits for the greeting, and the server for a request.
structure Opened (l : Local.Config) (aes : Crypto.Aes) (k : Talk) (p : Duplex) : Prop where
  client : p.client = k.greeting ++ (k.request ++ k.data)
  remote : p.remote = k.remote
  up : p.up = []
  down : p.down = []
  sentUp : p.sentUp = []
  sentDown : p.sentDown = []
  atLocal : p.atLocal.Relaying l aes
  greets : p.atLocal.io = [⟨.leftRead .leftReadSocks5Step1, none⟩]
  atServer : p.atServer.Unconnected aes p.atServer.log .opening
  waits : ∃ n ≤ maxLength, p.atServer.io = [⟨.leftRead (.receiving n) 0, none⟩]

-- Where the request is. `fs` has been sent, `client` has not been read, and `w` is left to be done.
inductive Asks (c : Coding) (k : Talk) : Nat → Pump → List Frame → Data → Prop
  | unread : Asks c k (17 * (4 + k.request.length) + 4) (.reading none) [] (k.request ++ k.data)
  | read : Asks c k (17 * (4 + k.request.length) + 3) (.reading (some k.request)) [] k.data
  | packed : Asks c k (17 * (4 + k.request.length) + 2) (.sending k.request false) [] k.data
  | sent {f : Frame} (h : f.packet = c.pack k.request) :
    Asks c k 1 (.sending k.request true) [f] k.data
  | done {f : Frame} (h : f.packet = c.pack k.request) : Asks c k 0 (.reading none) [f] k.data

namespace Asks

variable {c : Coding} {k : Talk} {w : Nat} {u v : Pump} {fs : List Frame} {d client : Data}
  {sent : Option Packet}

theorem move (a : Asks c k w u fs (d ++ client)) (m : u.Move c.pack d sent v)
    (hr : d ≠ [] → d ++ client = k.request ++ k.data → d = k.request)
    (hp : d ≠ [] → ¬(d ++ client).length ≤ k.data.length) (hle : k.request.length ≤ maxLength) :
    ∃ w' gs, gs.map Frame.packet = sent.toList ∧ Asks c k w' v (fs ++ gs) client ∧
      w' + 17 * (stream gs).length < w := by
  generalize he : d ++ client = client' at a
  cases a
  case unread =>
    cases m with | read ne _ => ?_
    cases hr ne he
    cases List.append_cancel_left he
    exact ⟨_, [], rfl, .read, by simp⟩
  case read =>
    cases m
    cases show client = k.data from he
    exact ⟨_, [], rfl, .packed, by simp⟩
  case packed =>
    cases m
    cases show client = k.data from he
    refine ⟨_, [⟨c.pack k.request, c.framed hle, c.isData _⟩], rfl, .sent rfl, ?_⟩
    simp [Frame.bytes, c.length_toData]
    omega
  case sent h =>
    cases m
    cases show client = k.data from he
    exact ⟨_, [], rfl, .done h, by simp⟩
  case done =>
    cases m with | read ne _ => ?_
    exact absurd (he ▸ le_rfl) (hp ne)

-- What the server is to make of it.
theorem payload (a : Asks c k w u fs client) :
    ∀ f ∈ fs.head?, c.decrypt f.packet.data = k.request := by
  intro f hf
  cases a <;> cases hf
  case sent h => rw [h, c.decrypt_pack]
  case done h => rw [h, c.decrypt_pack]

theorem length_le (a : Asks c k w u fs client) : fs.length ≤ 1 := by
  cases a <;> simp

end Asks

-- The chain of the local that relays what the server sends, before anything has been sent.
def unanswered : Relay :=
  ⟨.reading (.receiving lengthHandshake) 0 none, [], []⟩

theorem unanswered_move {decrypt : Data → Data} {r : Relay} : ¬unanswered.Move decrypt [] r := by
  intro m
  generalize he : unanswered = q at m
  cases m with
  | arrive ne =>
    have hu := congrArg Relay.unread he
    exact ne (List.append_eq_nil_iff.mp hu.symm).1
  | write     => cases congrArg Relay.stage he
  | handle h  =>
    subst he
    cases h

variable {l : Local.Config} {s : Server.Config} {hcpp : l.cpp = s.cpp} {aes : Crypto.Aes} {k : Talk}
  {n w : Nat} {logLocal : List Local.Event} {logServer : List Server.Event} {fs : List Frame}
  {client : Data}

-- What the local does until the server has been sent the request.
inductive Invites (l : Local.Config) (s : Server.Config) (hcpp : l.cpp = s.cpp) (aes : Crypto.Aes)
    (k : Talk) (log : List Local.Event) : Nat → List Frame → Data → Local.Session → Prop
  | greeting {u : Local.Session} {g : Local.Welcome} (h : u.Welcomes l aes log k.greeting g) :
    Invites l s hcpp aes k log (17 * (4 + k.request.length) + 4 + g.price) []
      (g.unread k.greeting ++ (k.request ++ k.data)) u
  | asking {u : Local.Session} {w : Nat} {v : Pump} {fs : List Frame} {client : Data}
    (a : Asks (Local.coding l aes hcpp) k w v fs client) (h : u.Pumps l aes log v unanswered) :
    Invites l s hcpp aes k log w fs client u

namespace Invites

variable {u t : Local.Session} {lb : Local.Label}

theorem step (i : Invites l s hcpp aes k logLocal w fs (lb.fromClient ++ client) u)
    (ng : Path.Negotiates l s k.greeting k.request) (e : Local.Step l u lb t) (hc : lb.Calm)
    (ha : Local.Aligned [] (u, []) lb) (hs : lb.fromServer = [])
    (hg : lb.fromClient ≠ [] → lb.fromClient ++ client = k.greeting ++ (k.request ++ k.data) →
      lb.fromClient = k.greeting)
    (hr : lb.fromClient ≠ [] → lb.fromClient ++ client = k.request ++ k.data →
      lb.fromClient = k.request)
    (hp : lb.fromClient ≠ [] → ¬(lb.fromClient ++ client).length ≤ k.data.length) :
    ∃ w' gs, gs.map Frame.packet = lb.sent.toList ∧
      Invites l s hcpp aes k logLocal w' (fs ++ gs) client t ∧
        w' + 17 * (stream gs).length < w := by
  generalize he : lb.fromClient ++ client = client' at i
  cases i with
  | @greeting _ g h =>
    have hw : lb.fromClient ≠ [] → g.unread k.greeting ≠ [] → lb.fromClient = k.greeting := by
      intro hne hu
      cases g
      case waiting => exact hg hne he
      all_goals exact absurd rfl hu
    have ⟨_, hsent, hn⟩ := h.advance ng.answers e hc hw ng.greeting_ne
    rcases hn with ⟨g', h', hlt, hu⟩ | ⟨hu, hf, h'⟩
    case inl =>
      rw [hu, List.append_assoc] at he
      cases List.append_cancel_left he
      refine ⟨_, [], by rw [hsent]; rfl, .greeting h', ?_⟩
      simp only [stream_nil, List.length_nil]
      omega
    case inr =>
      rw [hu, hf] at he
      cases show client = k.request ++ k.data from he
      refine ⟨_, [], by rw [hsent]; rfl, .asking .unread h', ?_⟩
      cases g <;> simp [Local.Welcome.price]
  | asking a h =>
    subst he
    have on : unanswered.On (aes.decrypt l.cpp) [] := .start (n := lengthHandshake) (by decide)
    have hu : unanswered.unread = lb.fromServer ++ [] := by rw [hs]; rfl
    have ha' : Local.Aligned [] (u, lb.fromServer ++ []) lb := by rwa [hs]
    rcases h.step on hu e hc ha' with ⟨v, m, _, h'⟩ | ⟨_, _, _, m, _⟩
    case inr => exact absurd m unanswered_move
    case inl =>
      have ⟨w', gs, hgs, a', hlt⟩ := a.move m hr hp ng.request_le
      exact ⟨w', gs, hgs, .asking a' h', hlt⟩

theorem payload (i : Invites l s hcpp aes k logLocal w fs client u) :
    ∀ f ∈ fs.head?, aes.decrypt s.cpp f.packet.data = k.request := by
  cases i with
  | greeting => simp
  | asking a => exact a.payload

theorem length_le (i : Invites l s hcpp aes k logLocal w fs client u) : fs.length ≤ 1 := by
  cases i with
  | greeting => simp
  | asking a => exact a.length_le

theorem log (i : Invites l s hcpp aes k logLocal w fs client u) :
    Relayed Local.Event.toClient Local.Event.ends logLocal [] u.log := by
  cases i with
  | greeting h => exact h.log
  | asking _ h => exact h.log

theorem not_answered (i : Invites l s hcpp aes k logLocal w fs client u) :
    ¬Answered logLocal u := by
  intro ⟨written, ne, es, hl, hw, _⟩
  have ⟨es', hl', hw', _⟩ := i.log
  cases List.append_cancel_left (hl.symm.trans hl')
  exact ne (hw.symm.trans hw')

-- When the server has been sent the request, the local waits for the data.
theorem ready (i : Invites l s hcpp aes k logLocal w fs client u) (hf : fs ≠ []) :
    client = k.data ∧ ∃ v f, fs = [f] ∧ u.Pumps l aes logLocal v unanswered ∧ v.held = [] ∧
      v.cost = w := by
  cases i with
  | greeting   => exact absurd rfl hf
  | asking a h =>
    cases a with
    | unread => exact absurd rfl hf
    | read   => exact absurd rfl hf
    | packed => exact absurd rfl hf
    | sent   => exact ⟨rfl, _, _, rfl, h, rfl, rfl⟩
    | done   => exact ⟨rfl, _, _, rfl, h, rfl, rfl⟩

-- Until then the local can go on.
theorem moves (i : Invites l s hcpp aes k logLocal w [] client u)
    (ng : Path.Negotiates l s k.greeting k.request) :
    ∃ lb t rest, client = lb.fromClient ++ rest ∧ Local.Step l u lb t ∧ lb.Calm ∧
      lb.fromServer = [] ∧ (∀ fs x, Local.Aligned fs x lb) ∧ (lb.fromClient ≠ [] →
        client = k.greeting ++ (k.request ++ k.data) ∧ lb.fromClient = k.greeting ∨
          client = k.request ++ k.data ∧ lb.fromClient = k.request) := by
  cases i with
  | @greeting _ g h =>
    have ⟨lb, t, e, hc, hf, hs, ha⟩ := h.moves ng.greeting_ne ng.greeting_le
    refine ⟨lb, t, k.request ++ k.data, by rw [hf], e, hc, hs, ha, fun hn => .inl ?_⟩
    rw [hf] at hn ⊢
    cases g
    case waiting => exact ⟨rfl, rfl⟩
    all_goals exact absurd rfl hn
  | @asking _ _ v _ _ a h =>
    have pump {d rest : Data} {sent : Option Packet} {v' : Pump} (hcl : client = d ++ rest)
        (m : v.Move (Local.dataRequest l aes) d sent v')
        (hd : d ≠ [] → client = k.request ++ k.data ∧ d = k.request) :
        ∃ lb t rest, client = lb.fromClient ++ rest ∧ Local.Step l u lb t ∧ lb.Calm ∧
          lb.fromServer = [] ∧ (∀ fs x, Local.Aligned fs x lb) ∧ (lb.fromClient ≠ [] →
            client = k.greeting ++ (k.request ++ k.data) ∧ lb.fromClient = k.greeting ∨
              client = k.request ++ k.data ∧ lb.fromClient = k.request) := by
      have ⟨lb, t, e, hc, hf, hs, _, ha, _⟩ := h.pump m
      exact ⟨lb, t, rest, hf ▸ hcl, e, hc, hs, ha, fun hn => .inr (hf ▸ hd (hf ▸ hn))⟩
    cases a with
    | unread => exact pump rfl (.read ng.request_ne ng.request_le) fun _ => ⟨rfl, rfl⟩
    | read   => exact pump rfl .pack (absurd rfl)
    | packed => exact pump rfl .send (absurd rfl)

end Invites

-- The remote has not been reached yet.
structure Asking (l : Local.Config) (s : Server.Config) (hcpp : l.cpp = s.cpp) (aes : Crypto.Aes)
    (k : Talk) (logLocal : List Local.Event) (logServer : List Server.Event) (w : Nat)
    (fs : List Frame) (g : Server.Progress) (x : Duplex) : Prop where
  atLocal : Invites l s hcpp aes k logLocal w fs x.client x.atLocal
  atServer : x.atServer.Passes s aes logServer x.up fs g
  opens : g.Opens
  remote : x.remote = k.remote
  sentUp : x.sentUp = fs.map Frame.packet
  sentDown : x.sentDown = []
  down : x.down = []

def after (f : Packet) (x : Duplex) : Duplex :=
  { x with sentUp := f :: x.sentUp }

-- How far the connection has got, and what is left to be done.
inductive Proceeds (l : Local.Config) (s : Server.Config) (hcpp : l.cpp = s.cpp) (aes : Crypto.Aes)
    (k : Talk) (n : Nat) (logLocal : List Local.Event) (logServer : List Server.Event) :
    Nat → Duplex → Prop
  | asking {w : Nat} {fs : List Frame} {g : Server.Progress} {x : Duplex}
    (h : Asking l s hcpp aes k logLocal logServer w fs g x) :
    Proceeds l s hcpp aes k n logLocal logServer
      (w + Server.Session.Passes.due n g x.up x.atServer + k.later s) x
  | relaying {a : Flows} {f : Frame} {x : Duplex}
    (c : Carries l s hcpp aes k.data (s.reply ++ k.remote) logLocal logServer a x) :
    Proceeds l s hcpp aes k n logLocal logServer a.work (x.after f.packet)

namespace Asking

variable {g : Server.Progress} {x y : Duplex} {lb : Label}

theorem step (h : Asking l s hcpp aes k logLocal logServer w fs g x)
    (ng : Path.Negotiates l s k.greeting k.request) (e : Step l s x lb y)
    (o : x.Orderly k logLocal n lb) :
    ∃ m, Proceeds l s hcpp aes k n logLocal logServer m y ∧
      (m < w + Server.Session.Passes.due n g x.up x.atServer + k.later s ∨
        ticks lb ∧ m ≤ w + Server.Session.Passes.due n g x.up x.atServer + k.later s) := by
  cases e
  case atLocal client remote up down sentUp sentDown u t v lb e hc =>
    obtain ⟨hs, hdown⟩ := List.append_eq_nil_iff.mp (show lb.fromServer ++ down = [] from h.down)
    have ha : Local.Aligned [] (u, []) lb := by
      have := o.aligned [] h.sentDown.symm
      rwa [hs, hdown] at this
    obtain ⟨w', gs, hgs, i, hlt⟩ := h.atLocal.step ng e hc ha hs o.greeting o.request
      fun hne hle => h.atLocal.not_answered (o.patient hne hle)
    have hup : lb.sent.toList.flatMap Packet.toData = stream gs := by rw [stream_eq, hgs]
    refine ⟨_, .asking {
      atLocal := i
      atServer := hup ▸ h.atServer.append h.opens gs
      opens := h.opens
      remote := h.remote
      sentUp := by rw [List.map_append, hgs, ← h.sentUp]
      sentDown := h.sentDown
      down := hdown }, .inl ?_⟩
    simp only [Server.Session.Passes.due, hup, List.length_append]
    omega
  case atServer client remote up down sentUp sentDown u v t lb e hc =>
    have p : v.Passes s aes logServer (lb.fromLocal ++ up) fs g := h.atServer
    obtain ⟨hr, hs, hn⟩ := p.advance h.opens e hc (o.aligned fs h.sentUp.symm)
      (p.separate h.opens h.atLocal.length_le) h.atLocal.payload
      ng.wellFormed ng.connect ng.bindAddr o.endpoints
    have hremote : remote = k.remote := by
      have := h.remote
      rwa [hr] at this
    have hsd : sentDown = [] := h.sentDown
    have hd : down = [] := h.down
    subst hsd hd
    rcases hn with ⟨g', p', hg, hlt⟩ | ⟨waits, ne, hup, p', hlt⟩
    case inl =>
      refine ⟨_, .asking (x := ⟨client, remote, sentUp, up, _, _, u, t⟩) (g := g') {
        atLocal := h.atLocal
        atServer := p'
        opens := hg
        remote := hremote
        sentUp := h.sentUp
        sentDown := by simp [hs]
        down := by simp [hs] }, ?_⟩
      simp only [Server.Session.Passes.due] at hlt ⊢
      exact hlt.imp (by omega) (And.imp_right (by omega))
    case inr =>
      obtain ⟨hcl, v', f, hf, hp, hh, hcost⟩ := h.atLocal.ready ne
      have hsent : sentUp = [f.packet] := by
        have := h.sentUp
        rwa [hf] at this
      have hclient : client = k.data := hcl
      have hwire : up = [] := by rwa [hf] at hup
      subst hclient hremote hwire hsent
      rw [hs]
      let a : Flows := {
        up := ⟨k.data, v', [], ⟨.reading (.receiving maxLength) 0 none, [], []⟩⟩
        down := ⟨k.remote, .sending s.reply false, [], unanswered⟩
        waits := waits }
      let z : Duplex := ⟨k.data, k.remote, [], [], [], [], u, t⟩
      have c : Carries l s hcpp aes k.data (s.reply ++ k.remote) logLocal logServer a z := {
        atLocal := hp
        atServer := p'
        upward := ⟨by simp [payloads, a, hh], by simp [Pump.Valid, a, hh], .start le_rfl⟩
        downward := ⟨rfl, s.length_reply_le, .start (n := lengthHandshake) (by decide)⟩
        up := ⟨rfl, rfl, rfl⟩
        down := ⟨rfl, rfl, rfl⟩ }
      have hreply : (Pump.sending s.reply false).cost = 22 + 5 * s.reply.length := rfl
      rw [List.append_nil] at hlt
      refine ⟨a.work, .relaying (f := f) c, .inl ?_⟩
      simp [a, unanswered, Flows.work, Flow.work, Relay.work, Stage.cost, Stage.held, heldBefore,
        hcost, hreply, Talk.later]
      omega

end Asking

section After

variable {x y : Duplex} {f : Packet} {lb : Label}

-- What has been sent before does not matter to a step.
theorem Step.after (e : Step l s x lb y) (f : Packet) : Step l s (x.after f) lb (y.after f) := by
  cases e with
  | atLocal e hc  => exact .atLocal e hc
  | atServer e hc => exact .atServer e hc

theorem Step.of_after (e : Step l s (x.after f) lb y) : ∃ z, y = z.after f ∧ Step l s x lb z := by
  cases x
  cases e with
  | atLocal e hc  => exact ⟨_, rfl, .atLocal e hc⟩
  | atServer e hc => exact ⟨_, rfl, .atServer e hc⟩

end After

namespace Carries

variable {a : Flows} {x y : Duplex} {lb : Label} {data back : Data}

theorem aligned_after (c : Carries l s hcpp aes data back logLocal logServer a x) (f : Frame) :
    (x.after f.packet).Aligned lb ↔ x.Aligned lb := by
  cases lb
  case atLocal  => exact .rfl
  case atServer lb =>
    have hle : x.up.length ≤ (stream a.up.frames).length := c.up.wire ▸ c.upward.on.unread_le
    constructor
    case mp =>
      intro h fs hf
      cases eq_of_sent hf c.up.sent
      exact (Server.Session.aligned_cons_iff hle).mp (h (f :: a.up.frames) (congrArg _ hf))
    case mpr =>
      intro h fs hf
      have hm : (f :: a.up.frames).map Frame.packet = (x.after f.packet).sentUp :=
        congrArg _ c.up.sent
      cases eq_of_sent hf hm
      exact (Server.Session.aligned_cons_iff hle).mpr (h _ c.up.sent)

theorem client_le (c : Carries l s hcpp aes data back logLocal logServer a x) :
    x.client.length ≤ data.length := by
  rw [← c.up.source, ← c.upward.bytes, List.length_append]
  exact Nat.le_add_left ..

-- Nothing is resolved any more.
theorem endpoints_eq (c : Carries l s hcpp aes data back logLocal logServer a x)
    (e : Step l s x lb y) : endpoints lb = [] := by
  cases e with
  | atLocal       => rfl
  | atServer e hc => exact c.atServer.endpoints_eq e

end Carries

-- A session can do something besides waiting.
def Acts (l : Local.Config) (s : Server.Config) (k : Talk) (log : List Local.Event) (n : Nat)
    (x : Duplex) : Prop :=
  ∃ lb y, Guarded (Step l s) (Orderly k log n) x lb y ∧ ticks lb = false

section Acts

variable {x : Duplex} {g : Server.Progress} {a : Flows} {f : Frame}

theorem Asking.acts (h : Asking l s hcpp aes k logLocal logServer w fs g x)
    (ng : Path.Negotiates l s k.greeting k.request) : x.Acts l s k logLocal n := by
  have hpos := List.length_pos_iff.mpr ng.greeting_ne
  have hpos' := List.length_pos_iff.mpr ng.request_ne
  by_cases hf : fs = []
  case pos =>
    subst hf
    have ⟨lb, t, rest, hcl, e, hc, hs, ha, hd⟩ := h.atLocal.moves ng
    have ⟨y, e'⟩ := Step.exists_atLocal s rest [] e hc hcl (by rw [hs, h.down]; rfl)
    have lengths (hn : lb.fromClient ≠ []) : k.data.length < x.client.length ∧
        (x.client = k.greeting ++ (k.request ++ k.data) → lb.fromClient = k.greeting) ∧
        (x.client = k.request ++ k.data → lb.fromClient = k.request) := by
      rcases hd hn with ⟨he, hq⟩ | ⟨he, hq⟩
      case inl =>
        refine ⟨?_, fun _ => hq, fun hr => ?_⟩
        · rw [he]
          simp
          omega
        · have := congrArg List.length (he.symm.trans hr)
          simp only [List.length_append] at this
          omega
      case inr =>
        refine ⟨?_, fun hg => ?_, fun _ => hq⟩
        · rw [he]
          simp
          omega
        · have := congrArg List.length (he.symm.trans hg)
          simp only [List.length_append] at this
          omega
    refine ⟨.atLocal lb, y, ⟨e', ?_⟩, rfl⟩
    exact {
      aligned := fun fs _ => ha fs _
      greeting := fun hn => (lengths hn).2.1
      request := fun hn => (lengths hn).2.2
      patient := fun hn hle => absurd (lengths hn).1 (Nat.not_lt.mpr hle)
      endpoints := Nat.zero_le _ }
  case neg =>
    rcases h.atServer.moves h.opens with ⟨hz, _⟩ | ⟨lb, t, up, hup, e, hc, ht, hr, hn, ha⟩
    case inl => exact absurd hz hf
    case inr =>
      have ⟨y, e'⟩ := Step.exists_atServer l k.remote up e hc (by rw [hr, h.remote]; rfl) hup
      refine ⟨.atServer lb, y, ⟨e', ?_⟩, ht⟩
      exact {
        aligned := by
          intro fs' hf'
          cases Carries.eq_of_sent hf' h.sentUp.symm
          exact ha
        greeting := fun hn => absurd rfl hn
        request := fun hn => absurd rfl hn
        patient := fun hn => absurd rfl hn
        endpoints := by simp [Duplex.endpoints, hn] }

-- The client sends its data when it has been answered, and so the answer comes first.
theorem Carries.acts (c : Carries l s hcpp aes k.data (s.reply ++ k.remote) logLocal logServer a x)
    (f : Frame) (ng : Path.Negotiates l s k.greeting k.request) (hr : s.reply ≠ [])
    (h : ¬(a.up.Idle ∧ a.down.Idle)) : (x.after f.packet).Acts l s k logLocal n := by
  have act {lb : Label} {y : Duplex} (e : Guarded (Step l s) Aligned x lb y) (ht : ticks lb = false)
      (hp : fromClient lb ≠ [] → Answered logLocal x.atLocal) :
      (x.after f.packet).Acts l s k logLocal n := by
    have hle := c.client_le
    have hpos := List.length_pos_iff.mpr ng.request_ne
    have le {d : Data} (he : (x.after f.packet).client = d) : d.length ≤ k.data.length := he ▸ hle
    refine ⟨lb, y.after f.packet, ⟨e.step.after _, ?_⟩, ht⟩
    exact {
      aligned := (c.aligned_after f).mpr e.cond
      greeting := by
        intro _ he
        have := le he
        simp only [List.length_append] at this
        omega
      request := by
        intro _ he
        have := le he
        simp only [List.length_append] at this
        omega
      patient := fun hn _ => hp hn
      endpoints := by simp [c.endpoints_eq e.step] }
  by_cases hd : a.down.Idle
  case neg =>
    have ⟨lb, y, e, ht, hf⟩ := c.moves_of_downward hd
    exact act e ht fun hn => absurd hf hn
  case pos =>
    have ⟨lb, y, e, ht⟩ := c.moves_of_upward fun hu => h ⟨hu, hd⟩
    refine act e ht fun _ => ⟨_, ?_, c.atLocal.log⟩
    rw [c.downward.written hd]
    exact fun hz => hr (List.append_eq_nil_iff.mp hz).1

end Acts

namespace Proceeds

variable {x y p : Duplex} {m : Nat} {lb : Label}

theorem step (h : Proceeds l s hcpp aes k n logLocal logServer m x)
    (ng : Path.Negotiates l s k.greeting k.request) (e : Step l s x lb y)
    (o : x.Orderly k logLocal n lb) :
    ∃ m', Proceeds l s hcpp aes k n logLocal logServer m' y ∧ (m' < m ∨ ticks lb ∧ m' ≤ m) := by
  cases h
  case asking h           => exact h.step ng e o
  case relaying a f x c   =>
    obtain ⟨z, hz, e'⟩ := e.of_after
    subst hz
    have ⟨b, c', hw⟩ := c.step e' ((c.aligned_after f).mp o.aligned)
    exact ⟨b.work, .relaying c', hw⟩

-- What has been relayed is a part of what is due, and in the end it is all of it.
theorem toRemote (h : Proceeds l s hcpp aes k n logLocal logServer m x)
    (ng : Path.Negotiates l s k.greeting k.request) (hr : s.reply ≠ []) :
    ∃ written, Relayed Server.Event.toRemote Server.Event.ends logServer written x.atServer.log ∧
      written <+: k.data ∧ (¬x.Acts l s k logLocal n → written = k.data) := by
  cases h
  case asking h         =>
    exact ⟨[], h.atServer.log_opens h.opens, List.nil_prefix, fun ha => absurd (h.acts ng) ha⟩
  case relaying a f x c =>
    refine ⟨_, c.atServer.log, c.upward.isPrefix, fun ha => ?_⟩
    have hi := not_not.mp (mt (c.acts f ng hr) ha)
    exact c.upward.written hi.1

theorem toClient (h : Proceeds l s hcpp aes k n logLocal logServer m x)
    (ng : Path.Negotiates l s k.greeting k.request) (hr : s.reply ≠ []) :
    ∃ written, Relayed Local.Event.toClient Local.Event.ends logLocal written x.atLocal.log ∧
      written <+: s.reply ++ k.remote ∧
      (¬x.Acts l s k logLocal n → written = s.reply ++ k.remote) := by
  cases h
  case asking h         =>
    exact ⟨[], h.atLocal.log, List.nil_prefix, fun ha => absurd (h.acts ng) ha⟩
  case relaying a f x c =>
    refine ⟨_, c.atLocal.log, c.downward.isPrefix, fun ha => ?_⟩
    have hi := not_not.mp (mt (c.acts f ng hr) ha)
    exact c.downward.written hi.2

end Proceeds

theorem Opened.proceeds {p : Duplex} (h : p.Opened l aes k) (hcpp : l.cpp = s.cpp) (n : Nat) :
    ∃ m, Proceeds l s hcpp aes k n p.atLocal.log p.atServer.log m p ∧
      m = 40 * (k.data.length + k.remote.length) + 17 * k.request.length + 5 * s.reply.length +
        4 * n + 99 := by
  obtain ⟨i, hi, hio⟩ := h.waits
  have atServer : p.atServer.Passes s aes p.atServer.log [] [] (.opening (.receiving i) 0 none) :=
    .start h.atServer hi ⟨[], hio ▸ .refl _, by simp⟩
  have atLocal : p.atLocal.Welcomes l aes p.atLocal.log k.greeting .waiting :=
    { h.atLocal with io := h.greets, log := .refl }
  have asking : Asking l s hcpp aes k p.atLocal.log p.atServer.log _ []
      (.opening (.receiving i) 0 none) p := {
    atLocal := by
      rw [h.client]
      exact .greeting atLocal
    atServer := h.up ▸ atServer
    opens := trivial
    remote := h.remote
    sentUp := h.sentUp
    sentDown := h.sentDown
    down := h.down }
  refine ⟨_, .asking asking, ?_⟩
  simp [Server.Session.Passes.due, h.up, hio, Server.Progress.price, Stage.cost, Stage.held,
    heldBefore, Talk.later, Local.Welcome.price]
  omega

-- The sessions of a tunnel, with two peers that have something to say.
def start (t : Tunnel) (k : Talk) : Duplex :=
  ⟨k.greeting ++ (k.request ++ k.data), k.remote, [], [], [], [], t.atLocal, t.atServer⟩

-- The handshake leaves the sessions in the states in which a connection begins.
theorem start_opened {q : Tunnel} (h : Honest l s) (r : Tunnel.Reachable l s q) (o : q.Opened s)
    (k : Talk) : ∃ aes, (start q k).Opened l aes k := by
  have ⟨key, hk, ha⟩ := o.key
  have i := Local.Session.inv_reachable (Tunnel.inv_reachable h r).atLocal
  refine ⟨Crypto.Aes.raw256 s.cpp key, ?_⟩
  exact {
    client := rfl
    remote := rfl
    up := rfl
    down := rfl
    sentUp := rfl
    sentDown := rfl
    atLocal := ⟨o.status.1, by rw [← h.cpp, start, i.getAes, hk]; rfl⟩
    greets := o.atLocal
    atServer := ⟨o.status.2, o.opening, ha, .refl⟩
    waits := ⟨lengthHandshake, by decide, o.atServer⟩ }

-- A client that has completed its handshake gets to the remote that it has asked for. The remote
-- gets the data of the client, and the client a reply and then the bytes of the remote, and neither
-- session ends. There is a bound on the number of steps, and when no session can do anything but
-- wait, as it can come to in any case, everything has been delivered.
theorem serves_connection {q : Tunnel} (h : Honest l s) (hb : s.bindAddrSocks5.isSome)
    (hq : Tunnel.Reachable l s q) (ho : q.Opened s) (k : Talk) (n : Nat) {x : Duplex}
    {tr : List (Duplex × Label)}
    (r : Run (Guarded (Step l s) (Orderly k q.atLocal.log n)) (start q k) tr x) :
    (∃ written, Relayed Server.Event.toRemote Server.Event.ends q.atServer.log written
      x.atServer.log ∧ written <+: k.data ∧
      (¬x.Acts l s k q.atLocal.log n → written = k.data)) ∧
    (∃ written, Relayed Local.Event.toClient Local.Event.ends q.atLocal.log written x.atLocal.log ∧
      written <+: s.reply ++ k.remote ∧
      (¬x.Acts l s k q.atLocal.log n → written = s.reply ++ k.remote)) ∧
    (tr.countP fun e => !ticks e.2) ≤
      40 * (k.data.length + k.remote.length) + 17 * k.request.length + 4 * n + 149 ∧
    ∃ y, Reachable (· = x) (Guarded (Step l s) (Orderly k q.atLocal.log n)) y ∧
      ¬y.Acts l s k q.atLocal.log n := by
  have ng := k.negotiates h.cpp hb
  have hl := s.length_reply hb
  have ne : s.reply ≠ [] := by
    intro he
    rw [he] at hl
    cases hl
  have ⟨aes, o⟩ := start_opened h hq ho k
  have ⟨m, p, hm⟩ := o.proceeds h.cpp n
  have ⟨m', p', hle⟩ := r.countP_le (Proceeds l s h.cpp aes k n q.atLocal.log q.atServer.log)
    id ticks (fun p e => p.step ng e.step e.cond) p
  have ⟨_, y, ry, _, hy⟩ := Reachable.exists_quiet
    (Proceeds l s h.cpp aes k n q.atLocal.log q.atServer.log) id ticks
    (fun p (e : Guarded (Step l s) (Orderly k q.atLocal.log n) _ _ _) => p.step ng e.step e.cond) p'
  refine ⟨p'.toRemote ng ne, p'.toClient ng ne, ?_, y, ry, hy⟩
  have hle := (Nat.le_add_right ..).trans hle
  rw [id, hm, hl] at hle
  omega

section Sample

-- A client that sends three bytes to port 80 of 127.0.0.1, which sends one.
def sampleTalk : Talk where
  methods := [0x00]
  request := Path.sampleRequest
  data := [1, 2, 3]
  remote := [4]
  offers := by decide
  length_le := by decide
  wellFormed := Path.sampleRequest_wellFormed
  connect := rfl

theorem serves_connection_sample : ∃ (q : Tunnel) (x : Duplex) (tr : List (Duplex × Label)),
    Tunnel.Reachable Local.sampleConfig Server.sampleConfig q ∧
      Run (Guarded (Step Local.sampleConfig Server.sampleConfig)
        (Orderly sampleTalk q.atLocal.log 0)) (start q sampleTalk) tr x ∧
      (tr.countP fun e => !ticks e.2) ≤ 479 ∧
      Relayed Server.Event.toRemote Server.Event.ends q.atServer.log [1, 2, 3] x.atServer.log ∧
      Relayed Local.Event.toClient Local.Event.ends q.atLocal.log (Server.sampleConfig.reply ++ [4])
        x.atLocal.log := by
  have ⟨q, hq, ho⟩ := (Tunnel.Shakes.initial Tunnel.new_initial).exists_opened Tunnel.sample_capable
  have hq : Tunnel.Reachable Local.sampleConfig Server.sampleConfig q :=
    (Reachable.init Tunnel.new_initial).trans hq.of_guarded
  have serves {x : Duplex} {tr : List (Duplex × Label)} (r : Run _ _ tr x) :=
    serves_connection Tunnel.sample_honest rfl hq ho sampleTalk 0 r
  have ⟨_, _, _, x, hx, hm⟩ := serves .nil
  have ⟨p, tr, hp, r⟩ := hx.exists_run
  subst hp
  have ⟨⟨w, hw, _, he⟩, ⟨w', hw', _, he'⟩, hle, _⟩ := serves r
  rw [he hm] at hw
  rw [he' hm] at hw'
  exact ⟨q, x, tr, hq, r, hle, hw, hw'⟩

end Sample

end Duplex
end Lproxy
