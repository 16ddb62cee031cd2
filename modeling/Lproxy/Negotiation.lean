import Lproxy.Local.Intake
import Lproxy.Server.Opening
import Lproxy.Transparency
import Lproxy.Tunnel

-- A client negotiates with a local session, and its bytes go through the local session and a server
-- session to the remote that it has asked for. How they are cut into reads is up to the network.
namespace Lproxy

-- The sessions, with the bytes that are on their way to them: `client` from the client, `back` from
-- the server, and `wire` from the local, of which `sent` are the packets.
structure Path where
  client : Data
  back : Data
  atLocal : Local.Session
  sent : List Packet
  wire : Data
  atServer : Server.Session

namespace Path

inductive Label
  | atLocal (lb : Local.Label)
  | atServer (lb : Server.Label)

-- A session takes a step. A read takes the bytes that are at the front. Nothing fails but attempts
-- to connect after which there is another endpoint.
inductive Step (l : Local.Config) (s : Server.Config) : Path → Label → Path → Prop
  | atLocal {client back wire : Data} {u t : Local.Session} {sent : List Packet}
    {v : Server.Session} {lb : Local.Label} (e : Local.Step l u lb t) (hc : lb.Calm) :
    Step l s ⟨lb.fromClient ++ client, lb.fromServer ++ back, u, sent, wire, v⟩ (.atLocal lb)
      ⟨client, back, t, sent ++ lb.sent.toList, wire ++ lb.sent.toList.flatMap Packet.toData, v⟩
  | atServer {client back wire : Data} {u : Local.Session} {sent : List Packet}
    {v t : Server.Session} {lb : Server.Label} (e : Server.Step s v lb t) (hc : lb.Calm) :
    Step l s ⟨client, back, u, sent, lb.fromLocal ++ wire, v⟩ (.atServer lb)
      ⟨client, back, u, sent, wire, t⟩

-- The greeting and the request are each returned by one read, the server reads the frame of the
-- request apart from the next one, and no read ends inside the header of a frame.
def Segmented (greeting request data : Data) (gs : List Frame) (p : Path) : Label → Prop
  | .atLocal lb  =>
    Local.Aligned gs (p.atLocal, p.back) lb ∧ Local.Whole greeting request data p.client lb
  | .atServer lb => ∀ fs : List Frame, fs.map Frame.packet = p.sent →
    Server.Aligned fs (p.atServer, p.wire) lb ∧ Server.Separate fs (p.atServer, p.wire) lb

-- Everything has been read, and both sessions wait for more.
def Finished (p : Path) : Prop :=
  Local.Sent (p.atLocal, p.client) ∧ Server.Finished (p.atServer, p.wire)

-- The local waits for the greeting of its client, and the server for a request. `gs` are any frames
-- that the server sends in the meantime.
structure Opened (l : Local.Config) (aes : Crypto.Aes) (greeting request data : Data)
    (gs : List Frame) (p : Path) : Prop where
  client : p.client = greeting ++ (request ++ data)
  back : p.back = stream gs
  atLocal : p.atLocal.Relaying l aes
  greets : p.atLocal.io = [⟨.leftRead .leftReadSocks5Step1, none⟩]
  sent : p.sent = []
  wire : p.wire = []
  atServer : p.atServer.Unconnected aes p.atServer.log .opening
  waits : ∃ n ≤ maxLength, p.atServer.Awaits ⟨.leftRead (.receiving n) 0, none⟩

end Path

section Frames

variable {l : Local.Config} {aes : Crypto.Aes} {fs : List Frame} {chunks : List Data}

theorem stream_eq (fs : List Frame) : stream fs = (fs.map Frame.packet).flatMap Packet.toData := by
  rw [List.flatMap_map]
  rfl

-- What is read from the client becomes frames.
theorem exists_frames (aes : Crypto.Aes) (h : ∀ c ∈ chunks, c.length ≤ maxLength) :
    ∃ fs : List Frame, fs.map Frame.packet = chunks.map (Local.dataRequest l aes) := by
  induction chunks
  case nil          => exact ⟨[], rfl⟩
  case cons c cs ih =>
    have ⟨fs, hfs⟩ := ih fun c hc => h c (.tail _ hc)
    have hf := Local.Session.framed_dataRequest l aes (h c (.head _))
    exact ⟨⟨Local.dataRequest l aes c, hf, Local.isData_pack⟩ :: fs, by simp [hfs]⟩

-- They carry it to the server.
theorem payloads_eq (h : fs.map Frame.packet = chunks.map (Local.dataRequest l aes)) :
    payloads (aes.decrypt l.cpp) fs = chunks.flatten := by
  have hp : payloads (aes.decrypt l.cpp) fs =
      (fs.map Frame.packet).flatMap fun p => aes.decrypt l.cpp p.data := by
    simp [payloads, List.flatMap_map]
  rw [hp, h, List.flatMap_map]
  simp [Local.dataRequest, Crypto.Aes.decrypt_encrypt, List.flatMap_id']

end Frames

namespace Path

variable {l : Local.Config} {s : Server.Config} {aes : Crypto.Aes}
  {methods greeting request data : Data} {gs fs : List Frame} {log : List Server.Event}
  {chunks : List Data} {k : Local.Intake} {g : Server.Progress} {p x y : Path} {lb : Label}

-- The greeting is accepted, the request is one to connect, and the server has an address to reply
-- with.
structure Negotiates (l : Local.Config) (s : Server.Config) (greeting request : Data) : Prop where
  greeting_ne : greeting ≠ []
  greeting_le : greeting.length ≤ maxLength
  answers : ∀ u : Local.Session, u.Answers greeting 0x00
  wellFormed : Socks5.Req.WellFormed request
  connect : request[1]? = some 0x01
  cpp : l.cpp = s.cpp
  bindAddr : s.bindAddrSocks5.isSome

theorem Negotiates.request_ne (n : Negotiates l s greeting request) : request ≠ [] := by
  have h := n.wellFormed.seven_le
  exact List.length_pos_iff.mp (by omega)

theorem Negotiates.request_le (n : Negotiates l s greeting request) :
    request.length ≤ maxLength := by
  have hm : maxLength = 4096 := rfl
  rw [n.wellFormed.length, Socks5.Req.size]
  have hb := (request.getD 4 0).toNat_lt
  split <;> try split
  all_goals omega

-- The bytes of the client are in the reads that the local has made, in the frames that it has sent,
-- and in what the server has made of them.
structure Carries (l : Local.Config) (s : Server.Config) (aes : Crypto.Aes)
    (greeting request data : Data) (gs : List Frame) (log : List Server.Event) (chunks : List Data)
    (fs : List Frame) (k : Local.Intake) (g : Server.Progress) (p : Path) : Prop where
  feeds : p.atLocal.Feeds l aes greeting request data gs p.client p.back chunks k
  passes : p.atServer.Passes s aes log p.wire fs g
  frames : fs.map Frame.packet = chunks.map (Local.dataRequest l aes)
  sent : p.sent = fs.map Frame.packet

theorem Opened.carries (h : p.Opened l aes greeting request data gs) :
    ∃ g, Carries l s aes greeting request data gs p.atServer.log [] [] (.greeting none) g p := by
  have ⟨n, hn, hio⟩ := h.waits
  have hp : p.atLocal.io.Perm [⟨.leftRead .leftReadSocks5Step1, none⟩] := h.greets ▸ .refl _
  refine ⟨.opening (.receiving n) 0 none, ?_, ?_, rfl, h.sent⟩
  · exact { h.atLocal with took := .waiting h.client, io := ⟨[], hp, .greeting h.back⟩ }
  · rw [h.wire]
    exact .start h.atServer hn hio

namespace Carries

-- The first frame carries the request.
theorem head (c : Carries l s aes greeting request data gs log chunks fs k g p)
    (n : Negotiates l s greeting request) :
    ∀ f ∈ fs.head?, aes.decrypt s.cpp f.packet.data = request := by
  intro f hf
  have hh := congrArg List.head? c.frames
  rw [List.head?_map, List.head?_map, hf] at hh
  have ⟨d, hd, he⟩ := Option.map_eq_some_iff.mp hh.symm
  have hd' : d = request := by
    cases c.feeds.cut
    case inl hz => simp [hz] at hd
    case inr hm =>
      have ⟨more, cut⟩ := hm
      exact cut.first d (by simp [List.head?_append, hd])
  rw [← he, ← n.cpp, Local.dataRequest, Local.data_pack, Crypto.Aes.decrypt_encrypt, hd']

-- What the local sends is on its way to the server.
theorem transmit (c : Carries l s aes greeting request data gs log chunks fs k g p)
    {t : Local.Session} {client back : Data} {chunks' : List Data} {k' : Local.Intake}
    {lb : Local.Label} (hs : lb.sent.toList = chunks'.map (Local.dataRequest l aes))
    (f : t.Feeds l aes greeting request data gs client back (chunks ++ chunks') k') :
    ∃ fs' g', g'.cost = g.cost ∧
      Carries l s aes greeting request data gs log (chunks ++ chunks') (fs ++ fs') k' g'
        ⟨client, back, t, p.sent ++ lb.sent.toList,
          p.wire ++ lb.sent.toList.flatMap Packet.toData, p.atServer⟩ := by
  have hle : ∀ c ∈ chunks', c.length ≤ maxLength := by
    intro c hc
    cases f.cut
    case inl hz => simp_all
    case inr hm =>
      have ⟨more, cut⟩ := hm
      exact cut.length_le c (by simp [hc])
  have ⟨fs', hfs⟩ := exists_frames (l := l) aes hle
  have ⟨g', passes, hg⟩ := c.passes.extend fs'
  rw [stream_eq, hfs, ← hs] at passes
  refine ⟨fs', g', hg, f, passes, ?_, ?_⟩
  · rw [List.map_append, List.map_append, c.frames, hfs]
  · rw [List.map_append, c.sent, hfs, hs]

theorem step (c : Carries l s aes greeting request data gs log chunks fs k g x)
    (n : Negotiates l s greeting request)
    (h : Transition.Guarded (Step l s) (Segmented greeting request data gs) x lb y) :
    ∃ chunks' fs' k' g', Carries l s aes greeting request data gs log chunks' fs' k' g' y := by
  have ⟨e, hc⟩ := h
  cases e
  case atLocal e hcalm =>
    have ⟨chunks', k', f, hs⟩ := c.feeds.step n.greeting_ne n.answers e hcalm hc.1 hc.2
    have ⟨fs', g', _, c'⟩ := c.transmit hs f
    exact ⟨_, _, _, _, c'⟩
  case atServer e hcalm =>
    have ⟨ha, hsep⟩ := hc fs c.sent.symm
    have ⟨g', passes⟩ := c.passes.step e hcalm ha hsep (c.head n) n.wellFormed n.connect n.bindAddr
    exact ⟨chunks, fs, k, g', c.feeds, passes, c.frames, c.sent⟩

-- Until everything has been read, the sessions can go on.
theorem progress (c : Carries l s aes greeting request data gs log chunks fs k g x)
    (n : Negotiates l s greeting request) :
    x.Finished ∨ ∃ lb y, Transition.Guarded (Step l s) (Segmented greeting request data gs) x lb y ∧
      ∃ chunks' fs' k' g', Carries l s aes greeting request data gs log chunks' fs' k' g' y ∧
        40 * y.client.length + k'.cost + (5 * y.wire.length + g'.cost) <
          40 * x.client.length + k.cost + (5 * x.wire.length + g.cost) := by
  cases c.passes.move (c.head n) n.wellFormed n.connect n.bindAddr
  case inr a =>
    have ⟨lb, t, wire', g', hw, e, hcalm, ha, hsep, passes, hlt⟩ := a
    have hfs {fs' : List Frame} (h : fs'.map Frame.packet = x.sent) : fs' = fs :=
      List.map_injective_iff.mpr Frame.packet_injective (h.trans c.sent)
    cases x with | mk client back u sent wire v => ?_
    cases hw
    refine .inr ⟨.atServer lb, _, ⟨.atServer e hcalm, fun fs' h => ?_⟩, chunks, fs, k, g',
      ⟨c.feeds, passes, c.frames, c.sent⟩, Nat.add_lt_add_left hlt _⟩
    cases hfs h
    exact ⟨ha, hsep⟩
  case inl hf =>
    cases c.feeds.move n.greeting_ne n.answers n.greeting_le n.request_ne n.request_le
    case inl hs => exact .inl ⟨hs, hf⟩
    case inr a =>
      have ⟨lb, t, client', hcl, e, hcalm, ha, hw, hb, chunks', k', f, hs, hlt⟩ := a
      have ⟨fs', g', hg, c'⟩ := c.transmit hs f
      have hwork : 40 * client'.length + k'.cost +
          (5 * (x.wire ++ lb.sent.toList.flatMap Packet.toData).length + g'.cost) <
          40 * x.client.length + k.cost + (5 * x.wire.length + g.cost) := by
        rw [hcl, List.length_append, List.length_append, hg]
        rw [List.length_append] at hlt
        omega
      cases x with | mk client back u sent wire v => ?_
      cases hcl
      have e' : Step l s ⟨lb.fromClient ++ client', lb.fromServer ++ back, u, sent, wire, v⟩
        (.atLocal lb) _ := .atLocal e hcalm
      rw [hb, List.nil_append] at e'
      exact .inr ⟨.atLocal lb, _, ⟨e', ha, hw⟩, _, _, _, _, c', hwork⟩

-- What the remote has got is a part of the data, and in the end it is all of them.
theorem relayed (c : Carries l s aes greeting request data gs log chunks fs k g x)
    (n : Negotiates l s greeting request) :
    ∃ written, Relayed Server.Event.toRemote Server.Event.ends log written x.atServer.log ∧
      written <+: data ∧ (x.Finished → written = data) := by
  have ⟨written, h, hp, hf⟩ := c.passes.relayed
  have htail : payloads (aes.decrypt s.cpp) fs.tail = chunks.tail.flatten :=
    n.cpp ▸ payloads_eq (by rw [List.map_tail, c.frames, List.map_tail])
  rw [htail] at hp hf
  refine ⟨written, h, hp.trans ?_, fun ⟨hs, hd⟩ => (hf hd).trans ?_⟩
  · cases c.feeds.cut
    case inl hz => simp [hz]
    case inr hm => exact hm.choose_spec.isPrefix
  · exact (c.feeds.sent hs).eq n.request_ne

end Carries

open Transition

-- What the sessions are doing in a state.
def Carried (l : Local.Config) (s : Server.Config) (aes : Crypto.Aes) (greeting request data : Data)
    (gs : List Frame) (log : List Server.Event) (a : Local.Intake × Server.Progress × Path)
    (x : Path) : Prop :=
  a.2.2 = x ∧ ∃ chunks fs, Carries l s aes greeting request data gs log chunks fs a.1 a.2.1 x

-- What is left to be done.
def work (a : Local.Intake × Server.Progress × Path) : Nat :=
  40 * a.2.2.client.length + a.1.cost + (5 * a.2.2.wire.length + a.2.1.cost)

-- From any state everything can be read and written.
theorem Carries.exists_finished (c : Carries l s aes greeting request data gs log chunks fs k g x)
    (n : Negotiates l s greeting request) :
    ∃ y, Reachable (· = x) (Guarded (Step l s) (Segmented greeting request data gs)) y ∧
      y.Finished := by
  have progress {a : Local.Intake × Server.Progress × Path} {q : Path}
      (h : Carried l s aes greeting request data gs log a q) : a.2.2.Finished ∨
        ∃ b lb y, Guarded (Step l s) (Segmented greeting request data gs) q lb y ∧
          Carried l s aes greeting request data gs log b y ∧ work b < work a := by
    have ⟨hq, chunks, fs, c⟩ := h
    subst hq
    refine (c.progress n).imp_right fun ⟨lb, y, e, chunks', fs', k', g', c', hlt⟩ => ?_
    exact ⟨(k', g', y), lb, y, e, ⟨rfl, chunks', fs', c'⟩, hlt⟩
  have ⟨b, y, r, ⟨hy, _⟩, hf⟩ := Reachable.exists_final
    (Carried l s aes greeting request data gs log) (fun a => a.2.2.Finished) work progress
    (a := (k, g, x)) ⟨rfl, chunks, fs, c⟩
  exact ⟨y, r, hy ▸ hf⟩

theorem Opened.reachable (h : p.Opened l aes greeting request data gs)
    (n : Negotiates l s greeting request)
    (hx : Reachable (· = p) (Guarded (Step l s) (Segmented greeting request data gs)) x) :
    ∃ chunks fs k g, Carries l s aes greeting request data gs p.atServer.log chunks fs k g x := by
  refine Invariant.reachable (P := fun x => ∃ chunks fs k g,
    Carries l s aes greeting request data gs p.atServer.log chunks fs k g x) ⟨?init, ?step⟩ hx
  case init =>
    rintro _ rfl
    have ⟨g, c⟩ := h.carries (s := s)
    exact ⟨_, _, _, g, c⟩
  case step =>
    intro x lb y ⟨_, _, _, _, c⟩ e
    exact c.step n e

-- The data that follow the request get to the remote that has been requested, if the messages are
-- cut into reads as they have been sent. From any state of the run, everything can be read and
-- written.
theorem negotiation_relays_data (hm : 0x00 ∈ methods) (hl : methods.length ≤ 255)
    (w : Socks5.Req.WellFormed request) (hc : request[1]? = some 0x01) (hcpp : l.cpp = s.cpp)
    (hb : s.bindAddrSocks5.isSome) (h : p.Opened l aes (Socks5.greeting methods) request data gs)
    (hx : Reachable (· = p)
      (Guarded (Step l s) (Segmented (Socks5.greeting methods) request data gs)) x) :
    (∃ written, Relayed Server.Event.toRemote Server.Event.ends p.atServer.log written
        x.atServer.log ∧ written <+: data ∧ (x.Finished → written = data)) ∧
      ∃ y, Reachable (· = x)
        (Guarded (Step l s) (Segmented (Socks5.greeting methods) request data gs)) y ∧
          y.Finished := by
  have n : Negotiates l s (Socks5.greeting methods) request := {
    greeting_ne := List.cons_ne_nil _ _
    greeting_le := by
      rw [Local.Session.length_greeting, maxLength]
      omega
    answers := fun _ => Local.Session.answers_greeting hm hl
    wellFormed := w
    connect := hc
    cpp := hcpp
    bindAddr := hb }
  obtain ⟨chunks, fs, k, g, c⟩ := h.reachable n hx
  exact ⟨c.relayed n, c.exists_finished n⟩

end Path

section Decide

-- Decide `Calm`.
def Local.Label.calm : Local.Label → Bool
  | complete _ o => !o.failed
  | _            => true

def Server.Label.calm : Server.Label → Bool
  | complete (.connect _ _ rest) o => !o.failed ∨ rest ≠ []
  | complete .timerWait _          => false
  | complete _ o                   => !o.failed
  | _                              => true

theorem Local.Label.calm_iff {lb : Local.Label} : lb.calm ↔ lb.Calm := by
  cases lb <;> simp [calm, Calm]

theorem Server.Label.calm_iff {lb : Server.Label} : lb.calm ↔ lb.Calm := by
  cases lb
  case complete op o => cases op <;> cases h : o.failed <;> simp [calm, Calm, h]
  all_goals simp [calm, Calm]

end Decide

namespace Path

open Transition

def act (l : Local.Config) (s : Server.Config) (p : Path) : Tunnel.Act → Option (Label × Path)
  | .atLocal a  =>
    match p.atLocal.act l a with
    | none         => none
    | some (lb, t) =>
      if lb.calm ∧ lb.fromClient <+: p.client ∧ lb.fromServer <+: p.back then
        some (.atLocal lb, ⟨p.client.drop lb.fromClient.length, p.back.drop lb.fromServer.length, t,
          p.sent ++ lb.sent.toList, p.wire ++ lb.sent.toList.flatMap Packet.toData, p.atServer⟩)
      else none
  | .atServer a =>
    match p.atServer.act s a with
    | none         => none
    | some (lb, t) =>
      if lb.calm ∧ lb.fromLocal <+: p.wire then
        some (.atServer lb,
          ⟨p.client, p.back, p.atLocal, p.sent, p.wire.drop lb.fromLocal.length, t⟩)
      else none

theorem act_sound {l : Local.Config} {s : Server.Config} : Schedule.Sound (act l s) (Step l s) := by
  intro p a lb q h
  cases p with | mk client back u sent wire v => ?_
  cases a
  case atLocal =>
    simp only [act] at h
    split at h
    case h_1 => cases h
    case h_2 he =>
      split at h <;> cases h
      case isTrue hc =>
        have ⟨hcalm, ⟨client', hcl⟩, ⟨back', hb⟩⟩ := hc
        subst hcl hb
        rw [List.drop_left, List.drop_left]
        exact .atLocal (Local.Session.act_sound he) (Local.Label.calm_iff.mp hcalm)
  case atServer =>
    simp only [act] at h
    split at h
    case h_1 => cases h
    case h_2 he =>
      split at h <;> cases h
      case isTrue hc =>
        have ⟨hcalm, wire', hw⟩ := hc
        subst hw
        rw [List.drop_left]
        exact .atServer (Server.Session.act_sound he) (Server.Label.calm_iff.mp hcalm)

section Sample

-- A client whose local and server have completed the handshake.
def new (t : Tunnel) (client : Data) : Path :=
  ⟨client, [], t.atLocal, [], [], t.atServer⟩

-- The handshake leaves the sessions in the states in which a negotiation begins.
def begins (t : Tunnel) : Bool :=
  t.atLocal.status = .data ∧ t.atLocal.getAes Local.sampleConfig = some sampleAes ∧
    t.atLocal.io = [⟨.leftRead .leftReadSocks5Step1, none⟩] ∧
    t.atServer.status = .data ∧ t.atServer.socks5State = .opening ∧
    t.atServer.aesEncryptor = some sampleAes ∧
    t.atServer.io = [⟨.leftRead (.receiving lengthHandshake) 0, none⟩]

theorem opened_of_begins {t : Tunnel} (h : begins t) (greeting request data : Data) :
    (new t (greeting ++ (request ++ data))).Opened Local.sampleConfig sampleAes greeting request
      data [] := by
  have ⟨hs, ha, hio, hs', hst, ha', hio'⟩ := of_decide_eq_true h
  exact {
    client := rfl
    back := rfl
    atLocal := ⟨hs, ha⟩
    greets := hio
    sent := rfl
    wire := rfl
    atServer := ⟨hs', hst, ha', .refl⟩
    waits := ⟨lengthHandshake, by decide, [], hio' ▸ .refl _, nofun⟩ }

-- A request for port 80 of 127.0.0.1.
def sampleRequest : Data :=
  [5, 1, 0, 1, 127, 0, 0, 1, 0, 80]

theorem sampleRequest_wellFormed : Socks5.Req.WellFormed sampleRequest :=
  ⟨rfl, .inl rfl, rfl, .inl rfl, rfl⟩

theorem negotiation_relays_data_sample :
    ∃ (t : Tunnel) (y : Path), Tunnel.Reachable Local.sampleConfig Server.sampleConfig t ∧
      Reachable (· = new t (Socks5.greeting [0x00] ++ (sampleRequest ++ [1, 2, 3])))
        (Guarded (Step Local.sampleConfig Server.sampleConfig)
          (Segmented (Socks5.greeting [0x00]) sampleRequest [1, 2, 3] [])) y ∧ y.Finished ∧
      Relayed Server.Event.toRemote Server.Event.ends t.atServer.log [1, 2, 3] y.atServer.log := by
  have ⟨t, r, h⟩ := Tunnel.exists_sampleRun Tunnel.handshake begins (by decide +kernel)
  have offers : 0x00 ∈ ([0x00] : Data) := List.mem_singleton_self _
  have relays {x : Path} := negotiation_relays_data (s := Server.sampleConfig) (x := x) offers
    (by decide) sampleRequest_wellFormed rfl rfl rfl (opened_of_begins h _ _ [1, 2, 3])
  have ⟨_, y, ry, hf⟩ := relays (.init rfl)
  have ⟨⟨written, hw, _, he⟩, _⟩ := relays ry
  exact ⟨t, y, r, ry, hf, he hf ▸ hw⟩

-- The client sends data without waiting for the reply to its request, and one read of the local
-- returns both. The server connects, and then waits for a frame.
def pipelined : List Tunnel.Act :=
  (Local.greeting ++ Local.Act.run 0 (.bytes (sampleRequest ++ [1])) ++
      Local.Act.run 1 .done).map .atLocal ++
    (Server.Act.run 0 (.bytes (Server.frame .data (sampleRequest ++ [1]))) ++
      Server.Act.run 1 (.endpoints ⟨[49], 80⟩ []) ++ Server.Act.run 2 .done).map .atServer

-- Everything has been read, and nothing has been written to the remote.
def lost (x : Path) : Bool :=
  x.client = [] ∧ ⟨.leftRead .leftReadHandler, none⟩ ∈ x.atLocal.io ∧ x.wire = [] ∧
    ⟨.leftRead (.receiving maxLength) 0, none⟩ ∈ x.atServer.io ∧
    x.atServer.log.flatMap Server.Event.toRemote = []

theorem data_lost : ¬∀ (l : Local.Config) (s : Server.Config) (aes : Crypto.Aes)
    (methods request data : Data) (gs : List Frame) (p x : Path), 0x00 ∈ methods →
    methods.length ≤ 255 → Socks5.Req.WellFormed request → request[1]? = some 0x01 →
    l.cpp = s.cpp → s.bindAddrSocks5.isSome →
    p.Opened l aes (Socks5.greeting methods) request data gs → Reachable (· = p) (Step l s) x →
    x.Finished →
    Relayed Server.Event.toRemote Server.Event.ends p.atServer.log data x.atServer.log := by
  intro h
  have ⟨t, _, ht⟩ := Tunnel.exists_sampleRun Tunnel.handshake
    (fun t => begins t ∧ (Schedule.exec (act Local.sampleConfig Server.sampleConfig)
      (fun _ _ => true) (new t (Socks5.greeting [0] ++ (sampleRequest ++ [1]))) pipelined).any lost)
    (by decide +kernel)
  have ⟨hb, hl⟩ := of_decide_eq_true ht
  have ⟨x, r, hx⟩ : ∃ x, Reachable (· = new t (Socks5.greeting [0] ++ (sampleRequest ++ [1])))
      (Step Local.sampleConfig Server.sampleConfig) x ∧ lost x :=
    Schedule.exists_reachable act_sound (by rfl) _ _ hl
  have ⟨hcl, hlo, hw, hse, hn⟩ := of_decide_eq_true hx
  have ⟨es, hes, hd, _⟩ := h _ _ _ [0] _ _ _ _ x (by decide) (by decide)
    sampleRequest_wellFormed rfl rfl rfl (opened_of_begins hb ..) r ⟨⟨hcl, hlo⟩, hw, _, _, hse⟩
  rw [hes, List.flatMap_append, hd] at hn
  exact absurd (List.append_eq_nil_iff.mp hn).2 nofun

end Sample

end Path
end Lproxy
