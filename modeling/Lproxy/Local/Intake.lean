import Lproxy.Codec
import Lproxy.Local.Frames
import Lproxy.Local.Greeting
import Lproxy.Local.Link
import Lproxy.Local.Relay

-- How a session takes in what its client sends. It answers the greeting; after that, whatever a
-- read returns becomes a frame. In the meantime it relays what the server sends.
namespace Lproxy

-- The greeting of RFC 1928 that offers `methods`.
def Socks5.greeting (methods : Data) : Data :=
  0x05 :: .ofNat methods.length :: methods

namespace Local

-- What the session is doing about its client.
inductive Intake
  | greeting (arrived : Option Data)
  | answering (done : Bool)
  | reading (arrived : Option Data)
  | sending (d : Data) (done : Bool)

-- What is left to be done about what has been read. It pays for the frame that is to be sent.
def Intake.cost : Intake → Nat
  | greeting none     => 0
  | greeting (some _) => 3
  | answering false   => 2
  | answering true    => 1
  | reading none      => 0
  | reading (some d)  => 23 + 5 * d.length
  | sending d false   => 22 + 5 * d.length
  | sending _ true    => 1

-- The operation that is outstanding.
def intakeOp (cfg : Config) (aes : Crypto.Aes) : Intake → Outstanding Op Outcome
  | .greeting arrived => ⟨.leftRead .leftReadSocks5Step1, arrived.map .bytes⟩
  | .answering done   =>
    ⟨.leftWrite [0x05, 0x00] .leftWriteSocks5Step1Handler, if done then some .done else none⟩
  | .reading arrived  => ⟨.leftRead .leftReadHandler, arrived.map .bytes⟩
  | .sending d done   =>
    ⟨.rightWrite (dataRequest cfg aes d) .rightWriteHandler, if done then some .done else none⟩

-- The bytes that a completion gets from the client, and those that it gets from the server.
def Label.fromClient : Label → Data
  | complete (.leftRead _) (.bytes d) => d
  | _                                 => []

def Label.fromServer : Label → Data
  | complete (.rightRead ..) (.bytes d) => d
  | _                                   => []

-- Nothing fails.
def Label.Calm : Label → Prop
  | complete _ o => o.failed = false
  | _            => True

-- The greeting and the request are each returned by one read, which returns nothing else. `client`
-- is what the client has sent and the session has not read yet.
def Whole (greeting request data client : Data) : Label → Prop
  | .complete (.leftRead _) (.bytes d) =>
    (client = greeting ++ (request ++ data) → d = greeting) ∧
      (client = request ++ data → d = request)
  | _                                  => True

-- The reads that have been made of a stream, of which `client` is left. The first one is the
-- request.
structure Cut (request data : Data) (chunks : List Data) (client : Data) : Prop where
  stream : chunks.flatten ++ client = request ++ data
  first : ∀ c ∈ chunks.head?, c = request
  length_le : ∀ c ∈ chunks, c.length ≤ maxLength

theorem Cut.snoc {request data d client : Data} {chunks : List Data}
    (h : Cut request data chunks (d ++ client)) (hd : d.length ≤ maxLength)
    (hr : d ++ client = request ++ data → d = request) :
    Cut request data (chunks ++ [d]) client where
  stream := by simpa using h.stream
  first := by
    cases chunks
    case cons => exact h.first
    case nil =>
      intro c hc
      cases hc
      exact hr h.stream
  length_le := by
    intro c hc
    cases List.mem_append.mp hc
    case inl hc => exact h.length_le c hc
    case inr hc =>
      cases List.mem_singleton.mp hc
      exact hd

theorem Cut.isPrefix {request data client : Data} {chunks more : List Data}
    (h : Cut request data (chunks ++ more) client) : chunks.tail.flatten <+: data := by
  cases chunks
  case nil       => exact List.nil_prefix
  case cons c cs =>
    cases h.first c rfl
    have hs := h.stream
    rw [List.cons_append, List.flatten_cons, List.append_assoc, List.flatten_append,
      List.append_assoc] at hs
    exact ⟨_, List.append_cancel_left hs⟩

theorem Cut.eq {request data : Data} {chunks : List Data} (h : Cut request data chunks [])
    (ne : request ≠ []) : chunks.tail.flatten = data := by
  have hs := h.stream
  cases chunks
  case nil       => exact absurd (List.append_eq_nil_iff.mp hs.symm).1 ne
  case cons c cs =>
    cases h.first c rfl
    rw [List.append_nil, List.flatten_cons] at hs
    exact List.append_cancel_left hs

-- What has been taken in, when `chunks` have been sent.
inductive Took (greeting request data : Data) : Intake → List Data → Data → Prop
  | waiting {client : Data} (h : client = greeting ++ (request ++ data)) :
    Took greeting request data (.greeting none) [] client
  | greeted {client : Data} (h : client = request ++ data) :
    Took greeting request data (.greeting (some greeting)) [] client
  | answering {done : Bool} {client : Data} (h : client = request ++ data) :
    Took greeting request data (.answering done) [] client
  | reading {arrived : Option Data} {chunks : List Data} {client : Data}
    (c : Cut request data (chunks ++ arrived.toList) client) :
    Took greeting request data (.reading arrived) chunks client
  | sending {d : Data} {done : Bool} {chunks : List Data} {client : Data}
    (c : Cut request data (chunks ++ if done then [] else [d]) client) :
    Took greeting request data (.sending d done) chunks client

-- What else is outstanding: nothing until the greeting has been answered, and after that the
-- operation of the chain that relays the frames of the server.
inductive Down (decrypt : Data → Data) (gs : List Frame) (back : Data) :
    Intake → List (Outstanding Op Outcome) → Prop
  | greeting {arrived : Option Data} (h : back = stream gs) :
    Down decrypt gs back (.greeting arrived) []
  | answering {done : Bool} (h : back = stream gs) : Down decrypt gs back (.answering done) []
  | reading {arrived : Option Data} {r : Relay} (on : r.On decrypt gs) (h : r.unread = back) :
    Down decrypt gs back (.reading arrived) [stageOp r.stage]
  | sending {d : Data} {done : Bool} {r : Relay} (on : r.On decrypt gs) (h : r.unread = back) :
    Down decrypt gs back (.sending d done) [stageOp r.stage]

-- Everything has been read from the client and sent.
def Sent (x : Session × Data) : Prop :=
  x.2 = [] ∧ ⟨.leftRead .leftReadHandler, none⟩ ∈ x.1.io

namespace Session

-- A session to which a client sends a greeting, a request and data, and the server the frames `gs`.
-- `client` and `back` have not been read yet, and `chunks` have been sent.
structure Feeds (cfg : Config) (aes : Crypto.Aes) (greeting request data : Data) (gs : List Frame)
    (client back : Data) (chunks : List Data) (k : Intake) (s : Session) : Prop
    extends Relaying cfg aes s where
  took : Took greeting request data k chunks client
  io : ∃ others, s.io.Perm (intakeOp cfg aes k :: others) ∧
    Down (aes.decrypt cfg.cpp) gs back k others

-- A step completes the operation `x` or runs its handler.
abbrev Concerns (cfg : Config) := (asynchronous cfg).Concerns

variable {cfg : Config} {aes : Crypto.Aes} {greeting request data : Data} {gs : List Frame}
  {client back : Data} {chunks : List Data} {k : Intake} {s t : Session} {lb : Label}
  {x y : Outstanding Op Outcome} {others : List (Outstanding Op Outcome)}

theorem concerns (h : s.io.Perm (x :: others)) (hd : s.status = .data) (e : Step cfg s lb t) :
    Concerns cfg s x others lb t ∨ ∃ y ∈ others, ∃ others', others.Perm (y :: others') ∧
      Concerns cfg s y (x :: others') lb t :=
  (e.works fun h => absurd ((congrArg status h).symm.trans hd) nofun).concerns h

section Greeting

open Socks5

variable {methods : Data}

theorem length_greeting (methods : Data) : (Socks5.greeting methods).length = methods.length + 2 :=
  rfl

-- A client that offers to go without authentication is told to.
theorem answers_greeting (hm : 0x00 ∈ methods) (hl : methods.length ≤ 255) :
    s.Answers (Socks5.greeting methods) 0x00 := by
  have hlen : (UInt8.ofNat methods.length).toNat = methods.length := by
    rw [UInt8.toNat_ofNat']
    omega
  have hle : (Socks5.greeting methods).length ≤ maxLength := by
    rw [length_greeting, maxLength]
    omega
  have hs : (seen (Socks5.greeting methods)).methods = methods := by
    have hn : memory (Socks5.greeting methods) filler 1 = .ofNat methods.length := rfl
    rw [seen, hn, hlen, readRange_memory (by rw [length_greeting]; omega)]
    simp [Socks5.greeting]
  rw [answers_iff hle, hs, if_pos hm]
  exact ⟨rfl, rfl⟩

end Greeting

-- The frame that a read becomes.
theorem framed_dataRequest (cfg : Config) (a : Crypto.Aes) {d : Data} (h : d.length ≤ maxLength) :
    (dataRequest cfg a d).Framed := by
  have hm : maxLength = 4096 := rfl
  exact pack_framed (by simp) (by simp; omega)

theorem length_dataRequest (cfg : Config) (a : Crypto.Aes) (d : Data) :
    (dataRequest cfg a d).toData.length = 4 + d.length := by
  simp [dataRequest]

-- The chain of the intake has gone on, and there is less to be done.
def Forward (cfg : Config) (aes : Crypto.Aes) (greeting request data : Data) (gs : List Frame)
    (client back : Data) (chunks : List Data) (k : Intake) (lb : Label) (t : Session) : Prop :=
  lb.fromServer = [] ∧ ∃ chunks' k',
    t.Feeds cfg aes greeting request data gs client back (chunks ++ chunks') k' ∧
    lb.sent.toList = chunks'.map (dataRequest cfg aes) ∧
    40 * client.length + k'.cost + 5 * (lb.sent.toList.flatMap Packet.toData).length <
      40 * (lb.fromClient ++ client).length + k.cost

namespace Forward

variable {arrived : Option Data} {d : Data} {done : Bool}

theorem greets (h : s.Relaying cfg aes) (ne : greeting ≠ [])
    (ha : ∀ s : Session, s.Answers greeting 0x00) (hc : lb.Calm)
    (hw : Whole greeting request data (lb.fromClient ++ client) lb)
    (c : Concerns cfg s (intakeOp cfg aes (.greeting arrived)) [] lb t) (hb : back = stream gs)
    (took : Took greeting request data (.greeting arrived) chunks (lb.fromClient ++ client)) :
    Forward cfg aes greeting request data gs client back chunks (.greeting arrived) lb t := by
  cases took
  case waiting hcl =>
    cases c with
    | deliver hx => cases hx
    | complete hx c io =>
      cases hx
      cases c
      case error      => cases hc
      case leftRead d _ _ =>
        cases show d = greeting from hw.1 hcl
        have := List.length_pos_iff.mpr ne
        refine ⟨rfl, [], .greeting (some greeting), { h with
          took := .greeted (List.append_cancel_left hcl)
          io := ⟨[], io, .greeting hb⟩ }, rfl, ?_⟩
        simp [Intake.cost, Label.fromClient, Label.sent]
        omega
  case greeted hcl =>
    cases c with
    | complete hx => cases hx
    | @deliver _ _ ch l hx io =>
      cases hx
      have heq : (asynchronous cfg).handle ch { s with io := l } (.leftRead .leftReadSocks5Step1)
        (.bytes greeting) = { s with io := l }.start _ := ha _
      rw [heq]
      refine ⟨rfl, [], .answering false, { h with
        took := .answering hcl
        io := ⟨[], io.append_right [_], .answering hb⟩ }, rfl, ?_⟩
      simp [Intake.cost, Label.fromClient, Label.sent]

theorem answers (h : s.Relaying cfg aes) (hc : lb.Calm)
    (c : Concerns cfg s (intakeOp cfg aes (.answering done)) [] lb t) (hb : back = stream gs)
    (hcl : lb.fromClient ++ client = request ++ data) :
    Forward cfg aes greeting request data gs client back [] (.answering done) lb t := by
  cases c with
  | complete hx c io =>
    cases done <;> cases hx
    cases c
    case error     => cases hc
    case leftWrite =>
      refine ⟨rfl, [], .answering true, { h with
        took := .answering hcl
        io := ⟨[], io, .answering hb⟩ }, rfl, ?_⟩
      simp [Intake.cost, Label.fromClient, Label.sent]
  | deliver hx io =>
    cases done <;> cases hx
    refine ⟨rfl, [], .reading none, { h with
      took := .reading ⟨hcl, by simp, by simp⟩
      io := ⟨_, (io.append_right [_]).append_right [_],
        .reading (.start (n := lengthHandshake) (by decide)) hb.symm⟩ }, rfl, ?_⟩
    simp [Intake.cost, Label.fromClient, Label.sent]

theorem reads {r : Relay} (h : s.Relaying cfg aes) (hc : lb.Calm)
    (hw : Whole greeting request data (lb.fromClient ++ client) lb)
    (c : Concerns cfg s (intakeOp cfg aes (.reading arrived)) [stageOp r.stage] lb t)
    (on : r.On (aes.decrypt cfg.cpp) gs) (hb : r.unread = back)
    (cut : Cut request data (chunks ++ arrived.toList) (lb.fromClient ++ client)) :
    Forward cfg aes greeting request data gs client back chunks (.reading arrived) lb t := by
  cases c with
  | complete hx c io =>
    cases arrived <;> cases hx
    cases c
    case error            => cases hc
    case leftRead d ne le =>
      rw [Option.toList_none, List.append_nil] at cut
      have hpos := List.length_pos_iff.mpr ne
      refine ⟨rfl, [], .reading (some d), { h with
        took := .reading ?_
        io := ⟨_, io, .reading on hb⟩ }, rfl, ?_⟩
      · rw [List.append_nil]
        exact cut.snoc le hw.2
      · simp [Intake.cost, Label.fromClient, Label.sent]
        omega
  | @deliver _ _ ch l hx io =>
    cases arrived with | none => cases hx | some d => ?_
    cases hx
    have heq : (asynchronous cfg).handle ch { s with io := l } (.leftRead .leftReadHandler)
        (.bytes d) = ({ s with io := l, aesEncryptor := some aes }.note (.packed d)).start
          (.rightWrite (dataRequest cfg aes d) .rightWriteHandler) := by
      have hg : { s with io := l }.getAes cfg = some aes := h.getAes
      simp [deliver, leftReadHandler, packData, hg, dataRequest]
    rw [heq]
    refine ⟨rfl, [], .sending d false, {
      status := h.status
      getAes := rfl
      took := .sending ?_
      io := ⟨_, (List.perm_append_singleton ..).trans (io.cons _), .sending on hb⟩ }, rfl, ?_⟩
    · rw [List.append_nil]
      exact cut
    · simp [Intake.cost, Label.fromClient, Label.sent]

theorem sends {r : Relay} (h : s.Relaying cfg aes) (hc : lb.Calm)
    (c : Concerns cfg s (intakeOp cfg aes (.sending d done)) [stageOp r.stage] lb t)
    (on : r.On (aes.decrypt cfg.cpp) gs) (hb : r.unread = back)
    (cut : Cut request data (chunks ++ if done then [] else [d]) (lb.fromClient ++ client)) :
    Forward cfg aes greeting request data gs client back chunks (.sending d done) lb t := by
  cases c with
  | complete hx c io =>
    cases done <;> cases hx
    cases c
    case error      => cases hc
    case rightWrite =>
      refine ⟨rfl, [d], .sending d true, { h with
        took := .sending ?_
        io := ⟨_, io, .sending on hb⟩ }, rfl, ?_⟩
      · rw [if_pos rfl, List.append_nil]
        exact cut
      · have hlen := length_dataRequest cfg aes d
        simp only [Label.sent, Option.toList_some, List.flatMap_singleton, hlen, Intake.cost,
          Label.fromClient, List.nil_append]
        omega
  | deliver hx io =>
    cases done <;> cases hx
    refine ⟨rfl, [], .reading none, { h with
      took := .reading ?_
      io := ⟨_, (List.perm_append_singleton ..).trans (io.cons _), .reading on hb⟩ }, rfl, ?_⟩
    · rw [List.append_nil]
      exact cut
    · simp [Intake.cost, Label.fromClient, Label.sent]

end Forward

-- The chain that relays the frames of the server has gone on.
theorem Concerns.relays {r : Relay} (h : s.Relaying cfg aes) (on : r.On (aes.decrypt cfg.cpp) gs)
    (hb : r.unread = lb.fromServer ++ back) (hc : lb.Calm)
    (ha : Aligned gs (s, lb.fromServer ++ back) lb)
    (c : Concerns cfg s (stageOp r.stage) [x] lb t) :
    lb.fromClient = [] ∧ lb.sent = none ∧ t.Relaying cfg aes ∧
      ∃ r' : Relay, r'.On (aes.decrypt cfg.cpp) gs ∧ r'.unread = back ∧
        t.io.Perm [x, stageOp r'.stage] := by
  cases r with | mk g u w => ?_
  cases hb
  cases c with
  | complete hx c io =>
    cases g
    case reading lss rest arrived =>
      cases arrived <;> cases hx
      cases c
      case error             => cases hc
      case rightRead d ne le =>
        have cut : inHeader gs ((stream gs).length - back.length) = false := by
          simpa [Aligned, Label.fromServer] using ha
        exact ⟨rfl, rfl, { h with }, _, (on.move (.arrive ne le cut)).1, rfl, io.trans (.swap ..)⟩
    case writing plain next done =>
      cases done <;> cases hx
      cases c
      case error     => cases hc
      case leftWrite =>
        exact ⟨rfl, rfl, { h with }, _, (on.move .write).1, rfl, io.trans (.swap ..)⟩
  | @deliver op o ch l hx io =>
    have h' : { s with io := l }.Relaying cfg aes := { h with }
    have on' := on
    obtain ⟨_, _, _, a⟩ := on'
    obtain ⟨g', _, _, hg, _⟩ := a.handle (ready_of_stageOp hx)
    rw [show (asynchronous cfg).handle ch _ op o = _ from deliver_stage h' a.valid hg hx]
    refine ⟨rfl, rfl, h'.carryOn g', _, (on.move (.handle hg)).1, rfl, ?_⟩
    rw [carryOn_io (Stage.not_ready_of_proceed hg)]
    exact io.append_right [_]

namespace Feeds

theorem forward
    (p : s.Feeds cfg aes greeting request data gs (lb.fromClient ++ client) back chunks k)
    (ne : greeting ≠ []) (ha : ∀ s : Session, s.Answers greeting 0x00) (hc : lb.Calm)
    (hw : Whole greeting request data (lb.fromClient ++ client) lb)
    (c : Concerns cfg s (intakeOp cfg aes k) others lb t)
    (dn : Down (aes.decrypt cfg.cpp) gs back k others) :
    Forward cfg aes greeting request data gs client back chunks k lb t := by
  cases dn
  case greeting hb   => exact .greets p.toRelaying ne ha hc hw c hb p.took
  case answering hb  =>
    cases p.took with | answering h => ?_
    exact .answers p.toRelaying hc c hb h
  case reading on hb =>
    cases p.took with | reading cut => ?_
    exact .reads p.toRelaying hc hw c on hb cut
  case sending on hb =>
    cases p.took with | sending cut => ?_
    exact .sends p.toRelaying hc c on hb cut

-- A step of the session is one of the two chains.
theorem step (p : s.Feeds cfg aes greeting request data gs (lb.fromClient ++ client)
      (lb.fromServer ++ back) chunks k)
    (ne : greeting ≠ []) (hg : ∀ s : Session, s.Answers greeting 0x00) (e : Step cfg s lb t)
    (hc : lb.Calm) (ha : Aligned gs (s, lb.fromServer ++ back) lb)
    (hw : Whole greeting request data (lb.fromClient ++ client) lb) :
    ∃ chunks' k', t.Feeds cfg aes greeting request data gs client back (chunks ++ chunks') k' ∧
      lb.sent.toList = chunks'.map (dataRequest cfg aes) := by
  have ⟨others, io, dn⟩ := p.io
  cases concerns io p.status e
  case inl c =>
    have ⟨hs, chunks', k', p', hsent, _⟩ := p.forward ne hg hc hw c dn
    rw [hs] at p'
    exact ⟨chunks', k', p', hsent⟩
  case inr c =>
    have ⟨y, hy, others', ho, c⟩ := c
    -- It is the one of the frames.
    have relays {r : Relay} (hz : others = [stageOp r.stage]) (on : r.On (aes.decrypt cfg.cpp) gs)
        (hb : r.unread = lb.fromServer ++ back)
        (hd : ∀ {r' : Relay}, r'.On (aes.decrypt cfg.cpp) gs → r'.unread = back →
          Down (aes.decrypt cfg.cpp) gs back k [stageOp r'.stage]) :
        ∃ chunks' k', t.Feeds cfg aes greeting request data gs client back (chunks ++ chunks') k' ∧
          lb.sent.toList = chunks'.map (dataRequest cfg aes) := by
      subst hz
      cases List.mem_singleton.mp hy
      cases List.Perm.nil_eq (List.perm_cons _ |>.mp ho)
      have ⟨hl, hs, h, r', on', hb', io'⟩ := c.relays p.toRelaying on hb hc ha
      refine ⟨[], k, { h with took := ?_, io := ⟨_, io', hd on' hb'⟩ }, by rw [hs]; rfl⟩
      have took := p.took
      rwa [hl, List.append_nil] at *
    cases dn
    case greeting      => cases hy
    case answering     => cases hy
    case reading on hb _ => exact relays rfl on hb .reading
    case sending on hb _ => exact relays rfl on hb .sending

-- Until everything has been read from the client and sent, the chain of the intake can go on.
theorem move (p : s.Feeds cfg aes greeting request data gs client back chunks k)
    (ne : greeting ≠ []) (hg : ∀ s : Session, s.Answers greeting 0x00)
    (gle : greeting.length ≤ maxLength) (nr : request ≠ []) (rle : request.length ≤ maxLength) :
    Sent (s, client) ∨ ∃ lb t client', client = lb.fromClient ++ client' ∧ Step cfg s lb t ∧
      lb.Calm ∧ Aligned gs (s, back) lb ∧ Whole greeting request data client lb ∧
      Forward cfg aes greeting request data gs client' back chunks k lb t := by
  have ⟨others, io, dn⟩ := p.io
  have ⟨l, r, hio, hp⟩ := Outstanding.exists_of_perm io
  have hpos := List.length_pos_iff.mpr ne
  have complete {op : Op} {o : Outcome} {client' : Data} (hk : intakeOp cfg aes k = ⟨op, none⟩)
      (c : Completes op o) (hf : o.failed = false) (ha : Aligned gs (s, back) (.complete op o))
      (hcl : client = (Label.complete op o).fromClient ++ client')
      (hw : Whole greeting request data client (.complete op o)) :
      ∃ lb t client', client = lb.fromClient ++ client' ∧ Step cfg s lb t ∧ lb.Calm ∧
        Aligned gs (s, back) lb ∧ Whole greeting request data client lb ∧
        Forward cfg aes greeting request data gs client' back chunks k lb t := by
    subst hcl
    exact ⟨_, _, client', rfl, .complete (hk ▸ hio) c, hf, ha, hw, p.forward ne hg hf hw
      (.complete hk c (List.perm_middle.trans (hp.cons _))) dn⟩
  have deliver {op : Op} {o : Outcome} (hk : intakeOp cfg aes k = ⟨op, some o⟩) :
      ∃ lb t client', client = lb.fromClient ++ client' ∧ Step cfg s lb t ∧ lb.Calm ∧
        Aligned gs (s, back) lb ∧ Whole greeting request data client lb ∧
        Forward cfg aes greeting request data gs client' back chunks k lb t :=
    ⟨.deliver op o sampleChoice, _, client, rfl, .deliver (hk ▸ hio), trivial, trivial, trivial,
      p.forward ne hg trivial trivial (.deliver hk hp) dn⟩
  have took := p.took
  cases k
  case greeting arrived =>
    cases arrived
    case some => exact .inr (deliver rfl)
    case none =>
      cases took with | waiting hcl => ?_
      refine .inr (complete rfl (.leftRead ne gle) rfl trivial hcl ⟨fun _ => rfl, fun h => ?_⟩)
      have hlen := congrArg List.length (hcl.symm.trans h)
      rw [List.length_append] at hlen
      omega
  case answering done =>
    cases done
    case true  => exact .inr (deliver rfl)
    case false => exact .inr (complete rfl .leftWrite rfl trivial rfl trivial)
  case sending d done =>
    cases done
    case true  => exact .inr (deliver rfl)
    case false => exact .inr (complete rfl .rightWrite rfl trivial rfl trivial)
  case reading arrived =>
    cases arrived
    case some => exact .inr (deliver rfl)
    case none =>
      cases took with | reading cut => ?_
      by_cases hz : client = []
      case pos => exact .inl ⟨hz, io.mem_iff.mpr (List.mem_cons_self ..)⟩
      -- The greeting has been read.
      have hn (h : client = greeting ++ (request ++ data)) : False := by
        have hlen := congrArg List.length cut.stream
        rw [h, List.length_append, List.length_append] at hlen
        omega
      by_cases hr : client = request ++ data
      case pos =>
        exact .inr (complete rfl (.leftRead nr rle) rfl trivial hr
          ⟨fun h => (hn h).elim, fun _ => rfl⟩)
      case neg =>
        have hd : client.take maxLength ≠ [] := by
          simp [hz, maxLength]
        exact .inr (complete rfl (.leftRead hd (List.length_take_le ..)) rfl trivial
          (List.take_append_drop ..).symm ⟨fun h => (hn h).elim, fun h => absurd h hr⟩)

-- What has been sent is a part of what has been read.
theorem cut (p : s.Feeds cfg aes greeting request data gs client back chunks k) :
    chunks = [] ∨ ∃ more, Cut request data (chunks ++ more) client := by
  cases p.took
  case waiting     => exact .inl rfl
  case greeted     => exact .inl rfl
  case answering   => exact .inl rfl
  case reading cut => exact .inr ⟨_, cut⟩
  case sending cut => exact .inr ⟨_, cut⟩

-- In the end, all of it has been sent.
theorem sent (p : s.Feeds cfg aes greeting request data gs client back chunks k)
    (h : Sent (s, client)) : Cut request data chunks [] := by
  have ⟨hz, hs⟩ := h
  cases hz
  have ⟨others, io, dn⟩ := p.io
  have hm := io.mem_iff.mp hs
  have down (g : Stage) : ⟨.leftRead .leftReadHandler, none⟩ ≠ stageOp g := by
    cases g <;> nofun
  cases dn
  case greeting  => cases List.mem_singleton.mp hm
  case answering => cases List.mem_singleton.mp hm
  case reading arrived _ _ _ =>
    cases p.took with | reading cut => ?_
    cases List.mem_cons.mp hm
    case inr hm => exact absurd (List.mem_singleton.mp hm) (down _)
    case inl he =>
      cases arrived <;> cases he
      rwa [Option.toList_none, List.append_nil] at cut
  case sending =>
    cases List.mem_cons.mp hm
    case inl he => cases he
    case inr hm => exact absurd (List.mem_singleton.mp hm) (down _)

end Feeds

end Session
end Local
end Lproxy
