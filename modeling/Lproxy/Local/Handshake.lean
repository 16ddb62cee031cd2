import Lproxy.Fetch
import Lproxy.Lib.Trace
import Lproxy.Local.Link
import Lproxy.Local.Reading

-- How a session comes through the handshake if nothing disturbs it.
namespace Lproxy.Local

-- Nothing fails, and the client has not sent its greeting yet.
def Label.Smooth : Label → Prop
  | start remoteError        => remoteError = false
  | complete (.leftRead _) _ => False
  | complete _ o             => o.failed = false
  | deliver ..               => True

-- The session answers the packet with one of which `Q` holds, for its random string.
def Invites (cfg : Config) (Q : Packet → Data → Prop) (f : Packet) : Prop :=
  ReplyType.ofByte f.type = .hello ∧
    ∀ (s : Session) (ch : Choice) (lss : Packet), ch.randomStr.length = 10 → lss.StartsWith f →
      ∃ keysize publicKey request, s.unpackReplyHello lss = (s, .ok (keysize, publicKey)) ∧
        s.packExchange cfg ch keysize publicKey =
          ({ s with randomStr := ch.randomStr }, .ok request) ∧ Q request ch.randomStr

-- The packet returns the random string.
def Returns (cfg : Config) (randomStr : Data) (f : Packet) : Prop :=
  ReplyType.ofByte f.type = .exchange ∧
    ∀ (s : Session) (lss : Packet), lss.StartsWith f → ∃ key,
      s.unpackReplyExchange cfg lss = ({ s with dataKey := some key }, .ok randomStr)

namespace Session

variable {cfg : Config} {Q : Packet → Data → Prop} {c c' : Wire} {s t : Session} {op : Op}
  {o : Outcome} {x : Option Outcome} {lb : Label} {sent : List Packet} {n k : Nat}
  {io : List (Outstanding Op Outcome)}

-- The operations other than reads: what has been sent before, and what is left to be done after.
inductive Doing (Q : Packet → Data → Prop) (s : Session) : Op → List Packet → Nat → Prop
  | resolve (hs : s.status = .notConnected) : Doing Q s .resolve [] 15
  | connect {e : Endpoint} {rest : List Endpoint} (hs : s.status = .notConnected) :
    Doing Q s (.connectAny e rest) [] 13
  | hello (hs : s.status = .connected) : Doing Q s (.rightWrite packHello .helloHandler) [] 11
  | exchange {f : Packet} (hs : s.status = .hello) (h : Q f s.randomStr) :
    Doing Q s (.rightWrite f .exchangeHandler) [packHello] 5

-- The answers that are read: how many there have been before, what has been sent, and what is left
-- to be done after.
inductive Listens (Q : Packet → Data → Prop) (s : Session) : Nat → List Packet → Nat → Prop
  | hello (hs : s.status = .hello) : Listens Q s 0 [packHello] 6
  | exchange {f : Packet} (hs : s.status = .auth) (h : Q f s.randomStr) :
    Listens Q s 1 [packHello, f] 0

-- How far the handshake is: what has been sent, and what is left to be done. `c` is what the server
-- sends.
inductive Handshake (Q : Packet → Data → Prop) (c : Wire) (s : Session) : List Packet → Nat → Prop
  | idle (h : s = .initial) (r : Rests 0 c) : Handshake Q c s [] 17
  | pending {op : Op} {sent : List Packet} {k : Nat} (d : Doing Q s op sent k)
    (io : s.io = [⟨op, none⟩]) (r : Rests sent.length c) : Handshake Q c s sent (k + 1)
  | done {op : Op} {o : Outcome} {sent : List Packet} {k : Nat} (d : Doing Q s op sent k)
    (io : s.io = [⟨op, some o⟩]) (ho : o.failed = false) (r : Rests sent.length c) :
    Handshake Q c s (sent ++ (Label.complete op o).sent.toList) k
  | reading {lss : Packet} {rest n k : Nat} {arrived : Option Data} {sent : List Packet}
    (a : Listens Q s n sent k) (io : s.io = [⟨.rightRead lss rest, arrived.map .bytes⟩])
    (f : Fetch n c lss rest arrived) : Handshake Q c s sent (k + fetchCost rest arrived)
  | opened {f : Packet} (hs : s.status = .data) (h : Q f s.randomStr)
    (io : s.io = [⟨.leftRead .leftReadSocks5Step1, none⟩]) (r : Rests 2 c) :
    Handshake Q c s [packHello, f] 0

-- The session has neither cancelled nor run into undefined behaviour.
def Healthy (s : Session) : Prop :=
  Trace.Avoids [.cancelled, .fault] s.log

structure Shakes (Q : Packet → Data → Prop) (c : Wire) (s : Session) (sent : List Packet)
    (k : Nat) : Prop where
  handshake : Handshake Q c s sent k
  healthy : s.Healthy

theorem Doing.keep (d : Doing Q s op sent k) (hs : t.status = s.status)
    (hr : t.randomStr = s.randomStr) : Doing Q t op sent k := by
  cases d
  case resolve h     => exact .resolve (hs.trans h)
  case connect h     => exact .connect (hs.trans h)
  case hello h       => exact .hello (hs.trans h)
  case exchange h h' => exact .exchange (hs.trans h) (hr ▸ h')

theorem Listens.keep (a : Listens Q s n sent k) (hs : t.status = s.status)
    (hr : t.randomStr = s.randomStr) : Listens Q t n sent k := by
  cases a
  case hello h       => exact .hello (hs.trans h)
  case exchange h h' => exact .exchange (hs.trans h) (hr ▸ h')

theorem Handshake.send (h : Handshake Q c s sent k) (a : Option Packet) :
    Handshake Q (c.send a) s sent k := by
  cases h
  case idle h r       => exact .idle h ⟨r.done, r.part⟩
  case pending io d r => exact .pending d io ⟨r.done, r.part⟩
  case done io ho r d => exact .done d io ho ⟨r.done, r.part⟩
  case reading io f a => exact .reading a io (f.send _)
  case opened hs h io r => exact .opened hs h io ⟨r.done, r.part⟩

theorem single_step (h : s.io = [⟨op, x⟩]) (e : Step cfg s lb t) :
    (asynchronous cfg).Single s op x lb t :=
  (e.works fun hi => by simp [hi, initial] at h).single h

-- What a call of the handler comes to when it is given a packet that is expected.
theorem rightReadTry_hello {ch : Choice} {bt : Nat} {lss f : Packet} (hs : s.status = .hello)
    (hi : lssPackIntegrityCheck bt lss = .ok ()) (h : Invites cfg Q f) (hf : lss.StartsWith f)
    (hr : ch.randomStr.length = 10) : ∃ request, Q request ch.randomStr ∧
      caught bt lss (s.rightReadTry cfg ch bt lss) =
        { s with randomStr := ch.randomStr }.start (.rightWrite request .exchangeHandler) := by
  have ⟨ht, h⟩ := h
  have ⟨keysize, publicKey, request, hu, hp, hq⟩ := h s ch lss hr hf
  refine ⟨request, hq, ?_⟩
  simp [caught, rightReadTry, hi, hf.header.1, ht, rightReadHello, hs, hu, hp]

theorem rightReadTry_exchange (ch : Choice) {bt : Nat} {lss f : Packet} (hs : s.status = .auth)
    (hi : lssPackIntegrityCheck bt lss = .ok ()) (h : Returns cfg s.randomStr f)
    (hf : lss.StartsWith f) : ∃ key, caught bt lss (s.rightReadTry cfg ch bt lss) =
      ({ s with dataKey := some key }.start (.leftRead .leftReadSocks5Step1)).setStatus .data := by
  have ⟨ht, h⟩ := h
  have ⟨key, hu⟩ := h s lss hf
  refine ⟨key, ?_⟩
  simp [caught, rightReadTry, hi, hf.header.1, ht, rightReadExchange, hs, hu]

theorem Healthy.start (h : s.Healthy) (op : Op) : (s.start op).Healthy :=
  h.append (by simp)

theorem Healthy.setStatus (h : s.Healthy) (status : Status) : (s.setStatus status).Healthy :=
  h.append (by simp)

-- The handshake has been carried on.
def Goes (Q : Packet → Data → Prop) (c : Wire) (t : Session) (sent : List Packet) (k : Nat) :
    Prop :=
  ∃ k' < k, Shakes Q c t sent k'

theorem Doing.deliver {ch : Choice} (d : Doing Q s op sent k) (r : Rests sent.length c)
    (hs' : s.Healthy) (io : s.io = []) (co : Completes op o) (ho : o.failed = false) :
    Goes Q c (s.deliver cfg ch op o) (sent ++ (Label.complete op o).sent.toList) k := by
  cases d
  case resolve hs    =>
    cases co
    case error   => cases ho
    case resolve e rest =>
      have st : Handshake Q c (s.start (.connectAny e rest)) [] 14 :=
        .pending (.connect hs) (Outstanding.only_started io) r
      exact ⟨14, by decide, st, hs'.start _⟩
  case connect hs    =>
    cases co
    case error       => cases ho
    case unconnected => cases ho
    case connectAny  =>
      have st : Handshake Q c
          ((s.setStatus .connected).start (.rightWrite packHello .helloHandler)) [] 12 :=
        .pending (.hello rfl) (Outstanding.only_started io) r
      exact ⟨12, by decide, st, (hs'.setStatus _).start _⟩
  case hello hs      =>
    cases co
    case error      => cases ho
    case rightWrite =>
      have st : Handshake Q c
          ((s.start (.rightRead (.receiving lengthHandshake) 0)).setStatus .hello)
          [packHello] (6 + fetchCost 0 none) :=
        .reading (.hello rfl) (Outstanding.only_started io) (.waiting r)
      exact ⟨_, by decide, st, (hs'.start _).setStatus _⟩
  case exchange f hs h =>
    cases co
    case error      => cases ho
    case rightWrite =>
      have st : Handshake Q c
          ((s.start (.rightRead (.receiving lengthHandshake) 0)).setStatus .auth)
          [packHello, f] (0 + fetchCost 0 none) :=
        .reading (.exchange rfl h) (Outstanding.only_started io) (.waiting r)
      exact ⟨_, by decide, st, (hs'.start _).setStatus _⟩

-- What the handler of a read makes of the packets that the server sends in a handshake.
theorem Listens.deliver {ch : Choice} {lss : Packet} {bt rest : Nat} (a : Listens Q s n sent k)
    (hs' : s.Healthy) (io : s.io = []) (f : Fetched n c bt lss rest) (hr : ch.randomStr.length = 10)
    (hh : ∀ f, c.sent[0]? = some f → Invites cfg Q f)
    (hx : ∀ f, c.sent[1]? = some f → Returns cfg s.randomStr f) (d : Data) :
    Goes Q c (caught bt lss (s.rightReadTry cfg ch bt lss)) sent (k + fetchCost rest (some d)) := by
  cases f
  case more less hi hpos hr f =>
    have he :
        caught bt lss (s.rightReadTry cfg ch bt lss) = s.start (.rightRead (trim bt lss) less) :=
      (readHandler_lawful cfg).incomplete hi hpos ch s
    rw [he]
    have st : Handshake Q c (s.start (.rightRead (trim bt lss) less)) sent
        (k + fetchCost less none) :=
      .reading (a.keep rfl rfl) (Outstanding.only_started io) f
    refine ⟨_, ?_, st, hs'.start _⟩
    simp [fetchCost, hr, hpos.ne']
  case whole f hi hf hsw r    =>
    cases a
    case hello hs      =>
      have ⟨request, hq, he⟩ := rightReadTry_hello hs hi (hh f hf) hsw hr
      have st : Handshake Q c ({ s with randomStr := ch.randomStr }.start
          (.rightWrite request .exchangeHandler)) [packHello] 6 :=
        .pending (.exchange hs hq) (Outstanding.only_started io) r
      rw [he]
      exact ⟨6, by simp [fetchCost], st, Healthy.start hs' _⟩
    case exchange f hs h =>
      have ⟨key, he⟩ := rightReadTry_exchange ch hs hi (hx _ hf) hsw
      have st : Handshake Q c (({ s with dataKey := some key }.start
          (.leftRead .leftReadSocks5Step1)).setStatus .data) [packHello, f] 0 :=
        .opened rfl h (Outstanding.only_started io) r
      rw [he]
      exact ⟨0, by simp [fetchCost], st, (Healthy.start hs' _).setStatus _⟩

theorem Shakes.step (h : Shakes Q c s sent k) (i : Inv cfg [] s) (e : Step cfg s lb t)
    (hs : lb.Smooth) (ht : lb.Takes c c') (hf : ∀ f ∈ c.sent, f.Framed)
    (hr : ∀ op o ch, lb = .deliver op o ch → ch.randomStr.length = 10)
    (hh : ∀ f, c.sent[0]? = some f → Invites cfg Q f)
    (hx : ∀ f, c.sent[1]? = some f → Returns cfg s.randomStr f) :
    Goes Q c' t (sent ++ lb.sent.toList) k := by
  obtain ⟨st, hl⟩ := h
  cases st
  case idle h r =>
    subst h
    cases e
    case start remoteError _ =>
      subst hs
      cases ht
      have st : Handshake Q c (initial.start .resolve) [] 16 := .pending (.resolve rfl) rfl r
      exact ⟨16, by decide, st, hl.start _⟩
    case complete h _ => simp [initial] at h
    case deliver h    => simp [initial] at h
  case pending op k io d r =>
    cases single_step io e
    case complete o co =>
      have ho : o.failed = false := by cases d <;> exact hs
      have hc : c' = c := by cases d <;> exact ht
      subst hc
      exact ⟨k, Nat.lt_succ_self k, .done (d.keep rfl rfl) rfl ho r, hl⟩
  case done op o sent io ho r d =>
    cases single_step io e
    case deliver ch =>
      cases ht
      have co : Completes op o := i.queued ⟨op, some o⟩ (by simp [io]) o rfl
      have d : Doing Q { s with io := [] } op sent k := d.keep rfl rfl
      rw [show (Label.deliver op o ch).sent = none from rfl, Option.toList_none, List.append_nil]
      exact d.deliver r hl rfl co ho
  case reading lss rest n k arrived io f a =>
    cases arrived
    case none =>
      cases single_step io e
      case complete o co =>
        cases co
        case error => cases hs
        case rightRead d ne le =>
          have st : Handshake Q c' { s with io := [⟨.rightRead lss rest, some (.bytes d)⟩] } sent
              (k + fetchCost rest (some d)) := .reading (a.keep rfl rfl) rfl (f.arrive ht)
          refine ⟨_, ?_, (List.append_nil sent).symm ▸ st, hl⟩
          simp [fetchCost]
    case some d =>
      cases single_step io e
      case deliver ch =>
        cases ht
        have hm : ⟨.rightRead lss rest, some (.bytes d)⟩ ∈ s.io := by simp [io]
        have hd : d.length ≤ offered lss rest := by
          cases i.queued _ hm _ rfl
          case rightRead le => exact le
        have hp : Pending lss rest := i.buffered (.rightRead lss rest) (List.mem_map_of_mem hm)
        have a : Listens Q { s with io := [] } n sent k := a.keep rfl rfl
        rw [show (Label.deliver _ _ ch).sent = none from rfl, Option.toList_none, List.append_nil]
        exact a.deliver hl rfl (f.fetched hf hp hd) (hr _ _ ch rfl) hh hx d
  case opened =>
    cases single_step ‹_› e
    case complete => cases hs

-- What has been sent, as far as it goes.
theorem Handshake.hello {f : Packet} (h : Handshake Q c s sent k) (hf : sent[0]? = some f) :
    f = packHello := by
  cases h
  case idle          => cases hf
  case opened        => exact (Option.some.inj hf).symm
  case pending d _   => cases d <;> cases hf; rfl
  case reading a     => cases a <;> exact (Option.some.inj hf).symm
  case done o _ _ _ _ d =>
    cases d
    case resolve  => cases hf
    case connect  => cases hf
    case hello    => cases o <;> cases hf; rfl
    case exchange => cases o <;> cases hf <;> rfl

theorem Handshake.length_le (h : Handshake Q c s sent k) : sent.length ≤ 2 := by
  cases h
  case idle             => simp
  case opened           => simp
  case pending d _      => cases d <;> simp
  case reading a        => cases a <;> simp
  case done o _ _ _ _ d => cases d <;> cases o <;> simp [Label.sent]

theorem Handshake.exchange {f : Packet} (h : Handshake Q c s sent k) (hf : sent[1]? = some f) :
    Q f s.randomStr := by
  cases h
  case idle             => cases hf
  case opened h _ _     => cases hf; exact h
  case pending d _      => cases d <;> cases hf
  case reading a        =>
    cases a with
    | hello         => cases hf
    | exchange _ h' => cases hf; exact h'
  case done o _ _ _ _ d =>
    cases d with
    | exchange _ h' => cases o <;> cases hf; exact h'
    | _             => cases o <;> cases hf

-- What a session is like that has nothing to do: it waits for an answer, or its client can go on.
inductive AtRest (c : Wire) (s : Session) (sent : List Packet) : Prop
  | waiting (hq : c.queue = []) (h : sent.length = c.done.length + 1)
  | opened (hs : s.status = .data) (io : s.io = [⟨.leftRead .leftReadSocks5Step1, none⟩])
    (hd : c.done.length = 2) (h : sent.length = 2)

theorem Doing.completes (d : Doing Q s op sent k) (c : Wire) :
    ∃ o, Completes op o ∧ (Label.complete op o).Smooth ∧ (Label.complete op o).Takes c c := by
  cases d
  case resolve  => exact ⟨.endpoints ⟨[], 0⟩ [], .resolve, rfl, rfl⟩
  case connect  => exact ⟨.done, .connectAny, rfl, rfl⟩
  case hello    => exact ⟨.done, .rightWrite, rfl, rfl⟩
  case exchange => exact ⟨.done, .rightWrite, rfl, rfl⟩

theorem Handshake.progress (cfg : Config) (h : Handshake Q c s sent k) : AtRest c s sent ∨
    ∃ lb t c', Step cfg s lb t ∧ lb.Smooth ∧ lb.Takes c c' ∧
      ∀ op o ch, lb = .deliver op o ch → ch.randomStr.length = 10 := by
  cases h
  case idle h _       => exact .inr ⟨.start false, _, c, .start h, rfl, rfl, nofun⟩
  case pending io d _ =>
    have ⟨o, co, hs, ht⟩ := d.completes c
    exact .inr ⟨_, _, c, .complete (l := []) io co, hs, ht, nofun⟩
  case done op o _ io _ _ _ =>
    refine .inr ⟨.deliver op o sampleChoice, _, c, .deliver (l := []) io, trivial, rfl, ?_⟩
    rintro _ _ _ ⟨⟩
    rfl
  case reading lss rest n k arrived io f a =>
    cases arrived
    case some d =>
      refine .inr ⟨.deliver _ _ sampleChoice, _, c, .deliver (l := []) io, trivial, rfl, ?_⟩
      rintro _ _ _ ⟨⟩
      rfl
    case none   =>
      by_cases hq : c.queue = []
      case neg =>
        have ⟨d, c', ne, le, r⟩ := f.exists_reads hq
        exact .inr ⟨_, _, c', .complete (l := []) io (.rightRead ne le), rfl, r, nofun⟩
      case pos =>
        cases f with
        | waiting r      => cases a <;> exact .inl (.waiting hq (by simp [r.done]))
        | resumed _ hq' => simp [hq] at hq'
  case opened hs _ io r => exact .inl (.opened hs io r.done rfl)

end Session
end Lproxy.Local
