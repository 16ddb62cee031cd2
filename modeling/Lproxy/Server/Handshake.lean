import Lproxy.Fetch
import Lproxy.Lib.Trace
import Lproxy.Server.Link
import Lproxy.Server.Reading
import Lproxy.Server.Schedule

-- How a session comes through the handshake if nothing disturbs it.
namespace Lproxy.Server

-- Nothing fails.
def Label.Smooth : Label → Prop
  | start remoteError => remoteError = false
  | complete _ o      => o.failed = false
  | _                 => True

def Greets (f : Packet) : Prop :=
  RequestType.ofByte f.type = .hello ∧ f.dataLen = 0

-- The session answers the packet with one of which `R` holds.
def Admits (cfg : Config) (R : Packet → Prop) (f : Packet) : Prop :=
  RequestType.ofByte f.type = .exchange ∧
    ∀ (s : Session) (ch : Choice) (lss : Packet), lss.StartsWith f →
      ∃ plain authKey randomStr reply, s.unpackRequestExchange cfg lss =
          (s.note (.exchangeDecrypted plain), .ok (authKey, randomStr)) ∧
        authKey ∈ cfg.cipherAuthKeySet.map (·.val) ∧
        (∀ v : Session, v.packExchange cfg ch authKey randomStr =
          some ({ v with aesEncryptor := some (Crypto.Aes.raw256 cfg.cpp ch.dataKey) }, reply)) ∧
        R reply

namespace Session

variable {cfg : Config} {R R' : Packet → Prop} {c c' : Wire} {s t : Session} {op : Op}
  {o : Outcome} {x : Option Outcome} {lb : Label} {sent : List Packet} {n k : Nat}

-- The writes: what has been sent before, and what is left to be done after.
inductive Doing (cfg : Config) (R : Packet → Prop) (status : Status) : Op → List Packet → Nat → Prop
  | hello (hs : status = .hello) :
    Doing cfg R status (.leftWrite (packHello cfg) .helloHandler) [] 7
  | exchange {f : Packet} (hs : status = .auth) (h : R f) :
    Doing cfg R status (.leftWrite f .exchangeHandler) [packHello cfg] 1

-- The reads: how many packets have been read before, what has been sent, and what is left to be
-- done after.
inductive Listens (cfg : Config) (status : Status) : Nat → List Packet → Nat → Prop
  | hello (hs : status = .hello) : Listens cfg status 0 [] 8
  | exchange (hs : status = .auth) : Listens cfg status 1 [packHello cfg] 2

-- How far the handshake is: what has been sent, and what is left to be done. `c` is what the local
-- sends.
inductive Handshake (cfg : Config) (R : Packet → Prop) (c : Wire) (s : Session) :
    List Packet → Nat → Prop
  | idle (h : s.Initial) (r : Rests 0 c) : Handshake cfg R c s [] 13
  | pending {op : Op} {sent : List Packet} {k : Nat} (d : Doing cfg R s.status op sent k)
    (io : s.io = [⟨op, none⟩]) (r : Rests (sent.length + 1) c) : Handshake cfg R c s sent (k + 1)
  | done {op : Op} {o : Outcome} {sent : List Packet} {k : Nat} (d : Doing cfg R s.status op sent k)
    (io : s.io = [⟨op, some o⟩]) (ho : o.failed = false) (r : Rests (sent.length + 1) c) :
    Handshake cfg R c s (sent ++ (Label.complete op o).sent.toList) k
  | reading {lss : Packet} {rest n k : Nat} {arrived : Option Data} {sent : List Packet}
    (a : Listens cfg s.status n sent k) (io : s.io = [⟨.leftRead lss rest, arrived.map .bytes⟩])
    (f : Fetch n c lss rest arrived) : Handshake cfg R c s sent (k + fetchCost rest arrived)
  | opened {f : Packet} (hs : s.status = .data) (h : R f)
    (io : s.io = [⟨.leftRead (.receiving lengthHandshake) 0, none⟩]) (r : Rests 2 c) :
    Handshake cfg R c s [packHello cfg, f] 0

-- The session has neither cancelled nor run into undefined behaviour.
def Healthy (s : Session) : Prop :=
  Trace.Avoids [.cancelled, .fault] s.log

-- The handshake of a session that has looked at no request yet.
structure Shakes (cfg : Config) (R : Packet → Prop) (c : Wire) (s : Session) (sent : List Packet)
    (k : Nat) : Prop where
  handshake : Handshake cfg R c s sent k
  opening : s.socks5State = .opening
  healthy : s.Healthy

theorem Handshake.send (h : Handshake cfg R c s sent k) (a : Option Packet) :
    Handshake cfg R (c.send a) s sent k := by
  cases h
  case idle h r         => exact .idle h ⟨r.done, r.part⟩
  case pending io d r   => exact .pending d io ⟨r.done, r.part⟩
  case done io ho r d   => exact .done d io ho ⟨r.done, r.part⟩
  case reading io f a   => exact .reading a io (f.send _)
  case opened hs h io r => exact .opened hs h io ⟨r.done, r.part⟩

theorem Handshake.mono (h : Handshake cfg R c s sent k) (hr : ∀ f, R f → R' f) :
    Handshake cfg R' c s sent k := by
  have doing {sent : List Packet} {k : Nat} {op : Op} (d : Doing cfg R s.status op sent k) :
      Doing cfg R' s.status op sent k := by
    cases d
    case hello hs      => exact .hello hs
    case exchange hs h => exact .exchange hs (hr _ h)
  cases h
  case idle h r         => exact .idle h r
  case pending io d r   => exact .pending (doing d) io r
  case done io ho r d   => exact .done (doing d) io ho r
  case reading io f a   => exact .reading a io f
  case opened hs h io r => exact .opened hs (hr _ h) io r

-- Time passes.
theorem Shakes.tick {d : Nat} (h : Shakes cfg R c s sent k) :
    Shakes cfg R c { s with now := s.now + d } sent k := by
  obtain ⟨st, hp, hl⟩ := h
  refine ⟨?_, hp, hl⟩
  cases st
  case idle h r         => exact .idle ⟨h.status, h.socks5State, h.aesEncryptor, h.io, h.log⟩ r
  case pending io d r   => exact .pending d io r
  case done io ho r d   => exact .done d io ho r
  case reading io f a   => exact .reading a io f
  case opened hs h io r => exact .opened hs h io r

theorem single_step (h : s.io = [⟨op, x⟩]) (hs : s.status ≠ .notConnected) (e : Step cfg s lb t)
    (hn : ∀ d, lb ≠ .tick d) : (asynchronous cfg).Single s op x lb t :=
  ((e.works hs).resolve_left fun ⟨d, hl, _⟩ => hn d hl).single h

-- What a call of the handler comes to when it is given a packet that is expected.
theorem leftReadTry_hello (cfg : Config) (ch : Choice) {bt : Nat} {lss f : Packet}
    (hs : s.status = .hello) (hi : lssPackIntegrityCheck bt lss = .ok ()) (h : Greets f)
    (hf : lss.StartsWith f) : caught bt lss (s.leftReadTry cfg ch bt lss) =
      s.start (.leftWrite (packHello cfg) .helloHandler) := by
  have ⟨ht, hl⟩ := h
  simp [caught, leftReadTry, hi, hf.header, ht, hl, leftReadHello, hs]

theorem leftReadTry_exchange (ch : Choice) {bt : Nat} {lss f : Packet} (hs : s.status = .auth)
    (hi : lssPackIntegrityCheck bt lss = .ok ()) (h : Admits cfg R f) (hf : lss.StartsWith f) :
    ∃ plain reply, R reply ∧ caught bt lss (s.leftReadTry cfg ch bt lss) =
      { s.note (.exchangeDecrypted plain) with
        aesEncryptor := some (Crypto.Aes.raw256 cfg.cpp ch.dataKey) }.start
          (.leftWrite reply .exchangeHandler) := by
  have ⟨ht, h⟩ := h
  have ⟨plain, authKey, randomStr, reply, hu, hm, hp, hr⟩ := h s ch lss hf
  refine ⟨plain, reply, hr, ?_⟩
  have hx : s.leftReadExchange cfg ch lss = ({ s.note (.exchangeDecrypted plain) with
      aesEncryptor := some (Crypto.Aes.raw256 cfg.cpp ch.dataKey) }.start
        (.leftWrite reply .exchangeHandler), none) := by
    rw [leftReadExchange, if_neg (by simp [hs]), hu]
    simp only [hm, not_true_eq_false, if_false, hp]
  simp only [leftReadTry, hi, hf.header.1, ht, hx, caught]

theorem Healthy.start (h : s.Healthy) (op : Op) : (s.start op).Healthy :=
  h.append (by simp)

theorem Healthy.setStatus (h : s.Healthy) (status : Status) : (s.setStatus status).Healthy :=
  h.append (by simp)

-- The handshake has been carried on.
def Goes (cfg : Config) (R : Packet → Prop) (c : Wire) (t : Session) (sent : List Packet)
    (k : Nat) : Prop :=
  ∃ k' < k, Shakes cfg R c t sent k'

theorem Doing.deliver {ch : Choice} (d : Doing cfg R s.status op sent k)
    (r : Rests (sent.length + 1) c) (hs' : s.Healthy) (hp : s.socks5State = .opening)
    (io : s.io = []) (co : Completes op o) (ho : o.failed = false) :
    Goes cfg R c (s.deliver cfg ch op o) (sent ++ (Label.complete op o).sent.toList) k := by
  cases d
  case hello hs        =>
    cases co
    case error     => cases ho
    case leftWrite =>
      have st : Handshake cfg R c
          ((s.start (.leftRead (.receiving lengthHandshake) 0)).setStatus .auth)
          [packHello cfg] (2 + fetchCost 0 none) :=
        .reading (.exchange rfl) (Outstanding.only_started io) (.waiting r)
      exact ⟨_, by decide, st, hp, (hs'.start _).setStatus _⟩
  case exchange f hs h =>
    cases co
    case error     => cases ho
    case leftWrite =>
      have st : Handshake cfg R c
          ((s.start (.leftRead (.receiving lengthHandshake) 0)).setStatus .data)
          [packHello cfg, f] 0 := .opened rfl h (Outstanding.only_started io) r
      exact ⟨_, by decide, st, hp, (hs'.start _).setStatus _⟩

-- What the handler of a read makes of the packets that the local sends in a handshake.
theorem Listens.deliver {ch : Choice} {lss : Packet} {bt rest : Nat}
    (a : Listens cfg s.status n sent k) (hs' : s.Healthy) (hp : s.socks5State = .opening)
    (io : s.io = []) (f : Fetched n c bt lss rest) (hh : ∀ f, c.sent[0]? = some f → Greets f)
    (hx : ∀ f, c.sent[1]? = some f → Admits cfg R f) (d : Data) :
    Goes cfg R c (caught bt lss (s.leftReadTry cfg ch bt lss)) sent
      (k + fetchCost rest (some d)) := by
  cases f
  case more less hi hpos hr f =>
    have he :
        caught bt lss (s.leftReadTry cfg ch bt lss) = s.start (.leftRead (trim bt lss) less) :=
      (readHandler_lawful cfg).incomplete hi hpos ch s
    rw [he]
    have st : Handshake cfg R c (s.start (.leftRead (trim bt lss) less)) sent
        (k + fetchCost less none) :=
      .reading a (Outstanding.only_started io) f
    refine ⟨_, ?_, st, hp, hs'.start _⟩
    simp [fetchCost, hr, hpos.ne']
  case whole f hi hf hsw r    =>
    cases a
    case hello hs    =>
      have st : Handshake cfg R c (s.start (.leftWrite (packHello cfg) .helloHandler)) [] 8 :=
        .pending (.hello hs) (Outstanding.only_started io) r
      rw [leftReadTry_hello cfg ch hs hi (hh f hf) hsw]
      exact ⟨8, by simp [fetchCost], st, hp, hs'.start _⟩
    case exchange hs =>
      have ⟨plain, reply, hr, he⟩ := leftReadTry_exchange ch hs hi (hx _ hf) hsw
      have st : Handshake cfg R c ({ s.note (.exchangeDecrypted plain) with
          aesEncryptor := some (Crypto.Aes.raw256 cfg.cpp ch.dataKey) }.start
            (.leftWrite reply .exchangeHandler)) [packHello cfg] 2 :=
        .pending (.exchange hs hr) (Outstanding.only_started io) r
      have hd : (s.note (.exchangeDecrypted plain)).Healthy := hs'.append (by simp)
      rw [he]
      exact ⟨2, by simp [fetchCost], st, hp, Healthy.start hd _⟩

theorem Shakes.step (h : Shakes cfg R c s sent k) (i : Inv cfg [] s) (e : Step cfg s lb t)
    (hs : lb.Smooth) (hn : ∀ d, lb ≠ .tick d) (ht : lb.Takes c c') (hf : ∀ f ∈ c.sent, f.Framed)
    (hc : c.sent.length ≤ 2) (hh : ∀ f, c.sent[0]? = some f → Greets f)
    (hx : ∀ f, c.sent[1]? = some f → Admits cfg R f) :
    Goes cfg R c' t (sent ++ lb.sent.toList) k := by
  obtain ⟨st, hp, hl⟩ := h
  cases st
  case idle h r =>
    cases e
    case start remoteError _ =>
      subst hs
      cases ht
      have st : Handshake cfg R c (((s.setStatus .connected).start
          (.leftRead (.receiving lengthHandshake) 0)).setStatus .hello) [] (8 + fetchCost 0 none) :=
        .reading (.hello rfl) (Outstanding.only_started h.io) (.waiting r)
      exact ⟨_, by decide, st, hp, ((hl.setStatus _).start _).setStatus _⟩
    case complete hi _ _     => simp [h.io] at hi
    case deliver hi          => simp [h.io] at hi
    case tick d              => exact absurd rfl (hn d)
  case pending op k io d r =>
    have hs' : s.status ≠ .notConnected := by cases d <;> simp [*]
    cases single_step io hs' e hn
    case complete o co =>
      have ho : o.failed = false := hs
      have hc : c' = c := by cases d <;> exact ht
      subst hc
      exact ⟨k, Nat.lt_succ_self k, .done d rfl ho r, hp, hl⟩
  case done op o sent io ho r d =>
    have hs' : s.status ≠ .notConnected := by cases d <;> simp [*]
    cases single_step io hs' e hn
    case deliver ch =>
      cases ht
      have co : Completes op o := i.queued ⟨op, some o⟩ (by simp [io]) o rfl
      have d : Doing cfg R { s with io := [] }.status op sent k := d
      rw [show (Label.deliver op o ch).sent = none from rfl, Option.toList_none, List.append_nil]
      exact d.deliver r hl hp rfl co ho
  case reading lss rest n k arrived io f a =>
    have hs' : s.status ≠ .notConnected := by cases a <;> simp [*]
    cases arrived
    case none =>
      cases single_step io hs' e hn
      case complete o co =>
        cases co
        case error            => cases hs
        case leftRead d ne le =>
          have st : Handshake cfg R c' { s with io := [⟨.leftRead lss rest, some (.bytes d)⟩] } sent
              (k + fetchCost rest (some d)) := .reading a rfl (f.arrive ht)
          refine ⟨_, ?_, (List.append_nil sent).symm ▸ st, hp, hl⟩
          simp [fetchCost]
    case some d =>
      cases single_step io hs' e hn
      case deliver ch =>
        cases ht
        have hm : ⟨.leftRead lss rest, some (.bytes d)⟩ ∈ s.io := by simp [io]
        have hd : d.length ≤ offered lss rest := by
          cases i.queued _ hm _ rfl
          case leftRead le => exact le
        have hb : Pending lss rest := i.buffered (.leftRead lss rest) (List.mem_map_of_mem hm)
        have a : Listens cfg { s with io := [] }.status n sent k := a
        rw [show (Label.deliver _ _ ch).sent = none from rfl, Option.toList_none, List.append_nil]
        exact a.deliver hl hp rfl (f.fetched hf hb hd) hh hx d
  case opened hs' h io r =>
    cases single_step io (by simp [hs']) e hn
    case complete o co =>
      cases co
      case error    => cases hs
      case leftRead =>
        -- The local has sent nothing more.
        have hq : c.queue = [] := by
          rw [Channel.sent, List.length_append, r.done] at hc
          exact List.eq_nil_of_length_eq_zero (by omega)
        cases ht with
        | whole hq' | part hq' => simp [hq] at hq'

-- What has been sent, as far as it goes.
theorem Handshake.hello {f : Packet} (h : Handshake cfg R c s sent k) (hf : sent[0]? = some f) :
    f = packHello cfg := by
  cases h
  case idle             => cases hf
  case opened           => exact (Option.some.inj hf).symm
  case pending d _      => cases d <;> cases hf; rfl
  case reading a        => cases a <;> cases hf; rfl
  case done o _ _ _ _ d => cases d <;> cases o <;> cases hf <;> rfl

theorem Handshake.exchange {f : Packet} (h : Handshake cfg R c s sent k) (hf : sent[1]? = some f) :
    R f := by
  cases h
  case idle             => cases hf
  case opened h _ _     => cases hf; exact h
  case pending d _      => cases d <;> cases hf
  case reading a        => cases a <;> cases hf
  case done o _ _ _ _ d =>
    cases d with
    | hello         => cases o <;> cases hf
    | exchange _ h' => cases o <;> cases hf; exact h'

-- What a session is like that has nothing to do: it waits for a packet, as it does in the end for a
-- request.
inductive AtRest (c : Wire) (s : Session) (sent : List Packet) : Prop
  | waiting (hq : c.queue = []) (h : sent.length = c.done.length) (hl : sent.length < 2)
  | opened (hs : s.status = .data) (io : s.io = [⟨.leftRead (.receiving lengthHandshake) 0, none⟩])
    (hd : c.done.length = 2) (h : sent.length = 2)

theorem Doing.completes {status : Status} (d : Doing cfg R status op sent k) (c : Wire) :
    ∃ o, Completes op o ∧ (Label.complete op o).Smooth ∧ (Label.complete op o).Takes c c := by
  cases d
  case hello    => exact ⟨.done, .leftWrite, rfl, rfl⟩
  case exchange => exact ⟨.done, .leftWrite, rfl, rfl⟩

theorem Handshake.progress (h : Handshake cfg R c s sent k) : AtRest c s sent ∨
    ∃ lb t c', Step cfg s lb t ∧ lb.Smooth ∧ lb.Takes c c' ∧ ∀ d, lb ≠ .tick d := by
  cases h
  case idle h _       => exact .inr ⟨.start false, _, c, .start h.status, rfl, rfl, nofun⟩
  case pending io d _ =>
    have ⟨o, co, hs, ht⟩ := d.completes c
    exact .inr ⟨_, _, c, .complete (l := []) io co (by cases d <;> nofun), hs, ht, nofun⟩
  case done op o _ io _ _ _ =>
    exact .inr ⟨.deliver op o sampleChoice, _, c, .deliver (l := []) io, trivial, rfl, nofun⟩
  case reading lss rest n k arrived io f a =>
    cases arrived
    case some d =>
      exact .inr ⟨.deliver _ _ sampleChoice, _, c, .deliver (l := []) io, trivial, rfl, nofun⟩
    case none   =>
      by_cases hq : c.queue = []
      case neg =>
        have ⟨d, c', ne, le, r⟩ := f.exists_reads hq
        exact .inr ⟨_, _, c', .complete (l := []) io (.leftRead ne le) nofun, rfl, r, nofun⟩
      case pos =>
        cases f with
        | waiting r      => cases a <;> exact .inl (.waiting hq (by simp [r.done]) (by simp))
        | resumed _ hq' => simp [hq] at hq'
  case opened hs _ io r => exact .inl (.opened hs io r.done rfl)

end Session
end Lproxy.Server
