import Lproxy.Local.Receiver
import Lproxy.Codec

-- How a session sends frames to its server.
namespace Lproxy.Local

open Crypto
open List (filterMap_cons)

variable {cfg : Config} {ch : Choice} {Q : Data → Prop} {aes aes' : Option Aes} {f : Packet}
  {next : RightWriteNext}

-- The frames that a session writes, and the handlers that the writes are bound to. `Q` holds of the
-- ciphertexts of exchange packets.
inductive Request (cfg : Config) (Q : Data → Prop) (aes : Option Aes) :
    Packet → RightWriteNext → Prop
  | hello : Request cfg Q aes packHello .helloHandler
  | exchange {cipher : Data} (h : Q cipher) :
    Request cfg Q aes (pack .exchange cipher.length cipher) .exchangeHandler
  | data {a : Aes} {d : Data} (hd : d.length ≤ maxLength) (he : aes = some a) :
    Request cfg Q aes (dataRequest cfg a d) .rightWriteHandler
  | farewell : Request cfg Q aes packBad .cancel

namespace Request

theorem keep (h : Request cfg Q aes f next) (he : ∀ {a}, aes = some a → aes' = some a) :
    Request cfg Q aes' f next := by
  cases h
  case hello      => exact .hello
  case exchange h => exact .exchange h
  case data hd h  => exact .data hd (he h)
  case farewell   => exact .farewell

theorem framed (h : Request cfg Q aes f next) (hq : ∀ {cipher}, Q cipher → cipher.length < 65536) :
    f.Framed := by
  have hm : maxLength = 4096 := rfl
  cases h
  case hello      => exact pack_framed rfl (by decide)
  case exchange h => exact pack_framed rfl (hq h)
  case data hd h  => exact pack_framed (by simp) (by simp; omega)
  case farewell   => exact pack_framed rfl (by decide)

theorem isData_iff (h : Request cfg Q aes f next) : IsData f ↔ next = .rightWriteHandler := by
  cases h
  case data => simp [dataRequest, isData_pack]
  all_goals simp [IsData, packHello, packBad, pack, RequestType.toByte, ReplyType.toByte]

theorem exists_cipher (h : Request cfg Q aes f next) (ht : RequestType.ofByte f.type = .exchange) :
    ∃ cipher, Q cipher ∧ f = pack .exchange cipher.length cipher := by
  cases h
  case exchange h => exact ⟨_, h, rfl⟩
  case data       => cases hz : cfg.zipOn <;> simp [dataRequest, pack, hz] at ht
  all_goals simp [packHello, packBad, pack] at ht

end Request

-- What the session makes of a hello packet and of what it finds in `ch` is an exchange packet of
-- those that `Q` holds of.
def Elicits (cfg : Config) (ch : Choice) (Q : Data → Prop) (f : Packet) : Prop :=
  ∀ ⦃s lss keysize publicKey rsa cipher⦄, lss.StartsWith f →
    Session.unpackReplyHello s lss = (s, .ok (keysize, publicKey)) →
    Rsa.ofPublicKey cfg.cpp keysize.toUInt64 publicKey = some rsa →
    rsa.encrypt cfg.cpp ch.rng (cfg.authKey.val ++ ch.randomStr) = .ok cipher → Q cipher

namespace Session

variable {s t u : Session} {op op' : Op} {o : Outcome} {c c' down : Wire} {new run : List Op}
  {x : Outstanding Op Outcome} {fs : List Packet}

theorem dataRequests_eq (s : Session) :
    s.dataRequests = (s.log.filterMap Event.started?).filterMap Op.dataRequest? := by
  rw [dataRequests, List.filterMap_filterMap]
  congr
  funext e
  cases e
  case started op =>
    cases op
    case rightWrite next => cases next <;> rfl
    all_goals rfl
  all_goals rfl

structure Sends (cfg : Config) (Q : Data → Prop) (s : Session) (c : Wire) : Prop where
  inOrder : writer.Sends s.sends s.dataRequests (dataFrames c.sent) s.io
  written : ∀ {f next}, .rightWrite f next ∈ ops [] s → Request cfg Q (s.cipher cfg) f next
  requests : ∀ f ∈ c.sent, ∃ next, Request cfg Q (s.cipher cfg) f next

theorem dataRequest_eq_some (h : op.dataRequest? = some f) :
    op = .rightWrite f .rightWriteHandler := by
  unfold Op.dataRequest? at h
  split at h <;> cases h
  rfl

theorem sends_of_dataRequest (h : op.dataRequest?.isSome) : s.sends op := by
  have ⟨f, h⟩ := Option.isSome_iff_exists.mp h
  rw [dataRequest_eq_some h]
  rfl

theorem sends_mono (i : Inv cfg [op] s) (d : Delivered cfg ch s op o t) (h : t.sends op') :
    s.sends op' := by
  by_cases hs : s.status = .data
  case neg => simp [sends, hs]
  case pos => simpa [sends, hs, delivered_data i d hs] using h

theorem sends_of_begins (i : Inv cfg [op] s) (d : Delivered cfg ch s op o t)
    (st : Begins cfg ch s op o t op') (ht : t.sends op') : s.sends op := by
  have hs := sends_mono i d ht
  have early (h : s.status ≠ .data) : s.sends op := by simp [sends, h]
  have left (h : op.inLeft) : s.sends op := by simp [sends, h]
  cases st
  case connectAny h        => exact early h
  case connect h           => exact early h
  case hello h             => exact early h
  case exchange h _ _ _ _  => exact early h
  case greeting h          => exact early h
  case answer h            => exact left (Op.inLeft_of_inGreeting h)
  case leftRead h _        => exact left h
  case request h _ _ _     => exact left h
  case farewell h _        => exact left h
  case rightRead           => exact early (by simpa [sends, Op.inLeft, Op.inRight] using hs)
  case relay               => exact early (by simpa [sends, Op.inLeft, Op.inRight] using hs)

-- The encryptor of a session that goes on is the one it had, if it had one.
theorem delivered_encryptor {a : Aes} (i : Inv cfg [op] s) (d : Delivered cfg ch s op o t)
    (h : s.cipher cfg = some a) : t.cipher cfg = some a := by
  by_cases he : ∃ bt lss, RightEntry op o bt lss
  case neg =>
    have ⟨_, hc⟩ := delivered_cipher i d fun e => he ⟨_, _, e⟩
    exact hc.trans h
  case pos =>
    have ⟨bt, lss, e⟩ := he
    have r := rightReadDone_of_entry e d
    have hs : s.status = .data := by
      by_contra hs
      simp [cipher_of_not_data hs] at h
    rw [cipher_of_data hs] at h
    rw [cipher_of_data (delivered_data i d hs)]
    cases r
    case relay hu _          => exact hu.1.symm.trans h
    case hello hn _ _ _      => simp [hs] at hn
    case illegalServer hn _ _ _ => simp [hs] at hn
    case exchange hn _ _ _   => simp [hs] at hn
    all_goals exact h

-- What the session starts to write is one of its frames.
theorem request_of_begins
    (hr : ∀ {bt lss}, RightEntry op o bt lss → ∃ f, Received down (Noted cfg s) bt lss f)
    (hx : ∀ f ∈ down.sent, ReplyType.ofByte f.type = .hello → Elicits cfg ch Q f)
    (st : Begins cfg ch s op o t (.rightWrite f next)) : Request cfg Q (t.cipher cfg) f next := by
  cases st
  case hello             => exact .hello
  case farewell          => exact .farewell
  case request ht ha hd  => exact .data hd ((cipher_of_data ht).trans ha)
  case exchange e ht hu hp =>
    have ⟨f, hr⟩ := hr e
    have ⟨_, rsa, cipher, hk, he, hf⟩ := packExchange_ok hp
    exact hf ▸ .exchange (hx f hr.mem (hr.startsWith.header.1 ▸ ht) hr.startsWith hu hk he)

-- What a handler starts, as far as the session sends something then.
structure Spawns (cfg : Config) (Q : Data → Prop) (s : Session) (op : Op) (new : List Op)
    (t : Session) : Prop where
  io : Outstanding.Continues writer.aborted s.io new t.io
  dataRequests : t.dataRequests = s.dataRequests ++ new.filterMap Op.dataRequest?
  sends : ∀ op' ∈ new, t.sends op' → s.sends op
  requests : ∀ {f next}, .rightWrite f next ∈ new → Request cfg Q (t.cipher cfg) f next

theorem spawns_cancel (s : Session) : Spawns cfg Q s op [] s.cancel where
  io := (Outstanding.Continues.refl _).abort _
  dataRequests := by simp [Session.dataRequests, Event.dataRequest?]
  sends := nofun
  requests := nofun

theorem Turn.dataRequests (i : Turn cfg ch s op o new t) :
    t.dataRequests = s.dataRequests ++ new.filterMap Op.dataRequest? := by
  rw [dataRequests_eq, dataRequests_eq, i.log, List.filterMap_append]

theorem spawns_of_handled (i : Inv cfg [op] s) (d : Delivered cfg ch s op o t)
    (hx : ∀ f ∈ down.sent, ReplyType.ofByte f.type = .hello → Elicits cfg ch Q f)
    (h : Handled cfg ch down s op o t) : ∃ new, Spawns cfg Q s op new t := by
  cases h
  case turn new i' hr =>
    exact ⟨new, i'.io, i'.dataRequests, fun op' hm => sends_of_begins i d (i'.begins op' hm),
      fun hm => request_of_begins hr hx (i'.begins _ hm)⟩
  case more bt lss hop hh hb ht =>
    refine ⟨[.rightRead (trim bt lss) (4 + lss.dataLen.toNat - bt)], ?_, ?_, ?_, by simp⟩
    · exact ht ▸ (Outstanding.Continues.refl _).start _
    · subst ht
      simp [Session.dataRequests, filterMap_cons, Event.dataRequest?, Op.dataRequest?]
    · intro op' hm hs
      cases List.mem_singleton.mp hm
      have hs := sends_mono i d hs
      have hd : s.status ≠ .data := by simpa [Session.sends, Op.inLeft, Op.inRight] using hs
      simp [Session.sends, hd]

-- A write of data that fails ends the session.
theorem spawns_of_failed (hc : Completes op o) (h : writer.owes op (some o) = none) :
    Spawns cfg Q s op [] (s.deliver cfg ch op o) := by
  cases op
  case rightWrite next =>
    cases next
    case rightWriteHandler =>
      cases hc
      case error      => exact spawns_cancel s
      case rightWrite => cases h
    all_goals cases h
  all_goals cases h

namespace Sends

theorem of_sent (h : Sends cfg Q s c) (hc : c'.sent = c.sent) : Sends cfg Q s c' :=
  ⟨hc ▸ h.inOrder, h.written, hc ▸ h.requests⟩

-- What is sent when an operation completes.
theorem request_of_sent (h : Sends cfg Q s c) (hm : ⟨op, none⟩ ∈ s.io)
    (hf : f ∈ (Label.complete op o).sent.toList) : ∃ next,
      Request cfg Q (s.cipher cfg) f next ∧ op = .rightWrite f next ∧ o = .done := by
  have ⟨next, he, ho⟩ := Label.of_mem_sent hf
  subst he
  exact ⟨next, h.written (List.mem_map_of_mem hm), rfl, ho⟩

theorem dataFrames_sent (h : Sends cfg Q s c) (hm : ⟨op, none⟩ ∈ s.io) (hc : Completes op o) :
    dataFrames (Label.complete op o).sent.toList = writer.sentBy op o := by
  cases hd : op.dataRequest?
  case none =>
    rw [FrameWriter.sentBy_of_none (show writer.frame? op = none from hd)]
    apply dataFrames_of_not
    intro f hf hn
    have ⟨next, hr, he, _⟩ := h.request_of_sent hm hf
    cases hr.isData_iff.mp hn
    simp [he, Op.dataRequest?] at hd
  case some f =>
    cases dataRequest_eq_some hd
    have hl : IsData f := (h.written (List.mem_map_of_mem hm)).isData_iff.mpr rfl
    cases hc
    case error      => rfl
    case rightWrite => exact dataFrames_singleton hl

theorem complete {l r : List (Outstanding Op Outcome)} (h : Sends cfg Q s c) (k : Serial [] s)
    (hio : s.io = l ++ ⟨op, none⟩ :: r) (hc : Completes op o) :
    Sends cfg Q { s with io := l ++ ⟨op, some o⟩ :: r } (c.send (Label.complete op o).sent) := by
  have hm : ⟨op, none⟩ ∈ s.io := by simp [hio]
  constructor
  case inOrder =>
    rw [Channel.sent_send, dataFrames_append, h.dataFrames_sent hm hc]
    exact FrameWriter.Sends.complete (hio ▸ h.inOrder)
      (Outstanding.alone k.sending hio) sends_of_dataRequest
  case written =>
    intro f next hf
    rw [ops_complete hio] at hf
    exact h.written hf
  case requests =>
    intro f hf
    rw [Channel.sent_send, List.mem_append] at hf
    cases hf
    case inl hf => exact h.requests f hf
    case inr hf =>
      have ⟨next, hr, _⟩ := h.request_of_sent hm hf
      exact ⟨next, hr⟩

theorem deliver {l r : List (Outstanding Op Outcome)} (h : Sends cfg Q s c) (i : Inv cfg [] s)
    (k : Serial [] s) (hio : s.io = l ++ ⟨op, some o⟩ :: r) (hr : Receives cfg s down)
    (hf : ∀ f ∈ down.sent, f.Framed)
    (hx : ∀ f ∈ down.sent, ReplyType.ofByte f.type = .hello → Elicits cfg ch Q f) :
    Sends cfg Q ({ s with io := l ++ r }.deliver cfg ch op o) c := by
  have hm : ⟨op, some o⟩ ∈ s.io := by simp [hio]
  have hc := i.queued _ hm o rfl
  have j := i.dequeue hio
  have d : Delivered cfg ch _ op o _ := j.deliver hc
  have k' := (k.reorder (ops_dequeue hio)).delivered j d
  have hh : Handled cfg ch down _ op o _ := handled j hc (fun hop => hr.ready _ hm hop) hf
  have ⟨new, hs, hn⟩ : ∃ new, Spawns cfg Q { s with io := l ++ r } op new
      ({ s with io := l ++ r }.deliver cfg ch op o) ∧
      (writer.owes op (some o) = none → new = []) := by
    cases ho : writer.owes op (some o)
    case none => exact ⟨[], spawns_of_failed hc ho, fun _ => rfl⟩
    case some =>
      have ⟨new, hs⟩ := spawns_of_handled j d hx hh
      exact ⟨new, hs, nofun⟩
  have keep {a : Aes} (ha : s.cipher cfg = some a) :
      ({ s with io := l ++ r }.deliver cfg ch op o).cipher cfg = some a :=
    delivered_encryptor j d ha
  constructor
  case inOrder =>
    rw [hs.dataRequests]
    have hz := Outstanding.alone k.sending hio
    have hmono {op'} (hs : Session.sends _ op') : s.sends op' := (sends_mono j d hs :)
    exact FrameWriter.Sends.deliver (hio ▸ h.inOrder) hs.io hz hmono hs.sends k'.sending
      sends_of_dataRequest hn
  case written =>
    intro f next hf
    rw [show ops [] _ = _ from hs.io.ops, List.mem_append] at hf
    cases hf
    case inr hf => exact hs.requests hf
    case inl hf =>
      have hf := (ops_dequeue hio).mem_iff.mp (List.mem_cons_of_mem _ hf)
      exact (h.written hf).keep keep
  case requests =>
    intro f hf
    have ⟨next, hr⟩ := h.requests f hf
    exact ⟨next, hr.keep keep⟩

end Sends

theorem sends_step {lb : Label} (r : Reachable cfg s) (e : Step cfg s lb t) (h : Sends cfg Q s c)
    (hr : Receives cfg s down) (hf : ∀ f ∈ down.sent, f.Framed)
    (hx : ∀ {op o ch}, lb = .deliver op o ch → ∀ f ∈ down.sent,
      ReplyType.ofByte f.type = .hello → Elicits cfg ch Q f) :
    Sends cfg Q t (c.send lb.sent) := by
  have i := inv_reachable r
  have k := serial_reachable r
  have hz (c : Wire) : c.send none = c := by simp [Channel.send]
  cases e
  case complete hio hc => exact h.complete k hio hc
  case deliver hio     => exact (hz c).symm ▸ h.deliver i k hio hr hf (hx rfl)
  case start remoteError hn =>
    subst hn
    cases remoteError
    case true  => exact (hz c).symm ▸ h
    case false =>
      have hc : dataFrames c.sent = [] := by
        simpa [dataRequests, initial] using h.inOrder.inOrder
      refine (hz c).symm ▸ ⟨⟨h.inOrder.inOrder, ?_⟩, ?_, h.requests⟩
      · intro x hx _ fs ho
        cases List.mem_singleton.mp hx
        cases ho
        rw [hc]
        rfl
      · intro f next hf
        simp [startSession, ops, initial] at hf

theorem sends_initial : Sends cfg Q .initial .empty :=
  ⟨⟨List.nil_prefix, nofun⟩, nofun, nofun⟩

end Session
end Lproxy.Local
