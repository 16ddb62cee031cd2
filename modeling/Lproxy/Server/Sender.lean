import Lproxy.Server.Receiver
import Lproxy.Codec

-- How a session sends frames to its local.
namespace Lproxy.Server

open Crypto
open List (filterMap_cons)

variable {cfg : Config} {authKey : Key} {encryptor encryptor' : Option Aes} {f : Packet}
  {next : LeftWriteNext}

-- The frames that a session writes, and the handlers that the writes are bound to.
inductive Reply (cfg : Config) (authKey : Key) (encryptor : Option Aes) :
    Packet → LeftWriteNext → Prop
  | hello : Reply cfg authKey encryptor (packHello cfg) .helloHandler
  | exchange {key : Key} {randomStr : Data} (hl : 32 + randomStr.length < 65536)
    (he : encryptor = some (Aes.raw256 cfg.cpp key)) :
    Reply cfg authKey encryptor
      (pack .exchange ((Aes.raw256 cfg.cpp authKey).encrypt cfg.cpp (key.val ++ randomStr)))
      .exchangeHandler
  | data {aes : Aes} {d : Data} (hd : d.length ≤ maxLength) (he : encryptor = some aes) :
    Reply cfg authKey encryptor (dataReply cfg aes d) .leftWriteHandler
  | farewell {lss : Packet} (h : lss = packBad ∨ lss = packDeny ∨ lss = packTimeout) :
    Reply cfg authKey encryptor lss .cancel

namespace Reply

theorem keep (h : Reply cfg authKey encryptor f next)
    (he : ∀ {a}, encryptor = some a → encryptor' = some a) :
    Reply cfg authKey encryptor' f next := by
  cases h
  case hello         => exact .hello
  case exchange hl h => exact .exchange hl (he h)
  case data hd h     => exact .data hd (he h)
  case farewell h    => exact .farewell h

theorem framed (h : Reply cfg authKey encryptor f next) (hh : (genHelloData cfg).length < 65536) :
    f.Framed := by
  have hm : maxLength = 4096 := rfl
  cases h
  case hello         => exact pack_framed hh
  case exchange k _ hl h => exact pack_framed (by simpa [k.property] using hl)
  case data hd h     => exact pack_framed (by simp; omega)
  case farewell h    => rcases h with rfl | rfl | rfl <;> exact pack_framed (by decide)

theorem isData_iff (h : Reply cfg authKey encryptor f next) :
    IsData f ↔ next = .leftWriteHandler := by
  cases h
  case hello      => simp [packHello, Session.not_isData_pack]
  case exchange   => simp [Session.not_isData_pack]
  case data       => simp [dataReply, isData_pack]
  case farewell h => rcases h with rfl | rfl | rfl <;>
    simp [packBad, packDeny, packTimeout, Session.not_isData_pack]

theorem isExchange_iff (h : Reply cfg authKey encryptor f next) :
    ReplyType.ofByte f.type = .exchange ↔ next = .exchangeHandler := by
  cases h
  case hello      => simp [packHello, pack]
  case exchange   => simp [pack]
  case data       => cases hz : cfg.zipOn <;> simp [dataReply, pack, hz]
  case farewell h => rcases h with rfl | rfl | rfl <;> simp [packBad, packDeny, packTimeout, pack]

theorem eq_hello (h : Reply cfg authKey encryptor f next)
    (ht : ReplyType.ofByte f.type = .hello) : f = packHello cfg := by
  cases h
  case hello      => rfl
  case exchange   => simp [pack] at ht
  case data       => cases hz : cfg.zipOn <;> simp [dataReply, pack, hz] at ht
  case farewell h =>
    rcases h with rfl | rfl | rfl <;> simp [packBad, packDeny, packTimeout, pack] at ht

end Reply

-- An exchange packet that yields nothing but the key `authKey` and a random string.
def Opens (cfg : Config) (authKey : Key) (f : Packet) : Prop :=
  ∃ randomStr, 32 + randomStr.length < 65536 ∧ ∀ {lss plain}, lss.StartsWith f →
    Session.Decrypts cfg lss plain → plain = authKey.val ++ randomStr

namespace Session

variable {ch : Choice} {s t u : Session} {op op' : Op} {o : Outcome} {c c' up : Wire}
  {new run : List Op} {x : Outstanding Op Outcome} {fs : List Packet}

theorem dataReplies_eq (s : Session) :
    s.dataReplies = (s.log.filterMap Event.started?).filterMap Op.dataReply? := by
  rw [dataReplies, List.filterMap_filterMap]
  congr
  funext e
  cases e
  case started op =>
    cases op
    case leftWrite next => cases next <;> rfl
    all_goals rfl
  all_goals rfl

theorem Turn.dataReplies (i : Turn cfg ch s op o encryptor new t) :
    t.dataReplies = s.dataReplies ++ new.filterMap Op.dataReply? := by
  rw [dataReplies_eq, dataReplies_eq, i.log, List.filterMap_append]

theorem Turn.ops (i : Turn cfg ch s op o encryptor new t) : ops [] t = ops [] s ++ new :=
  i.io.ops

structure Sends (cfg : Config) (authKey : Key) (s : Session) (c : Wire) : Prop where
  inOrder : writer.Sends s.sends s.dataReplies (dataFrames c.sent) s.io
  written : ∀ {f next}, .leftWrite f next ∈ ops [] s → Reply cfg authKey s.aesEncryptor f next
  replies : ∀ f ∈ c.sent, ∃ next, Reply cfg authKey s.aesEncryptor f next
  accepted : (∃ f ∈ c.sent, ReplyType.ofByte f.type = .exchange) →
    s.status = .data ∨ ∃ f, ⟨.leftWrite f .exchangeHandler, some .done⟩ ∈ s.io

theorem dataReply_eq_some (h : op.dataReply? = some f) : op = .leftWrite f .leftWriteHandler := by
  unfold Op.dataReply? at h
  split at h <;> cases h
  rfl

theorem sends_of_dataReply (h : op.dataReply?.isSome) : s.sends op := by
  have ⟨f, h⟩ := Option.isSome_iff_exists.mp h
  rw [dataReply_eq_some h]
  rfl

theorem sends_mono (d : Delivered cfg ch s op o t) (h : t.sends op') : s.sends op' := by
  by_cases hs : s.socks5State = .connected
  case neg =>
    simp only [sends, Bool.or_eq_true, Bool.and_eq_true] at h ⊢
    exact h.imp_right fun h => ⟨h.1, by simpa using hs⟩
  case pos =>
    simpa [sends, hs, delivered_connected d hs] using h

theorem sends_of_begins (d : Delivered cfg ch s op o t)
    (st : Begins cfg ch s op o encryptor op') (ht : t.sends op') : s.sends op := by
  have hs := sends_mono d ht
  have reading (h : op.inReading) (ho : op'.inRight = false) : s.sends op := by
    simp [sends, ho] at hs
    simp [sends, h, hs]
  cases st
  case leftRead h           => exact reading h rfl
  case hello h              => exact reading (Op.inReading_of_inLeft h) rfl
  case exchange h _ _ _ _ _ => exact reading (Op.inReading_of_inLeft h) rfl
  case reply h _ _ _        => exact h
  case farewell             => cases hs
  case rightRead h          => simp [sends, h]
  case rightWrite h         => exact reading (Op.inReading_of_inLeft h) rfl
  case resolve h _ _        => exact reading (Op.inReading_of_inLeft h) rfl
  case connect h            => exact reading (Op.inReading_of_inConnect h) rfl
  case timerWait            => cases hs

-- What the session starts to write is one of its frames.
theorem reply_of_begins (i : Inv cfg [op] s) (d : Delivered cfg ch s op o t)
    (hr : ∀ {bt lss}, LeftEntry op o bt lss → ∃ f, Received up (Noted cfg s) bt lss f)
    (hx : ∀ f ∈ up.sent, RequestType.ofByte f.type = .exchange → Opens cfg authKey f)
    (st : Begins cfg ch s op o t.aesEncryptor (.leftWrite f next)) :
    Reply cfg authKey t.aesEncryptor f next := by
  cases st
  case hello             => exact .hello
  case farewell h        => exact .farewell h
  case reply hd hp       =>
    have ⟨aes, ha, he⟩ := hp
    exact he ▸ .data hd (delivered_encryptor i d ha)
  case exchange e ht hd he hp =>
    have ⟨f, hr⟩ := hr e
    have ⟨randomStr, hl, ho⟩ := hx f hr.mem (hr.startsWith.header.1 ▸ ht)
    have hk : authKey.val.length = 32 := authKey.property
    cases ho hr.startsWith hd
    rw [List.take_left' hk, List.drop_left' hk] at hp
    have ⟨_, hp⟩ := packExchange_eq hp
    exact hp ▸ .exchange hl he

-- What a handler starts, as far as the session sends something then.
structure Spawns (cfg : Config) (authKey : Key) (s : Session) (op : Op) (new : List Op)
    (t : Session) : Prop where
  io : Outstanding.Continues writer.aborted s.io new t.io
  dataReplies : t.dataReplies = s.dataReplies ++ new.filterMap Op.dataReply?
  sends : ∀ op' ∈ new, t.sends op' → s.sends op
  replies : ∀ {f next}, .leftWrite f next ∈ new → Reply cfg authKey t.aesEncryptor f next

theorem spawns_cancel (s : Session) : Spawns cfg authKey s op [] s.cancel where
  io := (Outstanding.Continues.refl _).abort _
  dataReplies := by simp [Session.dataReplies, Event.dataReply?]
  sends := nofun
  replies := nofun

theorem spawns_of_handled (i : Inv cfg [op] s) (d : Delivered cfg ch s op o t)
    (hx : ∀ f ∈ up.sent, RequestType.ofByte f.type = .exchange → Opens cfg authKey f)
    (h : Handled cfg ch up s op o t) : ∃ new, Spawns cfg authKey s op new t := by
  cases h
  case turn new i' hr =>
    exact ⟨new, i'.io, i'.dataReplies, fun op' hm => sends_of_begins d (i'.begins op' hm),
      fun hm => reply_of_begins i d hr hx (i'.begins _ hm)⟩
  case more bt lss hop hh hb ht =>
    refine ⟨[.leftRead (trim bt lss) (4 + lss.dataLen.toNat - bt)], ?_, ?_, ?_, by simp⟩
    · exact ht ▸ (Outstanding.Continues.refl _).start _
    · subst ht
      simp [Session.dataReplies, filterMap_cons, Event.dataReply?, Op.dataReply?]
    · intro op' hm hs
      cases List.mem_singleton.mp hm
      have hs := sends_mono d hs
      simp [Session.sends, Op.inRight] at hs
      simp [Session.sends, inReading_of_looks hop, hs]

-- A write of data that fails ends the session.
theorem spawns_of_failed (hc : Completes op o) (h : writer.owes op (some o) = none) :
    Spawns cfg authKey s op [] (s.deliver cfg ch op o) := by
  cases op
  case leftWrite next =>
    cases next
    case leftWriteHandler =>
      cases hc
      case error     => exact spawns_cancel s
      case leftWrite => cases h
    all_goals cases h
  all_goals cases h

namespace Sends

theorem of_sent (h : Sends cfg authKey s c) (hc : c'.sent = c.sent) : Sends cfg authKey s c' :=
  ⟨hc ▸ h.inOrder, h.written, hc ▸ h.replies, hc ▸ h.accepted⟩

-- What is sent when an operation completes.
theorem reply_of_sent (h : Sends cfg authKey s c) (hm : ⟨op, none⟩ ∈ s.io)
    (hf : f ∈ (Label.complete op o).sent.toList) : ∃ next,
      Reply cfg authKey s.aesEncryptor f next ∧ op = .leftWrite f next ∧ o = .done := by
  have ⟨next, he, ho⟩ := Label.of_mem_sent hf
  subst he
  exact ⟨next, h.written (List.mem_map_of_mem hm), rfl, ho⟩

theorem dataFrames_sent (h : Sends cfg authKey s c) (hm : ⟨op, none⟩ ∈ s.io)
    (hc : Completes op o) :
    dataFrames (Label.complete op o).sent.toList = writer.sentBy op o := by
  cases hd : op.dataReply?
  case none =>
    rw [FrameWriter.sentBy_of_none (show writer.frame? op = none from hd)]
    apply dataFrames_of_not
    intro f hf hn
    have ⟨next, hr, he, _⟩ := h.reply_of_sent hm hf
    cases hr.isData_iff.mp hn
    simp [he, Op.dataReply?] at hd
  case some f =>
    cases dataReply_eq_some hd
    have hl : IsData f := (h.written (List.mem_map_of_mem hm)).isData_iff.mpr rfl
    cases hc
    case error     => rfl
    case leftWrite => exact dataFrames_singleton hl

theorem complete {l r : List (Outstanding Op Outcome)} (h : Sends cfg authKey s c)
    (i : Inv cfg [] s) (hio : s.io = l ++ ⟨op, none⟩ :: r) (hc : Completes op o) :
    Sends cfg authKey { s with io := l ++ ⟨op, some o⟩ :: r }
      (c.send (Label.complete op o).sent) := by
  have hm : ⟨op, none⟩ ∈ s.io := by simp [hio]
  constructor
  case inOrder =>
    rw [Channel.sent_send, dataFrames_append, h.dataFrames_sent hm hc]
    exact FrameWriter.Sends.complete (hio ▸ h.inOrder)
      (Outstanding.alone i.sending hio) sends_of_dataReply
  case written =>
    intro f next hf
    rw [ops_complete hio] at hf
    exact h.written hf
  case replies =>
    intro f hf
    rw [Channel.sent_send, List.mem_append] at hf
    cases hf
    case inl hf => exact h.replies f hf
    case inr hf =>
      have ⟨next, hr, _⟩ := h.reply_of_sent hm hf
      exact ⟨next, hr⟩
  case accepted =>
    intro ⟨f, hf, ht⟩
    rw [Channel.sent_send, List.mem_append] at hf
    cases hf
    case inl hf =>
      apply (h.accepted ⟨f, hf, ht⟩).imp_right
      intro ⟨g, hg⟩
      refine ⟨g, ?_⟩
      simp [hio] at hg ⊢
      tauto
    case inr hf =>
      have ⟨next, hr, he, ho⟩ := h.reply_of_sent hm hf
      cases hr.isExchange_iff.mp ht
      exact .inr ⟨f, by simp [he, ho]⟩

theorem deliver {l r : List (Outstanding Op Outcome)} (h : Sends cfg authKey s c) (i : Inv cfg [] s)
    (hio : s.io = l ++ ⟨op, some o⟩ :: r) (hr : Receives cfg s up) (hf : ∀ f ∈ up.sent, f.Framed)
    (hx : ∀ f ∈ up.sent, RequestType.ofByte f.type = .exchange → Opens cfg authKey f) :
    Sends cfg authKey ({ s with io := l ++ r }.deliver cfg ch op o) c := by
  have hm : ⟨op, some o⟩ ∈ s.io := by simp [hio]
  have hc := i.queued _ hm o rfl
  have k := i.dequeue hio
  have d : Delivered cfg ch _ op o _ := k.deliver hc
  have j : Inv cfg [] ({ s with io := l ++ r }.deliver cfg ch op o) := k.delivered (k.holds hc) d
  have hh : Handled cfg ch up _ op o _ := handled k hc (fun hop => hr.ready _ hm hop) hf
  have ⟨new, hs, hn⟩ : ∃ new, Spawns cfg authKey { s with io := l ++ r } op new
      ({ s with io := l ++ r }.deliver cfg ch op o) ∧
      (writer.owes op (some o) = none → new = []) := by
    cases ho : writer.owes op (some o)
    case none => exact ⟨[], spawns_of_failed hc ho, fun _ => rfl⟩
    case some =>
      have ⟨new, hs⟩ := spawns_of_handled k d hx hh
      exact ⟨new, hs, nofun⟩
  constructor
  case inOrder =>
    rw [hs.dataReplies]
    have hz := Outstanding.alone i.sending hio
    have hmono {op'} (hs : Session.sends _ op') : s.sends op' := (sends_mono d hs :)
    exact FrameWriter.Sends.deliver (hio ▸ h.inOrder) hs.io hz hmono hs.sends j.sending
      sends_of_dataReply hn
  case written =>
    intro f next hf
    rw [show ops [] _ = _ from hs.io.ops, List.mem_append] at hf
    cases hf
    case inr hf => exact hs.replies hf
    case inl hf =>
      have hf := (ops_dequeue hio).mem_iff.mp (List.mem_cons_of_mem _ hf)
      exact (h.written hf).keep fun ha => delivered_encryptor k d ha
  case replies =>
    intro f hf
    have ⟨next, hr⟩ := h.replies f hf
    exact ⟨next, hr.keep fun ha => delivered_encryptor k d ha⟩
  case accepted =>
    intro he
    cases h.accepted he
    case inl hd => exact .inl (delivered_data k j d hd)
    case inr hg =>
      have ⟨g, hg⟩ := hg
      simp only [hio, List.mem_append, List.mem_cons] at hg
      by_cases hx : ⟨.leftWrite g .exchangeHandler, some .done⟩ ∈ l ++ r
      case pos => exact .inr ⟨g, hs.io.queued _ hx rfl⟩
      case neg =>
        rw [List.mem_append] at hx
        have he : (⟨.leftWrite g .exchangeHandler, some .done⟩ : Outstanding Op Outcome) =
            ⟨op, some o⟩ := by tauto
        cases he
        exact .inl rfl

end Sends

theorem sends_step {lb : Label} (r : Reachable cfg s) (e : Step cfg s lb t)
    (h : Sends cfg authKey s c) (hr : Receives cfg s up) (hf : ∀ f ∈ up.sent, f.Framed)
    (hx : ∀ f ∈ up.sent, RequestType.ofByte f.type = .exchange → Opens cfg authKey f) :
    Sends cfg authKey t (c.send lb.sent) := by
  have i := inv_reachable r
  have hz (c : Wire) : c.send none = c := by simp [Channel.send]
  cases e
  case complete hio hc _ => exact h.complete i hio hc
  case deliver hio       => exact (hz c).symm ▸ h.deliver i hio hr hf hx
  case tick              => exact (hz c).symm ▸ { h with }
  case start remoteError hn =>
    cases remoteError
    case true  => exact (hz c).symm ▸ h
    case false =>
      obtain ⟨hio, hl⟩ := (fresh_reachable r).unstarted hn
      have hs : (s.startSession false).dataReplies = s.dataReplies := by
        simp [startSession, dataReplies, filterMap_cons, Event.dataReply?]
      have he : s.dataReplies = [] := by simp [dataReplies, hl]
      have hc : dataFrames c.sent = [] := by simpa [he] using h.inOrder.inOrder
      refine (hz c).symm ▸ ⟨⟨hs ▸ h.inOrder.inOrder, ?_⟩, ?_, h.replies, ?_⟩
      · intro x hx _ fs ho
        simp only [startSession, hio, Bool.false_eq_true, if_false, setStatus_io, start_io,
          List.nil_append, List.mem_singleton] at hx
        subst hx
        cases ho
        rw [hs, he, hc]
        rfl
      · intro f next hf
        simp [startSession, ops, hio] at hf
      · intro hf
        cases h.accepted hf
        case inl hd => simp [hn] at hd
        case inr hg =>
          obtain ⟨_, hg⟩ := hg
          simp [hio] at hg

theorem sends_initial (h : s.Initial) : Sends cfg authKey s .empty := by
  refine ⟨⟨?_, ?_⟩, ?_, ?_, ?_⟩ <;>
    simp [Channel.empty, Channel.sent, dataFrames, h.io, ops]

section Prompted

variable {P : Prop}

-- The session does not answer before it has been sent a request.
structure Prompted (s : Session) (P : Prop) : Prop where
  outstanding : ∀ op ∈ ops [] s, op.inRight ∨ op.inConnect → P
  replies : s.dataReplies ≠ [] → P

theorem Prompted.spawn (h : Prompted s P) (ho : ops [] t = ops [] s ++ new)
    (hr : t.dataReplies = s.dataReplies ++ new.filterMap Op.dataReply?)
    (hn : ∀ op' ∈ new, op'.inRight ∨ op'.inConnect → P) : Prompted t P := by
  constructor
  case outstanding =>
    intro op' hm
    rw [ho, List.mem_append] at hm
    exact hm.elim (h.outstanding op') (hn op')
  case replies =>
    intro hne
    rw [hr] at hne
    by_cases hs : s.dataReplies = []
    case neg => exact h.replies hs
    case pos =>
      rw [hs, List.nil_append] at hne
      have ⟨f, hf⟩ := List.exists_mem_of_ne_nil _ hne
      have ⟨op', hm, hd⟩ := List.mem_filterMap.mp hf
      refine hn op' hm (.inl ?_)
      cases op'
      case leftWrite next => cases next <;> cases hd; rfl
      all_goals cases hd

theorem Prompted.read (h : Prompted s P) (lss : Packet) (rest : Nat) :
    Prompted (s.start (.leftRead lss rest)) P :=
  have ho : ops [] (s.start (.leftRead lss rest)) = ops [] s ++ [.leftRead lss rest] := by simp
  h.spawn ho (by simp [dataReplies, filterMap_cons, Event.dataReply?, Op.dataReply?])
    (by simp [Op.inRight, Op.inConnect])

theorem Prompted.handled (h : Prompted s P) (hop : op.inRight ∨ op.inConnect → P)
    (hd : ∀ f ∈ up.sent, IsData f → P) (hh : Handled cfg ch up s op o t) : Prompted t P := by
  cases hh
  case more ht    =>
    subst ht
    exact h.read _ _
  case turn i hr  =>
    have heard (hh : Hears op o) : P := by
      have ⟨_, _, e, ht⟩ := hh
      have ⟨f, hr⟩ := hr e
      refine hd f hr.mem ?_
      rwa [IsData, ← hr.startsWith.header.1]
    refine h.spawn i.ops i.dataReplies fun op' hm ha => ?_
    have st := i.begins op' hm
    cases st
    case reply hs hl _ _ =>
      simp only [Session.sends, Op.inReading, Bool.or_eq_true, Bool.and_eq_true] at hs
      rcases hs with hr | ⟨hl' | hc, _⟩
      · exact hop (.inl hr)
      · exact heard (hl hl')
      · exact hop (.inr hc)
    case resolve hl      => exact heard hl
    case connect hc      => exact hop (.inr hc)
    case rightRead hr    => exact hop (.inl hr)
    all_goals simp [Op.inRight, Op.inConnect] at ha

theorem Prompted.mono {P' : Prop} (h : Prompted s P) (hp : P → P') : Prompted s P' :=
  ⟨fun op hm ho => hp (h.outstanding op hm ho), fun hn => hp (h.replies hn)⟩

theorem prompted_initial (h : s.Initial) : Prompted s P := by
  constructor <;> simp [ops, h.io, dataReplies, h.log]

theorem prompted_step {lb : Label} (r : Reachable cfg s) (e : Step cfg s lb t) (h : Prompted s P)
    (hr : Receives cfg s up) (hf : ∀ f ∈ up.sent, f.Framed) (hd : ∀ f ∈ up.sent, IsData f → P) :
    Prompted t P := by
  have i := inv_reachable r
  cases e
  case complete hio _ _     =>
    refine ⟨?_, h.replies⟩
    rw [ops_complete hio]
    exact h.outstanding
  case tick                 => exact ⟨h.outstanding, h.replies⟩
  case start remoteError hn =>
    cases remoteError
    case true  => exact h
    case false =>
      have hs : Prompted (s.setStatus .connected) P :=
        ⟨h.outstanding, by simpa [dataReplies, filterMap_cons, Event.dataReply?] using h.replies⟩
      have ht := hs.read (.receiving lengthHandshake) 0
      exact ⟨ht.outstanding,
        by simpa [startSession, dataReplies, filterMap_cons, Event.dataReply?] using ht.replies⟩
  case deliver l r' op o ch hio =>
    have hm : ⟨op, some o⟩ ∈ s.io := by simp [hio]
    have k := i.dequeue hio
    have hp : Prompted { s with io := l ++ r' } P := by
      refine ⟨fun op' hm => ?_, h.replies⟩
      refine h.outstanding op' ?_
      simp [ops, hio] at hm ⊢
      exact hm.imp_right .inr
    exact hp.handled (h.outstanding op (List.mem_map_of_mem hm)) hd
      (handled k (i.queued _ hm o rfl) (fun hop => hr.ready _ hm hop) hf)

end Prompted

end Session
end Lproxy.Server
