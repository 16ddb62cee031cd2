import Lproxy.Local.Frames
import Lproxy.Local.Serial

-- What the handler of an operation starts.
namespace Lproxy.Local

open List (filterMap_cons)

namespace Session

variable {cfg : Config} {ch : Choice} {s t u : Session} {op op' : Op} {o : Outcome}

-- The operations upon which, sooner or later, the session reads from the server again.
def reads (s : Session) (op : Op) : Bool :=
  op.inRight || op.inGreeting || s.status ≠ .data

-- The operations upon which, sooner or later, the session sends data to the server.
def sends (s : Session) (op : Op) : Bool :=
  op.inLeft || s.status ≠ .data

-- The operations that the handler of `op` can start in a session, when no packet of which a part is
-- missing has been read and no second packet behind the first one. The session goes on as `t`.
inductive Begins (cfg : Config) (ch : Choice) (s : Session) (op : Op) (o : Outcome) (t : Session) :
    Op → Prop
  | connectAny {e : Endpoint} {rest : List Endpoint} (hs : s.status ≠ .data) :
    Begins cfg ch s op o t (.connectAny e rest)
  | connect {e : Endpoint} {rest : List Endpoint} (hs : s.status ≠ .data) :
    Begins cfg ch s op o t (.connect e rest)
  | hello (hs : s.status ≠ .data) : Begins cfg ch s op o t (.rightWrite packHello .helloHandler)
  | exchange {bt : Nat} {lss request : Packet} {keysize : UInt16} {publicKey : Data} {u : Session}
    (hs : s.status ≠ .data) (e : RightEntry op o bt lss) (ht : ReplyType.ofByte lss.type = .hello)
    (hu : s.unpackReplyHello lss = (s, .ok (keysize, publicKey)))
    (hp : s.packExchange cfg ch keysize publicKey = (u, .ok request)) :
    Begins cfg ch s op o t (.rightWrite request .exchangeHandler)
  | greeting (hs : s.status ≠ .data) : Begins cfg ch s op o t (.leftRead .leftReadSocks5Step1)
  | answer {d : Data} (h : op.inGreeting) :
    Begins cfg ch s op o t (.leftWrite d .leftWriteSocks5Step1Handler)
  | rightRead {n : Nat} (h : s.reads op) : Begins cfg ch s op o t (.rightRead (.receiving n) 0)
  | relay {d : Data} (h : op.inRight) : Begins cfg ch s op o t (.leftWrite d (.relay .writeHandler))
  | leftRead (h : op.inLeft) (ht : t.status = .data) :
    Begins cfg ch s op o t (.leftRead .leftReadHandler)
  | request {aes : Crypto.Aes} {d : Data} (h : op.inLeft) (ht : t.status = .data)
    (ha : t.getAes cfg = some aes) (hd : d.length ≤ maxLength) :
    Begins cfg ch s op o t (.rightWrite (dataRequest cfg aes d) .rightWriteHandler)
  | farewell (h : op.inLeft) (ht : t.status = .data) :
    Begins cfg ch s op o t (.rightWrite packBad .cancel)

-- From `s` to `t` some pending operations have been aborted, and those of `new` have been started.
structure Turn (cfg : Config) (ch : Choice) (s : Session) (op : Op) (o : Outcome) (new : List Op)
    (t : Session) : Prop where
  io : Outstanding.Continues (.error .operationAborted) s.io new t.io
  log : t.log.filterMap Event.started? = s.log.filterMap Event.started? ++ new
  begins : ∀ op' ∈ new, Begins cfg ch s op o t op'

-- A handler that starts one operation.
theorem Turn.one (hi : t.io = s.io ++ [⟨op', none⟩])
    (hl : t.log.filterMap Event.started? = s.log.filterMap Event.started? ++ [op'])
    (h : Begins cfg ch s op o t op') : Turn cfg ch s op o [op'] t :=
  ⟨hi ▸ (Outstanding.Continues.refl _).start op', hl, by simpa using h⟩

-- A handler that starts none.
theorem Turn.none (hi : t.io = s.io ∨ t.io = s.cancel.io)
    (hl : t.log.filterMap Event.started? = s.log.filterMap Event.started?) :
    Turn cfg ch s op o [] t := by
  refine ⟨?_, by simpa using hl, nofun⟩
  rcases hi with hi | hi <;> rw [hi]
  · exact .refl _
  · exact (Outstanding.Continues.refl _).abort _

theorem rightReadDone_turn {bt : Nat} {lss : Packet} (e : RightEntry op o bt lss)
    (hh : Holds bt lss) (hw : bt = 4 + lss.dataLen.toNat) (r : RightReadDone cfg ch s bt lss t) :
    ∃ new, Turn cfg ch s op o new t := by
  have hr : op.inRight := by cases e <;> rfl
  cases r
  case more     => omega
  case hello h ht hu hp =>
    have ⟨hu', _⟩ := packExchange_ok hp
    subst hu'
    exact ⟨_, .one rfl (by simp [Event.started?]) (.exchange (by simp [h]) e ht hu hp)⟩
  case exchange h _ _ _ =>
    refine ⟨_, .one rfl ?_ (.greeting (by simp [h]))⟩
    simp [filterMap_cons, Event.started?]
  case relay    =>
    rw [writeNext_eq hh (by omega), if_pos (by omega)]
    refine ⟨_, .one rfl ?_ (.relay hr)⟩
    simp [filterMap_cons, Event.started?]
  case assertion => exact ⟨_, .none (.inl rfl) (by simp [filterMap_cons, Event.started?])⟩
  all_goals exact ⟨_, .none (.inr rfl) (by simp [filterMap_cons, Event.started?])⟩

theorem delivered_turn (i : Inv cfg [op] s) (c : Completes op o)
    (hw : ∀ {bt lss}, RightEntry op o bt lss → bt = 4 + lss.dataLen.toNat)
    (d : Delivered cfg ch s op o t) : ∃ new, Turn cfg ch s op o new t := by
  have hf := i.fits op (List.mem_cons_self ..)
  have early {status : Status} (h : s.status = status) (hn : status ≠ .data) : s.status ≠ .data :=
    h ▸ hn
  have reads (h : s.status ≠ .data) : s.reads op := by simp [Session.reads, h]
  cases d
  case right e r    => exact rightReadDone_turn e (i.holds c e) (hw e) r
  case cancelled    => exact ⟨_, .none (.inr rfl) (by simp [filterMap_cons, Event.started?])⟩
  case farewell     => exact ⟨_, .none (.inr rfl) (by simp [filterMap_cons, Event.started?])⟩
  case unreachable  => exact ⟨_, .none (.inr rfl) (by simp [filterMap_cons, Event.started?])⟩
  case assertion    => exact ⟨_, .none (.inl rfl) (by simp [filterMap_cons, Event.started?])⟩
  case resolved     =>
    exact ⟨_, .one rfl (by simp [Event.started?]) (.connectAny (early hf (by simp)))⟩
  case connected h  =>
    have hs : s.status ≠ .data := by
      rcases h with ⟨_, _, rfl⟩ | ⟨_, _, rfl⟩ <;> exact early hf (by simp)
    exact ⟨_, .one rfl (by simp [filterMap_cons, Event.started?]) (.hello hs)⟩
  case retried h    =>
    have hs : s.status ≠ .data := by cases h <;> exact early hf (by simp)
    refine ⟨_, ((Outstanding.Continues.refl _).abort _).start _, ?_, ?_⟩
    · simp [Event.started?]
    · simpa using .connect hs
  case hello        =>
    exact ⟨_, .one rfl (by simp [filterMap_cons, Event.started?])
      (.rightRead (reads (early hf (by simp))))⟩
  case exchange     =>
    exact ⟨_, .one rfl (by simp [filterMap_cons, Event.started?])
      (.rightRead (reads (early hf (by simp))))⟩
  case greeted      => exact ⟨_, .one rfl (by simp [Event.started?]) (.answer rfl)⟩
  case badGreeting  => exact ⟨_, .one rfl (by simp [Event.started?]) (.farewell rfl hf)⟩
  case broken h     =>
    obtain ⟨hl, hs⟩ : op.inLeft ∧ s.status = .data := by
      cases op
      case leftRead       => exact ⟨rfl, hf⟩
      case leftWrite next => cases next <;> simp [Op.sendsBadOnError] at h; exact ⟨rfl, hf⟩
      all_goals cases h
    exact ⟨_, .one rfl (by simp [Event.started?]) (.farewell hl hs)⟩
  case opened       =>
    refine ⟨_, ((Outstanding.Continues.refl _).start _).start _, ?_, ?_⟩
    · simp [Event.started?]
    · simpa using ⟨.leftRead rfl hf, .rightRead (by simp [Session.reads, Op.inGreeting])⟩
  case packed       =>
    cases c with | leftRead _ le => ?_
    exact ⟨_, .one rfl (by simp [filterMap_cons, Event.started?]) (.request rfl hf rfl le)⟩
  case written      => exact ⟨_, .one rfl (by simp [Event.started?]) (.leftRead rfl hf)⟩
  case relayed      =>
    exact ⟨_, .one rfl (by simp [Event.started?])
      (.rightRead (by simp [Session.reads, Op.inRight]))⟩

end Session
end Lproxy.Local
