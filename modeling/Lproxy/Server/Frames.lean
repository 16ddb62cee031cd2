import Lproxy.Server.Fresh

-- The frames that a session encrypts with the key that it has generated.
namespace Lproxy.Server

open List (filterMap_cons)

def Event.packed? : Event → Option Data
  | packed d => some d
  | _        => none

def Event.dataReply? : Event → Option Packet
  | started (.leftWrite lss .leftWriteHandler) => some lss
  | _                                          => none

-- What `pack_data` makes of a plaintext.
def dataReply (cfg : Config) (aes : Crypto.Aes) (d : Data) : Packet :=
  pack (if cfg.zipOn then .zipdata else .data) (aes.encrypt cfg.cpp d)

namespace Session

variable {cfg : Config} {ch : Choice} {s t u : Session} {op : Op} {o : Outcome}

-- The plaintexts that have been packed, and the frames that have been handed to `async_write`.
def packed (s : Session) : List Data :=
  s.log.filterMap Event.packed?

def dataReplies (s : Session) : List Packet :=
  s.log.filterMap Event.dataReply?

-- Every plaintext has been packed with the one encryptor that the session has.
structure Sealed (cfg : Config) (s : Session) : Prop where
  unkeyed : s.aesEncryptor = none → s.packed = [] ∧ s.dataReplies = []
  keyed : ∀ aes, s.aesEncryptor = some aes → s.dataReplies = s.packed.map (dataReply cfg aes)

-- What concerns neither the encryptor nor the frames.
theorem Sealed.quiet (h : Sealed cfg s) (ha : t.aesEncryptor = s.aesEncryptor)
    (hp : t.packed = s.packed) (hr : t.dataReplies = s.dataReplies) : Sealed cfg t := by
  constructor
  case unkeyed => rw [ha, hp, hr]; exact h.unkeyed
  case keyed   => rw [ha, hp, hr]; exact h.keyed

theorem Sealed.pack {d : Data} {lss : Packet} (h : Sealed cfg s) (hk : Packs cfg s d lss)
    (ha : t.aesEncryptor = s.aesEncryptor) (hp : t.packed = s.packed ++ [d])
    (hr : t.dataReplies = s.dataReplies ++ [lss]) : Sealed cfg t := by
  have ⟨aes, hs, he⟩ := hk
  constructor
  case unkeyed =>
    rw [ha, hs]
    exact nofun
  case keyed   =>
    intro aes' ha'
    rw [ha, hs] at ha'
    cases ha'
    rw [hr, hp, h.keyed aes hs, he, List.map_append]
    rfl

-- The steps below are told apart by the events that they log.
theorem Sealed.respToLocal {v : Session × Option Exn} (h : Sealed cfg s)
    (r : RespToLocal cfg u v) (ha : u.aesEncryptor = s.aesEncryptor) (hl : u.log = s.log) :
    Sealed cfg v.1 := by
  have hp {d : Data} {lss : Packet} (hk : Packs cfg u d lss) : Packs cfg s d lss := by
    have ⟨aes, hu, he⟩ := hk
    exact ⟨aes, ha ▸ hu, he⟩
  cases r
  case threw       => exact h.quiet ha (by simp [packed, hl]) (by simp [dataReplies, hl])
  case refused hk  =>
    exact h.pack (hp hk) ha (by simp [packed, hl, filterMap_cons, Event.packed?])
      (by simp [dataReplies, hl, filterMap_cons, Event.dataReply?])
  case accepted hk =>
    exact h.pack (hp hk) ha (by simp [packed, hl, filterMap_cons, Event.packed?])
      (by simp [dataReplies, hl, filterMap_cons, Event.dataReply?])

theorem Sealed.requestProcessed (h : Sealed cfg s) (r : RequestProcessed cfg s t) :
    Sealed cfg t := by
  cases r
  case refused hk  =>
    exact h.pack hk rfl (by simp [packed, filterMap_cons, Event.packed?])
      (by simp [dataReplies, filterMap_cons, Event.dataReply?])
  case accepted hk =>
    exact h.pack hk rfl (by simp [packed, filterMap_cons, Event.packed?])
      (by simp [dataReplies, filterMap_cons, Event.dataReply?])
  all_goals
    exact h.quiet rfl (by simp [packed, filterMap_cons, Event.packed?])
      (by simp [dataReplies, filterMap_cons, Event.dataReply?, packBad])

-- The exchange is read before there is an encryptor.
theorem Inv.not_keyed {bt : Nat} {lss : Packet} (i : Inv cfg [op] s) (e : LeftEntry op o bt lss)
    (h : s.status = .auth) : s.aesEncryptor = none := by
  have hf := i.fits op (List.mem_cons_self ..)
  cases e
  case read    => simpa [Op.Fits, h] using hf
  case written => simp [Op.Fits, h] at hf

theorem Sealed.leftReadDone {bt : Nat} {lss : Packet} (h : Sealed cfg s) (i : Inv cfg [op] s)
    (e : LeftEntry op o bt lss) (r : LeftReadDone cfg ch s bt lss t) : Sealed cfg t := by
  cases r
  case request r =>
    have hn (plain : Data) : Sealed cfg (s.note (.unpacked plain)) :=
      h.quiet rfl (by simp [packed, Event.packed?]) (by simp [dataReplies, Event.dataReply?])
    exact (hn _).requestProcessed r
  case exchange ha _ _ _ hp =>
    have ⟨_, hu, hr, _⟩ := packExchange_some hp
    subst hu hr
    have ⟨h₁, h₂⟩ := h.unkeyed (i.not_keyed e ha)
    simp only [packed, dataReplies] at h₁ h₂
    constructor
    case unkeyed => exact nofun
    case keyed   =>
      simp [packed, dataReplies, filterMap_cons, Event.packed?, Event.dataReply?, h₁, h₂]
  all_goals
    exact h.quiet rfl (by simp [packed, filterMap_cons, Event.packed?])
      (by simp [dataReplies, filterMap_cons, Event.dataReply?])

theorem Sealed.delivered (h : Sealed cfg s) (i : Inv cfg [op] s)
    (d : Delivered cfg ch s op o t) : Sealed cfg t := by
  cases d
  case left e r => exact h.leftReadDone i e r
  case relayed hk =>
    exact h.pack hk rfl (by simp [packed, filterMap_cons, Event.packed?])
      (by simp [dataReplies, filterMap_cons, Event.dataReply?])
  case unresolved p _ _ _ _ r =>
    exact h.respToLocal r (by cases p <;> rfl) (timerCancelled_log p)
  case unreachable p _ _ _ r  =>
    exact h.respToLocal r (by cases p <;> rfl) (timerCancelled_log p)
  case connected p _ _ _ r    => exact h.respToLocal r (by cases p <;> rfl) (by cases p <;> rfl)
  case resolved p _ _ _ _     =>
    cases p <;> exact h.quiet rfl (by simp [packed, connecting, timerCancelled, Event.packed?])
      (by simp [dataReplies, connecting, timerCancelled, Event.dataReply?])
  case retried p _ _ _ _      =>
    cases p <;> exact h.quiet rfl (by simp [packed, connecting, timerCancelled, Event.packed?])
      (by simp [dataReplies, connecting, timerCancelled, Event.dataReply?])
  all_goals
    exact h.quiet rfl (by simp [packed, filterMap_cons, Event.packed?])
      (by simp [dataReplies, filterMap_cons, Event.dataReply?])

theorem sealed_step {lb : Label} (r : Reachable cfg s) (h : Sealed cfg s) (e : Step cfg s lb t) :
    Sealed cfg t := by
  cases e
  case start remoteError _ =>
    cases remoteError <;> exact h.quiet rfl
      (by simp [startSession, packed, filterMap_cons, Event.packed?])
      (by simp [startSession, dataReplies, filterMap_cons, Event.dataReply?])
  case complete  => exact h.quiet rfl rfl rfl
  case tick      => exact h.quiet rfl rfl rfl
  case deliver l r' _ _ _ hio =>
    have i := inv_reachable r
    have hs : Sealed cfg { s with io := l ++ r' } := h.quiet rfl rfl rfl
    exact hs.delivered (i.dequeue hio) (i.deliver_queued hio)

theorem sealed_reachable (r : Reachable cfg s) : Sealed cfg s := by
  induction r
  case init h      =>
    exact ⟨fun _ => by simp [packed, dataReplies, h.log], by simp [h.aesEncryptor]⟩
  case step r e hi => exact sealed_step r hi e

end Session
end Lproxy.Server
