import Lproxy.Local.Invariants

-- The frames that a session encrypts with the key that it has got in the exchange.
namespace Lproxy.Local

open List (filterMap_cons)

def Event.packed? : Event → Option Data
  | packed d => some d
  | _        => none

def Event.dataRequest? : Event → Option Packet
  | started (.rightWrite lss .rightWriteHandler) => some lss
  | _                                            => none

-- What `pack_data` makes of a plaintext.
def dataRequest (cfg : Config) (aes : Crypto.Aes) (d : Data) : Packet :=
  pack (if cfg.zipOn then .zipdata else .data) d.length (aes.encrypt cfg.cpp d)

namespace Session

variable {cfg : Config} {ch : Choice} {s t u : Session} {op : Op} {o : Outcome}

-- The plaintexts that have been packed, and the frames that have been handed to `async_write`.
def packed (s : Session) : List Data :=
  s.log.filterMap Event.packed?

def dataRequests (s : Session) : List Packet :=
  s.log.filterMap Event.dataRequest?

-- Every plaintext has been packed with the one encryptor that the session has.
structure Sealed (cfg : Config) (s : Session) : Prop where
  unkeyed : s.status ≠ .data → s.packed = [] ∧ s.dataRequests = []
  keyed : ∀ aes, s.getAes cfg = some aes → s.dataRequests = s.packed.map (dataRequest cfg aes)

-- What concerns neither the encryptor nor the frames.
theorem Sealed.quiet (h : Sealed cfg s) (hs : s.status = .data → t.status = .data)
    (ha : t.getAes cfg = s.getAes cfg) (hp : t.packed = s.packed)
    (hr : t.dataRequests = s.dataRequests) : Sealed cfg t := by
  constructor
  case unkeyed =>
    intro ht
    rw [hp, hr]
    exact h.unkeyed fun hd => ht (hs hd)
  case keyed   =>
    rw [ha, hp, hr]
    exact h.keyed

-- Before the exchange is completed there are no frames.
theorem Sealed.handshake (h : Sealed cfg s) (hs : s.status ≠ .data) (hp : t.packed = s.packed)
    (hr : t.dataRequests = s.dataRequests) : Sealed cfg t := by
  have ⟨h₁, h₂⟩ := h.unkeyed hs
  rw [h₁] at hp
  rw [h₂] at hr
  exact ⟨fun _ => ⟨hp, hr⟩, by simp [hp, hr]⟩

theorem Sealed.rightReadDone {bt : Nat} {lss : Packet} (h : Sealed cfg s)
    (r : RightReadDone cfg ch s bt lss t) : Sealed cfg t := by
  cases r
  case hello hs _ _ hp =>
    have ⟨hu, _⟩ := packExchange_ok hp
    subst hu
    exact h.handshake (by simp [hs]) (by simp [packed, Event.packed?])
      (by simp [dataRequests, Event.dataRequest?])
  case illegalServer hs _ _ _ =>
    exact h.handshake (by simp [hs]) (by simp [packed, Event.packed?])
      (by simp [dataRequests, Event.dataRequest?])
  case exchange hs _ _ _ =>
    exact h.handshake (by simp [hs]) (by simp [packed, filterMap_cons, Event.packed?])
      (by simp [dataRequests, filterMap_cons, Event.dataRequest?])
  case relay hs _ hu _ =>
    exact h.quiet id hu.1.symm (by simp [packed, filterMap_cons, Event.packed?])
      (by simp [dataRequests, filterMap_cons, Event.dataRequest?])
  all_goals
    exact h.quiet id rfl (by simp [packed, filterMap_cons, Event.packed?])
      (by simp [dataRequests, filterMap_cons, Event.dataRequest?])

theorem Sealed.delivered (h : Sealed cfg s) (i : Inv cfg [op] s)
    (d : Delivered cfg ch s op o t) : Sealed cfg t := by
  have hf := i.fits op (List.mem_cons_self ..)
  cases d
  case right r => exact h.rightReadDone r
  case connected hop =>
    have hs : s.status = .notConnected := by
      rcases hop with ⟨_, _, rfl⟩ | ⟨_, _, rfl⟩ <;> exact hf
    exact h.handshake (by simp [hs]) (by simp [packed, filterMap_cons, Event.packed?])
      (by simp [dataRequests, filterMap_cons, Event.dataRequest?])
  case hello =>
    have hs : s.status = .connected := hf
    exact h.handshake (by simp [hs]) (by simp [packed, filterMap_cons, Event.packed?])
      (by simp [dataRequests, filterMap_cons, Event.dataRequest?])
  case exchange =>
    have hs : s.status = .hello := hf
    exact h.handshake (by simp [hs]) (by simp [packed, filterMap_cons, Event.packed?])
      (by simp [dataRequests, filterMap_cons, Event.dataRequest?])
  case packed d aes ha =>
    have hs : s.status = .data := hf
    constructor
    case unkeyed => exact fun ht => absurd hs ht
    case keyed   =>
      intro aes' ha'
      cases ha'
      have hk := h.keyed aes ha
      simp only [dataRequests, packed] at hk
      simp [dataRequests, packed, filterMap_cons, Event.packed?, Event.dataRequest?, hk,
        dataRequest]
  all_goals
    exact h.quiet id rfl (by simp [packed, filterMap_cons, Event.packed?])
      (by simp [dataRequests, filterMap_cons, Event.dataRequest?])

theorem sealed_step {lb : Label} (r : Reachable cfg s) (h : Sealed cfg s) (e : Step cfg s lb t) :
    Sealed cfg t := by
  cases e
  case start remoteError _ =>
    cases remoteError <;> exact h.quiet id rfl (by simp [startSession, packed, Event.packed?])
      (by simp [startSession, dataRequests, Event.dataRequest?])
  case complete => exact h.quiet id rfl rfl rfl
  case deliver l r' _ _ _ hio =>
    have i := inv_reachable r
    have hs : Sealed cfg { s with io := l ++ r' } := h.quiet id rfl rfl rfl
    exact hs.delivered (i.dequeue hio) (i.deliver_queued hio)

theorem sealed_reachable (r : Reachable cfg s) : Sealed cfg s := by
  induction r
  case init h      =>
    subst h
    exact ⟨fun _ => ⟨rfl, rfl⟩, nofun⟩
  case step r e hi => exact sealed_step r hi e

end Session
end Lproxy.Local
