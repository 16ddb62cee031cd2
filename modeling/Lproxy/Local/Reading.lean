import Lproxy.Reading
import Lproxy.Local.RightRead

-- How a local session reads frames from the server and writes their payloads to the client.
namespace Lproxy.Local

-- The handler that the write of a payload is bound to.
def Op.next : Op → Option WriteNext
  | leftWrite _ (.relay next) => some next
  | _                         => none

namespace Session

-- A session whose encryptor, once it is made, is `aes`.
structure Relaying (cfg : Config) (aes : Crypto.Aes) (s : Session) : Prop where
  status : s.status = .data
  getAes : s.getAes cfg = some aes

def nexts (s : Session) : List WriteNext :=
  s.io.filterMap fun o => o.op.next

end Session

def readHandler (cfg : Config) : ReadHandler Session Choice where
  handle ch s bt lss := s.rightReadHandler cfg ch false bt lss []
  read s lss rest := s.start (.rightRead lss rest)
  write aes s plain next :=
    ({ s with aesEncryptor := some aes }.note (.unpacked plain)).start
      (.leftWrite plain (.relay next))
  readDone ch s lss rest d := s.deliver cfg ch (.rightRead lss rest) (.bytes d)
  writeDone ch s plain next := s.deliver cfg ch (.leftWrite plain (.relay next)) .done
  decrypt aes := aes.decrypt cfg.cpp
  Established := Session.Relaying cfg
  nexts := Session.nexts

namespace Session

variable {cfg : Config} {ch : Choice} {aes : Crypto.Aes} {s t : Session} {bt : Nat} {lss : Packet}

theorem rightReadHandler_eq (rest : Data) : s.rightReadHandler cfg ch false bt lss rest =
    caught (rectify bt lss rest).1 (rectify bt lss rest).2
      (s.rightReadTry cfg ch (rectify bt lss rest).1 (rectify bt lss rest).2) :=
  rfl

theorem rightReadData_relaying (h : s.Relaying cfg aes) (hh : Holds bt lss)
    (hb : 4 + lss.dataLen.toNat ≤ bt) :
    s.rightReadData cfg bt lss = (({ s with aesEncryptor := some aes }.note (.unpacked
      (aes.decrypt cfg.cpp (lss.data.take lss.dataLen.toNat)))).start (.leftWrite
        (aes.decrypt cfg.cpp (lss.data.take lss.dataLen.toNat))
        (.relay (writeNext bt (toInt (bt - (4 + lss.dataLen.toNat))) lss))), none) := by
  have hr : ¬toInt (bt - (4 + lss.dataLen.toNat)) < 0 := by
    rw [restLen_eq hh hb]
    omega
  simp [rightReadData, unpackReplyData, h.status, h.getAes, hr]

theorem rightReadTry_data (hh : Holds bt lss) (hb : 4 + lss.dataLen.toNat ≤ bt) (hd : IsData lss) :
    s.rightReadTry cfg ch bt lss = s.rightReadData cfg bt lss := by
  have hc : lssPackIntegrityCheck bt lss = .ok () := by
    rw [lssPackIntegrityCheck_eq hh, if_neg (by omega), if_neg (by omega)]
  rw [rightReadTry, hc]
  cases ReplyType.isData_iff.mp hd with
  | inl ht | inr ht => simp only [ht]

-- The handler looks at no byte that has not been received.
theorem rightReadTry_trim (h : Holds bt lss) (h₄ : 4 ≤ bt) :
    caught bt (trim bt lss) (s.rightReadTry cfg ch bt (trim bt lss)) =
      caught bt lss (s.rightReadTry cfg ch bt lss) := by
  have hc (p : Session × Option Exn) : caught bt (trim bt lss) p = caught bt lss p := by
    have ⟨u, e⟩ := p
    cases e
    case none   => rfl
    case some e => cases e <;> simp [caught, rightReadCatch, trim_trim h h₄]
  have ht : s.rightReadTry cfg ch bt (trim bt lss) = s.rightReadTry cfg ch bt lss := by
    rw [rightReadTry, rightReadTry, lssPackIntegrityCheck_trim, type_trim,
      lssPackIntegrityCheck_eq h]
    by_cases hb : bt < 4 + lss.dataLen.toNat
    case pos => simp [hb, Nat.not_lt.mpr h₄]
    case neg =>
      have hp := take_data_trim (n := lss.dataLen.toNat) h (by omega)
      have hw := writeNext_trim h (Nat.not_lt.mp hb)
      have he : s.rightReadExchange cfg (trim bt lss) = s.rightReadExchange cfg lss := by
        simp only [rightReadExchange, unpackReplyExchange, dataLen_trim, hp]
      have hu : s.unpackReplyHello (trim bt lss) = s.unpackReplyHello lss := by
        rw [unpackReplyHello, unpackReplyHello, dataLen_trim, hp]
        by_cases hl : lss.dataLen.toNat < 2
        case pos => rw [if_pos hl, if_pos hl]
        case neg => rw [getD_data_trim h (by omega), getD_data_trim h (by omega)]
      have hh : s.rightReadHello cfg ch (trim bt lss) = s.rightReadHello cfg ch lss := by
        rw [rightReadHello, rightReadHello, hu]
      have hd : s.rightReadData cfg bt (trim bt lss) = s.rightReadData cfg bt lss := by
        simp only [rightReadData, unpackReplyData, dataLen_trim, hp]
        cases s.getAes cfg
        case none     => rfl
        case some aes => simp only [hw]
      simp only [he, hh, hd]
  rw [hc, ht]

section Nexts

-- The only write to the client is that of a payload, when a frame is complete.
theorem nexts_done (h : RightReadDone cfg ch s bt lss t) : t.nexts = s.nexts ∨
    4 + lss.dataLen.toNat ≤ bt ∧
      t.nexts = s.nexts ++ [writeNext bt (toInt (bt - (4 + lss.dataLen.toNat))) lss] := by
  cases h
  case relay hb => exact .inr ⟨hb, by simp [nexts, Op.next]⟩
  case hello hp =>
    have ⟨hu, _⟩ := packExchange_ok hp
    exact .inl (by simp [hu, nexts, Op.next])
  all_goals exact .inl (by simp [nexts, Op.next])

end Nexts

end Session

theorem readHandler_lawful (cfg : Config) : (readHandler cfg).Lawful where
  readDone _ _ _ _ _     := rfl
  reenter _ _ _ _ _      := rfl
  writeHandler _ _ _     := rfl
  incomplete h hn _ s    := by
    simp [readHandler, Session.rightReadHandler_eq, rectify, Session.rightReadTry, h,
      Session.caught, Session.rightReadCatch, hn]
  payload h hh hb hd _   := by
    simp [readHandler, Session.rightReadHandler_eq, rectify, Session.rightReadTry_data hh hb hd,
      Session.rightReadData_relaying h hh hb, Session.caught]
  trimmed h h₄ _ _       := Session.rightReadTry_trim h h₄
  nexts hh _ s           := by
    cases Session.nexts_done (Session.rightReadTry_done hh)
    case inl he => exact ⟨[], he.trans (List.append_nil _).symm, by simp⟩
    case inr hb => exact ⟨_, hb.2, by simpa using hb.1⟩
  write h _ _            := { h with getAes := rfl }

end Lproxy.Local
