import Lproxy.Reading
import Lproxy.Server.LeftRead

-- How a server session reads frames from its local and writes their payloads to the remote.
namespace Lproxy.Server

-- The handler that the write of a payload is bound to.
def Op.next : Op → Option WriteNext
  | rightWrite _ _ next => some next
  | _                   => none

namespace Session

-- A session that is connected for `CONNECT`.
structure Connects (aes : Crypto.Aes) (s : Session) : Prop where
  status : s.status = .data
  socks5State : s.socks5State = .connected
  socks5Cmd : s.socks5Cmd = .connect
  aesEncryptor : s.aesEncryptor = some aes

def nexts (s : Session) : List WriteNext :=
  s.io.filterMap fun o => o.op.next

end Session

def readHandler (cfg : Config) : ReadHandler Session Choice where
  handle ch s bt lss := s.leftReadHandler cfg ch false bt lss []
  read s lss rest := s.start (.leftRead lss rest)
  write _ s plain next := (s.note (.unpacked plain)).start (.rightWrite .tcp plain next)
  readDone ch s lss rest d := s.deliver cfg ch (.leftRead lss rest) (.bytes d)
  writeDone ch s plain next := s.deliver cfg ch (.rightWrite .tcp plain next) .done
  decrypt aes := aes.decrypt cfg.cpp
  Established := Session.Connects
  nexts := Session.nexts

namespace Session

variable {cfg : Config} {ch : Choice} {aes : Crypto.Aes} {s t : Session} {bt : Nat} {lss : Packet}

theorem leftReadHandler_eq (rest : Data) : s.leftReadHandler cfg ch false bt lss rest =
    caught (rectify bt lss rest).1 (rectify bt lss rest).2
      (s.leftReadTry cfg ch (rectify bt lss rest).1 (rectify bt lss rest).2) :=
  rfl

theorem leftReadData_connects (h : s.Connects aes) (hh : Holds bt lss)
    (hb : 4 + lss.dataLen.toNat ≤ bt) :
    s.leftReadData cfg ch bt lss = ((s.note (.unpacked (aes.decrypt cfg.cpp
      (lss.data.take lss.dataLen.toNat)))).start (.rightWrite .tcp (aes.decrypt cfg.cpp
        (lss.data.take lss.dataLen.toNat))
        (writeNext bt (toInt (bt - (4 + lss.dataLen.toNat))) lss)), none) := by
  have hr : ¬toInt (bt - (4 + lss.dataLen.toNat)) < 0 := by
    rw [restLen_eq hh hb]
    omega
  simp [leftReadData, unpackData, leftReadConnected, h.status, h.aesEncryptor, h.socks5State,
    h.socks5Cmd, hr]

theorem leftReadTry_data (hh : Holds bt lss) (hb : 4 + lss.dataLen.toNat ≤ bt) (hd : IsData lss) :
    s.leftReadTry cfg ch bt lss = s.leftReadData cfg ch bt lss := by
  have hc : lssPackIntegrityCheck bt lss = .ok () := by
    rw [lssPackIntegrityCheck_eq hh, if_neg (by omega), if_neg (by omega)]
  rw [leftReadTry, hc]
  cases RequestType.isData_iff.mp hd with
  | inl ht | inr ht => simp only [ht]

-- The handler looks at no byte that has not been received.
theorem leftReadTry_trim (h : Holds bt lss) (h₄ : 4 ≤ bt) :
    caught bt (trim bt lss) (s.leftReadTry cfg ch bt (trim bt lss)) =
      caught bt lss (s.leftReadTry cfg ch bt lss) := by
  have hc (p : Session × Option Exn) : caught bt (trim bt lss) p = caught bt lss p := by
    have ⟨u, e⟩ := p
    cases e
    case none   => rfl
    case some e => cases e <;> simp [caught, leftReadCatch, trim_trim h h₄]
  have ht : s.leftReadTry cfg ch bt (trim bt lss) = s.leftReadTry cfg ch bt lss := by
    rw [leftReadTry, leftReadTry, lssPackIntegrityCheck_trim, type_trim, lssPackIntegrityCheck_eq h]
    by_cases hb : bt < 4 + lss.dataLen.toNat
    case pos => simp [hb, Nat.not_lt.mpr h₄]
    case neg =>
      have hp := take_data_trim (n := lss.dataLen.toNat) h (by omega)
      have hw := writeNext_trim h (Nat.not_lt.mp hb)
      have he : s.leftReadExchange cfg ch (trim bt lss) = s.leftReadExchange cfg ch lss := by
        simp only [leftReadExchange, unpackRequestExchange, dataLen_trim, hp]
      have hh : s.leftReadHello cfg (trim bt lss) = s.leftReadHello cfg lss := by
        simp only [leftReadHello, dataLen_trim]
      have hd : s.leftReadData cfg ch bt (trim bt lss) = s.leftReadData cfg ch bt lss := by
        simp only [leftReadData, unpackData, dataLen_trim, hp]
        cases s.aesEncryptor
        case none     => rfl
        case some aes => simp only [leftReadConnected, hw]
      simp only [he, hh, hd]
  rw [hc, ht]

section Nexts

theorem nexts_congr (h : t.io = s.io) : t.nexts = s.nexts := by
  rw [nexts, h, nexts]

theorem nexts_start {op : Op} : (s.start op).nexts = s.nexts ++ op.next.toList := by
  cases h : op.next <;> simp [nexts, h]

theorem nexts_abort {p : Op → Bool} : (s.abort p).nexts = s.nexts := by
  simp [nexts]

theorem nexts_requestProcessed (r : RequestProcessed cfg s t) : t.nexts = s.nexts := by
  cases r <;> simp [nexts, Op.next]

-- The only write to the remote is that of a payload, when a frame is complete.
theorem nexts_done (h : LeftReadDone cfg ch s bt lss t) : t.nexts = s.nexts ∨
    4 + lss.dataLen.toNat ≤ bt ∧
      t.nexts = s.nexts ++ [writeNext bt (toInt (bt - (4 + lss.dataLen.toNat))) lss] := by
  cases h
  case forward hb           => exact .inr ⟨hb, nexts_start⟩
  case request r            => exact .inl ((nexts_requestProcessed r).trans (nexts_congr rfl))
  case exchange hp          =>
    have ⟨_, hu, _⟩ := packExchange_some hp
    exact .inl (by simp [hu, nexts, Op.next])
  all_goals exact .inl (by simp [nexts, Op.next])

-- Without an encryptor, nothing is sent to the remote.
theorem nexts_unkeyed (h : s.status = .data) (ha : s.aesEncryptor = none) :
    (caught bt lss (s.leftReadTry cfg ch bt lss)).nexts = s.nexts := by
  have hc {e : Exn} : (s.leftReadCatch bt lss e).nexts = s.nexts := by
    cases e
    case incompleteData less =>
      rw [leftReadCatch]
      split <;> simp [nexts, Op.next]
    all_goals simp [leftReadCatch, nexts, Op.next]
  rw [leftReadTry]
  split
  case h_1 => exact hc
  case h_2 =>
    cases RequestType.ofByte lss.type
    case bad       => exact nexts_abort
    case hello     =>
      simp only [leftReadHello, h]
      exact hc
    case exchange  =>
      simp only [leftReadExchange, h]
      exact hc
    all_goals simp [leftReadData, unpackData, h, ha, caught, nexts, Op.next]

theorem nexts_leftReadTry (hh : Holds bt lss) :
    (caught bt lss (s.leftReadTry cfg ch bt lss)).nexts = s.nexts ∨
    4 + lss.dataLen.toNat ≤ bt ∧ (caught bt lss (s.leftReadTry cfg ch bt lss)).nexts =
      s.nexts ++ [writeNext bt (toInt (bt - (4 + lss.dataLen.toNat))) lss] := by
  by_cases ha : s.status = .data → s.aesEncryptor.isSome
  case pos => exact nexts_done (leftReadTry_done ha hh)
  case neg =>
    have ⟨hs, ha⟩ := Classical.not_imp.mp ha
    exact .inl (nexts_unkeyed hs (by simpa using ha))

end Nexts

end Session

theorem readHandler_lawful (cfg : Config) : (readHandler cfg).Lawful where
  readDone _ _ _ _ _     := rfl
  reenter _ _ _ _ _      := rfl
  writeHandler h _ _     := by
    simp [readHandler, Session.deliver, Session.rightWriteHandler, Outcome.failed, h.socks5Cmd]
  incomplete h hn _ s    := by
    simp [readHandler, Session.leftReadHandler_eq, rectify, Session.leftReadTry, h, Session.caught,
      Session.leftReadCatch, hn]
  payload h hh hb hd _   := by
    simp [readHandler, Session.leftReadHandler_eq, rectify, Session.leftReadTry_data hh hb hd,
      Session.leftReadData_connects h hh hb, Session.caught]
  trimmed h h₄ _ _       := Session.leftReadTry_trim h h₄
  nexts hh _ _           := by
    cases Session.nexts_leftReadTry hh
    case inl he => exact ⟨[], he.trans (List.append_nil _).symm, by simp⟩
    case inr hb => exact ⟨_, hb.2, by simpa using hb.1⟩
  write h _ _            := { h with }

end Lproxy.Server
