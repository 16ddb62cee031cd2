import Lproxy.Local.Step

-- What the read handler of a session can do. The inductive proposition lists the ways in which it
-- ends, so that a property of it is proved by cases on them.
namespace Lproxy.Local

namespace Session

variable {cfg : Config} {ch : Choice} {s t : Session} {bt : Nat} {lss : Packet}

-- What `unpack_reply_data` makes of `lss`.
def Unpacks (cfg : Config) (s : Session) (lss : Packet) (aes : Crypto.Aes) (plain : Data) : Prop :=
  s.getAes cfg = some aes ∧ plain = aes.decrypt cfg.cpp (lss.data.take lss.dataLen.toNat)

-- What the authentication key makes of an exchange packet.
def exchangePlain (cfg : Config) (lss : Packet) : Data :=
  (Crypto.Aes.raw256 cfg.cpp cfg.authKey).decrypt cfg.cpp (lss.data.take lss.dataLen.toNat)

-- Runs the `catch` clauses on what the `try` block has ended with.
def caught (bt : Nat) (lss : Packet) (p : Session × Option Exn) : Session :=
  match p with
  | (s, none)   => s
  | (s, some e) => s.rightReadCatch bt lss e

-- How `right_read_handler` ends when it is called without an error on a packet of which `bt` bytes
-- have been received.
inductive RightReadDone (cfg : Config) (ch : Choice) (s : Session) (bt : Nat) (lss : Packet) :
    Session → Prop
  | cancel (hd : 4 + lss.dataLen.toNat ≤ bt → s.status = .data → ¬IsData lss) :
    RightReadDone cfg ch s bt lss s.cancel
  | more (h : 4 ≤ bt) (hl : bt < 4 + lss.dataLen.toNat) :
    RightReadDone cfg ch s bt lss
      (s.start (.rightRead (trim bt lss) (4 + lss.dataLen.toNat - bt)))
  | helloFault (h : s.status = .hello) : RightReadDone cfg ch s bt lss (s.note .fault).cancel
  | encryptFault (h : s.status = .hello) :
    RightReadDone cfg ch s bt lss ({ s with randomStr := ch.randomStr }.note .fault).cancel
  | encryptFailed (h : s.status = .hello) :
    RightReadDone cfg ch s bt lss { s with randomStr := ch.randomStr }.cancel
  | hello {keysize : UInt16} {publicKey : Data} {u : Session} {exchangeRequest : Packet}
    (h : s.status = .hello) (ht : ReplyType.ofByte lss.type = .hello)
    (hu : s.unpackReplyHello lss = (s, .ok (keysize, publicKey)))
    (hp : s.packExchange cfg ch keysize publicKey = (u, .ok exchangeRequest)) :
    RightReadDone cfg ch s bt lss (u.start (.rightWrite exchangeRequest .exchangeHandler))
  | exchangeFault (h : s.status = .auth) (ht : ReplyType.ofByte lss.type = .exchange)
    (hk : (exchangePlain cfg lss).length < 32) :
    RightReadDone cfg ch s bt lss (s.note .fault).cancel
  | illegalServer {key : Key} (h : s.status = .auth) (ht : ReplyType.ofByte lss.type = .exchange)
    (hk : key.val = (exchangePlain cfg lss).take 32)
    (hr : (exchangePlain cfg lss).drop 32 ≠ s.randomStr) :
    RightReadDone cfg ch s bt lss { s with dataKey := some key }.cancel
  | exchange {key : Key} (h : s.status = .auth) (ht : ReplyType.ofByte lss.type = .exchange)
    (hk : key.val = (exchangePlain cfg lss).take 32)
    (hr : (exchangePlain cfg lss).drop 32 = s.randomStr) :
    RightReadDone cfg ch s bt lss
      (({ s with dataKey := some key }.start (.leftRead .leftReadSocks5Step1)).setStatus .data)
  | assertion (h : s.status = .data) (ha : s.getAes cfg = none) :
    RightReadDone cfg ch s bt lss (s.note .fault)
  | relay {aes : Crypto.Aes} {plain : Data} (h : s.status = .data) (ht : IsData lss)
    (hu : Unpacks cfg s lss aes plain) (hb : 4 + lss.dataLen.toNat ≤ bt) :
    RightReadDone cfg ch s bt lss
      (({ s with aesEncryptor := some aes }.note (.unpacked plain)).start
        (.leftWrite plain (.relay (writeNext bt (toInt (bt - (4 + lss.dataLen.toNat))) lss))))

theorem packExchange_error {keysize : UInt16} {publicKey : Data} {u : Session} {e : Exn}
    (h : s.packExchange cfg ch keysize publicKey = (u, .error e)) :
    (u = { s with randomStr := ch.randomStr } ∨
      u = { s with randomStr := ch.randomStr }.note .fault) ∧ ∀ less, e ≠ .incompleteData less := by
  unfold packExchange at h
  simp only at h
  split at h
  case h_1 =>
    cases h
    exact ⟨.inl rfl, nofun⟩
  case h_2 =>
    split at h <;> cases h
    · exact ⟨.inl rfl, nofun⟩
    · exact ⟨.inr rfl, nofun⟩

theorem packExchange_ok {keysize : UInt16} {publicKey : Data} {u : Session} {request : Packet}
    (h : s.packExchange cfg ch keysize publicKey = (u, .ok request)) :
    u = { s with randomStr := ch.randomStr } ∧ ∃ rsa cipher,
      Crypto.Rsa.ofPublicKey cfg.cpp keysize.toUInt64 publicKey = some rsa ∧
      rsa.encrypt cfg.cpp ch.rng (cfg.authKey.val ++ ch.randomStr) = .ok cipher ∧
      request = pack .exchange cipher.length cipher := by
  unfold packExchange at h
  simp only at h
  split at h
  case h_1 => cases h
  case h_2 rsa hk =>
    split at h <;> cases h
    exact ⟨rfl, rsa, _, hk, ‹_›, rfl⟩

theorem rightReadCatch_eq {e : Exn} (he : ∀ less, e ≠ .incompleteData less) :
    s.rightReadCatch bt lss e = s.cancel := by
  cases e <;> simp [rightReadCatch] at he ⊢

theorem rightReadHello_done (ht : ReplyType.ofByte lss.type = .hello) :
    RightReadDone cfg ch s bt lss (caught bt lss (s.rightReadHello cfg ch lss)) := by
  unfold rightReadHello
  split
  case isTrue    => exact .cancel fun _ _ => ReplyType.not_isData (by simp [ht])
  case isFalse h =>
    have h : s.status = .hello := by simpa using h
    by_cases hl : lss.dataLen.toNat < 2
    case pos =>
      simp only [unpackReplyHello, hl, if_true]
      exact .helloFault h
    case neg =>
      have ⟨keysize, publicKey, hu⟩ : ∃ keysize publicKey,
          s.unpackReplyHello lss = (s, .ok (keysize, publicKey)) :=
        ⟨_, _, by rw [unpackReplyHello, if_neg hl]⟩
      simp only [hu]
      cases hp : s.packExchange cfg ch keysize publicKey with | mk u r => ?_
      cases r
      case ok      => exact .hello h ht hu hp
      case error e =>
        obtain ⟨rfl | rfl, he⟩ := packExchange_error hp
        · simpa only [caught, rightReadCatch_eq he] using .encryptFailed h
        · simpa only [caught, rightReadCatch_eq he] using .encryptFault h

theorem rightReadExchange_done (ht : ReplyType.ofByte lss.type = .exchange) :
    RightReadDone cfg ch s bt lss (caught bt lss (s.rightReadExchange cfg lss)) := by
  unfold rightReadExchange unpackReplyExchange
  split
  case isTrue    => exact .cancel fun _ _ => ReplyType.not_isData (by simp [ht])
  case isFalse h =>
    have h : s.status = .auth := by simpa using h
    by_cases hk : ((exchangePlain cfg lss).take 32).length = 32
    case neg =>
      simp only [exchangePlain] at hk
      simp only [hk, dif_neg, not_false_eq_true]
      refine .exchangeFault h ht ?_
      simp [exchangePlain] at hk ⊢
      omega
    case pos =>
      simp only [exchangePlain] at hk
      simp only [hk, dif_pos]
      split
      case isTrue hr  => exact .illegalServer h ht rfl hr
      case isFalse hr => exact .exchange h ht rfl (of_not_not hr)

theorem rightReadData_done (hh : Holds bt lss) (hb : 4 + lss.dataLen.toNat ≤ bt)
    (ht : IsData lss) :
    RightReadDone cfg ch s bt lss (caught bt lss (s.rightReadData cfg bt lss)) := by
  unfold rightReadData unpackReplyData
  split
  case isTrue h  => exact .cancel fun _ hd => absurd hd h
  case isFalse h =>
    have h : s.status = .data := by simpa using h
    have hr : ¬toInt (bt - (4 + lss.dataLen.toNat)) < 0 := by
      rw [restLen_eq hh hb]
      omega
    cases ha : s.getAes cfg
    case none => exact .assertion h ha
    case some =>
      simp only [hr, if_false]
      exact .relay h ht ⟨ha, rfl⟩ hb

theorem rightReadTry_done (hh : Holds bt lss) :
    RightReadDone cfg ch s bt lss (caught bt lss (s.rightReadTry cfg ch bt lss)) := by
  unfold rightReadTry
  rw [lssPackIntegrityCheck_eq hh]
  split_ifs with h₁ h₂
  case pos => exact .cancel fun hb => by omega
  case pos =>
    have hl : ((4 + lss.dataLen.toNat - bt : Nat) : Int) > 0 := by omega
    simp only [caught, rightReadCatch, hl, if_true, Int.toNat_natCast]
    exact .more (by omega) h₂
  case neg =>
    cases ht : ReplyType.ofByte lss.type
    case hello    => exact rightReadHello_done ht
    case exchange => exact rightReadExchange_done ht
    case data     => exact rightReadData_done hh (by omega) (ReplyType.isData_iff.mpr (.inl ht))
    case zipdata  => exact rightReadData_done hh (by omega) (ReplyType.isData_iff.mpr (.inr ht))
    all_goals exact .cancel fun _ _ => ReplyType.not_isData (by simp [ht])

theorem rightReadHandler_done {bt : Nat} {lss : Packet} (rest : Data)
    (hh : Holds (rectify bt lss rest).1 (rectify bt lss rest).2) :
    RightReadDone cfg ch s (rectify bt lss rest).1 (rectify bt lss rest).2
      (s.rightReadHandler cfg ch false bt lss rest) :=
  rightReadTry_done hh

end Session
end Lproxy.Local
