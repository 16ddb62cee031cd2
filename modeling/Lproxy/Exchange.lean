import Lproxy.Bounds
import Lproxy.Codec

-- What the random string of the exchange protects, and what it does not.
namespace Lproxy

open Crypto

-- The payload of a packet that has been received as a whole.
def payload (lss : Packet) : Data :=
  lss.data.take lss.dataLen.toNat

-- A substitute for an exchange reply that differs from it in nothing but the part of the ciphertext
-- that holds the key.
structure KeyAltered (reply lss : Packet) : Prop where
  type : ReplyType.ofByte lss.type = .exchange
  length : (payload lss).length = reply.data.length
  randomStr : (payload lss).drop 32 = reply.data.drop 32
  dataKey : (payload lss).take 32 ≠ reply.data.take 32

section Substitute

variable {l : Local.Config} {s : Server.Config} {v u : Server.Session} {ch : Server.Choice}
  {w : Local.Session} {reply lss : Packet} {bt : Nat} {choice : Local.Choice}

-- The local accepts a packet that returns the random string, whatever the key is.
theorem accepts_key {key : Key} (hw : w.status = .auth)
    (hi : lssPackIntegrityCheck bt lss = .ok ()) (ht : ReplyType.ofByte lss.type = .exchange)
    (hk : (Local.Session.exchangePlain l lss).take 32 = key.val)
    (hr : (Local.Session.exchangePlain l lss).drop 32 = w.randomStr) :
    w.rightReadHandler l choice false bt lss [] =
      ({ w with dataKey := some key }.start (.leftRead .leftReadSocks5Step1)).setStatus .data := by
  have hu : w.unpackReplyExchange l lss = ({ w with dataKey := some key }, .ok w.randomStr) := by
    simp only [Local.Session.exchangePlain] at hk hr
    simp only [Local.Session.unpackReplyExchange, hk, hr, key.property, dif_pos]
  have hx : w.rightReadExchange l lss =
      (({ w with dataKey := some key }.start (.leftRead .leftReadSocks5Step1)).setStatus .data,
        none) := by
    simp [Local.Session.rightReadExchange, hw, hu]
  simp [Local.Session.rightReadHandler, rectify, Local.Session.rightReadTry, hi, ht, hx]

-- An honest reply, as the local decrypts it.
theorem decrypt_reply (hc : l.cpp = s.cpp)
    (hp : v.packExchange s ch l.authKey.val w.randomStr = some (u, reply)) :
    (Aes.raw256 l.cpp l.authKey).decrypt l.cpp reply.data = ch.dataKey.val ++ w.randomStr := by
  have ⟨_, he⟩ := Server.Session.packExchange_eq hp
  rw [he, Server.data_pack, ← hc, Aes.decrypt_encrypt]

-- If the random string is returned, the payload agrees with the honest one from there on.
theorem randomStr_eq_iff (hc : l.cpp = s.cpp)
    (hp : v.packExchange s ch l.authKey.val w.randomStr = some (u, reply)) :
    (Local.Session.exchangePlain l lss).drop 32 = w.randomStr ↔
      (payload lss).drop 32 = reply.data.drop 32 := by
  have hd : ch.dataKey.val.length = 32 := ch.dataKey.property
  have hr : ((Aes.raw256 l.cpp l.authKey).decrypt l.cpp reply.data).drop 32 = w.randomStr := by
    rw [decrypt_reply hc hp, List.drop_left' hd]
  rw [← hr]
  exact Aes.drop_decrypt_eq_iff 32

-- The key that the local takes from a payload is the one of the honest reply if they agree there.
theorem dataKey_eq_iff (hc : l.cpp = s.cpp)
    (hp : v.packExchange s ch l.authKey.val w.randomStr = some (u, reply)) :
    (Local.Session.exchangePlain l lss).take 32 = ch.dataKey.val ↔
      (payload lss).take 32 = reply.data.take 32 := by
  have hd : ch.dataKey.val.length = 32 := ch.dataKey.property
  have hk : (Aes.raw256 l.cpp l.authKey).decrypt l.cpp (reply.data.take 32) = ch.dataKey.val := by
    rw [← Aes.take_decrypt, decrypt_reply hc hp, List.take_left' hd]
  rw [← hk, Local.Session.exchangePlain, Aes.take_decrypt]
  constructor
  case mp  => exact Aes.decrypt_injective
  case mpr => exact congrArg _

theorem altered_accepted (choice : Local.Choice) (hc : l.cpp = s.cpp) (hw : w.status = .auth)
    (hp : v.packExchange s ch l.authKey.val w.randomStr = some (u, reply))
    (hi : lssPackIntegrityCheck bt lss = .ok ()) (ha : KeyAltered reply lss) :
    ∃ key : Key, key ≠ ch.dataKey ∧ w.rightReadHandler l choice false bt lss [] =
      ({ w with dataKey := some key }.start (.leftRead .leftReadSocks5Step1)).setStatus .data := by
  have hlen : reply.data.length = 32 + w.randomStr.length := by
    have := congrArg List.length (decrypt_reply hc hp)
    simpa [ch.dataKey.property] using this
  have hk : ((Local.Session.exchangePlain l lss).take 32).length = 32 := by
    have : (Local.Session.exchangePlain l lss).length = (payload lss).length := Aes.length_decrypt _
    rw [List.length_take, this, ha.length, hlen]
    omega
  refine ⟨⟨_, hk⟩, ?_, accepts_key hw hi ha.type rfl ((randomStr_eq_iff hc hp).mpr ha.randomStr)⟩
  intro he
  exact ha.dataKey ((dataKey_eq_iff hc hp).mp (congrArg Subtype.val he))

-- A payload that is too short for a key is taken apart all the same.
theorem short_faults (choice : Local.Choice) (hw : w.status = .auth)
    (hi : lssPackIntegrityCheck bt lss = .ok ()) (ht : ReplyType.ofByte lss.type = .exchange)
    (hk : (Local.Session.exchangePlain l lss).length < 32) :
    w.rightReadHandler l choice false bt lss [] = (w.note .fault).cancel := by
  have hne : ¬((Local.Session.exchangePlain l lss).take 32).length = 32 := by
    rw [List.length_take]
    omega
  have hu : w.unpackReplyExchange l lss = (w.note .fault, .error .other) := by
    simp only [Local.Session.exchangePlain] at hne
    simp only [Local.Session.unpackReplyExchange, hne, dif_neg, not_false_eq_true]
  have hx : w.rightReadExchange l lss = (w.note .fault, some .other) := by
    simp [Local.Session.rightReadExchange, hw, hu]
  simp [Local.Session.rightReadHandler, rectify, Local.Session.rightReadTry, hi, ht, hx,
    Local.Session.rightReadCatch]

theorem length_exchangePlain (hb : Holds bt lss) (hi : lssPackIntegrityCheck bt lss = .ok ()) :
    (Local.Session.exchangePlain l lss).length = lss.dataLen.toNat := by
  have hp := hb.inBounds.payload hi
  have hl := hb.le
  simp [Local.Session.exchangePlain]
  omega

-- What the random string is for: the local that handles `lss` as a reply does nothing that is
-- undefined, and it either ends the session or goes on with the given key.
def Protects (l : Local.Config) (choice : Local.Choice) (w : Local.Session) (dataKey : Key)
    (bt : Nat) (lss : Packet) : Prop :=
  let t := w.rightReadHandler l choice false bt lss []
  ∃ es, t.log = w.log ++ es ∧ .fault ∉ es ∧
    (.cancelled ∈ es ∨ t.status = .data ∧ t.dataKey = some dataKey)

-- A substitute that has room for a key leaves the key as it is or ends the session, unless it
-- alters the key alone.
theorem exchange_substitute (choice : Local.Choice) (hc : l.cpp = s.cpp) (hw : w.status = .auth)
    (hp : v.packExchange s ch l.authKey.val w.randomStr = some (u, reply)) (hb : Holds bt lss)
    (hi : lssPackIntegrityCheck bt lss = .ok ()) :
    Protects l choice w ch.dataKey bt lss ↔
      (ReplyType.ofByte lss.type = .exchange → 32 ≤ lss.dataLen.toNat) ∧ ¬KeyAltered reply lss := by
  have hlen := length_exchangePlain (l := l) hb hi
  unfold Protects
  constructor
  case mp =>
    rintro ⟨es, he, hf, h⟩
    refine ⟨fun ht => ?_, fun ha => ?_⟩
    · by_contra hlt
      rw [short_faults choice hw hi ht (by omega)] at he
      have he : es = [.fault, .cancelled] := by simpa using he.symm
      simp [he] at hf
    · obtain ⟨key, hne, ht⟩ := altered_accepted choice hc hw hp hi ha
      rw [ht] at he h
      have he : es = [.started (.leftRead .leftReadSocks5Step1), .statusSet .data] := by
        simpa using he.symm
      simp [he, hne] at h
  case mpr =>
    rintro ⟨hl, hn⟩
    have hd : Local.Session.RightReadDone l choice w bt lss
        (w.rightReadHandler l choice false bt lss []) := Local.Session.rightReadHandler_done [] hb
    have hle : 4 + lss.dataLen.toNat ≤ bt := hb.inBounds.payload hi
    revert hd
    generalize w.rightReadHandler l choice false bt lss [] = t
    intro hd
    cases hd
    case cancel                => exact ⟨[.cancelled], by simp⟩
    case more h                => omega
    case helloFault h          => simp [hw] at h
    case encryptFault h        => simp [hw] at h
    case encryptFailed h       => simp [hw] at h
    case hello h _ _ _         => simp [hw] at h
    case exchangeFault _ ht hk => have := hl ht; omega
    case illegalServer         => exact ⟨[.cancelled], by simp⟩
    case assertion h _         => simp [hw] at h
    case relay h _ _ _         => simp [hw] at h
    case exchange key h ht hk hr =>
      refine ⟨[.started (.leftRead .leftReadSocks5Step1), .statusSet .data], by simp, by simp, ?_⟩
      refine .inr ⟨rfl, congrArg some (Subtype.ext ?_)⟩
      by_contra hne
      refine hn ⟨ht, ?_, (randomStr_eq_iff hc hp).mp hr, fun he => hne ?_⟩
      · have h₁ : (payload lss).length = (Local.Session.exchangePlain l lss).length :=
          (Aes.length_decrypt _).symm
        have h₂ := congrArg List.length hk
        have h₃ := congrArg List.length hr
        have h₄ := congrArg List.length (decrypt_reply hc hp)
        simp [key.property, ch.dataKey.property] at h₂ h₃ h₄
        omega
      · rw [hk, (dataKey_eq_iff hc hp).mpr he]

-- The packet that a fresh read makes of a frame.
def received (p : Packet) : Packet :=
  (Packet.receiving lengthHandshake).fill p.toData

-- A local that waits for the exchange reply, with its random string.
def sampleLocal : Local.Session :=
  { Local.Session.initial with status := .auth, randomStr := Local.sampleChoice.randomStr }

-- An exchange reply for it, and the reply with one bit of the key flipped.
def sampleReply (flip : Byte) : Packet :=
  Server.pack .exchange ((66 ^^^ flip) :: List.replicate 31 66 ++ Local.sampleChoice.randomStr)

theorem packExchange_sample : ∃ u, Server.newSession.packExchange Server.sampleConfig
    Server.sampleChoice Local.sampleConfig.authKey.val sampleLocal.randomStr =
      some (u, sampleReply 0) := by
  have h : Server.newSession.packExchange Server.sampleConfig Server.sampleChoice
      Local.sampleConfig.authKey.val sampleLocal.randomStr = _ :=
    Server.Session.packExchange_key Local.sampleConfig.authKey (by decide) _
  exact ⟨_, h.trans (congrArg some (congrArg (Prod.mk _) (by decide +kernel)))⟩

theorem received_holds {p : Packet} (h : p.data.length ≤ 1024) :
    Holds (4 + p.data.length) (received p) := by
  have hp : Pending (.receiving lengthHandshake) 0 := pending_receiving (by decide)
  have hd : p.toData.length ≤ offered (.receiving lengthHandshake) 0 := by
    simp [offered, lengthHandshake]
    omega
  have := entry_holds hp hd
  simpa [entry, readCompleted, rectify, received] using this

-- The honest reply itself is accepted, with the key that the server has generated.
theorem exchange_substitute_honest : Protects Local.sampleConfig Local.sampleChoice sampleLocal
    Server.sampleChoice.dataKey 46 (received (sampleReply 0)) := by
  have ⟨u, hp⟩ := packExchange_sample
  refine (exchange_substitute Local.sampleChoice rfl rfl hp
    (received_holds (p := sampleReply 0) (by decide)) (by decide +kernel)).mpr
      ⟨by decide +kernel, fun ha => ha.dataKey ?_⟩
  decide +kernel

-- A bit of the key is flipped, and the local goes on with a key that the server does not have.
theorem random_string_does_not_protect : ¬∀ (l : Local.Config) (s : Server.Config)
    (v u : Server.Session) (ch : Server.Choice) (w : Local.Session) (reply lss : Packet) (bt : Nat)
    (choice : Local.Choice), l.cpp = s.cpp → w.status = .auth →
    v.packExchange s ch l.authKey.val w.randomStr = some (u, reply) → Holds bt lss →
    lssPackIntegrityCheck bt lss = .ok () → Protects l choice w ch.dataKey bt lss := by
  intro h
  have ⟨u, hp⟩ := packExchange_sample
  have ⟨es, he, _, h⟩ := h Local.sampleConfig Server.sampleConfig Server.newSession u
    Server.sampleChoice sampleLocal (sampleReply 0) (received (sampleReply 1)) 46
    Local.sampleChoice rfl rfl hp (received_holds (p := sampleReply 1) (by decide))
    (by decide +kernel)
  have hl : (sampleLocal.rightReadHandler Local.sampleConfig Local.sampleChoice false 46
      (received (sampleReply 1)) []).log =
        [.started (.leftRead .leftReadSocks5Step1), .statusSet .data] := by decide +kernel
  have hk : (sampleLocal.rightReadHandler Local.sampleConfig Local.sampleChoice false 46
      (received (sampleReply 1)) []).dataKey ≠ some Server.sampleChoice.dataKey := by
    decide +kernel
  have he : es = [.started (.leftRead .leftReadSocks5Step1), .statusSet .data] := he.symm.trans hl
  obtain h | ⟨_, h⟩ := h
  · simp [he] at h
  · exact hk h

end Substitute
end Lproxy
