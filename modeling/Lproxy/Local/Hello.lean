import Lproxy.Exchange

-- What a session makes of a hello packet, whoever has sent it.
namespace Lproxy.Local

open Crypto

-- The size of the key and the key that a hello packet names.
def keysizeOf (lss : Packet) : UInt16 :=
  (((lss.data.getD 0 0).toUInt16 <<< 8) &&& 0xff00) ||| (lss.data.getD 1 0).toUInt16

def publicKeyOf (lss : Packet) : Data :=
  (lss.data.take lss.dataLen.toNat).drop 2

-- A hello packet with a key that can be loaded, for which `Rsa::encrypt` has blocks of size zero.
structure ZeroBlock (cfg : Config) (lss : Packet) : Prop where
  two_le : 2 ≤ lss.dataLen.toNat
  loads : (cfg.cpp.loadPublicKey (publicKeyOf lss)).isSome
  keysize : 336 ≤ keysizeOf lss ∧ keysizeOf lss ≤ 343

namespace Session

variable {cfg : Config} {ch : Choice} {s t : Session} {bt n : Nat} {lss p : Packet} {rest : Data}

-- A call of the read handler that makes up the packet `p` answers it with an exchange packet, or
-- cancels the session; and `Rsa::encrypt` takes no remainder by zero.
structure Survives (cfg : Config) (ch : Choice) (s : Session) (bt : Nat) (lss : Packet)
    (rest : Data) (p : Packet) : Prop where
  settled : (∃ cipher : Data, s.rightReadHandler cfg ch false bt lss rest =
      { s with randomStr := ch.randomStr }.start
        (.rightWrite (pack .exchange cipher.length cipher) .exchangeHandler)) ∨
    (s.rightReadHandler cfg ch false bt lss rest).log.getLast? = some .cancelled
  divides : ∀ keysize publicKey rsa, s.unpackReplyHello p = (s, .ok (keysize, publicKey)) →
    Rsa.ofPublicKey cfg.cpp keysize.toUInt64 publicKey = some rsa →
    rsa.encrypt cfg.cpp ch.rng (cfg.authKey.val ++ ch.randomStr) ≠ .error .divisionByZero

theorem unpackReplyHello_eq (h : 2 ≤ lss.dataLen.toNat) :
    s.unpackReplyHello lss = (s, .ok (keysizeOf lss, publicKeyOf lss)) :=
  if_neg (by omega)

theorem unpackReplyHello_ok {keysize : UInt16} {publicKey : Data}
    (h : s.unpackReplyHello lss = (t, .ok (keysize, publicKey))) :
    2 ≤ lss.dataLen.toNat ∧ keysize = keysizeOf lss ∧ publicKey = publicKeyOf lss := by
  by_cases hl : 2 ≤ lss.dataLen.toNat
  case pos =>
    rw [unpackReplyHello_eq hl] at h
    cases h
    exact ⟨hl, rfl, rfl⟩
  case neg =>
    rw [unpackReplyHello, if_pos (by omega)] at h
    cases h

-- In this status nothing is left of the handler but an answer or a cancellation.
theorem hello_settled (hs : s.status = .hello) (hb : 4 + lss.dataLen.toNat ≤ bt)
    (h : RightReadDone cfg ch s bt lss t) :
    (∃ cipher : Data, t = { s with randomStr := ch.randomStr }.start
        (.rightWrite (pack .exchange cipher.length cipher) .exchangeHandler)) ∨
      t.log.getLast? = some .cancelled := by
  cases h
  case more               => omega
  case cancel             => exact .inr (by simp)
  case helloFault         => exact .inr (by simp)
  case encryptFault       => exact .inr (by simp)
  case encryptFailed      => exact .inr (by simp)
  case hello hp =>
    have ⟨hu, _, cipher, _, _, hr⟩ := packExchange_ok hp
    exact .inl ⟨cipher, by rw [hu, hr]⟩
  case exchangeFault      => exact .inr (by simp)
  case illegalServer      => exact .inr (by simp)
  case exchange h _ _ _   => rw [hs] at h; cases h
  case assertion h _      => rw [hs] at h; cases h
  case relay h _ _ _      => rw [hs] at h; cases h

theorem encrypt_eq_divisionByZero_iff {c : CryptoPP} {r : Rsa} {rng : Nat} {src : Data} :
    r.encrypt c rng src = .error .divisionByZero ↔ r.maxBlockSize = 0 := by
  rw [Rsa.encrypt]
  split
  case isTrue h  => simp [h]
  case isFalse h =>
    simp only [h, iff_false]
    split <;> simp

-- The subtraction yields zero for the eight sizes with the quotient 42, and for no other.
theorem maxBlockSize_eq_zero_iff {r : Rsa} {keysize : UInt16} (h : r.keysize = keysize.toUInt64) :
    r.maxBlockSize = 0 ↔ 336 ≤ keysize ∧ keysize ≤ 343 := by
  have hq : r.keysize / 8 = 42 ↔ keysize.toNat / 8 = 42 := by
    rw [h, ← UInt64.toNat_inj, UInt64.toNat_div]
    simp
  have hz : r.maxBlockSize = 0 ↔ r.keysize / 8 = 42 := by
    rw [Rsa.maxBlockSize, sub_eq_zero]
  rw [hz, hq, UInt16.le_iff_toNat_le, UInt16.le_iff_toNat_le]
  simp only [UInt16.reduceToNat]
  omega

-- A hello packet, received in one piece or in several, is survived unless it makes the blocks of
-- the encryption empty.
theorem survives_iff (hs : s.status = .hello) (hr : rectify bt lss rest = (n, p))
    (_ : ReplyType.ofByte p.type = .hello) (hh : Holds n p) (hb : 4 + p.dataLen.toNat ≤ n) :
    Survives cfg ch s bt lss rest p ↔ ¬ZeroBlock cfg p := by
  constructor
  case mp =>
    intro h hz
    have ⟨k, hk⟩ := Option.isSome_iff_exists.mp hz.loads
    have hrsa : Rsa.ofPublicKey cfg.cpp (keysizeOf p).toUInt64 (publicKeyOf p) =
        some ⟨k, [], (keysizeOf p).toUInt64, false⟩ := by
      rw [Rsa.ofPublicKey, hk, Option.map_some]
    apply h.divides _ _ _ (unpackReplyHello_eq hz.two_le) hrsa
    exact encrypt_eq_divisionByZero_iff.mpr ((maxBlockSize_eq_zero_iff rfl).mpr hz.keysize)
  case mpr =>
    intro hn
    have hd : RightReadDone cfg ch s n p (s.rightReadHandler cfg ch false bt lss rest) := by
      have hd : RightReadDone cfg ch s (rectify bt lss rest).1 (rectify bt lss rest).2
          (s.rightReadHandler cfg ch false bt lss rest) :=
        rightReadHandler_done rest (by rwa [hr])
      rwa [hr] at hd
    refine ⟨hello_settled hs hb hd, ?_⟩
    intro keysize publicKey rsa hu hload he
    have ⟨hl, hk, hp⟩ := unpackReplyHello_ok hu
    subst hk hp
    have ⟨k, hk, hrsa⟩ := Option.map_eq_some_iff.mp hload
    subst hrsa
    have hz := encrypt_eq_divisionByZero_iff.mp he
    exact hn ⟨hl, Option.isSome_of_eq_some hk, (maxBlockSize_eq_zero_iff rfl).mp hz⟩

-- A session that waits for a hello packet, and one that names a key of the given size.
def waiting : Session :=
  { initial with status := .hello }

def sampleHello (keysize : UInt16) : Packet :=
  .make 0x00 ReplyType.hello.toByte 4 [(keysize >>> 8).toUInt8, keysize.toUInt8, 70, 70]

theorem survives_iff_512 :
    Survives sampleConfig sampleChoice waiting 8 (received (sampleHello 512)) []
      (received (sampleHello 512)) :=
  (survives_iff rfl (by rfl) (by decide +kernel) (received_holds (p := sampleHello 512) (by decide))
    (by decide +kernel)).mpr fun h => absurd h.keysize (by decide +kernel)

-- 336 / 8 - 42 is zero.
theorem not_survives_336 : ¬∀ (cfg : Config) (ch : Choice) (s : Session) (bt n : Nat)
    (lss p : Packet) (rest : Data), s.status = .hello → rectify bt lss rest = (n, p) →
    ReplyType.ofByte p.type = .hello → Holds n p → 4 + p.dataLen.toNat ≤ n →
    Survives cfg ch s bt lss rest p := by
  intro h
  have h := h sampleConfig sampleChoice waiting 8 8 (received (sampleHello 336))
    (received (sampleHello 336)) [] rfl (by rfl) (by decide +kernel)
    (received_holds (p := sampleHello 336) (by decide)) (by decide +kernel)
  apply h.divides 336 [70, 70] ⟨[70, 70], [], 336, false⟩ <;> decide +kernel

end Session
end Lproxy.Local
