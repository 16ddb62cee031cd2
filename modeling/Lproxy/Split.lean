import Lproxy.Exchange

-- Where the two ends split the plaintext of an exchange packet, and whether it is long enough.
namespace Lproxy

variable {bt : Nat} {lss : Packet}

namespace Server

-- A payload of whole RSA blocks, possibly none, that the encryption makes of less than 32 bytes.
def ShortBlocks (cfg : Config) (d : Data) : Prop :=
  ∃ plains, Crypto.Rsa.Blocks cfg.cpp cfg.rsakey d plains ∧ plains.flatten.length < 32

-- A payload that does not consist of whole RSA blocks, or that `Rsa::encrypt` makes of 32 bytes or
-- more, under a public key that fits to the key of the server.
inductive Harmless (cfg : Config) (d : Data) : Prop
  | broken (hk : cfg.rsakey.keysize / 8 ≠ 0) (hl : d.length % (cfg.rsakey.keysize / 8).toNat ≠ 0)
  | made {keysize : UInt64} {publicKeyHex src : Data} {rsa : Crypto.Rsa} {rng : Nat}
    (hv : Crypto.Rsa.Inverts cfg.cpp cfg.rsakey keysize publicKeyHex)
    (hr : Crypto.Rsa.ofPublicKey cfg.cpp keysize publicKeyHex = some rsa)
    (he : rsa.encrypt cfg.cpp rng src = .ok d) (hl : 32 ≤ src.length)

namespace Harmless

variable {cfg : Config}

theorem keysize_ne (h : Harmless cfg (payload lss)) : cfg.rsakey.keysize / 8 ≠ 0 := by
  cases h
  case broken hk _     => exact hk
  case made hv hr he _ =>
    intro hk
    have hd := hv hr he
    simp [Crypto.Rsa.decrypt, Crypto.Rsa.ofRsaKey, hk] at hd

theorem length_le (h : Harmless cfg (payload lss)) {plain : Data}
    (hd : Session.Decrypts cfg lss plain) : 32 ≤ plain.length := by
  cases h
  case broken hk hl =>
    obtain ⟨plains, _, hm, _⟩ := (Crypto.Rsa.decrypt_eq_ok_iff hk).mp hd
    exact absurd (by rw [payload, hm, Nat.mul_mod_left]) hl
  case made hv hr he hl =>
    cases hd.symm.trans (hv hr he)
    exact hl

end Harmless

namespace Session

variable {cfg : Config} {ch : Choice} {s : Session}

-- The handler of a read splits 32 bytes or more, or turns the local away.
def SplitsSafely (cfg : Config) (ch : Choice) (s : Session) (bt : Nat) (lss : Packet) : Prop :=
  ∃ es, (s.leftReadHandler cfg ch false bt lss []).log = s.log ++ es ∧ .fault ∉ es ∧
    ((∃ plain, Decrypts cfg lss plain ∧ 32 ≤ plain.length) ∨ .cancelled ∈ es ∨
      .started (.leftWrite packDeny .cancel) ∈ es)

theorem leftReadHandler_exchange (hi : lssPackIntegrityCheck bt lss = .ok ())
    (ht : RequestType.ofByte lss.type = .exchange) :
    s.leftReadHandler cfg ch false bt lss [] = caught bt lss (s.leftReadExchange cfg ch lss) := by
  have h : s.leftReadTry cfg ch bt lss = s.leftReadExchange cfg ch lss := by
    simp [leftReadTry, hi, ht]
  rw [← h]
  rfl

theorem shortBlocks_iff (hk : cfg.rsakey.keysize / 8 ≠ 0)
    (hx : Crypto.Rsa.Exact cfg.cpp cfg.rsakey.parameters cfg.rsakey.parameters) :
    ShortBlocks cfg (payload lss) ↔ ∃ plain, Decrypts cfg lss plain ∧ plain.length < 32 := by
  simp only [Decrypts, Crypto.Rsa.decrypt_iff_blocks hk hx]
  constructor
  case mp =>
    rintro ⟨plains, hb, hl⟩
    exact ⟨_, ⟨plains, rfl, hb⟩, hl⟩
  case mpr =>
    rintro ⟨_, ⟨plains, rfl, hb⟩, hl⟩
    exact ⟨plains, hb, hl⟩

-- What is logged when the payload is decrypted, or is not.
theorem log_divisionByZero (hs : s.status = .auth) (hk : cfg.rsakey.keysize / 8 = 0) :
    (caught bt lss (s.leftReadExchange cfg ch lss)).log = s.log ++ [.fault, .cancelled] := by
  simp [leftReadExchange, hs, unpackRequestExchange, Crypto.Rsa.decrypt, Crypto.Rsa.ofRsaKey, hk,
    caught, leftReadCatch]

theorem log_undecryptable (hs : s.status = .auth) (hk : cfg.rsakey.keysize / 8 ≠ 0)
    (hd : ∀ plain, ¬Decrypts cfg lss plain) :
    (caught bt lss (s.leftReadExchange cfg ch lss)).log = s.log ++ [.cancelled] := by
  have he : (Crypto.Rsa.ofRsaKey cfg.rsakey).decrypt cfg.cpp (lss.data.take lss.dataLen.toNat) =
      .error .exception := by
    cases he : (Crypto.Rsa.ofRsaKey cfg.rsakey).decrypt cfg.cpp (lss.data.take lss.dataLen.toNat)
    case ok plain => exact absurd he (hd plain)
    case error e  => rw [Crypto.Rsa.decrypt_error hk he]
  simp [leftReadExchange, hs, unpackRequestExchange, he, caught, leftReadCatch]

theorem log_short (hs : s.status = .auth) {plain : Data} (hd : Decrypts cfg lss plain)
    (hl : plain.length < 32) : (caught bt lss (s.leftReadExchange cfg ch lss)).log =
      s.log ++ [.exchangeDecrypted plain, .fault, .cancelled] := by
  have hu : s.unpackRequestExchange cfg lss =
      ((s.note (.exchangeDecrypted plain)).note .fault, .error .other) := by
    unfold Decrypts at hd
    simp [unpackRequestExchange, hd, hl]
  simp [leftReadExchange, hs, hu, caught, leftReadCatch]

theorem log_split (hs : s.status = .auth) {plain : Data} (hd : Decrypts cfg lss plain)
    (hl : 32 ≤ plain.length) : ∃ op, (caught bt lss (s.leftReadExchange cfg ch lss)).log =
      s.log ++ [.exchangeDecrypted plain, .started op] := by
  by_cases hk : plain.take 32 ∈ cfg.cipherAuthKeySet.map (·.val)
  case neg =>
    refine ⟨.leftWrite packDeny .cancel, ?_⟩
    simp only [leftReadExchange, hs, ne_eq, not_true_eq_false, if_false,
      unpackRequestExchange_eq hd hl, hk, not_false_eq_true, if_true, caught]
    simp
  case pos =>
    obtain ⟨⟨key, h₀⟩, _, he⟩ := List.mem_map.mp hk
    have h₀ : 0 ∉ plain.take 32 := he ▸ h₀
    obtain ⟨authKey, hkey⟩ : ∃ k : Key, plain.take 32 = k.val :=
      ⟨⟨plain.take 32, by simp [hl]⟩, rfl⟩
    rw [hkey] at h₀ hk
    have hp := @packExchange_key cfg ch (s.note (.exchangeDecrypted plain)) authKey h₀
      (plain.drop 32)
    refine ⟨.leftWrite (pack .exchange ((Crypto.Aes.raw256 cfg.cpp authKey).encrypt cfg.cpp
      (ch.dataKey.val ++ plain.drop 32))) .exchangeHandler, ?_⟩
    simp only [leftReadExchange, hs, ne_eq, not_true_eq_false, if_false,
      unpackRequestExchange_eq hd hl, hkey, hk, hp, caught]
    simp

-- What is decrypted has to be long enough.
theorem splitsSafely_iff_length (hs : s.status = .auth)
    (hi : lssPackIntegrityCheck bt lss = .ok ()) (ht : RequestType.ofByte lss.type = .exchange) :
    s.SplitsSafely cfg ch bt lss ↔
      cfg.rsakey.keysize / 8 ≠ 0 ∧ ∀ {plain}, Decrypts cfg lss plain → 32 ≤ plain.length := by
  rw [SplitsSafely, leftReadHandler_exchange hi ht]
  constructor
  case mp =>
    rintro ⟨es, he, hf, _⟩
    have hk : cfg.rsakey.keysize / 8 ≠ 0 := by
      intro hk
      cases List.append_cancel_left ((log_divisionByZero hs hk).symm.trans he)
      exact hf (by simp)
    refine ⟨hk, fun {plain} hd => Nat.le_of_not_lt fun hl => ?_⟩
    cases List.append_cancel_left ((log_short hs hd hl).symm.trans he)
    exact hf (by simp)
  case mpr =>
    rintro ⟨hk, h⟩
    by_cases hd : ∃ plain, Decrypts cfg lss plain
    case neg => exact ⟨_, log_undecryptable hs hk (not_exists.mp hd), by simp⟩
    case pos =>
      obtain ⟨plain, hd⟩ := hd
      obtain ⟨op, he⟩ := @log_split bt lss cfg ch s hs plain hd (h hd)
      exact ⟨_, he, by simp, .inl ⟨plain, hd, h hd⟩⟩

theorem splitsSafely_iff (hs : s.status = .auth) (hi : lssPackIntegrityCheck bt lss = .ok ())
    (ht : RequestType.ofByte lss.type = .exchange)
    (hx : Crypto.Rsa.Exact cfg.cpp cfg.rsakey.parameters cfg.rsakey.parameters) :
    s.SplitsSafely cfg ch bt lss ↔
      cfg.rsakey.keysize / 8 ≠ 0 ∧ ¬ShortBlocks cfg (payload lss) := by
  rw [splitsSafely_iff_length hs hi ht]
  apply and_congr_right
  intro hk
  rw [shortBlocks_iff hk hx]
  constructor
  case mp  => exact fun h ⟨plain, hd, hl⟩ => absurd (h hd) (Nat.not_le_of_lt hl)
  case mpr => exact fun h plain hd => Nat.le_of_not_lt fun hl => h ⟨plain, hd, hl⟩

theorem splitsSafely_of_harmless (hs : s.status = .auth)
    (hi : lssPackIntegrityCheck bt lss = .ok ()) (ht : RequestType.ofByte lss.type = .exchange)
    (h : Harmless cfg (payload lss)) : s.SplitsSafely cfg ch bt lss :=
  (splitsSafely_iff_length hs hi ht).mpr ⟨h.keysize_ne, h.length_le⟩

end Session
end Server

namespace Local.Session

variable {cfg : Config} {ch : Choice} {s : Session}

-- The handler of a read splits 32 bytes or more, or ends the session.
def SplitsSafely (cfg : Config) (ch : Choice) (s : Session) (bt : Nat) (lss : Packet) : Prop :=
  ∃ es, (s.rightReadHandler cfg ch false bt lss []).log = s.log ++ es ∧ .fault ∉ es ∧
    (32 ≤ (exchangePlain cfg lss).length ∨ .cancelled ∈ es)

theorem splitsSafely_iff (hs : s.status = .auth) (hb : Holds bt lss)
    (hi : lssPackIntegrityCheck bt lss = .ok ()) (ht : ReplyType.ofByte lss.type = .exchange) :
    s.SplitsSafely cfg ch bt lss ↔ 32 ≤ lss.dataLen.toNat := by
  have hlen := length_exchangePlain (l := cfg) hb hi
  have hr : s.rightReadHandler cfg ch false bt lss [] =
      caught bt lss (s.rightReadExchange cfg lss) := by
    have h : s.rightReadTry cfg ch bt lss = s.rightReadExchange cfg lss := by
      simp [rightReadTry, hi, ht]
    rw [← h]
    rfl
  rw [SplitsSafely, hlen]
  constructor
  case mp =>
    rintro ⟨es, he, hf, _⟩
    by_contra hlt
    rw [short_faults ch hs hi ht (by omega)] at he
    have he : es = [.fault, .cancelled] := by simpa using he.symm
    simp [he] at hf
  case mpr =>
    intro hge
    rw [hr]
    have hk : ((exchangePlain cfg lss).take 32).length = 32 := by
      rw [List.length_take, hlen]
      omega
    have hu : s.unpackReplyExchange cfg lss = ({ s with dataKey := some ⟨_, hk⟩ },
        .ok ((exchangePlain cfg lss).drop 32)) := by
      unfold exchangePlain at hk ⊢
      simp only [unpackReplyExchange, hk, dif_pos]
    by_cases hd : (exchangePlain cfg lss).drop 32 = s.randomStr
    case pos =>
      refine ⟨[.started (.leftRead .leftReadSocks5Step1), .statusSet .data], ?_, by simp, .inl hge⟩
      simp [rightReadExchange, hs, hu, hd, caught]
    case neg =>
      refine ⟨[.cancelled], ?_, by simp, .inl hge⟩
      simp [rightReadExchange, hs, hu, hd, caught]

end Local.Session

-- A payload that passes the integrity check is split only where the plaintext is long enough, if
-- the payload is not one that is made of a text which is too short.
theorem exchange_payload_split (hi : lssPackIntegrityCheck bt lss = .ok ()) :
    (∀ {cfg : Server.Config} {ch : Server.Choice} {s : Server.Session}, s.status = .auth →
      RequestType.ofByte lss.type = .exchange →
        (Crypto.Rsa.Exact cfg.cpp cfg.rsakey.parameters cfg.rsakey.parameters →
          (s.SplitsSafely cfg ch bt lss ↔
            cfg.rsakey.keysize / 8 ≠ 0 ∧ ¬Server.ShortBlocks cfg (payload lss))) ∧
        (Server.Harmless cfg (payload lss) → s.SplitsSafely cfg ch bt lss)) ∧
    (∀ {cfg : Local.Config} {ch : Local.Choice} {s : Local.Session}, s.status = .auth →
      Holds bt lss → ReplyType.ofByte lss.type = .exchange →
        (s.SplitsSafely cfg ch bt lss ↔ 32 ≤ lss.dataLen.toNat)) :=
  ⟨fun hs ht => ⟨Server.Session.splitsSafely_iff hs hi ht,
      Server.Session.splitsSafely_of_harmless hs hi ht⟩,
    fun hs hb ht => Local.Session.splitsSafely_iff hs hb hi ht⟩

section Sample

-- A server that waits for the exchange packet, and a packet for it.
def sampleServer : Server.Session :=
  { Server.newSession with status := .auth }

def sampleRequest (d : Data) : Packet :=
  Local.pack .exchange d.length d

-- A server whose RSA decrypts nothing but what has been encrypted.
def strictConfig : Server.Config :=
  { Server.sampleConfig with cpp := Crypto.strict }

-- Honest packets are taken apart by either side, and half a block is refused.
theorem exchange_payload_split_honest :
    sampleServer.SplitsSafely strictConfig Server.sampleChoice 68
      (sampleRequest (63 :: .replicate 63 65)) ∧
    sampleServer.SplitsSafely Server.sampleConfig Server.sampleChoice 36
      (sampleRequest (.replicate 32 65)) ∧
    sampleLocal.SplitsSafely Local.sampleConfig Local.sampleChoice 46
      (received (sampleReply 0)) := by
  refine ⟨?_, ?_, ?_⟩
  · have hk : strictConfig.rsakey.keysize / 8 ≠ 0 := by decide
    have hd : Server.Session.Decrypts strictConfig (sampleRequest (63 :: .replicate 63 65))
        (.replicate 63 65) := by
      unfold Server.Session.Decrypts
      decide +kernel
    refine (((exchange_payload_split (by decide +kernel)).1 rfl rfl).1 Crypto.strict_exact).mpr
      ⟨hk, fun h => ?_⟩
    obtain ⟨plain, hd', hl⟩ := (Server.Session.shortBlocks_iff hk Crypto.strict_exact).mp h
    cases hd.symm.trans hd'
    exact absurd hl (by decide)
  · exact ((exchange_payload_split (by decide +kernel)).1 rfl rfl).2
      (.broken (by decide) (by decide +kernel))
  · exact ((exchange_payload_split (by decide +kernel)).2 rfl (received_holds (p := sampleReply 0)
      (by decide)) rfl).mpr (by decide +kernel)

-- A payload without any block is decrypted to nothing.
theorem empty_exchange_payload : ¬∀ (cfg : Server.Config) (ch : Server.Choice)
    (s : Server.Session) (bt : Nat) (lss : Packet), s.status = .auth →
    lssPackIntegrityCheck bt lss = .ok () → RequestType.ofByte lss.type = .exchange →
    s.SplitsSafely cfg ch bt lss := by
  intro h
  have ⟨es, he, hf, _⟩ := h Server.sampleConfig Server.sampleChoice sampleServer 4
    (sampleRequest []) rfl (by decide) rfl
  have hes : es = [.exchangeDecrypted [], .fault, .cancelled] := he.symm
  exact hf (by simp [hes])

end Sample
end Lproxy
