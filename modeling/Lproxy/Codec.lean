import Lproxy.Local.RightRead
import Lproxy.Local.Schedule
import Lproxy.Server.LeftRead
import Lproxy.Server.Schedule
import Mathlib.Data.List.TakeWhile

-- What one side packs, the other side unpacks.
namespace Lproxy

open Packet

variable {lss : Packet}

namespace Server

variable {cfg : Config} {ch : Choice} {s u : Session}

theorem cString_eq_self {d : Data} (h : 0 ∉ d) : cString d = d := by
  rw [cString, List.takeWhile_eq_self_iff]
  intro b hb
  simp only [decide_eq_true_eq]
  rintro rfl
  exact h hb

theorem cString_length {d : Data} (h : (cString d).length = d.length) : cString d = d :=
  (List.takeWhile_prefix _).eq_of_length h

theorem pack_framed {type : ReplyType} {d : Data} (h : d.length < 65536) : (pack type d).Framed :=
  framed_make h

@[simp]
theorem data_pack {type : ReplyType} {d : Data} : (pack type d).data = d :=
  rfl

theorem isData_pack {cfg : Config} {d : Data} :
    IsData (pack (if cfg.zipOn then .zipdata else .data) d) := by
  cases cfg.zipOn <;> simp [IsData, pack]

namespace Session

theorem unpackRequestExchange_eq {plain : Data} (h : Decrypts cfg lss plain)
    (hl : 32 ≤ plain.length) : s.unpackRequestExchange cfg lss =
      (s.note (.exchangeDecrypted plain), .ok (plain.take 32, plain.drop 32)) := by
  have hlt : ¬plain.length < 32 := by omega
  unfold Decrypts at h
  simp [unpackRequestExchange, h, hlt]

theorem packExchange_key (key : Key) (h : 0 ∉ key.val) (randomStr : Data) :
    s.packExchange cfg ch key.val randomStr =
      some ({ s with aesEncryptor := some (Crypto.Aes.raw256 cfg.cpp ch.dataKey) },
        pack .exchange ((Crypto.Aes.raw256 cfg.cpp key).encrypt cfg.cpp
          (ch.dataKey.val ++ randomStr))) := by
  have hk : key.val.length = 32 ∧ (cString key.val).length = 32 := by
    rw [cString_eq_self h]
    exact ⟨key.property, key.property⟩
  simp only [packExchange, hk, and_self, dif_pos]
  congr
  exact cString_eq_self h

-- An exchange packet that is built at all is built with the key itself.
theorem packExchange_eq {key : Key} {randomStr : Data} {reply : Packet}
    (h : s.packExchange cfg ch key.val randomStr = some (u, reply)) :
    u = { s with aesEncryptor := some (Crypto.Aes.raw256 cfg.cpp ch.dataKey) } ∧
      reply = pack .exchange ((Crypto.Aes.raw256 cfg.cpp key).encrypt cfg.cpp
        (ch.dataKey.val ++ randomStr)) := by
  unfold packExchange at h
  split at h
  case isFalse   => cases h
  case isTrue hl =>
    cases h
    have hk : cString key.val = key.val := cString_length (hl.2.trans hl.1.symm)
    refine ⟨rfl, ?_⟩
    congr

end Session
end Server

namespace Local

variable {cfg : Config} {ch : Choice} {s u : Session}

theorem pack_framed {type : RequestType} {n : Nat} {d : Data} (hn : n = d.length)
    (h : d.length < 65536) : (pack type n d).Framed :=
  hn ▸ framed_make h

@[simp]
theorem data_pack {type : RequestType} {n : Nat} {d : Data} : (pack type n d).data = d :=
  rfl

theorem isData_pack {cfg : Config} {n : Nat} {d : Data} :
    IsData (pack (if cfg.zipOn then .zipdata else .data) n d) := by
  cases cfg.zipOn <;> simp [IsData, pack, RequestType.toByte, ReplyType.toByte]

end Local

-- The two bytes in which a hello packet carries the size of the key.
theorem keysize_round_trip (n : UInt16) :
    ((((n >>> 8) &&& 0xff).toUInt8.toUInt16 <<< 8) &&& 0xff00) |||
      ((n &&& 0xff).toUInt8).toUInt16 = n :=
  dataLen_make (v := 0) (t := 0) (n := n) (d := [])

section RoundTrip

variable {l : Local.Config} {s : Server.Config}

theorem hello_round_trip (h : (Server.genHelloData s).length < 65536) {v : Local.Session}
    (hs : lss.StartsWith (Server.packHello s)) :
    v.unpackReplyHello lss = (v, .ok (s.rsaKeysize, s.rsaPublickeyHex)) := by
  have hf : (Server.packHello s).Framed := Server.pack_framed h
  have hp := hs.payload hf
  have hlen : lss.dataLen.toNat = (Server.genHelloData s).length := by
    rw [hs.header.2]
    exact hf
  have hge : ¬lss.dataLen.toNat < 2 := by
    rw [hlen]
    simp [Server.genHelloData]
  have get {i : Nat} (hi : i < 2) : lss.data.getD i 0 = (Server.genHelloData s).getD i 0 := by
    have hd : (Server.genHelloData s) = lss.data.take lss.dataLen.toNat := hp.symm
    rw [hd, List.getD_eq_getElem?_getD, List.getD_eq_getElem?_getD,
      List.getElem?_take_of_lt (by omega)]
  rw [Local.Session.unpackReplyHello, if_neg hge, hp, get (by omega), get (by omega)]
  exact congrArg (fun k => (v, Except.ok (k, s.rsaPublickeyHex))) (keysize_round_trip s.rsaKeysize)

theorem exchangeRequest_round_trip (hc : l.cpp = s.cpp) {v u : Local.Session} {ch : Local.Choice}
    {keysize : UInt16} {publicKey : Data} {request : Packet}
    (hp : v.packExchange l ch keysize publicKey = (u, .ok request))
    (hi : Crypto.Rsa.Inverts s.cpp s.rsakey keysize.toUInt64 publicKey)
    (hlen : request.data.length < 65536) :
    request.Framed ∧ ∀ {w : Server.Session} {lss : Packet}, lss.StartsWith request →
      w.unpackRequestExchange s lss =
        (w.note (.exchangeDecrypted (l.authKey.val ++ ch.randomStr)),
          .ok (l.authKey.val, ch.randomStr)) := by
  have ⟨_, rsa, cipher, hk, he, he₁⟩ := Local.Session.packExchange_ok hp
  subst he₁
  have hf : (Local.pack .exchange cipher.length cipher).Framed := Local.pack_framed rfl hlen
  refine ⟨hf, fun {w lss} hs => ?_⟩
  rw [hc] at hk he
  have hd : Server.Session.Decrypts s lss (l.authKey.val ++ ch.randomStr) := by
    rw [Server.Session.Decrypts, hs.payload hf]
    exact hi hk he
  have hk : l.authKey.val.length = 32 := l.authKey.property
  rw [Server.Session.unpackRequestExchange_eq hd (by simp [hk]), List.take_left' hk,
    List.drop_left' hk]

theorem exchangeReply_round_trip (hc : l.cpp = s.cpp) (hk : 0 ∉ l.authKey.val)
    {v : Server.Session} {ch : Server.Choice} {randomStr : Data}
    (hlen : 32 + randomStr.length < 65536) :
    ∃ u reply, v.packExchange s ch l.authKey.val randomStr = some (u, reply) ∧ reply.Framed ∧
      ∀ {w : Local.Session} {lss : Packet}, lss.StartsWith reply →
        w.unpackReplyExchange l lss = ({ w with dataKey := some ch.dataKey }, .ok randomStr) := by
  have hd : ch.dataKey.val.length = 32 := ch.dataKey.property
  refine ⟨_, _, Server.Session.packExchange_key l.authKey hk randomStr, ?_, ?_⟩
  · exact Server.pack_framed (by simpa [hd] using hlen)
  · intro w lss hs
    have hp := hs.payload (Server.pack_framed (by simpa [hd] using hlen))
    simp only [Server.data_pack] at hp
    have ht : (ch.dataKey.val ++ randomStr).take 32 = ch.dataKey.val := List.take_left' hd
    have hr : (ch.dataKey.val ++ randomStr).drop 32 = randomStr := List.drop_left' hd
    unfold Local.Session.unpackReplyExchange
    simp only [hp, hc, Crypto.Aes.decrypt_encrypt, ht, hr, hd, dif_pos]

theorem localData_round_trip (hc : l.cpp = s.cpp) {v : Local.Session} {w : Server.Session}
    {aes : Crypto.Aes} (hv : v.getAes l = some aes) (hw : w.aesEncryptor = some aes) {d : Data}
    (hd : d.length ≤ maxLength) :
    ∃ u request, v.packData l d = (u, some request) ∧ request.Framed ∧ IsData request ∧
      ∀ {lss : Packet} {bt : Nat}, lss.StartsWith request →
        w.unpackData s bt lss = (w.note (.unpacked d), some (d, toInt (bt - (4 + d.length)))) := by
  have hm : maxLength = 4096 := rfl
  have hf : (Local.pack (if l.zipOn then .zipdata else .data) d.length
      (aes.encrypt l.cpp d)).Framed :=
    Local.pack_framed (by simp) (by simp; omega)
  refine ⟨_, _, by rw [Local.Session.packData, hv], hf, Local.isData_pack, fun {lss bt} hs => ?_⟩
  have hp := hs.payload hf
  have hlen : lss.dataLen.toNat = d.length := by
    rw [hs.header.2]
    exact hf.trans (by simp)
  rw [Local.data_pack, hlen] at hp
  simp only [Server.Session.unpackData, hw, hlen, hp, ← hc, Crypto.Aes.decrypt_encrypt]

theorem serverData_round_trip (hc : l.cpp = s.cpp) {v : Server.Session} {w : Local.Session}
    {aes : Crypto.Aes} (hv : v.aesEncryptor = some aes) (hw : w.getAes l = some aes) {d : Data}
    (hd : d.length ≤ maxLength) :
    ∃ u reply, v.packData s d = (u, reply) ∧ reply.Framed ∧ IsData reply ∧
      ∀ {lss : Packet} {bt : Nat}, lss.StartsWith reply →
        w.unpackReplyData l bt lss = ({ w with aesEncryptor := some aes }.note (.unpacked d),
          some (d, toInt (bt - (4 + d.length)))) := by
  have hm : maxLength = 4096 := rfl
  have hf : (Server.pack (if s.zipOn then .zipdata else .data) (aes.encrypt s.cpp d)).Framed :=
    Server.pack_framed (by simp; omega)
  refine ⟨_, _, by rw [Server.Session.packData, hv], hf, Server.isData_pack, fun {lss bt} hs => ?_⟩
  have hp := hs.payload hf
  have hlen : lss.dataLen.toNat = d.length := by
    rw [hs.header.2]
    exact hf.trans (by simp)
  rw [Server.data_pack, hlen] at hp
  simp only [Local.Session.unpackReplyData, hw, hlen, hp, hc, Crypto.Aes.decrypt_encrypt]

-- Every packet that carries something is read back by the other side, whatever follows it in the
-- receive buffer, and its length field is the number of bytes that are sent.
theorem codec_round_trip (hc : l.cpp = s.cpp) :
    ((Server.genHelloData s).length < 65536 → (Server.packHello s).Framed ∧
      ∀ {v : Local.Session} {lss : Packet}, lss.StartsWith (Server.packHello s) →
        v.unpackReplyHello lss = (v, .ok (s.rsaKeysize, s.rsaPublickeyHex))) ∧
    (∀ {v u : Local.Session} {ch : Local.Choice} {keysize : UInt16} {publicKey : Data}
      {request : Packet}, v.packExchange l ch keysize publicKey = (u, .ok request) →
      Crypto.Rsa.Inverts s.cpp s.rsakey keysize.toUInt64 publicKey →
      request.data.length < 65536 → request.Framed ∧
        ∀ {w : Server.Session} {lss : Packet}, lss.StartsWith request →
          w.unpackRequestExchange s lss =
            (w.note (.exchangeDecrypted (l.authKey.val ++ ch.randomStr)),
              .ok (l.authKey.val, ch.randomStr))) ∧
    (∀ {v : Server.Session} {ch : Server.Choice} {randomStr : Data}, 0 ∉ l.authKey.val →
      32 + randomStr.length < 65536 →
      ∃ u reply, v.packExchange s ch l.authKey.val randomStr = some (u, reply) ∧ reply.Framed ∧
        ∀ {w : Local.Session} {lss : Packet}, lss.StartsWith reply →
          w.unpackReplyExchange l lss = ({ w with dataKey := some ch.dataKey }, .ok randomStr)) ∧
    (∀ {v : Local.Session} {w : Server.Session} {aes : Crypto.Aes} {d : Data},
      v.getAes l = some aes → w.aesEncryptor = some aes → d.length ≤ maxLength →
      ∃ u request, v.packData l d = (u, some request) ∧ request.Framed ∧ IsData request ∧
        ∀ {lss : Packet} {bt : Nat}, lss.StartsWith request →
          w.unpackData s bt lss =
            (w.note (.unpacked d), some (d, toInt (bt - (4 + d.length))))) ∧
    (∀ {v : Server.Session} {w : Local.Session} {aes : Crypto.Aes} {d : Data},
      v.aesEncryptor = some aes → w.getAes l = some aes → d.length ≤ maxLength →
      ∃ u reply, v.packData s d = (u, reply) ∧ reply.Framed ∧ IsData reply ∧
        ∀ {lss : Packet} {bt : Nat}, lss.StartsWith reply →
          w.unpackReplyData l bt lss = ({ w with aesEncryptor := some aes }.note (.unpacked d),
            some (d, toInt (bt - (4 + d.length))))) :=
  ⟨fun h => ⟨Server.pack_framed h, hello_round_trip h⟩,
    exchangeRequest_round_trip hc, fun hk hlen => exchangeReply_round_trip hc hk hlen,
    fun hv hw hd => localData_round_trip hc hv hw hd,
    fun hv hw hd => serverData_round_trip hc hv hw hd⟩

-- A hello packet with a byte after it, and an exchange packet for a random string of ten digits.
theorem codec_round_trip_sample :
    Local.Session.initial.unpackReplyHello
        { Server.packHello Server.sampleConfig with data := [2, 0, 70, 70, 1] } =
      (.initial, .ok (512, [70, 70])) ∧
    ∃ u reply, Server.newSession.packExchange Server.sampleConfig Server.sampleChoice
        Local.sampleConfig.authKey.val Local.sampleChoice.randomStr = some (u, reply) ∧
      (Local.Session.initial.unpackReplyExchange Local.sampleConfig reply).2 =
        .ok Local.sampleChoice.randomStr := by
  have ⟨hello, _, exchange, _⟩ :=
    codec_round_trip (show Local.sampleConfig.cpp = Server.sampleConfig.cpp from rfl)
  constructor
  case left => exact (hello (by decide)).2 ⟨[1], by decide⟩
  case right =>
    obtain ⟨u, reply, hp, _, hu⟩ := exchange (v := Server.newSession) (by decide)
      (show 32 + Local.sampleChoice.randomStr.length < 65536 by decide)
    exact ⟨u, reply, hp, congrArg Prod.snd (hu (List.prefix_refl _))⟩

-- No exchange packet is built for a key with a null byte.
theorem no_exchange_for_null_byte : ¬∀ (cfg : Server.Config) (ch : Server.Choice)
    (v : Server.Session) (key : Key) (randomStr : Data), 32 + randomStr.length < 65536 →
    ∃ u reply, v.packExchange cfg ch key.val randomStr = some (u, reply) := by
  intro h
  have ⟨u, reply, hp⟩ := h Server.sampleConfig Server.sampleChoice Server.newSession
    ⟨List.replicate 32 0, rfl⟩ [] (by decide)
  have hn : Server.newSession.packExchange Server.sampleConfig Server.sampleChoice
      (List.replicate 32 0) [] = none := dif_neg (by decide)
  rw [hn] at hp
  cases hp

end RoundTrip
end Lproxy
