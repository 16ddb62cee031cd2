import Lproxy.Tunnel
import Lproxy.Local.Sender
import Lproxy.Server.Sender

-- What the two sides of a tunnel agree upon.
namespace Lproxy

open Crypto

-- What the configurations of both sides have to do with each other. The server sends the public
-- half of the key pair with which it decrypts.
structure Honest (l : Local.Config) (s : Server.Config) : Prop where
  cpp : l.cpp = s.cpp
  authKey : ∃ k ∈ s.cipherAuthKeySet, k.val = l.authKey.val
  keysize : s.rsakey.keysize = s.rsaKeysize.toUInt64
  hello : (Server.genHelloData s).length < 65536
  oaep : ∀ {k}, s.cpp.loadPublicKey s.rsaPublickeyHex = some k →
    Rsa.Oaep s.cpp k s.rsakey.parameters (s.rsakey.keysize / 8).toNat

namespace Tunnel

-- The exchange packets of the local open with the key of the server.
def Wraps (l : Local.Config) (s : Server.Config) (cipher : Data) : Prop :=
  cipher.length < 65536 ∧
    Server.Opens s l.authKey (Local.pack .exchange cipher.length cipher)

-- What holds in every state of a tunnel.
structure Inv (l : Local.Config) (s : Server.Config) (p : Tunnel) : Prop where
  atLocal : Local.Reachable l p.atLocal
  atServer : Server.Reachable s p.atServer
  localUnread : p.atLocal.Unread p.down
  localReceives : p.atLocal.Receives l p.down
  localSends : p.atLocal.Sends l (Wraps l s) p.up
  serverUnread : p.atServer.Unread p.up
  serverReceives : p.atServer.Receives s p.up
  serverSends : p.atServer.Sends s l.authKey p.down
  learnt : p.atLocal.Learnt l p.down
  prompted : p.atServer.Prompted (p.atLocal.status = .data)

section Handshake

variable {l : Local.Config} {s : Server.Config} {p q : Tunnel} {f : Packet}

-- What the local makes of the hello packet of the server.
theorem elicits (h : Honest l s) {ch : Local.Choice} (hr : ch.randomStr.length = 10) :
    Local.Elicits l ch (Wraps l s) (Server.packHello s) := by
  intro v lss keysize publicKey rsa cipher hs hu hk he
  rw [hello_round_trip h.hello hs] at hu
  cases hu
  rw [h.cpp] at hk he
  have ⟨k, hload, hrsa⟩ := Option.map_eq_some_iff.mp hk
  have ho := h.oaep hload
  rw [h.keysize] at ho
  have hlen : (l.authKey.val ++ ch.randomStr).length = 42 := by
    rw [List.length_append, l.authKey.property, hr]
  have hlt : cipher.length < 65536 := by
    subst hrsa
    exact Rsa.length_encrypt_lt ho he (by simpa using s.rsaKeysize.toNat_lt) hlen.le
  refine ⟨hlt, ch.randomStr, by omega, ?_⟩
  intro lss plain hs hd
  have hp := hs.payload (Local.pack_framed rfl hlt)
  rw [Server.Session.Decrypts, hp, Local.data_pack] at hd
  by_cases h₀ : s.rsaKeysize.toUInt64 / 8 = 0
  case pos => simp [Rsa.decrypt, Rsa.ofRsaKey, h.keysize, h₀] at hd
  case neg =>
    have hi : Rsa.Inverts s.cpp s.rsakey s.rsaKeysize.toUInt64 s.rsaPublickeyHex :=
      Rsa.inverts_of_oaep h.keysize.symm h₀ fun hload => h.keysize ▸ h.oaep hload
    exact Except.ok.inj (hd.symm.trans (hi hk he))

namespace Inv

theorem up_framed (i : Inv l s p) : ∀ f ∈ p.up.sent, f.Framed := by
  intro f hf
  have ⟨_, hr⟩ := i.localSends.requests f hf
  exact hr.framed And.left

theorem down_framed (i : Inv l s p) (h : Honest l s) : ∀ f ∈ p.down.sent, f.Framed := by
  intro f hf
  have ⟨_, hr⟩ := i.serverSends.replies f hf
  exact hr.framed h.hello

theorem up_exchange (i : Inv l s p) :
    ∀ f ∈ p.up.sent, RequestType.ofByte f.type = .exchange → Server.Opens s l.authKey f := by
  intro f hf ht
  have ⟨_, hr⟩ := i.localSends.requests f hf
  have ⟨_, hc, he⟩ := hr.exists_cipher ht
  exact he ▸ hc.2

theorem down_hello (i : Inv l s p) (h : Honest l s) {ch : Local.Choice}
    (hr : ch.randomStr.length = 10) :
    ∀ f ∈ p.down.sent, ReplyType.ofByte f.type = .hello → Local.Elicits l ch (Wraps l s) f := by
  intro f hf ht
  have ⟨_, hr'⟩ := i.serverSends.replies f hf
  exact hr'.eq_hello ht ▸ elicits h hr

-- Only a local that has completed the handshake sends data.
theorem up_data (i : Inv l s p) : ∀ f ∈ p.up.sent, IsData f → p.atLocal.status = .data := by
  intro f hf hd
  have ⟨_, hr⟩ := i.localSends.requests f hf
  cases hr.isData_iff.mp hd
  cases hr with | data _ he => ?_
  by_contra hs
  simp [Local.Session.cipher_of_not_data hs] at he

-- A server that has sent data has been sent some.
theorem down_data (i : Inv l s p) : ∀ f ∈ p.down.sent, IsData f → p.atLocal.status = .data := by
  intro f hf hd
  apply i.prompted.replies
  have hm : f ∈ p.atServer.dataReplies :=
    i.serverSends.inOrder.inOrder.subset (mem_dataFrames.mpr ⟨hf, hd⟩)
  exact List.ne_nil_of_mem hm

-- Once the local has completed the handshake, both sides have the same key.
theorem agree (i : Inv l s p) (h : Honest l s) (hs : p.atLocal.status = .data) :
    ∃ key, p.atLocal.dataKey = some key ∧
      p.atServer.aesEncryptor = some (Aes.raw256 s.cpp key) ∧
      (p.atServer.status = .data ∨
        ∃ f, ⟨.leftWrite f .exchangeHandler, some .done⟩ ∈ p.atServer.io) := by
  have ⟨f, hf, ht, key, lss, hl, hk, he⟩ := i.learnt hs
  refine ⟨key, hk, ?_, i.serverSends.accepted ⟨f, hf, ht⟩⟩
  have ⟨_, hr⟩ := i.serverSends.replies f hf
  have hp := hl.payload (i.down_framed h f hf)
  cases hr.isExchange_iff.mp ht
  cases hr with | @exchange key' _ _ ha => ?_
  rw [Local.Session.exchangePlain, hp, Server.data_pack, h.cpp, Aes.decrypt_encrypt,
    List.take_left' key'.property] at he
  rw [ha, Subtype.ext he]

-- The server looks at no data before it has completed the handshake.
theorem server_data (i : Inv l s p) {op : Server.Op} {o : Server.Outcome}
    {a b : List (Outstanding Server.Op Server.Outcome)}
    (h : Honest l s) (hio : p.atServer.io = a ++ ⟨op, some o⟩ :: b) (hop : op.looks) :
    ∀ f ∈ p.up.sent, IsData f → p.atServer.status = .data := by
  intro f hf hd
  have ⟨_, _, _, ha⟩ := i.agree h (i.up_data f hf hd)
  refine ha.resolve_right ?_
  intro ⟨g, hg⟩
  have hi := (Server.Session.inv_reachable i.atServer).reading
  have hz := Outstanding.alone hi hio (Server.Session.inReading_of_looks hop)
  have hne : (⟨.leftWrite g .exchangeHandler, some .done⟩ :
      Outstanding Server.Op Server.Outcome) ≠ ⟨op, some o⟩ := by
    intro he
    cases he
    cases hop
  have hm : ⟨.leftWrite g .exchangeHandler, some .done⟩ ∈ a ++ b := by
    simp only [hio, List.mem_append, List.mem_cons, hne, false_or] at hg
    exact List.mem_append.mpr hg
  cases hz _ hm

theorem step {lb : Label} (i : Inv l s p) (h : Honest l s) (e : Step l s p lb q) : Inv l s q := by
  cases e
  case atLocal e hr ht =>
    exact {
      atLocal := i.atLocal.step e
      atServer := i.atServer
      localUnread := Local.Session.unread_step i.atLocal e i.localUnread ht
      localReceives := Local.Session.receives_step i.atLocal e i.localUnread i.localReceives ht
        (i.down_framed h) fun _ _ => i.down_data
      localSends := Local.Session.sends_step i.atLocal e i.localSends i.localReceives
        (i.down_framed h) (by
          rintro op o ch rfl
          exact i.down_hello h hr)
      serverUnread := i.serverUnread
      serverReceives := i.serverReceives.send _
      serverSends := i.serverSends.of_sent (Local.Label.takes_sent ht)
      learnt := Local.Session.learnt_step i.atLocal e i.learnt i.localReceives ht (i.down_framed h)
      prompted := i.prompted.mono (Local.Session.data_step i.atLocal e) }
  case atServer e ht =>
    exact {
      atLocal := i.atLocal
      atServer := i.atServer.step e
      localUnread := i.localUnread
      localReceives := i.localReceives.send _
      localSends := i.localSends.of_sent (Server.Label.takes_sent ht)
      serverUnread := Server.Session.unread_step i.atServer e i.serverUnread ht
      serverReceives := Server.Session.receives_step i.atServer e i.serverUnread i.serverReceives ht
        i.up_framed (by
          rintro op o ch rfl
          cases e with | deliver hio => ?_
          exact i.server_data h hio)
      serverSends := Server.Session.sends_step i.atServer e i.serverSends i.serverReceives
        i.up_framed i.up_exchange
      learnt := i.learnt.send _
      prompted := Server.Session.prompted_step i.atServer e i.prompted i.serverReceives
        i.up_framed i.up_data }

-- What is packed with an encryptor is decrypted with it.
theorem decrypt_dataRequest (h : Honest l s) (a : Aes) (d : Data) :
    a.decrypt s.cpp (Local.dataRequest l a d).data = d := by
  rw [Local.dataRequest, Local.data_pack, h.cpp, Aes.decrypt_encrypt]

theorem decrypt_dataReply (h : Honest l s) (a : Aes) (d : Data) :
    a.decrypt l.cpp (Server.dataReply s a d).data = d := by
  rw [Server.dataReply, Server.data_pack, h.cpp, Aes.decrypt_encrypt]

-- The encryptors of both sides are made from the same key.
theorem cipher_eq (i : Inv l s p) (h : Honest l s) {a : Aes} (ha : p.atLocal.cipher l = some a) :
    p.atServer.aesEncryptor = some a := by
  have hs : p.atLocal.status = .data := by
    by_contra hs
    simp [Local.Session.cipher_of_not_data hs] at ha
  have ⟨key, hk, he, _⟩ := i.agree h hs
  rw [Local.Session.cipher_of_data hs, (Local.Session.inv_reachable i.atLocal).getAes, hk,
    h.cpp] at ha
  exact he.trans ha

theorem up_isPrefix (i : Inv l s p) (h : Honest l s) {a : Aes}
    (ha : p.atServer.aesEncryptor = some a) :
    dataFrames p.up.sent <+: p.atLocal.packed.map (Local.dataRequest l a) := by
  have hw := i.localSends.inOrder.inOrder
  have hk := Local.Session.sealed_reachable i.atLocal
  by_cases hs : p.atLocal.status = .data
  case neg =>
    have ⟨_, hr⟩ := hk.unkeyed hs
    rw [hr, List.prefix_nil] at hw
    simp [hw]
  case pos =>
    have ⟨key, hd, he, _⟩ := i.agree h hs
    have hg : p.atLocal.getAes l = some a := by
      rw [(Local.Session.inv_reachable i.atLocal).getAes, hd, h.cpp]
      exact he.symm.trans ha
    exact hk.keyed a hg ▸ hw

theorem down_isPrefix (i : Inv l s p) (h : Honest l s) {a : Aes}
    (ha : p.atLocal.cipher l = some a) :
    dataFrames p.down.sent <+: p.atServer.packed.map (Server.dataReply s a) :=
  (Server.Session.sealed_reachable i.atServer).keyed a (i.cipher_eq h ha) ▸
    i.serverSends.inOrder.inOrder

-- What has been read has been sent.
theorem done_isPrefix {c : Wire} {fs gs : List Packet} (h : c.done = fs ++ gs) :
    dataFrames fs <+: dataFrames c.sent :=
  dataFrames_prefix ((List.prefix_append fs (gs ++ c.queue)).trans (by simp [Channel.sent, h]))

theorem server_transfers (i : Inv l s p) (h : Honest l s) :
    Transfers p.atLocal.packed p.atServer.unpacked p.up
      (∃ x ∈ p.atServer.io, Server.reader.InHand x) := by
  have take {fs gs : List Packet} (hd : p.up.done = fs ++ gs)
      (ha : Server.Session.Noted s p.atServer fs) :
      p.atServer.unpacked = p.atLocal.packed.take (dataFrames fs).length :=
    ha.eq_take (decrypt_dataRequest h) fun _ hk => (done_isPrefix hd).trans (i.up_isPrefix h hk)
  apply i.serverReceives.settled.imp
  case f => exact take (List.append_nil _).symm
  case g =>
    intro ⟨hx, fs, f, hd, ha⟩
    exact ⟨hx, fs, f, hd, take hd ha⟩

theorem local_transfers (i : Inv l s p) (h : Honest l s) :
    Transfers p.atServer.packed p.atLocal.unpacked p.down
      (∃ x ∈ p.atLocal.io, Local.reader.InHand x) := by
  have take {fs gs : List Packet} (hd : p.down.done = fs ++ gs)
      (ha : Local.Session.Noted l p.atLocal fs) :
      p.atLocal.unpacked = p.atServer.packed.take (dataFrames fs).length :=
    ha.eq_take (decrypt_dataReply h) fun _ hk => (done_isPrefix hd).trans (i.down_isPrefix h hk)
  apply i.localReceives.settled.imp
  case f => exact take (List.append_nil _).symm
  case g =>
    intro ⟨hx, fs, f, hd, ha⟩
    exact ⟨hx, fs, f, hd, take hd ha⟩

end Inv

theorem inv_initial (h : p.Initial) : Inv l s p := by
  have hl := h.atLocal
  have hu := h.up
  have hd := h.down
  cases p with | mk atLocal atServer up down => ?_
  subst hl hu hd
  have ⟨hr, hn⟩ : Server.Session.Receives s _ _ ∧ _ := Server.Session.receives_initial h.atServer
  have ⟨hr', hn'⟩ : Local.Session.Receives l _ _ ∧ _ := Local.Session.receives_initial
  exact {
    atLocal := .init rfl
    atServer := .init h.atServer
    localUnread := hn'
    localReceives := hr'
    localSends := Local.Session.sends_initial
    serverUnread := hn
    serverReceives := hr
    serverSends := Server.Session.sends_initial h.atServer
    learnt := nofun
    prompted := Server.Session.prompted_initial h.atServer }

theorem inv_reachable (h : Honest l s) (r : Reachable l s p) : Inv l s p := by
  induction r
  case init hi     => exact inv_initial hi
  case step e hi   => exact hi.step h e

end Handshake

section Agreement

variable {l : Local.Config} {s : Server.Config} {p : Tunnel}

-- A local that has completed the handshake has the key that the server has, which has accepted the
-- exchange; and the two sides get from each other what they have packed, in the order in which they
-- have packed it.
theorem handshake_agreement (h : Honest l s) (r : Reachable l s p) :
    (p.atLocal.status = .data → ∃ key, p.atLocal.dataKey = some key ∧
      p.atServer.aesEncryptor = some (Aes.raw256 s.cpp key) ∧
      (p.atServer.status = .data ∨
        ∃ f, ⟨.leftWrite f .exchangeHandler, some .done⟩ ∈ p.atServer.io)) ∧
    Transfers p.atLocal.packed p.atServer.unpacked p.up
      (∃ x ∈ p.atServer.io, Server.reader.InHand x) ∧
    Transfers p.atServer.packed p.atLocal.unpacked p.down
      (∃ x ∈ p.atLocal.io, Local.reader.InHand x) := by
  have i := inv_reachable h r
  exact ⟨i.agree h, i.server_transfers h, i.local_transfers h⟩

theorem sample_honest : Honest Local.sampleConfig Server.sampleConfig where
  cpp := rfl
  authKey := ⟨_, List.mem_singleton_self _, rfl⟩
  keysize := rfl
  hello := by decide
  oaep := fun _ => transparent_oaep

-- The two sides have agreed upon a key, and the server has got what the client has sent.
theorem handshake_agreement_sample : ∃ p : Tunnel, p.atLocal.status = .data ∧
    p.atServer.unpacked = [[5, 1, 0, 1, 127, 0, 0, 1, 0, 80]] ∧
    (p.atLocal.status = .data → ∃ key, p.atLocal.dataKey = some key ∧
      p.atServer.aesEncryptor = some (Aes.raw256 Server.sampleConfig.cpp key) ∧
      (p.atServer.status = .data ∨
        ∃ f, ⟨.leftWrite f .exchangeHandler, some .done⟩ ∈ p.atServer.io)) ∧
    Transfers p.atLocal.packed p.atServer.unpacked p.up
      (∃ x ∈ p.atServer.io, Server.reader.InHand x) ∧
    Transfers p.atServer.packed p.atLocal.unpacked p.down
      (∃ x ∈ p.atLocal.io, Local.reader.InHand x) := by
  have ⟨p, r, hp⟩ := exists_sampleRun (handshake ++ request)
    (fun p => p.atLocal.status = .data ∧
      p.atServer.unpacked = [[5, 1, 0, 1, 127, 0, 0, 1, 0, 80]]) (by decide +kernel)
  have ⟨hs, hu⟩ := of_decide_eq_true hp
  exact ⟨p, hs, hu, handshake_agreement sample_honest r⟩

end Agreement

end Tunnel
end Lproxy
