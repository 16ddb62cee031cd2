import Lproxy.Agreement
import Lproxy.Codec
import Lproxy.Crypto.Cover
import Lproxy.Crypto.Keysize
import Lproxy.Duplex
import Lproxy.Local.Handshake
import Lproxy.Server.Handshake

-- The handshake between a local and a server that nothing disturbs.
namespace Lproxy

open Crypto

-- Configurations with which a handshake can succeed: the local can load the key of the server, and
-- encrypt blocks of the size that it takes for this key.
structure Capable (l : Local.Config) (s : Server.Config) : Prop extends Honest l s where
  keysize_gt : 42 < s.rsaKeysize.toNat / 8
  encrypts : ∃ k, s.cpp.loadPublicKey s.rsaPublickeyHex = some k ∧
    ∀ rng block, block.length ≤ s.rsaKeysize.toNat / 8 - 42 → (s.cpp.oaepEncrypt k rng block).isSome

namespace Tunnel

open Duplex (ticks)
open Transition

-- The packet carries the authentication key and a random string.
structure Asks (l : Local.Config) (s : Server.Config) (f : Packet) (randomStr : Data) : Prop where
  type : RequestType.ofByte f.type = .exchange
  framed : f.Framed
  plain : (Rsa.ofRsaKey s.rsakey).decrypt s.cpp f.data = .ok (l.authKey.val ++ randomStr)
  length : randomStr.length = 10

-- The packet carries a key and the random string.
structure Answers (l : Local.Config) (randomStr : Data) (f : Packet) : Prop where
  type : ReplyType.ofByte f.type = .exchange
  framed : f.Framed
  plain : ∃ key : Key, (Aes.raw256 l.cpp l.authKey).decrypt l.cpp f.data = key.val ++ randomStr

-- The packet answers the one that the local has sent.
def Replies (l : Local.Config) (s : Server.Config) (sent : List Packet) (f : Packet) : Prop :=
  ∃ g randomStr, sent[1]? = some g ∧ Asks l s g randomStr ∧ Answers l randomStr f

theorem Replies.append {l : Local.Config} {s : Server.Config} {sent : List Packet} {f : Packet}
    (h : Replies l s sent f) (fs : List Packet) : Replies l s (sent ++ fs) f := by
  have ⟨g, r, hg, ha, hr⟩ := h
  have hlt := (List.getElem?_eq_some_iff.mp hg).1
  exact ⟨g, r, (List.getElem?_append_left hlt).trans hg, ha, hr⟩

section Packets

variable {l : Local.Config} {s : Server.Config} {f : Packet} {r : Data}
  {sent : List Packet}

theorem maxBlockSize_rsaKeysize (h : Capable l s) (k : Data) :
    (Rsa.maxBlockSize ⟨k, [], s.rsaKeysize.toUInt64, false⟩).toNat =
      s.rsaKeysize.toNat / 8 - 42 := by
  have hk : 42 < (⟨k, [], s.rsaKeysize.toUInt64, false⟩ : Rsa).keysize.toNat / 8 := by
    simpa using h.keysize_gt
  simpa using Rsa.maxBlockSize_toNat hk

-- The local answers the hello packet of the server.
theorem invites (h : Capable l s) : Local.Invites l (Asks l s) (Server.packHello s) := by
  refine ⟨by simp [Server.packHello, Server.pack], ?_⟩
  intro v ch lss hr hs
  obtain ⟨k, hload, henc⟩ := h.encrypts
  have hm := maxBlockSize_rsaKeysize h k
  have hgt := h.keysize_gt
  have ho := h.oaep hload
  have hof : Rsa.ofPublicKey s.cpp s.rsaKeysize.toUInt64 s.rsaPublickeyHex =
      some ⟨k, [], s.rsaKeysize.toUInt64, false⟩ := by
    rw [Rsa.ofPublicKey, hload, Option.map_some]
  obtain ⟨cipher, hc⟩ : ∃ cipher, Rsa.encrypt s.cpp ⟨k, [], s.rsaKeysize.toUInt64, false⟩ ch.rng
      (l.authKey.val ++ ch.randomStr) = .ok cipher :=
    Rsa.encrypt_of_blocks (by omega) fun i block hb => henc (ch.rng + i) block (hm ▸ hb)
  have hp : v.packExchange l ch s.rsaKeysize s.rsaPublickeyHex =
      ({ v with randomStr := ch.randomStr }, .ok (Local.pack .exchange cipher.length cipher)) := by
    simp only [Local.Session.packExchange, h.cpp, hof, hc]
  have hlen : (l.authKey.val ++ ch.randomStr).length = 42 := by
    rw [List.length_append, l.authKey.property, hr]
  have hlt : cipher.length < 65536 :=
    Rsa.length_encrypt_lt (h.keysize ▸ ho) hc (by simpa using s.rsaKeysize.toNat_lt) hlen.le
  have h₀ : s.rsaKeysize.toUInt64 / 8 ≠ 0 := by
    intro h₀
    have := congrArg UInt64.toNat h₀
    simp at this
    omega
  have hi : Rsa.Inverts s.cpp s.rsakey s.rsaKeysize.toUInt64 s.rsaPublickeyHex :=
    Rsa.inverts_of_oaep h.keysize.symm h₀ fun hload => h.keysize ▸ h.oaep hload
  refine ⟨_, _, _, hello_round_trip h.hello hs, hp, ?_, Local.pack_framed rfl hlt, hi hof hc, hr⟩
  simp [Local.pack]

theorem returns (h : Answers l r f) : Local.Returns l r f := by
  refine ⟨h.type, ?_⟩
  intro v lss hs
  have ⟨key, hk⟩ := h.plain
  have ht : (key.val ++ r).take 32 = key.val := List.take_left' key.property
  have hd : (key.val ++ r).drop 32 = r := List.drop_left' key.property
  refine ⟨key, ?_⟩
  simp only [Local.Session.unpackReplyExchange, hs.payload h.framed, hk, ht, hd,
    key.property, dif_pos]

theorem greets : Server.Greets Local.packHello :=
  ⟨by simp [Local.packHello, Local.pack], rfl⟩

-- The server answers the exchange packet of the local.
theorem admits (h : Honest l s) (ha : Asks l s f r) (hf : sent[1]? = some f) :
    Server.Admits s (Replies l s sent) f := by
  refine ⟨ha.type, ?_⟩
  intro v ch lss hs
  have ⟨k, hm, hk⟩ := h.authKey
  have hnul : 0 ∉ l.authKey.val := hk ▸ k.property
  have hlen : (l.authKey.val ++ r).length = 42 := by
    rw [List.length_append, l.authKey.property, ha.length]
  have hd : Server.Session.Decrypts s lss (l.authKey.val ++ r) := by
    rw [Server.Session.Decrypts, hs.payload ha.framed]
    exact ha.plain
  have hu := Server.Session.unpackRequestExchange_eq (s := v) hd (by omega)
  rw [List.take_left' l.authKey.property, List.drop_left' l.authKey.property] at hu
  refine ⟨_, _, _, _, hu, List.mem_map.mpr ⟨k, hm, hk⟩,
    fun w => Server.Session.packExchange_key l.authKey hnul r, f, r, hf, ha, ?_, ?_, ch.dataKey, ?_⟩
  · simp [Server.pack]
  · refine Server.pack_framed ?_
    simp [ch.dataKey.property, ha.length]
  · rw [Server.data_pack, h.cpp, Aes.decrypt_encrypt]

end Packets

section Shakes

variable {l : Local.Config} {s : Server.Config} {p q : Tunnel} {lb : Label} {k : Nat}

-- Nothing fails, and the client has not sent its greeting yet.
def Smooth (_ : Tunnel) : Label → Prop
  | .atLocal lb  => lb.Smooth
  | .atServer lb => lb.Smooth

-- A session can do something besides waiting.
def Advances (l : Local.Config) (s : Server.Config) (p : Tunnel) : Prop :=
  ∃ lb q, Guarded (Step l s) Smooth p lb q ∧ ticks lb = false

-- The two sessions have come to share a key. The local waits for its client, and the server for the
-- request.
structure Opened (s : Server.Config) (p : Tunnel) : Prop where
  key : ∃ key, p.atLocal.dataKey = some key ∧
    p.atServer.aesEncryptor = some (Aes.raw256 s.cpp key)
  status : p.atLocal.status = .data ∧ p.atServer.status = .data
  opening : p.atServer.socks5State = .opening
  atLocal : p.atLocal.io = [⟨.leftRead .leftReadSocks5Step1, none⟩]
  atServer : p.atServer.io = [⟨.leftRead (.receiving lengthHandshake) 0, none⟩]
  up : p.up.queue = []
  down : p.down.queue = []

-- Where the handshake is. `k` bounds the number of steps that are left.
structure Shakes (l : Local.Config) (s : Server.Config) (k : Nat) (p : Tunnel) : Prop where
  inv : Inv l s p
  sides : ∃ m n, p.atLocal.Shakes (Asks l s) p.down p.up.sent m ∧
    p.atServer.Shakes s (Replies l s p.up.sent) p.up p.down.sent n ∧ m + n = k

namespace Shakes

theorem initial (h : p.Initial) : Shakes l s 30 p := by
  refine ⟨inv_initial h, 17, 13, ?_, ?_, rfl⟩
  · rw [h.atLocal, h.up, h.down]
    exact ⟨.idle rfl ⟨rfl, rfl⟩,
      by simp [Local.Session.Healthy, Trace.Avoids, Local.Session.initial]⟩
  · rw [h.up, h.down]
    exact ⟨.idle h.atServer ⟨rfl, rfl⟩, h.atServer.socks5State,
      by simp [Server.Session.Healthy, Trace.Avoids, h.atServer.log]⟩

theorem step (x : Shakes l s k p) (h : Capable l s) (e : Step l s p lb q) (hs : Smooth p lb) :
    ∃ k', Shakes l s k' q ∧ (k' < k ∨ ticks lb ∧ k' ≤ k) := by
  have i := x.inv
  obtain ⟨m, n, atLocal, atServer, hk⟩ := x.sides
  have j := i.step h.toHonest e
  -- The reply returns the random string that the local has sent.
  have hx : ∀ f, p.down.sent[1]? = some f → Local.Returns l p.atLocal.randomStr f := by
    intro f hf
    have ⟨g, r, hg, ha, hr⟩ := atServer.handshake.exchange hf
    have ha' := atLocal.handshake.exchange hg
    have he := List.append_cancel_left (Except.ok.inj (ha.plain.symm.trans ha'.plain))
    exact he ▸ returns hr
  cases e
  case atLocal lb t down e hr ht   =>
    have hr : ∀ op o ch, lb = .deliver op o ch → ch.randomStr.length = 10 := by
      rintro op o ch rfl
      exact hr
    have hh : ∀ f, p.down.sent[0]? = some f → Local.Invites l (Asks l s) f := by
      intro f hf
      exact atServer.handshake.hello hf ▸ invites h
    have ⟨m', hlt, y⟩ := atLocal.step (Local.Session.inv_reachable i.atLocal) e hs ht
      (i.down_framed h.toHonest) hr hh hx
    have z : p.atServer.Shakes s (Replies l s (p.up.sent ++ lb.sent.toList)) (p.up.send lb.sent)
        p.down.sent n :=
      ⟨(atServer.handshake.send lb.sent).mono fun _ hr => hr.append _, atServer.opening,
        atServer.healthy⟩
    refine ⟨m' + n, ⟨j, m', n, ?_, ?_, rfl⟩, .inl (by omega)⟩
    · rwa [Channel.sent_send]
    · rwa [Channel.sent_send, Local.Label.takes_sent ht]
  case atServer lb t up e ht       =>
    have y : p.atLocal.Shakes (Asks l s) (p.down.send lb.sent) p.up.sent m :=
      ⟨atLocal.handshake.send lb.sent, atLocal.healthy⟩
    by_cases hn : ∀ d, lb ≠ .tick d
    case pos =>
      have hh : ∀ f, p.up.sent[0]? = some f → Server.Greets f := by
        intro f hf
        exact atLocal.handshake.hello hf ▸ greets
      have hx : ∀ f, p.up.sent[1]? = some f → Server.Admits s (Replies l s p.up.sent) f := by
        intro f hf
        exact admits h.toHonest (atLocal.handshake.exchange hf) hf
      have ⟨n', hlt, z⟩ := atServer.step (Server.Session.inv_reachable i.atServer) e hs hn ht
        i.up_framed atLocal.handshake.length_le hh hx
      refine ⟨m + n', ⟨j, m, n', ?_, ?_, rfl⟩, .inl (by omega)⟩
      · rwa [Server.Label.takes_sent ht]
      · rwa [Channel.sent_send, Server.Label.takes_sent ht]
    case neg =>
      have ⟨d, hd⟩ := not_forall_not.mp hn
      subst hd
      cases e
      cases ht
      refine ⟨k, ⟨j, m, n, y, ?_, hk⟩, .inr ⟨rfl, le_rfl⟩⟩
      rw [Channel.sent_send]
      exact (List.append_nil p.down.sent).symm ▸ atServer.tick

-- If no session can do anything, neither waits for the other.
theorem opened (x : Shakes l s k p) (h : Honest l s) (hm : ¬p.Advances l s) : p.Opened s := by
  obtain ⟨m, n, atLocal, atServer, _⟩ := x.sides
  have hup := congrArg List.length (show p.up.sent = p.up.done ++ p.up.queue from rfl)
  have hdown := congrArg List.length (show p.down.sent = p.down.done ++ p.down.queue from rfl)
  have hle := atLocal.handshake.length_le
  rw [List.length_append] at hup hdown
  rcases atLocal.handshake.progress l with hl | ⟨lb, t, c, e, hs, ht, hr⟩
  case inr =>
    have hg : lb.Generates := by
      cases lb
      case deliver => exact hr _ _ _ rfl
      all_goals trivial
    exact absurd ⟨.atLocal lb, _, ⟨.atLocal e hg ht, hs⟩, rfl⟩ hm
  case inl =>
    rcases atServer.handshake.progress with hr | ⟨lb, t, c, e, hs, ht, hn⟩
    case inr =>
      have hq : ticks (.atServer lb) = false := by
        cases lb
        case tick d => exact absurd rfl (hn d)
        all_goals rfl
      exact absurd ⟨.atServer lb, _, ⟨.atServer e ht, hs⟩, hq⟩ hm
    case inl =>
      cases hl <;> cases hr
      case waiting.waiting hq hl hq' hr _ =>
        simp only [hq, hq', List.length_nil] at hup hdown
        omega
      case waiting.opened hq hl _ _ hd hr =>
        simp only [hq, List.length_nil] at hdown
        omega
      case opened.waiting hd _ _ _ hlt    => omega
      case opened.opened hs io hd hl hs' io' hd' hr =>
        have ⟨key, hk, ha, _⟩ := x.inv.agree h hs
        exact ⟨⟨key, hk, ha⟩, ⟨hs, hs'⟩, atServer.opening, io, io',
          List.eq_nil_of_length_eq_zero (by omega), List.eq_nil_of_length_eq_zero (by omega)⟩

-- From any state the handshake can be completed.
theorem exists_opened (x : Shakes l s k p) (h : Capable l s) :
    ∃ q, Transition.Reachable (· = p) (Guarded (Step l s) Smooth) q ∧ q.Opened s := by
  have ⟨_, q, r, y, hm⟩ := Transition.Reachable.exists_quiet (Shakes l s) id ticks
    (fun x (e : Guarded (Step l s) Smooth _ _ _) => x.step h e.step e.cond) x
  exact ⟨q, r, y.opened h.toHonest hm⟩

end Shakes

-- A handshake that nothing disturbs does not fail, and is over after at most thirty steps. When no
-- session can do anything but wait, as it comes to in any case, both of them have the same key and
-- are ready for the request.
theorem handshake_completes (h : Capable l s) (hi : p.Initial) {tr : List (Tunnel × Label)}
    (r : Run (Guarded (Step l s) Smooth) p tr q) :
    (q.atLocal.Healthy ∧ q.atServer.Healthy) ∧ (tr.countP fun e => !ticks e.2) ≤ 30 ∧
      (¬q.Advances l s → q.Opened s) ∧
      ∃ x, Transition.Reachable (· = q) (Guarded (Step l s) Smooth) x ∧ x.Opened s := by
  have ⟨k, x, hle⟩ := r.countP_le (Shakes l s) id ticks (fun x e => x.step h e.step e.cond)
    (Shakes.initial hi)
  obtain ⟨_, _, atLocal, atServer, _⟩ := x.sides
  exact ⟨⟨atLocal.healthy, atServer.healthy⟩, (Nat.le_add_right ..).trans hle,
    x.opened h.toHonest, x.exists_opened h⟩

theorem sample_capable : Capable Local.sampleConfig Server.sampleConfig :=
  { sample_honest with
    keysize_gt := by decide
    encrypts := by
      refine ⟨_, rfl, fun rng block hl => ?_⟩
      have hl : block.length ≤ 22 := hl
      have hlt : block.length < 64 := by omega
      simp [Server.sampleConfig, transparent, hlt] }

theorem handshake_completes_sample : ∃ (q : Tunnel) (tr : List (Tunnel × Label)),
    Run (Guarded (Step Local.sampleConfig Server.sampleConfig) Smooth) new tr q ∧
      (tr.countP fun e => !ticks e.2) ≤ 30 ∧ q.Opened Server.sampleConfig := by
  have ⟨_, _, _, q, hq, ho⟩ := handshake_completes sample_capable new_initial .nil
  have ⟨p, tr, hp, r⟩ := hq.exists_run
  subst hp
  exact ⟨q, tr, r, (handshake_completes sample_capable new_initial r).2.1, ho⟩

end Shakes
end Tunnel
end Lproxy
