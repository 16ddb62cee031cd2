import Lproxy.Server.Step

-- What the handlers of a session can do. Each inductive proposition below lists the ways in which
-- a part of the handlers ends, so that a property of the handlers is proved by cases on it, and no
-- proof has to take a handler apart again.
namespace Lproxy.Server

namespace Session

variable {cfg : Config} {ch : Choice} {s t : Session}

-- A session that has read a request and noted its command, and perhaps the code of its reply.
@[simps!]
def requested (rq : Socks5.Req) (name : Data) (cmd : Cmd) (reply : Byte) (s : Session) : Session :=
  { s.note (.socks5RequestProcessing rq) with
    socks5State := .connecting
    socks5Cmd := cmd
    destName := name
    destPort := rq.destPort
    socks5RespReply := reply }

-- A session that has sent a reply other than 0x00.
@[simps!]
def refuse (data : Data) (lss : Packet) (s : Session) : Session :=
  ((s.note (.socks5Resp s.socks5RespReply)).note (.packed data)).start
    (.leftWrite lss .leftWriteHandler)

-- A session that has sent the reply 0x00.
@[simps!]
def accept (data : Data) (lss : Packet) (s : Session) : Session :=
  (({ s.note (.socks5Resp s.socks5RespReply) with socks5State := .connected }.note
    (.packed data)).start (.leftWrite lss .leftWriteHandler)).start
      (.leftRead (.receiving maxLength) 0)

-- What `pack_data` makes of `data`.
def Packs (cfg : Config) (s : Session) (data : Data) (lss : Packet) : Prop :=
  ∃ aes, s.aesEncryptor = some aes ∧
    lss = pack (if cfg.zipOn then .zipdata else .data) (aes.encrypt cfg.cpp data)

-- What `unpack_data` makes of `lss`.
def Unpacks (cfg : Config) (s : Session) (lss : Packet) (plain : Data) : Prop :=
  ∃ aes, s.aesEncryptor = some aes ∧
    plain = aes.decrypt cfg.cpp (lss.data.take lss.dataLen.toNat)

theorem Packs.isData {data : Data} {lss : Packet} (h : Packs cfg s data lss) : IsData lss := by
  have ⟨aes, _, hs⟩ := h
  subst hs
  cases cfg.zipOn <;> simp [IsData, pack]

theorem packData_cases (cfg : Config) (ha : s.aesEncryptor.isSome) (data : Data) :
    ∃ lss, Packs cfg s data lss ∧ s.packData cfg data = (s.note (.packed data), lss) := by
  have ⟨aes, ha⟩ := Option.isSome_iff_exists.mp ha
  exact ⟨_, ⟨aes, ha, rfl⟩, by simp [packData, ha]⟩

inductive RespToLocal (cfg : Config) (s : Session) : Session × Option Exn → Prop
  | threw {e : Exn} (he : ∀ less, e ≠ .incompleteData less) : RespToLocal cfg s (s, some e)
  | refused {data : Data} {lss : Packet} (hl : data.length ≤ maxLength)
    (hr : s.socks5RespReply ≠ 0x00) (hp : Packs cfg s data lss) :
    RespToLocal cfg s (s.refuse data lss, none)
  | accepted {data : Data} {lss : Packet} (hl : data.length ≤ maxLength)
    (hr : s.socks5RespReply = 0x00) (hp : Packs cfg s data lss) :
    RespToLocal cfg s (s.accept data lss, none)

theorem packSocks5Resp_error {e : Exn} (h : s.packSocks5Resp cfg = .error e) (less : Int) :
    e ≠ .incompleteData less := by
  unfold packSocks5Resp at h
  split at h
  case h_1 => cases h; simp
  case h_2 =>
    simp only [Except.mapError] at h
    split at h <;> cases h
    simp

theorem packSocks5Resp_length {data : Data} (h : s.packSocks5Resp cfg = .ok data) :
    data.length ≤ maxLength := by
  unfold packSocks5Resp at h
  split at h
  case h_1 => cases h
  case h_2 =>
    simp only [Socks5.Resp.pack, Socks5.Resp.setIPv4, Socks5.Resp.setBindPort] at h
    split at h
    case isTrue  => cases h
    case isFalse =>
      cases h
      simp [maxLength]

-- A reply that can be packed is sent.
theorem socks5RespToLocal_eq (ha : s.aesEncryptor.isSome) {data : Data}
    (hd : s.packSocks5Resp cfg = .ok data) : ∃ lss, Packs cfg s data lss ∧
      s.socks5RespToLocal cfg =
        (if s.socks5RespReply = 0x00 then s.accept data lss else s.refuse data lss, none) := by
  unfold socks5RespToLocal
  rw [hd]
  by_cases hr : s.socks5RespReply = 0x00
  case pos =>
    have ⟨lss, hp, he⟩ := packData_cases cfg
      (s := { s.note (.socks5Resp s.socks5RespReply) with socks5State := .connected }) ha data
    have hn : (s.note (.socks5Resp s.socks5RespReply)).socks5RespReply = 0x00 := hr
    simp only [if_pos hn, he]
    rw [if_pos (by exact hr)]
    exact ⟨lss, hp, by rw [if_pos hr]; rfl⟩
  case neg =>
    have ⟨lss, hp, he⟩ := packData_cases cfg
      (s := s.note (.socks5Resp s.socks5RespReply)) ha data
    exact ⟨lss, hp, by simp [hr, he, refuse]⟩

theorem socks5RespToLocal_error {e : Exn} (h : s.packSocks5Resp cfg = .error e) :
    s.socks5RespToLocal cfg = (s, some e) := by
  simp [socks5RespToLocal, h]

theorem socks5RespToLocal_cases (ha : s.aesEncryptor.isSome) :
    RespToLocal cfg s (s.socks5RespToLocal cfg) := by
  cases h : s.packSocks5Resp cfg
  case error =>
    rw [socks5RespToLocal_error h]
    exact .threw (packSocks5Resp_error h)
  case ok =>
    have ⟨lss, hp, he⟩ := socks5RespToLocal_eq ha h
    rw [he]
    split
    case isTrue hr  => exact .accepted (packSocks5Resp_length h) hr hp
    case isFalse hr => exact .refused (packSocks5Resp_length h) hr hp

theorem leftReadCatch_cases (s : Session) {bt : Nat} {lss : Packet} {e : Exn}
    (he : ∀ less, e ≠ .incompleteData less) :
    s.leftReadCatch bt lss e = s.cancel ∨ s.leftReadCatch bt lss e = s.sendBad := by
  cases e <;> simp [leftReadCatch] at he ⊢

-- How the processing of a request ends, with the `catch` clauses around it.
inductive RequestProcessed (cfg : Config) (s : Session) : Session → Prop
  | connect {rq : Socks5.Req} {name n : Data} {reply : Byte} {port : UInt16} :
    RequestProcessed cfg s
      (((s.requested rq name .connect reply).timerRestart cfg).start (.resolve .tcp n port))
  | udp {rq : Socks5.Req} {name n : Data} {reply : Byte} {port : UInt16} :
    RequestProcessed cfg s ((s.requested rq name .udp reply).start (.resolve .udp n port))
  | refused {rq : Socks5.Req} {name : Data} {cmd : Cmd} {reply : Byte} {data : Data} {lss : Packet}
    (hl : data.length ≤ maxLength) (hr : reply ≠ 0x00) (hp : Packs cfg s data lss) :
    RequestProcessed cfg s ((s.requested rq name cmd reply).refuse data lss)
  | accepted {rq : Socks5.Req} {name : Data} {data : Data} {lss : Packet}
    (hl : data.length ≤ maxLength) (hp : Packs cfg s data lss) :
    RequestProcessed cfg s ((s.requested rq name .udp 0x00).accept data lss)
  | cancel {rq : Socks5.Req} {name : Data} {cmd : Cmd} {reply : Byte} :
    RequestProcessed cfg s (s.requested rq name cmd reply).cancel
  | bad {rq : Socks5.Req} {name : Data} {cmd : Cmd} {reply : Byte} :
    RequestProcessed cfg s (s.requested rq name cmd reply).sendBad

-- Runs the `catch` clauses on what a part of the `try` block has ended with.
def caught (bt : Nat) (lss : Packet) (p : Session × Option Exn) : Session :=
  match p with
  | (s, none)   => s
  | (s, some e) => s.leftReadCatch bt lss e

theorem requestProcessed_of_resp {bt : Nat} {lss : Packet} {rq : Socks5.Req} {name : Data}
    {cmd : Cmd} {reply : Byte} {p : Session × Option Exn} (hc : reply = 0x00 → cmd = .udp)
    (h : RespToLocal cfg (s.requested rq name cmd reply) p) :
    RequestProcessed cfg s (caught bt lss p) := by
  cases h
  case threw he =>
    rcases leftReadCatch_cases _ he with h | h <;> simp only [caught]
    · exact h ▸ .cancel
    · exact h ▸ .bad
  case refused hl hr hp => exact .refused hl hr hp
  case accepted hl hr hp =>
    cases hr
    cases hc rfl
    exact .accepted hl hp

theorem socks5RequestProcessing_eq {rq : Socks5.Req} :
    { s with socks5State := .connecting }.socks5RequestProcessing cfg ch rq =
      let name := destNameOf cfg rq.destAddr
      if rq.cmd = 0x01 then
        (((s.requested rq name .connect s.socks5RespReply).timerRestart cfg).start
          (.resolve .tcp (cString name) rq.destPort), none)
      else if rq.cmd = 0x02 then (s.requested rq name .unsupport 0x07).socks5RespToLocal cfg
      else if rq.cmd = 0x03 then
        if name = anyAddress then
          (s.requested rq name .udp (if ch.udpOpened then 0x00 else 0x01)).socks5RespToLocal cfg
        else
          ((s.requested rq name .udp s.socks5RespReply).start
            (.resolve .udp (cString name) rq.destPort), none)
      else (s.requested rq name .unsupport 0x07).socks5RespToLocal cfg :=
  rfl

theorem socks5RequestProcessing_cases {bt : Nat} {lss : Packet} {rq : Socks5.Req}
    (ha : s.aesEncryptor.isSome) :
    RequestProcessed cfg s
      (caught bt lss ({ s with socks5State := .connecting }.socks5RequestProcessing
        cfg ch rq)) := by
  rw [socks5RequestProcessing_eq]
  by_cases h₁ : rq.cmd = 0x01
  case pos => simpa [h₁] using .connect
  by_cases h₂ : rq.cmd = 0x02
  case pos => simpa [h₂] using requestProcessed_of_resp (by simp) (socks5RespToLocal_cases ha)
  by_cases h₃ : rq.cmd = 0x03
  case neg =>
    simpa [h₁, h₂, h₃] using requestProcessed_of_resp (by simp) (socks5RespToLocal_cases ha)
  by_cases hn : destNameOf cfg rq.destAddr = anyAddress
  case pos => simpa [h₃, hn] using requestProcessed_of_resp (by simp) (socks5RespToLocal_cases ha)
  case neg => simpa [h₃, hn] using .udp

-- What the RSA key of the server makes of an exchange packet.
def Decrypts (cfg : Config) (lss : Packet) (plain : Data) : Prop :=
  (Crypto.Rsa.ofRsaKey cfg.rsakey).decrypt cfg.cpp (lss.data.take lss.dataLen.toNat) = .ok plain

-- How `left_read_handler` ends when it is called without an error on a packet of which `bt` bytes
-- have been received.
inductive LeftReadDone (cfg : Config) (ch : Choice) (s : Session) (bt : Nat) (lss : Packet) :
    Session → Prop
  | cancel (hd : s.status = .data → ¬IsData lss) : LeftReadDone cfg ch s bt lss s.cancel
  | short (h : bt < 4) : LeftReadDone cfg ch s bt lss s.sendBad
  | more (h : 4 ≤ bt) (hl : bt < 4 + lss.dataLen.toNat) :
    LeftReadDone cfg ch s bt lss
      (s.start (.leftRead (trim bt lss) (4 + lss.dataLen.toNat - bt)))
  | wrongPacketType (h : s.status = .hello) : LeftReadDone cfg ch s bt lss s.sendBad
  | hello (h : s.status = .hello) (ht : RequestType.ofByte lss.type = .hello) :
    LeftReadDone cfg ch s bt lss (s.start (.leftWrite (packHello cfg) .helloHandler))
  | undecryptable (h : s.status = .auth) : LeftReadDone cfg ch s bt lss (s.note .fault).cancel
  | shortPlain {plain : Data} (h : s.status = .auth) :
    LeftReadDone cfg ch s bt lss ((s.note (.exchangeDecrypted plain)).note .fault).cancel
  | deny {plain : Data} (h : s.status = .auth) (hd : Decrypts cfg lss plain)
    (hk : plain.take 32 ∉ cfg.cipherAuthKeySet.map (·.val)) :
    LeftReadDone cfg ch s bt lss
      ((s.note (.exchangeDecrypted plain)).start (.leftWrite packDeny .cancel))
  | assertion {plain : Data} (h : s.status = .auth) :
    LeftReadDone cfg ch s bt lss ((s.note (.exchangeDecrypted plain)).note .fault)
  | exchange {plain : Data} {u : Session} {reply : Packet} (h : s.status = .auth)
    (ht : RequestType.ofByte lss.type = .exchange) (hd : Decrypts cfg lss plain)
    (hk : plain.take 32 ∈ cfg.cipherAuthKeySet.map (·.val))
    (hp : (s.note (.exchangeDecrypted plain)).packExchange cfg ch (plain.take 32) (plain.drop 32) =
      some (u, reply)) :
    LeftReadDone cfg ch s bt lss (u.start (.leftWrite reply .exchangeHandler))
  | badRequest {plain : Data} (h : s.status = .data) (hs : s.socks5State ≠ .connected)
    (ht : IsData lss) (hu : Unpacks cfg s lss plain) :
    LeftReadDone cfg ch s bt lss
      { s.note (.unpacked plain) with socks5State := .connecting }.sendBad
  | request {plain : Data} {t : Session} (h : s.status = .data) (hs : s.socks5State ≠ .connected)
    (ht : IsData lss) (hu : Unpacks cfg s lss plain)
    (r : RequestProcessed cfg (s.note (.unpacked plain)) t) : LeftReadDone cfg ch s bt lss t
  | forward {p : Proto} {plain : Data} (h : s.status = .data) (hs : s.socks5State = .connected)
    (ht : IsData lss) (hu : Unpacks cfg s lss plain) (hb : 4 + lss.dataLen.toNat ≤ bt) :
    LeftReadDone cfg ch s bt lss
      ((s.note (.unpacked plain)).start (.rightWrite p plain
        (writeNext bt (toInt (bt - (4 + lss.dataLen.toNat))) lss)))
  | address {plain : Data} (h : s.status = .data) (hs : s.socks5State = .connected)
    (ht : IsData lss) (hu : Unpacks cfg s lss plain) :
    LeftReadDone cfg ch s bt lss (s.note (.unpacked plain)).cancel
  | unsupported {plain : Data} (h : s.status = .data) (hs : s.socks5State = .connected)
    (hc : s.socks5Cmd = .bind ∨ s.socks5Cmd = .unsupport)
    (ht : IsData lss) (hu : Unpacks cfg s lss plain) :
    LeftReadDone cfg ch s bt lss (s.note (.unpacked plain)).sendBad

variable {bt : Nat} {lss : Packet}

theorem leftReadHello_done (ht : RequestType.ofByte lss.type = .hello) :
    LeftReadDone cfg ch s bt lss (caught bt lss (s.leftReadHello cfg lss)) := by
  unfold leftReadHello
  split_ifs with h₁ h₂
  case pos => exact .cancel fun _ => RequestType.not_isData (by simp [ht])
  case pos => exact .wrongPacketType (by simpa using h₁)
  case neg => exact .hello (by simpa using h₁) ht

theorem leftReadExchange_done (ht : RequestType.ofByte lss.type = .exchange) :
    LeftReadDone cfg ch s bt lss (caught bt lss (s.leftReadExchange cfg ch lss)) := by
  have hn : ¬IsData lss := RequestType.not_isData (by simp [ht])
  unfold leftReadExchange unpackRequestExchange
  split_ifs with h
  case pos => exact .cancel fun _ => hn
  case neg =>
    have h : s.status = .auth := by simpa using h
    cases hd : (Crypto.Rsa.ofRsaKey cfg.rsakey).decrypt cfg.cpp (lss.data.take lss.dataLen.toNat)
    case error e =>
      cases e
      · exact .cancel fun _ => hn
      · exact .undecryptable h
    case ok plain =>
      by_cases hp : plain.length < 32 <;> simp only [hp, if_true, if_false]
      case pos => exact .shortPlain h
      case neg =>
        by_cases hk : plain.take 32 ∈ cfg.cipherAuthKeySet.map (·.val) <;>
          simp only [hk, not_true_eq_false, not_false_eq_true, if_true, if_false]
        case neg => exact .deny h hd hk
        case pos =>
          split
          case h_1    => exact .assertion h
          case h_2 he => exact .exchange h ht hd hk he

theorem packExchange_some {authKey randomStr : Data} {u : Session} {reply : Packet}
    (h : s.packExchange cfg ch authKey randomStr = some (u, reply)) :
    ∃ payload, u = { s with aesEncryptor := some (Crypto.Aes.raw256 cfg.cpp ch.dataKey) } ∧
      reply = pack .exchange payload ∧ authKey.length = 32 := by
  unfold packExchange at h
  split at h
  case isTrue hl => cases h; exact ⟨_, rfl, rfl, hl.1⟩
  case isFalse   => cases h

theorem leftReadConnected_done (h : s.status = .data) (hs : s.socks5State = .connected)
    (hb : 4 + lss.dataLen.toNat ≤ bt) (ht : IsData lss) {plain : Data}
    (hu : Unpacks cfg s lss plain) :
    LeftReadDone cfg ch s bt lss (caught bt lss ((s.note (.unpacked plain)).leftReadConnected cfg bt
      lss plain (toInt (bt - (4 + lss.dataLen.toNat))))) := by
  unfold leftReadConnected
  cases hc : s.socks5Cmd <;> simp only [note_socks5Cmd, hc]
  case connect   => exact .forward h hs ht hu hb
  case udp       =>
    by_cases ha : cfg.boost.isAddress s.destName <;> simp only [note_destName, ha]
    case pos => exact .forward h hs ht hu hb
    case neg => exact .address h hs ht hu
  case bind      => exact .unsupported h hs (.inl hc) ht hu
  case unsupport => exact .unsupported h hs (.inr hc) ht hu

theorem leftReadData_done (ha : s.status = .data → s.aesEncryptor.isSome) (hh : Holds bt lss)
    (hb : 4 + lss.dataLen.toNat ≤ bt) (ht : IsData lss) :
    LeftReadDone cfg ch s bt lss (caught bt lss (s.leftReadData cfg ch bt lss)) := by
  unfold leftReadData unpackData
  split_ifs with h
  case pos => exact .cancel fun hd => absurd hd h
  case neg =>
    have h : s.status = .data := by simpa using h
    have ⟨aes, ha'⟩ := Option.isSome_iff_exists.mp (ha h)
    have hu : Unpacks cfg s lss (aes.decrypt cfg.cpp (lss.data.take lss.dataLen.toNat)) :=
      ⟨aes, ha', rfl⟩
    have hr : ¬toInt (bt - (4 + lss.dataLen.toNat)) < 0 := by
      rw [restLen_eq hh hb]
      omega
    generalize he : aes.decrypt cfg.cpp (lss.data.take lss.dataLen.toNat) = plain at hu
    simp only [ha', he, hr, if_false, note_socks5State]
    cases hs : s.socks5State
    case connected => exact leftReadConnected_done h hs hb ht hu
    all_goals
      simp only
      split
      case h_1 => exact .badRequest h (by simp [hs]) ht hu
      case h_2 => exact .request h (by simp [hs]) ht hu (socks5RequestProcessing_cases (ha h))

theorem leftReadTry_done (ha : s.status = .data → s.aesEncryptor.isSome) (hh : Holds bt lss) :
    LeftReadDone cfg ch s bt lss (caught bt lss (s.leftReadTry cfg ch bt lss)) := by
  unfold leftReadTry
  rw [lssPackIntegrityCheck_eq hh]
  split_ifs with h₁ h₂
  case pos => exact .short h₁
  case pos =>
    have hl : ((4 + lss.dataLen.toNat - bt : Nat) : Int) > 0 := by omega
    simp only [caught, leftReadCatch, hl, if_true, Int.toNat_natCast]
    exact .more (by omega) h₂
  case neg =>
    cases ht : RequestType.ofByte lss.type
    case hello    => exact leftReadHello_done ht
    case exchange => exact leftReadExchange_done ht
    case bad      => exact .cancel fun _ => RequestType.not_isData (by simp [ht])
    case data     => exact leftReadData_done ha hh (by omega) (RequestType.isData_iff.mpr (.inl ht))
    case zipdata  => exact leftReadData_done ha hh (by omega) (RequestType.isData_iff.mpr (.inr ht))

theorem leftReadHandler_done (ha : s.status = .data → s.aesEncryptor.isSome) (rest : Data)
    (hh : Holds (rectify bt lss rest).1 (rectify bt lss rest).2) :
    LeftReadDone cfg ch s (rectify bt lss rest).1 (rectify bt lss rest).2
      (s.leftReadHandler cfg ch false bt lss rest) :=
  leftReadTry_done ha hh

end Session
end Lproxy.Server
