import Lproxy.Local.Relay
import Lproxy.Server.Relay

-- A stream of frames goes through a session as a stream of their payloads, however it is cut into
-- reads, as long as no read ends inside the header of a frame.
namespace Lproxy

open Transition

theorem stream_transparency (fs : List Frame) :
    (∀ {cfg : Server.Config} {aes : Crypto.Aes} {s : Server.Session} {x : Server.Session × Data},
      s.Established aes →
      Reachable (· = (s, stream fs)) (Guarded (Server.RelayStep cfg) (Server.Aligned fs)) x →
        (∃ written, Relayed Server.Event.toRemote Server.Event.ends s.log written x.1.log ∧
          written <+: payloads (aes.decrypt cfg.cpp) fs ∧
          (Server.Finished x → written = payloads (aes.decrypt cfg.cpp) fs)) ∧
        ∃ y, Reachable (· = x) (Guarded (Server.RelayStep cfg) (Server.Aligned fs)) y ∧
          Server.Finished y) ∧
    (∀ {cfg : Local.Config} {aes : Crypto.Aes} {s : Local.Session} {x : Local.Session × Data},
      s.Established cfg aes →
      Reachable (· = (s, stream fs)) (Guarded (Local.RelayStep cfg) (Local.Aligned fs)) x →
        (∃ written, Relayed Local.Event.toClient Local.Event.ends s.log written x.1.log ∧
          written <+: payloads (aes.decrypt cfg.cpp) fs ∧
          (Local.Finished x → written = payloads (aes.decrypt cfg.cpp) fs)) ∧
        ∃ y, Reachable (· = x) (Guarded (Local.RelayStep cfg) (Local.Aligned fs)) y ∧
          Local.Finished y) :=
  ⟨Server.Session.relays_frames, Local.Session.relays_frames⟩

section Sample

def sampleFrame (d : Data) (h : d.length < 65536) : Frame where
  packet := Server.pack .data d
  framed := Packet.framed_make h
  isData := .inl rfl

def sampleFrames : List Frame :=
  [sampleFrame [1, 2, 3] (by decide), sampleFrame [] (by decide), sampleFrame [4] (by decide)]

def sampleAes : Crypto.Aes :=
  .raw256 Crypto.transparent Server.sampleChoice.dataKey

def relayingServer : Server.Session := { Server.newSession with
  status := .data
  socks5State := .connected
  socks5Cmd := .connect
  aesEncryptor := some sampleAes
  io := [⟨.leftRead (.receiving maxLength) 0, none⟩, ⟨.rightRead .tcp, none⟩] }

def relayingLocal : Local.Session := { Local.Session.initial with
  status := .data
  aesEncryptor := some sampleAes
  io := [⟨.rightRead (.receiving maxLength) 0, none⟩, ⟨.leftRead .leftReadHandler, none⟩] }

theorem relayingServer_established : relayingServer.Established sampleAes where
  status := rfl
  socks5State := rfl
  socks5Cmd := rfl
  socks5RespReply := rfl
  aesEncryptor := rfl
  io := ⟨maxLength, le_rfl, [⟨.rightRead .tcp, none⟩], .refl _, by simp [Server.Serves.reading]⟩

theorem relayingLocal_established : relayingLocal.Established Local.sampleConfig sampleAes where
  status := rfl
  getAes := rfl
  io := ⟨maxLength, le_rfl, [⟨.leftRead .leftReadHandler, none⟩], .refl _,
    by simp [Local.Serves.reading]⟩

theorem stream_transparency_three_frames :
    (∃ y, Server.Finished y ∧
      Relayed Server.Event.toRemote Server.Event.ends [] [1, 2, 3, 4] y.1.log) ∧
    ∃ y, Local.Finished y ∧
      Relayed Local.Event.toClient Local.Event.ends [] [1, 2, 3, 4] y.1.log := by
  have hp : payloads (sampleAes.decrypt Crypto.transparent) sampleFrames = [1, 2, 3, 4] := by
    decide +kernel
  constructor
  case left =>
    have relays {x : Server.Session × Data} := @(@stream_transparency sampleFrames).1
      Server.sampleConfig sampleAes _ x relayingServer_established
    have ⟨_, y, r, hf⟩ := relays (.init rfl)
    have ⟨⟨written, h, _, hw⟩, _⟩ := relays r
    exact ⟨y, hf, hp ▸ hw hf ▸ h⟩
  case right =>
    have relays {x : Local.Session × Data} := (stream_transparency sampleFrames).2 (x := x)
      relayingLocal_established
    have ⟨_, y, r, hf⟩ := relays (.init rfl)
    have ⟨⟨written, h, _, hw⟩, _⟩ := relays r
    exact ⟨y, hf, hp ▸ hw hf ▸ h⟩

-- A read that returns the first byte of a frame makes the server send a bad packet, after which it
-- closes the connection.
theorem header_cut : ¬∀ (cfg : Server.Config) (aes : Crypto.Aes) (fs : List Frame)
    (s : Server.Session) (x : Server.Session × Data), s.Established aes →
    Reachable (· = (s, stream fs)) (Server.RelayStep cfg) x →
    ∃ written, Relayed Server.Event.toRemote Server.Event.ends s.log written x.1.log := by
  intro h
  let lss : Packet := .receiving maxLength
  let rest : List (Outstanding Server.Op Server.Outcome) := [⟨.rightRead .tcp, none⟩]
  have e : Server.Step Server.sampleConfig relayingServer (.complete (.leftRead lss 0) (.bytes [0]))
      { relayingServer with io := [] ++ ⟨.leftRead lss 0, some (.bytes [0])⟩ :: rest } :=
    .complete rfl (.leftRead (by simp) (by simp [lss, offered, maxLength])) (by simp)
  have d := @Server.Step.deliver Server.sampleConfig
    { relayingServer with io := [] ++ ⟨.leftRead lss 0, some (.bytes [0])⟩ :: rest } [] rest _ _
    Server.sampleChoice rfl
  have r : Reachable (· = (relayingServer, stream sampleFrames))
      (Server.RelayStep Server.sampleConfig) (relayingServer, [0] ++ (stream sampleFrames).tail) :=
    .init rfl
  obtain ⟨_, es, hl, _, he⟩ := h _ _ _ _ _ relayingServer_established
    ((r.step (Server.RelayStep.arrive e)).step (Server.RelayStep.other d trivial))
  -- The log of the last state.
  have hb : es = [.started (.leftWrite Server.packBad .cancel)] := hl.symm
  have hends := he _ (hb ▸ List.mem_singleton_self _)
  cases hends

end Sample
end Lproxy
