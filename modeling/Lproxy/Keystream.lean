import Lproxy.Local.Frames
import Lproxy.Local.Schedule
import Lproxy.Server.Frames
import Lproxy.Server.Schedule

-- The parts of the keystream that the frames of a session are encrypted with.
namespace Lproxy

open Crypto

-- The frames that both sides of a session have encrypted with `data_key`, and their plaintexts.
def frames (s : Server.Session) (w : Local.Session) : List Data :=
  (s.dataReplies ++ w.dataRequests).map Packet.data

def plaintexts (s : Server.Session) (w : Local.Session) : List Data :=
  s.packed ++ w.packed

-- The sides of a session have the same encryptor, as far as they have one.
structure Shares (l : Local.Config) (s : Server.Session) (w : Local.Session) (aes : Aes) :
    Prop where
  ofServer : ∀ a, s.aesEncryptor = some a → a = aes
  ofLocal : ∀ a, w.getAes l = some a → a = aes

section Frames

variable {l : Local.Config} {sv : Server.Config} {s : Server.Session} {w : Local.Session}
  {aes : Aes}

theorem dataReplies_data (hs : Server.Reachable sv s) (h : Shares l s w aes) :
    s.dataReplies.map Packet.data = s.packed.map (aes.encrypt sv.cpp) := by
  have hk := Server.Session.sealed_reachable hs
  cases ha : s.aesEncryptor
  case none   =>
    have ⟨h₁, h₂⟩ := hk.unkeyed ha
    simp [h₁, h₂]
  case some a =>
    cases h.ofServer a ha
    rw [hk.keyed _ ha, List.map_map]
    rfl

theorem dataRequests_data (hw : Local.Reachable l w) (h : Shares l s w aes) :
    w.dataRequests.map Packet.data = w.packed.map (aes.encrypt l.cpp) := by
  have hk := Local.Session.sealed_reachable hw
  cases ha : w.getAes l
  case some a =>
    cases h.ofLocal a ha
    rw [hk.keyed _ ha, List.map_map]
    rfl
  case none   =>
    have i := Local.Session.inv_reachable hw
    have hd : w.status ≠ .data := by
      intro hd
      have hs := i.keyed hd
      rw [i.getAes] at ha
      simp_all
    have ⟨h₁, h₂⟩ := hk.unkeyed hd
    simp [h₁, h₂]

theorem frames_eq (hc : l.cpp = sv.cpp) (hs : Server.Reachable sv s) (hw : Local.Reachable l w)
    (h : Shares l s w aes) : frames s w = (plaintexts s w).map (aes.encrypt l.cpp) := by
  rw [frames, plaintexts, List.map_append, List.map_append, dataReplies_data hs h,
    dataRequests_data hw h, hc]

-- All the frames are encrypted from the same counter on: of two frames one is encrypted with
-- counter blocks of the other, and their ciphertexts differ where their plaintexts do.
theorem keystream_shared (hc : l.cpp = sv.cpp) (hs : Server.Reachable sv s)
    (hw : Local.Reachable l w) (h : Shares l s w aes) :
    frames s w = (plaintexts s w).map (aes.encrypt l.cpp) ∧
    ∀ d ∈ plaintexts s w, ∀ e ∈ plaintexts s w,
      (aes.blocks d.length ⊆ aes.blocks e.length ∨ aes.blocks e.length ⊆ aes.blocks d.length) ∧
      (Disjoint (aes.blocks d.length) (aes.blocks e.length) ↔ d = [] ∨ e = []) ∧
      List.zipWith (· ^^^ ·) (aes.encrypt l.cpp d) (aes.encrypt l.cpp e) =
        List.zipWith (· ^^^ ·) d e := by
  refine ⟨frames_eq hc hs hw h, fun d _ e _ => ⟨?_, ?_, Aes.xor_encrypt d e⟩⟩
  · exact (Nat.le_total d.length e.length).imp Aes.blocks_mono Aes.blocks_mono
  · rw [Aes.disjoint_blocks_iff, List.length_eq_zero_iff, List.length_eq_zero_iff]

end Frames

-- A server session that has sent the reply to a request and one byte of the remote, and the session
-- of its local before the exchange.
theorem exists_twoFrames : ∃ s w aes, Server.Reachable Server.sampleConfig s ∧
    Local.Reachable Local.sampleConfig w ∧ Shares Local.sampleConfig s w aes ∧
    (plaintexts s w).map List.length = [10, 1] := by
  let aes := Aes.raw256 transparent Server.sampleChoice.dataKey
  have ⟨s, r, h⟩ := Server.exists_sampleRun
    (Server.handshake ++ Server.connectRequest ++ Server.connection ++
      Server.Act.run 3 (.bytes [1]))
    (fun s => s.aesEncryptor = some aes ∧ s.packed.map List.length = [10, 1]) (by decide +kernel)
  have ⟨ha, hl⟩ := of_decide_eq_true h
  refine ⟨s, .initial, aes, r, .init rfl, ⟨?_, nofun⟩, ?_⟩
  case refine_1 =>
    intro a ha'
    rw [ha] at ha'
    cases ha'
    rfl
  case refine_2 => simpa [plaintexts, Local.Session.packed, Local.Session.initial] using hl

theorem keystream_shared_two_frames : ∃ (s : Server.Session) (w : Local.Session) (aes : Aes)
    (d e : Data), plaintexts s w = [d, e] ∧ d.length = 10 ∧ e.length = 1 ∧
      ¬Disjoint (aes.blocks d.length) (aes.blocks e.length) := by
  obtain ⟨s, w, aes, hs, hw, h, hl⟩ := exists_twoFrames
  obtain ⟨d, ds, hp, hd, hl⟩ := List.map_eq_cons_iff.mp hl
  obtain ⟨e, ds, hp', he, hl⟩ := List.map_eq_cons_iff.mp hl
  cases List.map_eq_nil_iff.mp hl
  subst hp'
  obtain ⟨_, hn, _⟩ := (keystream_shared rfl hs hw h).2 d (by simp [hp]) e (by simp [hp])
  refine ⟨s, w, aes, d, e, hp, hd, he, fun hdis => ?_⟩
  cases hn.mp hdis
  case inl h => simp [h] at hd
  case inr h => simp [h] at he

-- The first block is used for both frames.
theorem keystream_reused : ¬∀ {l : Local.Config} {sv : Server.Config} {s : Server.Session}
    {w : Local.Session} {aes : Aes}, l.cpp = sv.cpp → Server.Reachable sv s → Local.Reachable l w →
    Shares l s w aes → ∀ (i j : Nat) (hi : i < (frames s w).length) (hj : j < (frames s w).length),
    i ≠ j → Disjoint (aes.blocks (frames s w)[i].length) (aes.blocks (frames s w)[j].length) := by
  intro hall
  obtain ⟨s, w, aes, hs, hw, h, hl⟩ := exists_twoFrames
  have hf : (frames s w).map List.length = [10, 1] := by
    rw [frames_eq rfl hs hw h, List.map_map, ← hl]
    simp [Function.comp_def]
  have hlen : (frames s w).length = 2 := by simpa using congrArg List.length hf
  have get {i n : Nat} (hi : i < (frames s w).length) (hn : [10, 1][i]? = some n) :
      (frames s w)[i].length = n := by
    have h := congrArg (·[i]?) hf
    simp only [List.getElem?_map, List.getElem?_eq_getElem hi, hn] at h
    simpa using h
  have hd := hall rfl hs hw h 0 1 (by omega) (by omega) (by decide)
  rw [get _ (n := 10) rfl, get _ (n := 1) rfl, Aes.disjoint_blocks_iff] at hd
  omega

end Lproxy
