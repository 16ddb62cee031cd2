import Lproxy.Crypto.Aes
import Lproxy.Lib.Channel
import Lproxy.Receive

-- The connections between a local and a server, and what each of the two makes of the frames of the
-- other.
namespace Lproxy

open Crypto

-- A connection in one direction.
abbrev Wire := Channel Packet Byte

def dataFrames (fs : List Packet) : List Packet :=
  fs.filter fun f => IsData f

variable {fs gs : List Packet} {f : Packet}

@[simp]
theorem dataFrames_append : dataFrames (fs ++ gs) = dataFrames fs ++ dataFrames gs :=
  List.filter_append ..

theorem dataFrames_singleton (h : IsData f) : dataFrames [f] = [f] := by
  simp [dataFrames, h]

theorem dataFrames_singleton_of_not (h : ¬IsData f) : dataFrames [f] = [] := by
  simp [dataFrames, h]

theorem dataFrames_of_not (h : ∀ f ∈ fs, ¬IsData f) : dataFrames fs = [] := by
  simpa [dataFrames] using h

theorem mem_dataFrames : f ∈ dataFrames fs ↔ f ∈ fs ∧ IsData f := by
  simp [dataFrames]

theorem dataFrames_prefix (h : fs <+: gs) : dataFrames fs <+: dataFrames gs :=
  h.filter _

-- A session with the encryptor `aes` has unpacked what the frames with data among `fs` carry, and
-- nothing else.
structure Accounts (cpp : CryptoPP) (aes : Option Aes) (unpacked : List Data) (fs : List Packet) :
    Prop where
  unkeyed : aes = none → unpacked = [] ∧ dataFrames fs = []
  keyed : ∀ a, aes = some a → unpacked = (dataFrames fs).map fun f => a.decrypt cpp f.data

namespace Accounts

variable {cpp : CryptoPP} {aes : Option Aes} {unpacked : List Data}

theorem nil : Accounts cpp aes [] [] :=
  ⟨fun _ => ⟨rfl, rfl⟩, fun _ _ => rfl⟩

-- A frame that carries no data does not count.
theorem skip (h : Accounts cpp aes unpacked fs) (hf : ¬IsData f) :
    Accounts cpp aes unpacked (fs ++ [f]) := by
  constructor <;> rw [dataFrames_append, dataFrames_singleton_of_not hf, List.append_nil]
  case unkeyed => exact h.unkeyed
  case keyed   => exact h.keyed

theorem unpack {a : Aes} (h : Accounts cpp (some a) unpacked fs) (hf : IsData f) :
    Accounts cpp (some a) (unpacked ++ [a.decrypt cpp f.data]) (fs ++ [f]) := by
  constructor
  case unkeyed => exact nofun
  case keyed   =>
    intro a' ha
    cases ha
    rw [dataFrames_append, dataFrames_singleton hf, List.map_append, h.keyed a rfl]
    rfl

-- The session gets its encryptor before there are any frames with data.
theorem adopt (h : Accounts cpp none unpacked fs) : Accounts cpp aes unpacked fs := by
  have ⟨hu, hf⟩ := h.unkeyed rfl
  exact ⟨fun _ => ⟨hu, hf⟩, fun _ _ => by rw [hu, hf, List.map_nil]⟩

-- What has been unpacked is what has been packed, as far as the frames with data among `fs` go.
theorem eq_take {packed : List Data} {frame : Aes → Data → Packet}
    (h : Accounts cpp aes unpacked fs)
    (hf : ∀ (a : Aes) (d : Data), a.decrypt cpp (frame a d).data = d)
    (hp : ∀ a, aes = some a → dataFrames fs <+: packed.map (frame a)) :
    unpacked = packed.take (dataFrames fs).length := by
  cases aes
  case none   =>
    have ⟨hu, hn⟩ := h.unkeyed rfl
    rw [hu, hn]
    rfl
  case some a =>
    have he := List.prefix_iff_eq_take.mp (hp a rfl)
    generalize (dataFrames fs).length = n at he ⊢
    rw [h.keyed a rfl, he, ← List.map_take, List.map_map]
    exact (List.map_congr_left fun d _ => hf a d).trans (List.map_id _)

end Accounts

-- One side has unpacked what the other has packed into the frames with data that it has read, but
-- for a frame that has been read and is about to be looked at.
def Transfers (packed unpacked : List Data) (c : Wire) (inHand : Prop) : Prop :=
  unpacked = packed.take (dataFrames c.done).length ∨
    inHand ∧ ∃ fs f, c.done = fs ++ [f] ∧ unpacked = packed.take (dataFrames fs).length

section Received

variable {bt rest : Nat} {lss p : Packet} {c : Wire} {acc : List Packet → Prop} {d : Data}

-- A packet that has been read as a whole.
structure Received (c : Wire) (acc : List Packet → Prop) (bt : Nat) (lss f : Packet) : Prop where
  mem : f ∈ c.sent
  acc : ∃ fs, c.done = fs ++ [f] ∧ acc fs
  part : c.part = []
  startsWith : lss.StartsWith f
  size : bt = 4 + lss.dataLen.toNat

-- The beginning of a packet, its header included.
structure Begun (c : Wire) (acc : List Packet → Prop) (bt : Nat) (lss : Packet) : Prop where
  acc : acc c.done
  part : c.part = held bt lss
  header : 4 ≤ bt
  missing : bt < 4 + lss.dataLen.toNat

-- What a read handler is called with.
theorem received_or_begun (hf : ∀ f ∈ c.sent, f.Framed) (hp : Pending lss rest)
    (hd : d.length ≤ offered lss rest)
    (h : c.Reading Packet.toData 4 acc (heldBefore lss rest) (some d)) :
    (∃ f, Received c acc (entry lss rest d).1 (entry lss rest d).2 f) ∨
      Begun c acc (entry lss rest d).1 (entry lss rest d).2 := by
  have hh := entry_holds hp hd
  have he := held_entry hp hd
  cases h
  case whole f fs hdone hp ha hb =>
    have hm : f ∈ c.sent := Channel.mem_sent_of_done (by simp [hdone])
    have hb := he.trans hb
    exact .inl ⟨f, hm, ⟨fs, hdone, ha⟩, hp, startsWith_of_held hb, eq_size_of_held hh (hf f hm) hb⟩
  case part f rest hq hn ha hp hb hl =>
    have hm : f ∈ c.sent := Channel.mem_sent_of_queue hq
    rw [← he, length_held hh] at hl
    exact .inr ⟨ha, hp.trans he.symm, hl, lt_size_of_held hh (hf f hm) hl hn (he ▸ hb)⟩

-- There is room for the header of a frame in any case.
theorem header_le : 4 ≤ (heldBefore lss rest).length + offered lss rest := by
  unfold heldBefore offered
  split <;> simp
  omega

end Received
end Lproxy
