import Lproxy.Wire

-- How a session fetches one packet from its peer: with one read, or with a second one for what the
-- first one has had no room for.
namespace Lproxy

variable {c c' : Wire} {n rest : Nat} {lss : Packet} {d : Data}

-- No packet is being read, and `n` have been.
structure Rests (n : Nat) (c : Wire) : Prop where
  done : c.done.length = n
  part : c.part = []

-- The packet after the first `n` is being read. `arrived` is what a read into `lss`, of which
-- `rest` bytes are missing, has returned.
inductive Fetch (n : Nat) (c : Wire) (lss : Packet) : Nat → Option Data → Prop
  | waiting (h : Rests n c) : Fetch n c lss 0 none
  | begun {a : Packet} {queue : List Packet} {d missing : Data} (hd : c.done.length = n)
    (hq : c.queue = a :: queue) (hp : c.part = d) (ha : d ++ missing = a.toData)
    (hm : missing ≠ []) (h₄ : 4 ≤ d.length) : Fetch n c lss 0 (some d)
  | resumed {a : Packet} {queue : List Packet} {missing : Data} {rest : Nat}
    (hd : c.done.length = n) (hq : c.queue = a :: queue) (hp : c.part = lss.toData)
    (ha : lss.toData ++ missing = a.toData) (hm : missing.length = rest) (h : 0 < rest) :
    Fetch n c lss rest none
  | whole {as : List Packet} {a : Packet} {d : Data} {rest : Nat} (hd : c.done = as ++ [a])
    (hn : as.length = n) (hp : c.part = []) (ha : heldBefore lss rest ++ d = a.toData) :
    Fetch n c lss rest (some d)

-- What the handler of a read finds: the beginning of the packet, or all of it.
inductive Fetched (n : Nat) (c : Wire) (bt : Nat) (lss : Packet) (rest : Nat) : Prop
  | more {less : Nat} (hc : lssPackIntegrityCheck bt lss = .error less) (hl : 0 < less)
    (hr : rest = 0) (h : Fetch n c (trim bt lss) less none) : Fetched n c bt lss rest
  | whole {a : Packet} (hc : lssPackIntegrityCheck bt lss = .ok ()) (ha : c.sent[n]? = some a)
    (hs : lss.StartsWith a) (h : Rests (n + 1) c) : Fetched n c bt lss rest

-- What is left to be done until the packet has been read.
def fetchCost (rest : Nat) (arrived : Option Data) : Nat :=
  (if rest = 0 then 2 else 0) + (if arrived.isNone then 2 else 1)

namespace Fetch

theorem send {arrived : Option Data} (h : Fetch n c lss rest arrived) (a : Option Packet) :
    Fetch n (c.send a) lss rest arrived := by
  cases h
  case waiting h               => exact .waiting ⟨h.done, h.part⟩
  case begun hd hq hp ha hm h₄ => exact .begun hd (by simp [Channel.send, hq]; rfl) hp ha hm h₄
  case resumed hd hq hp ha hm h => exact .resumed hd (by simp [Channel.send, hq]; rfl) hp ha hm h
  case whole hd hn hp ha       => exact .whole hd hn hp ha

theorem arrive (h : Fetch n c lss rest none) (r : c.Reads Packet.toData (offered lss rest) d c') :
    Fetch n c' lss rest (some d) := by
  cases h
  case waiting h =>
    have hp := h.part
    cases r
    case whole ha _      => exact .whole rfl h.done rfl (by simpa [heldBefore, hp] using ha)
    case part hq ha hm hr =>
      rw [hp, List.nil_append] at ha
      refine .begun h.done hq (by simp [hp]) ha hm ?_
      rw [hr, offered, if_pos rfl]
      omega
  case resumed a queue missing hd hq hp ha hm hpos =>
    have hne : rest ≠ 0 := by omega
    have hb : heldBefore lss rest = lss.toData := if_neg hne
    cases r
    case whole ha' _            => exact .whole rfl hd rfl (by rw [hb, ← hp]; exact ha')
    case part hq' ha' hm' hr    =>
      -- The second read has room for all that is missing.
      cases hq.symm.trans hq'
      rw [hp, List.append_assoc] at ha'
      have hl := congrArg List.length (List.append_cancel_left (ha'.trans ha.symm))
      rw [List.length_append, hr, offered, if_neg hne, hm] at hl
      exact absurd (List.eq_nil_of_length_eq_zero (by omega)) hm'

-- A read that is waiting can return.
theorem exists_reads (h : Fetch n c lss rest none) (hq : c.queue ≠ []) :
    ∃ d c', d ≠ [] ∧ d.length ≤ offered lss rest ∧
      c.Reads Packet.toData (offered lss rest) d c' := by
  cases h
  case waiting h =>
    have ⟨a, queue, hq⟩ := List.exists_cons_of_ne_nil hq
    have hp := h.part
    have hl := a.length_toData
    have ho : offered lss 0 = 4 + lss.data.length := if_pos rfl
    by_cases hle : a.toData.length ≤ offered lss 0
    case pos =>
      exact ⟨a.toData, _, List.ne_nil_of_length_pos (by omega), hle, .whole hq (by simp [hp]) hle⟩
    case neg =>
      have ht : (a.toData.take (offered lss 0)).length = offered lss 0 := by
        rw [List.length_take]
        omega
      have hd : a.toData.drop (offered lss 0) ≠ [] :=
        List.ne_nil_of_length_pos (by rw [List.length_drop]; omega)
      exact ⟨a.toData.take (offered lss 0), _, List.ne_nil_of_length_pos (by omega), ht.le,
        .part hq (by simp [hp]) hd ht⟩
  case resumed missing hd hq hp ha hm hpos =>
    have hr : offered lss rest = rest := if_neg (by omega)
    exact ⟨missing, _, List.ne_nil_of_length_pos (by omega), by omega,
      .whole hq (by rw [hp, ha]) (by omega)⟩

theorem fetched (h : Fetch n c lss rest (some d)) (hf : ∀ f ∈ c.sent, f.Framed)
    (hp : Pending lss rest) (hd : d.length ≤ offered lss rest) :
    Fetched n c (entry lss rest d).1 (entry lss rest d).2 rest := by
  have hh := entry_holds hp hd
  have he := held_entry hp hd
  have hl := length_held hh
  cases h
  case begun a queue missing hdone hq hm hpart ha h₄ =>
    have hm' : a ∈ c.sent := Channel.mem_sent_of_queue (by simp [hq])
    simp only [heldBefore, if_true, List.nil_append] at he
    have h₄ : 4 ≤ (entry lss 0 d).1 := by rw [← hl, he]; exact h₄
    have ha : held (entry lss 0 d).1 (entry lss 0 d).2 ++ missing = a.toData := by rw [he]; exact ha
    have hlt := lt_size_of_held hh (hf a hm') h₄ hm ha
    have hsize := size_of_held hh (hf a hm') h₄ ha
    have ht := toData_trim hh h₄
    refine .more ?_ (Nat.sub_pos_of_lt hlt) rfl
      (.resumed hdone hq ?_ (ht.symm ▸ ha) (by omega) (Nat.sub_pos_of_lt hlt))
    · rw [lssPackIntegrityCheck_eq hh, if_neg (by omega), if_pos hlt]
    · rw [ht, he, hpart]
  case whole as a hdone hn hpart ha                  =>
    have hm : a ∈ c.sent := Channel.mem_sent_of_done (by simp [hdone])
    have ha := he.trans ha
    have hsize := eq_size_of_held hh (hf a hm) ha
    refine .whole ?_ ?_ (startsWith_of_held ha) ⟨by simp [hdone, hn], hpart⟩
    · rw [lssPackIntegrityCheck_eq hh, if_neg (by omega), if_neg (by omega)]
    · simp [Channel.sent, hdone, ← hn]

end Fetch

end Lproxy
