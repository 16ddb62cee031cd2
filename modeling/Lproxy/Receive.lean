import Lproxy.Session

-- The receive buffers of both sessions: which of their bytes have been received, and what the
-- handlers of a read find in them.
namespace Lproxy

-- The first `bt` bytes of a packet have been received; the others are filler.
structure Holds (bt : Nat) (lss : Packet) : Prop where
  le : bt ≤ 4 + lss.data.length
  bound : lss.data.length ≤ 65535

-- The bytes that have been received.
def held (bt : Nat) (lss : Packet) : Data :=
  lss.toData.take bt

-- The buffers that a read can be pending on: a new packet, or the packet of a frame whose first
-- bytes have been received and of which `rest` bytes are missing.
inductive Pending (lss : Packet) : Nat → Prop
  | fresh (h : lss.data.length ≤ maxLength) : Pending lss 0
  | more {rest : Nat} (h : 0 < rest) (he : lss.data.length + rest = lss.dataLen.toNat) :
    Pending lss rest

-- The bytes that have been received before the read that is pending.
def heldBefore (lss : Packet) (rest : Nat) : Data :=
  if rest = 0 then [] else lss.toData

-- How many bytes a read offers room for.
def offered (lss : Packet) (rest : Nat) : Nat :=
  if rest = 0 then 4 + lss.data.length else rest

-- The arguments of a read handler after the correction with which it starts.
def entry (lss : Packet) (rest : Nat) (d : Data) : Nat × Packet :=
  rectify d.length (readCompleted lss rest d).1 (readCompleted lss rest d).2

-- The packet that `cut_lss` leaves behind when the frame at the front has been processed.
def cutPacket (bt : Nat) (lss : Packet) : Packet :=
  let buf := lss.toData
  let startPos := 4 + lss.dataLen.toNat
  { version := buf.getD startPos 0
    type := buf.getD (startPos + 1) 0
    dataLenHighByte := buf.getD (startPos + 2) 0
    dataLenLowByte := buf.getD (startPos + 3) 0
    data := (buf.take bt).drop (startPos + 4) }

theorem toInt_eq {n : Int} (h₁ : -2147483648 ≤ n) (h₂ : n < 2147483648) : toInt n = n := by
  unfold toInt
  rw [Int.bmod_def]
  split <;> omega

variable {bt rest : Nat} {lss : Packet} {d : Data}

theorem pending_receiving (h : n ≤ maxLength) : Pending (.receiving n) 0 :=
  .fresh (by simpa using h)

theorem lssPackIntegrityCheck_eq (h : Holds bt lss) :
    lssPackIntegrityCheck bt lss =
      if bt < 4 then .error (-1)
      else if bt < 4 + lss.dataLen.toNat then .error (4 + lss.dataLen.toNat - bt : Nat)
      else .ok () := by
  have hd := lss.dataLen_lt
  have hle := h.le
  have hb := h.bound
  simp only [lssPackIntegrityCheck,
    toInt_eq (n := lss.dataLen.toNat + 4 - bt) (by omega) (by omega)]
  split
  case isTrue h₁ => rfl
  case isFalse h₁ =>
    split <;> split
    case isTrue.isTrue   => congr 1; omega
    case isTrue.isFalse  => omega
    case isFalse.isTrue  => omega
    case isFalse.isFalse => rfl

theorem restLen_eq (h : Holds bt lss) (hf : 4 + lss.dataLen.toNat ≤ bt) :
    toInt (bt - (4 + lss.dataLen.toNat)) = (bt - (4 + lss.dataLen.toNat) : Nat) := by
  have hle := h.le
  have hb := h.bound
  rw [toInt_eq (by omega) (by omega)]
  omega

theorem cutLss_eq (lss : Packet) :
    cutLss (4 + lss.dataLen.toNat) bt lss =
      if bt < 4 + lss.dataLen.toNat + 4 then none else some (cutPacket bt lss) :=
  rfl

theorem writeNext_eq (h : Holds bt lss) (hf : 4 + lss.dataLen.toNat ≤ bt) :
    writeNext bt (toInt (bt - (4 + lss.dataLen.toNat))) lss =
      if bt < 4 + lss.dataLen.toNat + 4 then .writeHandler
      else .readHandler (bt - (4 + lss.dataLen.toNat)) (cutPacket bt lss) := by
  have hs : ((bt : Int) - (bt - (4 + lss.dataLen.toNat) : Nat)).toNat = 4 + lss.dataLen.toNat := by
    omega
  rw [restLen_eq h hf, writeNext, hs, cutLss_eq]
  by_cases hb : bt < 4 + lss.dataLen.toNat + 4
  case pos => simp only [hb, if_true]
  case neg =>
    have hpos : (bt - (4 + lss.dataLen.toNat) : Nat) > (0 : Int) := by omega
    simp only [hb, hpos, if_true, if_false, Int.toNat_natCast]

section Entry

theorem length_entry (h : Pending lss rest) (hd : d.length ≤ offered lss rest) :
    (entry lss rest d).2.data.length = lss.data.length + rest := by
  cases h
  case fresh h =>
    simpa [entry, readCompleted, rectify] using Packet.length_fill (by simpa [offered] using hd)
  case more h he =>
    have hne : rest ≠ 0 := by omega
    have hl : (overwrite (zeros rest) d).length = rest := by
      simpa using length_overwrite (show d.length ≤ (zeros rest).length by
        simpa [offered, hne] using hd)
    simp [entry, readCompleted, rectify, hne, hl, h]

theorem entry_holds (h : Pending lss rest) (hd : d.length ≤ offered lss rest) :
    Holds (entry lss rest d).1 (entry lss rest d).2 := by
  have hl := length_entry h hd
  have hlt := lss.dataLen_lt
  cases h
  case fresh h =>
    have hm : maxLength = 4096 := rfl
    refine ⟨?_, by omega⟩
    simp only [entry, readCompleted, rectify, offered] at hd hl ⊢
    simp at hd hl ⊢
    omega
  case more h he =>
    have hne : rest ≠ 0 := by omega
    have hl' : (overwrite (zeros rest) d).length = rest := by
      simpa using length_overwrite (show d.length ≤ (zeros rest).length by
        simpa [offered, hne] using hd)
    refine ⟨?_, by omega⟩
    rw [hl]
    simp [offered, hne] at hd
    simp [entry, readCompleted, rectify, hne, hl', h]
    omega

theorem held_entry (h : Pending lss rest) (hd : d.length ≤ offered lss rest) :
    held (entry lss rest d).1 (entry lss rest d).2 = heldBefore lss rest ++ d := by
  cases h
  case fresh => simp [entry, readCompleted, rectify, held, heldBefore, Packet.toData_fill]
  case more h he =>
    have hne : rest ≠ 0 := by omega
    have hl : (overwrite (zeros rest) d).length = rest := by
      simpa using length_overwrite (show d.length ≤ (zeros rest).length by
        simpa [offered, hne] using hd)
    have ht (buf : Data) : ({ lss with data := lss.data ++ buf } : Packet).toData =
        lss.toData ++ buf := by
      simp [Packet.toData]
    simp only [entry, readCompleted, rectify, held, heldBefore, hne, if_false, hl, h, if_true, ht]
    rw [show d.length + (lss.data.length + 4) = lss.toData.length + d.length by simp; omega,
      List.take_length_add_append, take_overwrite]

-- A failed read leaves its buffer as it was.
theorem rectify_failed_holds (h : Pending lss rest) :
    Holds (rectify 0 lss (zeros rest)).1 (rectify 0 lss (zeros rest)).2 := by
  have he : entry lss rest [] = rectify 0 lss (zeros rest) := by
    by_cases hr : rest = 0
    case pos => subst hr; rfl
    case neg => simp [entry, readCompleted, hr, overwrite]
  exact he ▸ entry_holds h (Nat.zero_le _)

end Entry

theorem length_held (h : Holds bt lss) : (held bt lss).length = bt := by
  simpa [held] using h.le

-- What has been received is a packet, or a part of it with its header.
theorem startsWith_of_held {p : Packet} (h : held bt lss = p.toData) : lss.StartsWith p := by
  rw [Packet.StartsWith, ← h]
  exact List.take_prefix ..

theorem eq_size_of_held {p : Packet} (hh : Holds bt lss) (hf : p.Framed)
    (h : held bt lss = p.toData) : bt = 4 + lss.dataLen.toNat := by
  have hl := congrArg List.length h
  rw [length_held hh, Packet.length_toData] at hl
  rw [(startsWith_of_held h).header.2, hf]
  exact hl

-- The header says how much of a packet is missing.
theorem size_of_held {p : Packet} {rest : Data} (hh : Holds bt lss) (hf : p.Framed)
    (h₄ : 4 ≤ bt) (h : held bt lss ++ rest = p.toData) :
    4 + lss.dataLen.toNat = bt + rest.length := by
  have hlen := congrArg List.length h
  rw [List.length_append, length_held hh, Packet.length_toData] at hlen
  have hhead : lss.toData.take 4 = p.toData.take 4 := by
    rw [← h, List.take_append_of_le_length (by rw [length_held hh]; exact h₄), held,
      List.take_take, Nat.min_eq_left h₄]
  have hd : lss.dataLen = p.dataLen := by
    simp only [Packet.toData, List.cons_append, List.nil_append, List.take_succ_cons,
      List.take_zero, List.cons.injEq, and_true] at hhead
    rw [Packet.dataLen, Packet.dataLen, hhead.2.2.1, hhead.2.2.2]
  rw [hd, hf]
  exact hlen.symm

theorem lt_size_of_held {p : Packet} {rest : Data} (hh : Holds bt lss) (hf : p.Framed)
    (h₄ : 4 ≤ bt) (hn : rest ≠ []) (h : held bt lss ++ rest = p.toData) :
    bt < 4 + lss.dataLen.toNat := by
  have := size_of_held hh hf h₄ h
  have := List.length_pos_iff.mpr hn
  omega

theorem toData_trim (h : Holds bt lss) (h₄ : 4 ≤ bt) : (trim bt lss).toData = held bt lss := by
  have hle := h.le
  have ⟨n, he⟩ : ∃ n, bt = n + 4 := ⟨bt - 4, by omega⟩
  subst he
  unfold trim
  split
  case isTrue  => rfl
  case isFalse => exact (List.take_of_length_le (by simp; omega)).symm

@[simp]
theorem dataLen_trim : (trim bt lss).dataLen = lss.dataLen := by
  unfold trim
  split <;> rfl

theorem length_trim (h : Holds bt lss) (h₄ : 4 ≤ bt) : 4 + (trim bt lss).data.length = bt := by
  have := congrArg List.length (toData_trim h h₄)
  simpa [length_held h] using this

theorem trim_pending (h : Holds bt lss) (h₄ : 4 ≤ bt) (hm : bt < 4 + lss.dataLen.toNat) :
    Pending (trim bt lss) (4 + lss.dataLen.toNat - bt) := by
  have hl := length_trim h h₄
  exact .more (by omega) (by simp; omega)

-- The bytes from `start` on, taken one by one for a header and at once for the data after it.
theorem four_append_drop {buf : Data} {start : Nat} (h : start + 4 ≤ bt) (hb : bt ≤ buf.length) :
    [buf.getD start 0, buf.getD (start + 1) 0, buf.getD (start + 2) 0, buf.getD (start + 3) 0] ++
      (buf.take bt).drop (start + 4) = (buf.take bt).drop start := by
  have hlt {i : Nat} (hi : i < bt) : i < (buf.take bt).length := by
    rw [List.length_take]
    omega
  have get {i : Nat} (hi : i < bt) : buf.getD i 0 = (buf.take bt).get ⟨i, hlt hi⟩ := by
    simp [List.getElem?_eq_getElem (show i < buf.length by omega)]
  rw [get (show start < bt by omega), get (show start + 1 < bt by omega),
    get (show start + 2 < bt by omega), get (show start + 3 < bt by omega)]
  simp only [List.get_eq_getElem, List.cons_append, List.nil_append]
  iterate 4 rw [List.cons_getElem_drop_succ]

theorem toData_cutPacket (h : Holds bt lss) (hb : 4 + lss.dataLen.toNat + 4 ≤ bt) :
    (cutPacket bt lss).toData = (held bt lss).drop (4 + lss.dataLen.toNat) :=
  four_append_drop hb (by simpa using h.le)

theorem length_cutPacket (h : Holds bt lss) (hb : 4 + lss.dataLen.toNat + 4 ≤ bt) :
    4 + (cutPacket bt lss).data.length = bt - (4 + lss.dataLen.toNat) := by
  have := congrArg List.length (toData_cutPacket h hb)
  simpa [length_held h] using this

theorem holds_cutPacket (h : Holds bt lss) (hb : 4 + lss.dataLen.toNat + 4 ≤ bt) :
    Holds (bt - (4 + lss.dataLen.toNat)) (cutPacket bt lss) := by
  have hl := length_cutPacket h hb
  have hle := h.le
  have hbound := h.bound
  exact ⟨by omega, by omega⟩

end Lproxy
