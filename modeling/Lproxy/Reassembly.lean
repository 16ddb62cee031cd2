import Lproxy.Local.Reading
import Lproxy.Server.Reading

-- A frame that arrives in pieces is put together again.
namespace Lproxy

-- What the handler is called for: the packet of a read, or what has been cut off from another
-- packet.
inductive Entered : Nat → Packet → Prop
  | read {lss : Packet} {rest : Nat} {d : Data} (h : Pending lss rest)
    (hd : d.length ≤ offered lss rest) : Entered (entry lss rest d).1 (entry lss rest d).2
  | cut {bt : Nat} {lss : Packet} (h : Entered bt lss) (hb : 4 + lss.dataLen.toNat + 4 ≤ bt) :
    Entered (bt - (4 + lss.dataLen.toNat)) (cutPacket bt lss)

namespace ReadHandler

variable {σ κ : Type*} (x : ReadHandler σ κ)

-- The handler is called for the first `bt` bytes of a packet. The others arrive in pieces.
inductive Assembles (p : Packet) : (bt : Nat) → (lss : Packet) → (pieces : List Data) → Prop
  | complete {bt : Nat} {lss : Packet} (check : lssPackIntegrityCheck bt lss = .ok ())
    (size : bt = 4 + lss.dataLen.toNat) (dataLen : lss.dataLen = p.dataLen)
    (payload : lss.data.take lss.dataLen.toNat = p.data) : Assembles p bt lss []
  -- As many bytes are asked for as are missing. They are added to what has been received, without
  -- filler, and then the handler is called again.
  | more {bt rest : Nat} {lss : Packet} {d : Data} {ds : List Data}
    (missing : rest = (d :: ds).flatten.length) (less : ds.flatten.length < rest)
    (request : ∀ k s, x.handle k s bt lss = x.read s (trim bt lss) rest)
    (kept : (trim bt lss).toData = held bt lss)
    (next : ∀ k s, x.readDone k s (trim bt lss) rest d =
      x.handle k s (entry (trim bt lss) rest d).1 (entry (trim bt lss) rest d).2)
    (size : (entry (trim bt lss) rest d).1 = bt + d.length)
    (bytes : held (entry (trim bt lss) rest d).1 (entry (trim bt lss) rest d).2 = held bt lss ++ d)
    (a : Assembles p (entry (trim bt lss) rest d).1 (entry (trim bt lss) rest d).2 ds) :
    Assembles p bt lss (d :: ds)

-- Every frame of which the header has been received is put together, however the rest arrives.
structure Reassembles : Prop where
  fresh : ∀ k s n d, x.readDone k s (.receiving n) 0 d =
    x.handle k s d.length ((Packet.receiving n).fill d)
  cut : ∀ k s plain bt lss, x.writeDone k s plain (.readHandler bt lss) = x.handle k s bt lss
  assembles : ∀ (p : Packet) bt lss pieces, p.Framed → Entered bt lss → 4 ≤ bt →
    held bt lss ++ pieces.flatten = p.toData → (∀ d ∈ pieces, d ≠ []) → x.Assembles p bt lss pieces

end ReadHandler

theorem Entered.holds {bt : Nat} {lss : Packet} (h : Entered bt lss) : Holds bt lss := by
  induction h
  case read h hd   => exact entry_holds h hd
  case cut h hb hi => exact holds_cutPacket hi hb

namespace ReadHandler.Lawful

variable {σ κ : Type*} {x : ReadHandler σ κ} {bt : Nat} {lss p : Packet} {pieces : List Data}

theorem assembles (l : x.Lawful) (hf : p.Framed) (h : Holds bt lss) (h₄ : 4 ≤ bt)
    (he : held bt lss ++ pieces.flatten = p.toData) (hn : ∀ d ∈ pieces, d ≠ []) :
    x.Assembles p bt lss pieces := by
  induction pieces generalizing bt lss
  case nil =>
    have he : held bt lss = p.toData := by simpa using he
    have hs := startsWith_of_held he
    have hb := eq_size_of_held h hf he
    refine .complete ?_ hb hs.header.2 (hs.payload hf)
    rw [lssPackIntegrityCheck_eq h, if_neg (by omega), if_neg (by omega)]
  case cons d ds hi =>
    have ⟨hd, hn⟩ := List.forall_mem_cons.mp hn
    have hpos := List.length_pos_iff.mpr hd
    have hl : (d :: ds).flatten.length = d.length + ds.flatten.length := by simp
    have hs := size_of_held h hf h₄ he
    have hlt : bt < 4 + lss.dataLen.toNat := by omega
    have hm : 4 + lss.dataLen.toNat - bt = (d :: ds).flatten.length := by omega
    have hp := trim_pending h h₄ hlt
    have hkept := toData_trim h h₄
    have ho : d.length ≤ offered (trim bt lss) (4 + lss.dataLen.toNat - bt) := by
      rw [offered, if_neg (by omega)]
      omega
    have hheld := held_entry hp ho
    rw [heldBefore, if_neg (by omega), hkept] at hheld
    have hsize := length_held (entry_holds hp ho)
    rw [hheld, List.length_append, length_held h] at hsize
    have hc : lssPackIntegrityCheck bt lss = .error (4 + lss.dataLen.toNat - bt : Nat) := by
      rw [lssPackIntegrityCheck_eq h, if_neg (by omega), if_pos hlt]
    have hi := hi (entry_holds hp ho) (by omega) (by rw [hheld, List.append_assoc]; exact he) hn
    exact .more hm (by omega) (l.incomplete hc (by omega)) hkept
      (fun k s => l.readDone k s ..) hsize.symm hheld hi

theorem reassembles (l : x.Lawful) : x.Reassembles where
  fresh k s _ _                  := l.readDone k s ..
  cut k s _ _ _                  := l.reenter k s ..
  assembles _ _ _ _ hf h h₄ he hn := l.assembles hf h.holds h₄ he hn

end ReadHandler.Lawful

-- The server and the local put frames together.
theorem reassembles_both : (∀ cfg, (Server.readHandler cfg).Reassembles) ∧
    ∀ cfg, (Local.readHandler cfg).Reassembles :=
  ⟨fun cfg => (Server.readHandler_lawful cfg).reassembles,
    fun cfg => (Local.readHandler_lawful cfg).reassembles⟩

end Lproxy
