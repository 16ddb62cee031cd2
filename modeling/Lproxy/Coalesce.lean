import Lproxy.Local.Reading
import Lproxy.Server.Reading

-- A read that returns several frames has the effect of reads that return one frame each.
namespace Lproxy

-- The packet of a new read that has returned `r`, without the filler after it.
def readPacket (r : Data) : Packet :=
  let lss := (Packet.receiving maxLength).fill r
  { lss with data := lss.data.take (r.length - 4) }

namespace ReadHandler

variable {σ κ : Type*} (x : ReadHandler σ κ)

-- From a call on, some payloads are written one after the other. The handler is called again when
-- each of the writes is done, the last time for `bt` bytes in `lss`.
inductive Writes (aes : Crypto.Aes) : (κ → σ → σ) → List Data → Nat → Packet → Prop
  | last {call : κ → σ → σ} {plain : Data} {bt : Nat} {lss : Packet}
    (h : ∀ k s, x.Established aes s → call k s = x.write aes s plain (.readHandler bt lss)) :
    Writes aes call [plain] bt lss
  | cons {call : κ → σ → σ} {plain : Data} {plains : List Data} {bt bt' : Nat} {lss lss' : Packet}
    (h : ∀ k s, x.Established aes s → call k s = x.write aes s plain (.readHandler bt' lss'))
    (w : Writes aes (x.writeDone · · plain (.readHandler bt' lss')) plains bt lss) :
    Writes aes call (plain :: plains) bt lss

-- A call of the handler starts a write after which the handler is called again.
def Reenters (b b' : Nat × Packet) : Prop :=
  ∃ k s l, x.nexts (x.handle k s b.1 b.2) = x.nexts s ++ l ∧ .readHandler b'.1 b'.2 ∈ l

-- The handler is called `n` times again.
inductive Reentries : Nat → Nat × Packet → Nat × Packet → Prop
  | zero {b : Nat × Packet} : Reentries 0 b b
  | succ {n : Nat} {b b' b'' : Nat × Packet} (h : x.Reenters b b') (r : Reentries n b' b'') :
    Reentries (n + 1) b b''

-- One read that returns frames and `r` does what reads of the frames and of `r` do.
structure Coalesces : Prop where
  -- One read: the payloads are written, and then the handler gets what is left.
  coalesced : ∀ aes n (fs : List Frame) (r : Data), n ≤ maxLength → fs ≠ [] → 4 ≤ r.length →
    (stream fs ++ r).length ≤ 4 + n →
      x.Writes aes (x.readDone · · (.receiving n) 0 (stream fs ++ r))
        (fs.map fun f => x.decrypt aes f.packet.data) r.length (readPacket r)
  -- A read for each of the frames: the same payloads are written, and then there is a new read.
  separate : ∀ aes n (f : Frame), n ≤ maxLength → f.size ≤ 4 + n → ∀ k s, x.Established aes s →
    x.readDone k s (.receiving n) 0 f.bytes =
      x.write aes s (x.decrypt aes f.packet.data) .writeHandler
  fresh : ∀ aes k s plain, x.Established aes s →
    x.writeDone k s plain .writeHandler = x.read s (.receiving maxLength) 0
  -- What is left is handled as if the new read had returned it, in every state of the session.
  same : ∀ r : Data, 4 ≤ r.length → r.length ≤ 4 + maxLength → ∀ k s plain,
    x.writeDone k s plain (.readHandler r.length (readPacket r)) =
      x.readDone k s (.receiving maxLength) 0 r
  established : ∀ aes s plain next, x.Established aes s →
    x.Established aes (x.write aes s plain next)
  -- Every call after the first takes at least four bytes, whatever they are.
  finite : ∀ lss rest d, Pending lss rest → d.length ≤ offered lss rest → ∀ n b,
    x.Reentries n (entry lss rest d) b → 4 * n + b.1 ≤ (entry lss rest d).1

end ReadHandler

section

variable {bt n : Nat} {lss : Packet} {f : Frame} {r d : Data}

theorem toData_injective : Packet.toData.Injective := by
  intro p q h
  cases p
  cases q
  simpa [Packet.toData] using h

theorem entry_receiving (n : Nat) (d : Data) :
    entry (.receiving n) 0 d = (d.length, (Packet.receiving n).fill d) :=
  rfl

theorem holds_fill (hn : n ≤ maxLength) (hd : d.length ≤ 4 + n) :
    Holds d.length ((Packet.receiving n).fill d) ∧
      held d.length ((Packet.receiving n).fill d) = d := by
  have hp := pending_receiving hn
  have ho : d.length ≤ offered (.receiving n) 0 := by simpa [offered] using hd
  exact ⟨entry_holds hp ho, held_entry hp ho⟩

theorem readPacket_eq (h₄ : 4 ≤ r.length) (hr : r.length ≤ 4 + maxLength) :
    readPacket r = trim r.length ((Packet.receiving maxLength).fill r) :=
  (trim_eq (holds_fill le_rfl hr).1 h₄).symm

theorem toData_readPacket (h₄ : 4 ≤ r.length) (hr : r.length ≤ 4 + maxLength) :
    (readPacket r).toData = r := by
  have ⟨hh, hd⟩ := holds_fill le_rfl hr
  rw [readPacket_eq h₄ hr, toData_trim hh h₄, hd]

theorem holds_readPacket (h₄ : 4 ≤ r.length) (hr : r.length ≤ 4 + maxLength) :
    Holds r.length (readPacket r) ∧ held r.length (readPacket r) = r := by
  refine ⟨readPacket_eq h₄ hr ▸ holds_trim (holds_fill le_rfl hr).1 h₄, ?_⟩
  rw [held, toData_readPacket h₄ hr, List.take_length]

-- What `cut_lss` leaves of a frame and what follows it.
theorem cutPacket_eq (h : Holds bt lss) (he : held bt lss = f.bytes ++ r) (h₄ : 4 ≤ r.length)
    (hr : r.length ≤ 4 + maxLength) : cutPacket bt lss = readPacket r := by
  have hl := length_held h
  rw [he, List.length_append, f.length_bytes] at hl
  have hf := f.four_le_size
  have he' : held bt lss ++ [] = f.bytes ++ r := by rw [List.append_nil, he]
  have ⟨_, hd⟩ := front_header h (by omega) he'
  have hs : 4 + lss.dataLen.toNat = f.size := by rw [hd, f.size_eq]
  apply toData_injective
  rw [toData_cutPacket h (by omega), toData_readPacket h₄ hr, he, hs,
    List.drop_left' f.length_bytes]

end

namespace ReadHandler.Lawful

variable {σ κ : Type*} {x : ReadHandler σ κ} {aes : Crypto.Aes} {bt n : Nat} {lss : Packet}
  {f : Frame} {fs : List Frame} {r : Data}

-- A frame is complete, and perhaps there is more.
theorem handle_frame (l : x.Lawful) (h : Holds bt lss) (he : held bt lss = f.bytes ++ r)
    {k : κ} {s : σ} (hs : x.Established aes s) :
    x.handle k s bt lss = x.write aes s (x.decrypt aes f.packet.data)
      (if r.length < 4 then .writeHandler else .readHandler r.length (cutPacket bt lss)) := by
  have hl := length_held h
  rw [he, List.length_append, f.length_bytes] at hl
  have hf := f.four_le_size
  have he' : held bt lss ++ [] = f.bytes ++ r := by rw [List.append_nil, he]
  have ⟨ht, hd⟩ := front_header h (by omega) he'
  have ⟨hp, _⟩ := front_payload h (by omega) he'
  have hsize : 4 + lss.dataLen.toNat = f.size := by rw [hd, f.size_eq]
  have hdata : IsData lss := by
    have := f.isData
    rwa [IsData, ht]
  have hi : bt < 4 + lss.dataLen.toNat + 4 ↔ r.length < 4 := by omega
  have hr : bt - (4 + lss.dataLen.toNat) = r.length := by omega
  have hb : 4 + lss.dataLen.toNat ≤ bt := by omega
  rw [l.payload hs h hb hdata, hp, writeNext_eq h hb, hr]
  simp only [hi]

theorem handle_cons (l : x.Lawful) (h : Holds bt lss) (he : held bt lss = f.bytes ++ r)
    (h₄ : 4 ≤ r.length) (hr : r.length ≤ 4 + maxLength) {k : κ} {s : σ} (hs : x.Established aes s) :
    x.handle k s bt lss =
      x.write aes s (x.decrypt aes f.packet.data) (.readHandler r.length (readPacket r)) := by
  rw [l.handle_frame h he hs, if_neg (Nat.not_lt.mpr h₄), cutPacket_eq h he h₄ hr]

theorem writes (l : x.Lawful) (aes : Crypto.Aes) (h : Holds bt lss)
    (he : held bt lss = stream fs ++ r) (hn : fs ≠ []) (h₄ : 4 ≤ r.length)
    (hr : (stream fs ++ r).length ≤ 4 + maxLength) :
    x.Writes aes (x.handle · · bt lss) (fs.map fun f => x.decrypt aes f.packet.data) r.length
      (readPacket r) := by
  induction fs generalizing bt lss
  case nil => exact absurd rfl hn
  case cons f fs hi =>
    rw [stream_cons, List.append_assoc] at he hr
    rw [List.length_append] at hr
    by_cases hfs : fs = []
    case pos =>
      subst hfs
      exact .last fun k s hs => l.handle_cons h he h₄ (by simpa using Nat.le_of_add_left_le hr) hs
    case neg =>
      have hr' : (stream fs ++ r).length ≤ 4 + maxLength := Nat.le_of_add_left_le hr
      have h₄' : 4 ≤ (stream fs ++ r).length := by rw [List.length_append]; omega
      have ⟨hh, hheld⟩ := holds_readPacket h₄' hr'
      refine .cons (fun k s hs => l.handle_cons h he h₄' hr' hs) ?_
      have hw := hi hh hheld hfs hr'
      have hc : (x.writeDone · · (x.decrypt aes f.packet.data)
          (.readHandler (stream fs ++ r).length (readPacket (stream fs ++ r)))) =
            (x.handle · · (stream fs ++ r).length (readPacket (stream fs ++ r))) :=
        funext₂ fun k s => l.reenter k s ..
      rw [hc]
      exact hw

-- A call takes at least the header of the frame that it has found.
theorem reenters {b b' : Nat × Packet} (l : x.Lawful) (h : Holds b.1 b.2) (e : x.Reenters b b') :
    Holds b'.1 b'.2 ∧ b'.1 + 4 ≤ b.1 := by
  have ⟨k, s, next, he, hm⟩ := e
  have ⟨next', he', hn⟩ := l.nexts h k s
  have heq := List.append_cancel_left (he.symm.trans he')
  have ⟨hb, hw⟩ := hn _ (heq ▸ hm)
  rw [writeNext_eq h hb] at hw
  split at hw
  case isTrue  => cases hw
  case isFalse hlt =>
    have hb₁ := (WriteNext.readHandler.inj hw).1
    have hb₂ := (WriteNext.readHandler.inj hw).2
    refine ⟨?_, by omega⟩
    rw [hb₁, hb₂]
    exact holds_cutPacket h (by omega)

theorem reentries {b b' : Nat × Packet} (l : x.Lawful) (h : Holds b.1 b.2)
    (r : x.Reentries n b b') : 4 * n + b'.1 ≤ b.1 := by
  induction r
  case zero        => omega
  case succ e r hi =>
    have ⟨hh, hle⟩ := l.reenters h e
    have := hi hh
    omega

theorem coalesces (l : x.Lawful) : x.Coalesces where
  coalesced aes n fs r hn hne h₄ hr := by
    have ⟨hh, hheld⟩ := holds_fill hn hr
    have hw := l.writes aes hh hheld hne h₄ (hr.trans (Nat.add_le_add_left hn 4))
    have hc : (x.readDone · · (.receiving n) 0 (stream fs ++ r)) =
        (x.handle · · (stream fs ++ r).length ((Packet.receiving n).fill (stream fs ++ r))) :=
      funext₂ fun k s => l.readDone k s ..
    rw [hc]
    exact hw
  separate aes n f hn hf k s hs := by
    have ⟨hh, hheld⟩ := holds_fill hn (f.length_bytes ▸ hf)
    have he := l.handle_frame (r := []) (k := k) hh (hheld.trans (List.append_nil _).symm) hs
    exact (l.readDone k s ..).trans he
  fresh aes k s plain hs := l.writeHandler hs k plain
  same r h₄ hr k s plain := by
    rw [l.reenter, l.readDone, entry_receiving, readPacket_eq h₄ hr]
    exact l.trimmed (holds_fill le_rfl hr).1 h₄ k s
  established aes s plain next hs := l.write hs plain next
  finite lss rest d hp hd n b r := l.reentries (entry_holds hp hd) r

end ReadHandler.Lawful

-- What a read returns at once is handled as if every frame of it had been read on its own, by the
-- server and by the local.
theorem coalesces_both : (∀ cfg, (Server.readHandler cfg).Coalesces) ∧
    ∀ cfg, (Local.readHandler cfg).Coalesces :=
  ⟨fun cfg => (Server.readHandler_lawful cfg).coalesces,
    fun cfg => (Local.readHandler_lawful cfg).coalesces⟩

end Lproxy
