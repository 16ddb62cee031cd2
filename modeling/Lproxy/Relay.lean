import Lproxy.Receive
import Lproxy.Lib.Transition

-- The chain of a session that reads frames from one socket and writes their payloads to another, as
-- both sessions have it. How the stream of the frames is cut into reads is up to the network.
namespace Lproxy

-- A packet that carries data, with the length of its payload in its header.
structure Frame where
  packet : Packet
  framed : packet.Framed
  isData : IsData packet

namespace Frame

def bytes (f : Frame) : Data :=
  f.packet.toData

def size (f : Frame) : Nat :=
  4 + f.packet.data.length

@[simp]
theorem length_bytes (f : Frame) : f.bytes.length = f.size := by
  simp [bytes, size]

theorem four_le_size (f : Frame) : 4 ≤ f.size := by
  simp [size]

theorem size_eq (f : Frame) : 4 + f.packet.dataLen.toNat = f.size := by
  rw [size, f.framed]

theorem packet_injective : Function.Injective Frame.packet := by
  intro f g h
  cases f
  cases g
  cases h
  rfl

end Frame

-- The bytes of some frames, one frame after the other.
def stream (fs : List Frame) : Data :=
  fs.flatMap Frame.bytes

-- What is to be written for them.
def payloads (decrypt : Data → Data) (fs : List Frame) : Data :=
  fs.flatMap fun f => decrypt f.packet.data

-- Whether a position of the stream is inside the header of a frame.
def inHeader : List Frame → Nat → Bool
  | [], _      => false
  | f :: fs, n => if n < f.size then 0 < n ∧ n < 4 else inHeader fs (n - f.size)

@[simp]
theorem stream_nil : stream [] = [] :=
  rfl

@[simp]
theorem stream_cons (f : Frame) (fs : List Frame) : stream (f :: fs) = f.bytes ++ stream fs :=
  rfl

@[simp]
theorem stream_append (fs gs : List Frame) : stream (fs ++ gs) = stream fs ++ stream gs := by
  simp [stream]

@[simp]
theorem inHeader_zero (fs : List Frame) : inHeader fs 0 = false := by
  cases fs
  case nil       => rfl
  case cons f fs =>
    have := f.four_le_size
    simp [inHeader, show 0 < f.size by omega]

theorem inHeader_cons_add (f : Frame) (fs : List Frame) (n : Nat) :
    inHeader (f :: fs) (f.size + n) = inHeader fs n := by
  simp [inHeader]

theorem inHeader_append (fs gs : List Frame) (n : Nat) :
    inHeader (fs ++ gs) ((stream fs).length + n) = inHeader gs n := by
  induction fs
  case nil => simp
  case cons f fs ih =>
    rw [List.cons_append, stream_cons, List.length_append, f.length_bytes, Nat.add_assoc,
      inHeader_cons_add, ih]

-- What is sent later changes nothing about the positions before it.
theorem inHeader_append_right {fs : List Frame} {n : Nat} (h : inHeader fs n = false)
    (hn : n ≤ (stream fs).length) (gs : List Frame) : inHeader (fs ++ gs) n = false := by
  induction fs generalizing n
  case nil =>
    have hz : n = 0 := by simpa using hn
    rw [hz, inHeader_zero]
  case cons f fs ih =>
    by_cases hl : n < f.size
    case pos =>
      simp only [inHeader, hl, if_true, List.cons_append] at h ⊢
      exact h
    case neg =>
      have ⟨m, hm⟩ : ∃ m, n = f.size + m := ⟨n - f.size, by omega⟩
      subst hm
      rw [stream_cons, List.length_append, f.length_bytes] at hn
      rw [inHeader_cons_add] at h
      rw [List.cons_append, inHeader_cons_add]
      exact ih h (by omega)

-- A position in the first four bytes of a stream that is not in a header is the start.
theorem eq_zero_of_inHeader {fs : List Frame} {n : Nat} (h : inHeader fs n = false) (hn : n < 4)
    (hle : n ≤ (stream fs).length) : n = 0 := by
  cases fs
  case nil       => simpa using hle
  case cons f fs =>
    have := f.four_le_size
    simp [inHeader, show n < f.size by omega] at h
    omega

-- What the chain is doing: a read is outstanding, and perhaps some bytes have arrived; or the write
-- of a payload is outstanding or has been done.
inductive Stage
  | reading (lss : Packet) (rest : Nat) (arrived : Option Data)
  | writing (plain : Data) (next : WriteNext) (done : Bool)
  deriving DecidableEq

-- The handler of a read goes on with what is missing of a frame, or with a payload. In the end,
-- which `none` models, it does neither.
def enter (decrypt : Data → Data) (bt : Nat) (lss : Packet) : Option Stage :=
  match lssPackIntegrityCheck bt lss with
  | .error less => if less > 0 then some (.reading (trim bt lss) less.toNat none) else none
  | .ok ()      =>
    if IsData lss then
      some (.writing (decrypt (lss.data.take lss.dataLen.toNat))
        (writeNext bt (toInt (bt - (4 + lss.dataLen.toNat))) lss) false)
    else none

namespace Stage

-- The bytes that have been received and belong to no payload that is written already.
def held : Stage → Data
  | reading lss rest arrived            => heldBefore lss rest ++ arrived.getD []
  | writing _ (.readHandler bt lss) _   => Lproxy.held bt lss
  | writing _ .writeHandler _           => []

def plain : Stage → Data
  | reading ..        => []
  | writing plain _ _ => plain

-- The handler that runs when the operation has completed.
def proceed (decrypt : Data → Data) : Stage → Option Stage
  | reading lss rest (some d)             =>
    enter decrypt (entry lss rest d).1 (entry lss rest d).2
  | writing _ (.readHandler bt lss) true  => enter decrypt bt lss
  | writing _ .writeHandler true          => some (.reading (.receiving maxLength) 0 none)
  | _                                     => none

-- The buffers of the operation.
inductive Valid : Stage → Prop
  | reading {lss : Packet} {rest : Nat} (p : Pending lss rest) : Valid (.reading lss rest none)
  | arrived {lss : Packet} {rest : Nat} {d : Data} (p : Pending lss rest) (ne : d ≠ [])
    (le : d.length ≤ offered lss rest) : Valid (.reading lss rest (some d))
  | more {plain : Data} {bt : Nat} {lss : Packet} {done : Bool} (h : Holds bt lss) (four : 4 ≤ bt) :
    Valid (.writing plain (.readHandler bt lss) done)
  | last {plain : Data} {done : Bool} : Valid (.writing plain .writeHandler done)

-- What is left to be done about the bytes that have been received.
def cost (g : Stage) : Nat :=
  3 * g.held.length + match g with
    | reading _ _ none     => 0
    | reading _ _ (some _) => 1
    | writing _ _ false    => 2
    | writing _ _ true     => 1

-- Whether a handler is ready to run.
def Ready : Stage → Prop
  | reading _ _ arrived => arrived.isSome
  | writing _ _ done    => done

end Stage

section Front

variable {bt : Nat} {lss : Packet} {f : Frame} {more unread : Data}

-- The header of the frame at the front, and then the payload, are read as they have been sent.
theorem front_header (h : Holds bt lss) (h₄ : 4 ≤ bt)
    (he : held bt lss ++ unread = f.bytes ++ more) :
    lss.type = f.packet.type ∧ lss.dataLen = f.packet.dataLen := by
  have hl : (held bt lss).length = bt := length_held h
  have h₁ : (held bt lss ++ unread).take 4 = lss.toData.take 4 := by
    rw [List.take_append_of_le_length (by omega), held, List.take_take, Nat.min_eq_left h₄]
  have h₂ : (f.bytes ++ more).take 4 = f.packet.toData.take 4 :=
    List.take_append_of_le_length (by simpa using f.four_le_size)
  have ht : lss.toData.take 4 = f.packet.toData.take 4 := by
    rw [← h₁, he, h₂]
  simp only [Packet.toData, List.cons_append, List.nil_append, List.take_succ_cons,
    List.take_zero, List.cons.injEq] at ht
  obtain ⟨_, ht, hh, hl, _⟩ := ht
  exact ⟨ht, by rw [Packet.dataLen, Packet.dataLen, hh, hl]⟩

theorem front_payload (h : Holds bt lss) (hb : f.size ≤ bt)
    (he : held bt lss ++ unread = f.bytes ++ more) :
    lss.data.take lss.dataLen.toNat = f.packet.data ∧
      (held bt lss).drop f.size ++ unread = more := by
  have hl : (held bt lss).length = bt := length_held h
  have h₄ := f.four_le_size
  have hf := f.length_bytes
  have ⟨_, hlen⟩ := front_header h (by omega) he
  constructor
  case left =>
    have h₁ : (held bt lss).take f.size = f.bytes := by
      have := congrArg (List.take f.size) he
      rwa [List.take_append_of_le_length (by omega), List.take_left' hf] at this
    have h₂ : (held bt lss).take f.size = lss.toData.take f.size := by
      rw [held, List.take_take, Nat.min_eq_left hb]
    have h₃ := congrArg (List.drop 4) (h₂.symm.trans h₁)
    rw [List.drop_take, Packet.drop_toData, Frame.bytes, Packet.drop_toData] at h₃
    rw [Frame.size, Nat.add_sub_cancel_left] at h₃
    rw [hlen, f.framed, h₃]
  case right =>
    have := congrArg (List.drop f.size) he
    rwa [List.drop_append_of_le_length (by omega), List.drop_left' hf] at this

-- What is missing of a frame is what a read of its rest offers room for.
theorem front_rest {rest : Nat} (he : lss.data.length + rest = lss.dataLen.toNat)
    (hb : lss.toData ++ unread = f.bytes ++ more) : f.size = lss.toData.length + rest := by
  have hlt := lss.dataLen_lt
  have hh : Holds (4 + lss.data.length) lss := ⟨le_rfl, by omega⟩
  have hheld : held (4 + lss.data.length) lss = lss.toData :=
    List.take_of_length_le (by simp)
  have ⟨_, hd⟩ := front_header hh (by omega) (hheld ▸ hb)
  have hs := f.size_eq
  rw [← hd] at hs
  rw [Packet.length_toData]
  omega

end Front

-- The state of the chain, with the bytes of the stream that have not been read and those that have
-- been written.
structure Relay where
  stage : Stage
  unread : Data
  written : Data

-- The chain has written the payloads of the frames `before`, and the frames `after` are to come. No
-- read has ended inside a header.
structure Relay.At (decrypt : Data → Data) (before after : List Frame) (r : Relay) : Prop where
  valid : r.stage.Valid
  bytes : r.stage.held ++ r.unread = stream after
  cut : inHeader after r.stage.held.length = false
  written : r.written = payloads decrypt before

section Enter

variable {decrypt : Data → Data} {bt : Nat} {lss : Packet} {unread : Data} {after : List Frame}

theorem enter_more (h : Holds bt lss) (h₄ : 4 ≤ bt) (hl : bt < 4 + lss.dataLen.toNat) :
    enter decrypt bt lss = some (.reading (trim bt lss) (4 + lss.dataLen.toNat - bt) none) := by
  have hlt : ¬bt < 4 := by omega
  have hpos : ((4 + lss.dataLen.toNat - bt : Nat) : Int) > 0 := by omega
  simp only [enter, lssPackIntegrityCheck_eq h, hlt, hl, if_true, if_false, hpos, Int.toNat_natCast]

theorem enter_payload (h : Holds bt lss) (h₄ : 4 + lss.dataLen.toNat ≤ bt) (hd : IsData lss) :
    enter decrypt bt lss = some (.writing (decrypt (lss.data.take lss.dataLen.toNat))
      (if bt < 4 + lss.dataLen.toNat + 4 then .writeHandler
        else .readHandler (bt - (4 + lss.dataLen.toNat)) (cutPacket bt lss)) false) := by
  have h₁ : ¬bt < 4 := by omega
  have h₂ : ¬bt < 4 + lss.dataLen.toNat := by omega
  simp only [enter, lssPackIntegrityCheck_eq h, h₁, h₂, if_false, hd, if_true, writeNext_eq h h₄]

-- The bytes that are left when a frame has been processed start with the next frame, and there are
-- none of them if they are fewer than a header.
theorem enter_rest {f : Frame} {fs : List Frame} (plain : Data) (h : Holds bt lss)
    (hb : f.size ≤ bt) (hlen : 4 + lss.dataLen.toNat = f.size)
    (he : (held bt lss).drop f.size ++ unread = stream fs)
    (hc : inHeader fs (bt - f.size) = false) {g : Stage}
    (hg : g = .writing plain (if bt < 4 + lss.dataLen.toNat + 4 then .writeHandler
      else .readHandler (bt - (4 + lss.dataLen.toNat)) (cutPacket bt lss)) false) :
    g.Valid ∧ g.held = (held bt lss).drop f.size := by
  have hl : ((held bt lss).drop f.size).length = bt - f.size := by
    rw [List.length_drop, length_held h]
  subst hg
  split
  case isTrue hs =>
    have hle : bt - f.size ≤ (stream fs).length := by
      rw [← he, List.length_append, hl]
      omega
    have hz : bt - f.size = 0 := eq_zero_of_inHeader hc (by omega) hle
    exact ⟨.last, (List.length_eq_zero_iff.mp (hl.trans hz)).symm⟩
  case isFalse hs =>
    have hlc := length_cutPacket h (by omega)
    refine ⟨.more (holds_cutPacket h (by omega)) (by omega), ?_⟩
    rw [Stage.held, held, List.take_of_length_le (by rw [Packet.length_toData]; omega),
      toData_cutPacket h (by omega), hlen]

-- The handler of a read goes on with the frame at the front of the stream.
theorem enter_at (decrypt : Data → Data) (h : Holds bt lss) (hpos : 0 < bt)
    (he : held bt lss ++ unread = stream after) (hc : inHeader after bt = false) :
    ∃ g, enter decrypt bt lss = some g ∧ g.Valid ∧ g.cost ≤ 3 * bt ∧
      (g.held = held bt lss ∧ (∃ lss rest, g = .reading lss rest none) ∨ ∃ f fs, after = f :: fs ∧
        g.held ++ unread = stream fs ∧ inHeader fs g.held.length = false ∧
        g.plain = decrypt f.packet.data) := by
  have hl : (held bt lss).length = bt := length_held h
  have hle : bt ≤ (stream after).length := by
    rw [← he, List.length_append, hl]
    omega
  have h₄ : 4 ≤ bt := by
    by_contra hlt
    have := eq_zero_of_inHeader hc (by omega) hle
    omega
  cases after
  case nil =>
    simp at hle
    omega
  case cons f fs =>
    obtain ⟨ht, hlen⟩ := front_header h h₄ he
    have hsize : 4 + lss.dataLen.toNat = f.size := by rw [hlen, f.size_eq]
    have hd : IsData lss := by
      have := f.isData
      rwa [IsData, ht]
    by_cases hb : bt < 4 + lss.dataLen.toNat
    case pos =>
      have hne : 4 + lss.dataLen.toNat - bt ≠ 0 := by omega
      have hheld : (Stage.reading (trim bt lss) (4 + lss.dataLen.toNat - bt) none).held =
          held bt lss := by
        simp [Stage.held, heldBefore, hne, toData_trim h h₄]
      refine ⟨_, enter_more h h₄ hb, .reading (trim_pending h h₄ hb), ?_, .inl ⟨hheld, _, _, rfl⟩⟩
      rw [Stage.cost, hheld, hl]
      rfl
    case neg =>
      obtain ⟨hp, hrest⟩ := front_payload h (by omega) he
      have hc' : inHeader fs (bt - f.size) = false := by
        rw [← inHeader_cons_add f, Nat.add_sub_cancel' (by omega)]
        exact hc
      obtain ⟨hv, hg⟩ := enter_rest (decrypt (lss.data.take lss.dataLen.toNat)) h
        (by omega) hsize hrest hc' rfl
      have := f.four_le_size
      refine ⟨_, enter_payload h (by omega) hd, hv, ?_, .inr ⟨f, fs, rfl, ?_, ?_, ?_⟩⟩
      · rw [Stage.cost, hg, List.length_drop, hl]
        show 3 * (bt - f.size) + 2 ≤ 3 * bt
        omega
      · rw [hg]
        exact hrest
      · rw [hg, List.length_drop, hl]
        exact hc'
      · rw [Stage.plain, hp]

end Enter

namespace Relay.At

variable {decrypt : Data → Data} {before after : List Frame} {r : Relay}

-- Bytes have arrived, and the last of them is not inside a header.
theorem arrive {lss : Packet} {rest : Nat} {d u w : Data}
    (a : At decrypt before after ⟨.reading lss rest none, d ++ u, w⟩) (ne : d ≠ [])
    (le : d.length ≤ offered lss rest)
    (hc : inHeader (before ++ after) ((stream (before ++ after)).length - u.length) = false) :
    At decrypt before after ⟨.reading lss rest (some d), u, w⟩ where
  valid := by
    cases a.valid with | reading p => exact .arrived p ne le
  bytes := by
    have := a.bytes
    simpa [Stage.held] using this
  cut := by
    have hb := a.bytes
    simp only [Stage.held, Option.getD_none, List.append_nil, ← List.append_assoc] at hb
    have hlen : (stream (before ++ after)).length - u.length =
        (stream before).length + (heldBefore lss rest ++ d).length := by
      rw [stream_append, ← hb]
      simp
      omega
    rwa [hlen, inHeader_append] at hc
  written := a.written

theorem write {plain u w : Data} {next : WriteNext}
    (a : At decrypt before after ⟨.writing plain next false, u, w⟩) :
    At decrypt before after ⟨.writing plain next true, u, w⟩ where
  valid := by
    cases a.valid
    case more h four => exact .more h four
    case last        => exact .last
  bytes := by cases next <;> exact a.bytes
  cut := by cases next <;> exact a.cut
  written := a.written

-- What is at the front of the stream when a handler is about to run.
theorem entered {bt : Nat} {lss : Packet} (a : At decrypt before after r) (h : Holds bt lss)
    (hpos : 0 < bt) (he : r.stage.held = held bt lss) :
    ∃ g before' after', enter decrypt bt lss = some g ∧ before' ++ after' = before ++ after ∧
      At decrypt before' after' ⟨g, r.unread, r.written ++ g.plain⟩ ∧ g.cost ≤ 3 * bt := by
  have hb := a.bytes
  have hc := a.cut
  rw [he] at hb hc
  rw [length_held h] at hc
  have ⟨g, hg, hv, hcost, hn⟩ := enter_at decrypt h hpos hb hc
  cases hn
  case inl hn =>
    have ⟨hheld, _, _, hread⟩ := hn
    refine ⟨g, before, after, hg, rfl, ⟨hv, by rw [hheld]; exact hb, ?_, ?_⟩, hcost⟩
    · rw [hheld, length_held h]
      exact hc
    · rw [hread, Stage.plain, List.append_nil]
      exact a.written
  case inr hn =>
    have ⟨f, fs, hf, hbytes, hcut, hplain⟩ := hn
    refine ⟨g, before ++ [f], fs, hg, by simp [hf], ⟨hv, hbytes, hcut, ?_⟩, hcost⟩
    rw [hplain, a.written]
    simp [payloads]

-- A handler that runs goes on with the next frame, or waits for more bytes.
theorem handle (a : At decrypt before after r) (hr : r.stage.Ready) :
    ∃ g before' after', r.stage.proceed decrypt = some g ∧
      before' ++ after' = before ++ after ∧
      At decrypt before' after' ⟨g, r.unread, r.written ++ g.plain⟩ ∧ g.cost < r.stage.cost := by
  cases hs : r.stage
  case reading lss rest arrived =>
    have hv := a.valid
    rw [hs] at hv hr
    cases hv with
    | reading         => cases hr
    | @arrived _ _ d p ne le =>
      have hh := entry_holds p le
      have hheld := held_entry p le
      have hpos : 0 < (entry lss rest d).1 := by
        rw [← length_held hh, hheld, List.length_append]
        have := List.length_pos_iff.mpr ne
        omega
      have ⟨g, before', after', hg, happ, ha, hcost⟩ :=
        a.entered hh hpos (by rw [hs, hheld, Stage.held, Option.getD_some])
      refine ⟨g, before', after', hg, happ, ha, ?_⟩
      have hlen := length_held hh
      rw [hheld] at hlen
      have hc : (Stage.reading lss rest (some d)).cost = 3 * (entry lss rest d).1 + 1 := by
        rw [Stage.cost, Stage.held, Option.getD_some, hlen]
      omega
  case writing plain next done =>
    have hv := a.valid
    rw [hs] at hv hr
    cases hr
    cases hv
    case more h four =>
      have ⟨g, before', after', hg, happ, ha, hcost⟩ :=
        a.entered h (by omega) (by rw [hs, Stage.held])
      refine ⟨g, before', after', hg, happ, ha, ?_⟩
      show g.cost < 3 * (Lproxy.held _ _).length + 1
      rw [length_held h]
      exact Nat.lt_succ_of_le hcost
    case last =>
      have hb := a.bytes
      have hc := a.cut
      rw [hs] at hb hc
      refine ⟨_, before, after, rfl, rfl, ⟨?_, hb, hc, ?_⟩, Nat.zero_lt_one⟩
      · exact .reading (pending_receiving le_rfl)
      · rw [Stage.plain, List.append_nil]
        exact a.written

-- More frames are sent.
theorem extend {g : Stage} {u w : Data} (a : At decrypt before after ⟨g, u, w⟩)
    (fs : List Frame) : At decrypt before (after ++ fs) ⟨g, u ++ stream fs, w⟩ where
  valid := a.valid
  bytes := by
    have hb := a.bytes
    simp only [← List.append_assoc] at hb ⊢
    rw [hb, stream_append]
  cut := by
    have hlen := congrArg List.length a.bytes
    rw [List.length_append] at hlen
    exact inHeader_append_right a.cut (by omega) fs
  written := a.written

-- While a read is outstanding, some of the frame at the front is missing.
theorem held_lt {f : Frame} {lss : Packet} {rest : Nat} {u w : Data}
    (a : At decrypt before (f :: after) ⟨.reading lss rest none, u, w⟩) :
    (Stage.reading lss rest none).held.length < f.size := by
  have h₄ := f.four_le_size
  have hb := a.bytes
  simp only [Stage.held, Option.getD_none, List.append_nil] at hb ⊢
  cases a.valid with | reading p => ?_
  cases p
  case fresh =>
    rw [heldBefore, if_pos rfl, List.length_nil]
    omega
  case more hpos he =>
    rw [heldBefore, if_neg (by omega)] at hb ⊢
    have := front_rest he hb
    omega

-- When everything has been read and the chain waits for more, every payload has been written.
theorem finished {lss : Packet} {rest : Nat} {w : Data}
    (a : At decrypt before after ⟨.reading lss rest none, [], w⟩) : after = [] := by
  have hb := a.bytes
  simp only [Stage.held, Option.getD_none, List.append_nil] at hb
  cases after
  case nil       => rfl
  case cons f fs =>
    have hlt := a.held_lt
    have hlen := congrArg List.length hb
    simp only [Stage.held, Option.getD_none, List.append_nil] at hlt
    simp only [stream_cons, List.length_append, f.length_bytes] at hlen
    omega

-- A read that fills its buffers, or ends with the frame at the front, does not end inside a header.
theorem readable {lss : Packet} {rest : Nat} {u w : Data}
    (a : At decrypt before after ⟨.reading lss rest none, u, w⟩) (hu : u ≠ []) :
    ∃ d u', u = d ++ u' ∧ d ≠ [] ∧ d.length ≤ offered lss rest ∧
      inHeader (before ++ after) ((stream (before ++ after)).length - u'.length) = false ∧
      ∀ f ∈ after.head?, (heldBefore lss rest).length + d.length ≤ f.size := by
  have hb := a.bytes
  simp only [Stage.held, Option.getD_none, List.append_nil] at hb
  have hlen := congrArg List.length hb
  have hpos := List.length_pos_iff.mpr hu
  -- How much is read has to be such that its end is not inside a header.
  have cut (n : Nat) (hn : 0 < n) (hle : n ≤ u.length) (ho : n ≤ offered lss rest)
      (hc : inHeader after ((heldBefore lss rest).length + n) = false)
      (hs : ∀ f ∈ after.head?, (heldBefore lss rest).length + n ≤ f.size) :
      ∃ d u', u = d ++ u' ∧ d ≠ [] ∧ d.length ≤ offered lss rest ∧
        inHeader (before ++ after) ((stream (before ++ after)).length - u'.length) = false ∧
        ∀ f ∈ after.head?, (heldBefore lss rest).length + d.length ≤ f.size := by
    refine ⟨u.take n, u.drop n, (List.take_append_drop n u).symm, ?_, ?_, ?_, ?_⟩
    · exact List.length_pos_iff.mp (by rw [List.length_take]; omega)
    · rw [List.length_take]
      omega
    · rw [stream_append, List.length_append, ← hlen, List.length_append, List.length_drop,
        show (stream before).length + ((heldBefore lss rest).length + u.length) - (u.length - n) =
          (stream before).length + ((heldBefore lss rest).length + n) by omega, inHeader_append]
      exact hc
    · intro f hf
      have := hs f hf
      rw [List.length_take]
      omega
  cases after
  case nil       => simp_all
  case cons f fs =>
    have h₄ := f.four_le_size
    simp only [List.length_append, stream_cons, f.length_bytes] at hlen
    have hend : inHeader (f :: fs) f.size = false := by
      simpa using inHeader_cons_add f fs 0
    have front {n : Nat} (hn : (heldBefore lss rest).length + n ≤ f.size) :
        ∀ f' ∈ (f :: fs).head?, (heldBefore lss rest).length + n ≤ f'.size := by
      intro f' hf
      cases hf
      exact hn
    cases a.valid with | reading p => ?_
    cases p
    case fresh hm =>
      have hz : (heldBefore lss 0).length = 0 := by
        rw [heldBefore, if_pos rfl, List.length_nil]
      by_cases ho : f.size ≤ offered lss 0
      case pos =>
        exact cut f.size (by omega) (by omega) ho (by rwa [hz, Nat.zero_add]) (front (by omega))
      case neg =>
        have ho₄ : 4 ≤ offered lss 0 := by simp [offered]
        refine cut (offered lss 0) (by omega) (by omega) le_rfl ?_ (front (by omega))
        simp [hz, inHeader, show offered lss 0 < f.size by omega, ho₄]
    case more hr he =>
      have hne : rest ≠ 0 := by omega
      have hh : heldBefore lss rest = lss.toData := if_neg hne
      have hs := front_rest he (hh ▸ hb)
      rw [← hh] at hs
      exact cut rest hr (by omega) (by simp [offered, hne]) (hs ▸ hend) (front hs.ge)

end Relay.At

namespace Relay

-- One thing that happens to the chain. No read ends inside a header.
inductive Move (decrypt : Data → Data) (fs : List Frame) : Relay → Relay → Prop
  | arrive {lss : Packet} {rest : Nat} {d u w : Data} (ne : d ≠ [])
    (le : d.length ≤ offered lss rest)
    (cut : inHeader fs ((stream fs).length - u.length) = false) :
    Move decrypt fs ⟨.reading lss rest none, d ++ u, w⟩ ⟨.reading lss rest (some d), u, w⟩
  | write {plain u w : Data} {next : WriteNext} :
    Move decrypt fs ⟨.writing plain next false, u, w⟩ ⟨.writing plain next true, u, w⟩
  | handle {r : Relay} {g : Stage} (h : r.stage.proceed decrypt = some g) :
    Move decrypt fs r ⟨g, r.unread, r.written ++ g.plain⟩

-- Some of the frames have been written, and the others are to come.
def On (decrypt : Data → Data) (fs : List Frame) (r : Relay) : Prop :=
  ∃ before after, before ++ after = fs ∧ r.At decrypt before after

-- Everything has been read, and the chain waits for more.
def Idle (r : Relay) : Prop :=
  r.unread = [] ∧ ∃ lss rest, r.stage = .reading lss rest none

-- What is left to be done.
def work (r : Relay) : Nat :=
  5 * r.unread.length + r.stage.cost

end Relay

theorem Stage.ready_of_proceed {decrypt : Data → Data} {g g' : Stage}
    (h : g.proceed decrypt = some g') : g.Ready := by
  unfold Stage.proceed at h
  split at h
  case h_4 => cases h
  all_goals rfl

-- A handler that has run has started an operation.
theorem Stage.not_ready_of_proceed {decrypt : Data → Data} {g g' : Stage}
    (h : g.proceed decrypt = some g') : ¬g'.Ready := by
  have ofEnter {bt : Nat} {lss : Packet} (h : enter decrypt bt lss = some g') : ¬g'.Ready := by
    unfold enter at h
    split at h <;> split at h <;> cases h <;> nofun
  unfold Stage.proceed at h
  split at h
  case h_1 => exact ofEnter h
  case h_2 => exact ofEnter h
  case h_3 => cases h; nofun
  case h_4 => cases h

namespace Relay.On

variable {decrypt : Data → Data} {fs : List Frame} {r r' : Relay}

-- At first a new packet is being read.
theorem start {n : Nat} (h : n ≤ maxLength) :
    On decrypt fs ⟨.reading (.receiving n) 0 none, stream fs, []⟩ :=
  ⟨[], fs, rfl, .reading (pending_receiving h), rfl, inHeader_zero fs, rfl⟩

theorem move (o : On decrypt fs r) (m : Move decrypt fs r r') :
    On decrypt fs r' ∧ r'.work < r.work := by
  have ⟨before, after, hf, a⟩ := o
  cases m
  case write plain u w next =>
    have hheld : (Stage.writing plain next true).held = (Stage.writing plain next false).held := by
      cases next <;> rfl
    refine ⟨⟨before, after, hf, a.write⟩, ?_⟩
    show 5 * u.length + (3 * (Stage.writing plain next true).held.length + 1) <
      5 * u.length + (3 * (Stage.writing plain next false).held.length + 2)
    rw [hheld]
    omega
  case handle h =>
    have ⟨g, before', after', hg, hf', a', hc⟩ := a.handle (Stage.ready_of_proceed h)
    cases hg.symm.trans h
    exact ⟨⟨before', after', hf'.trans hf, a'⟩, Nat.add_lt_add_left hc _⟩
  case arrive d _ _ ne le cut =>
    subst hf
    refine ⟨⟨before, after, rfl, a.arrive ne le cut⟩, ?_⟩
    have := List.length_pos_iff.mpr ne
    simp [work, Stage.cost, Stage.held]
    omega

theorem extend {g : Stage} {u w : Data} (o : On decrypt fs ⟨g, u, w⟩) (gs : List Frame) :
    On decrypt (fs ++ gs) ⟨g, u ++ stream gs, w⟩ := by
  have ⟨before, after, hf, a⟩ := o
  exact ⟨before, after ++ gs, by rw [← List.append_assoc, hf], a.extend gs⟩

theorem unread_le (o : On decrypt fs r) : r.unread.length ≤ (stream fs).length := by
  have ⟨before, after, hf, a⟩ := o
  have hlen := congrArg List.length a.bytes
  rw [List.length_append] at hlen
  rw [← hf, stream_append, List.length_append]
  omega

theorem isPrefix (o : On decrypt fs r) : r.written <+: payloads decrypt fs := by
  have ⟨before, after, hf, a⟩ := o
  exact ⟨payloads decrypt after, by rw [a.written, ← hf]; simp [payloads]⟩

theorem written (o : On decrypt fs r) (h : r.Idle) : r.written = payloads decrypt fs := by
  have ⟨before, after, hf, a⟩ := o
  have ⟨hu, lss, rest, hs⟩ := h
  cases r
  cases hu
  cases hs
  rw [← hf, a.finished, List.append_nil]
  exact a.written

-- Until it waits in vain, the chain can move on.
theorem progress (o : On decrypt fs r) : r.Idle ∨ ∃ r', Move decrypt fs r r' := by
  have ⟨before, after, hf, a⟩ := o
  by_cases hr : r.stage.Ready
  case pos =>
    have ⟨g, _, _, hg, _⟩ := a.handle hr
    exact .inr ⟨_, .handle hg⟩
  case neg =>
    cases r with | mk stage u w => ?_
    cases stage
    case writing plain next done =>
      cases done
      case true  => exact absurd rfl hr
      case false => exact .inr ⟨_, .write⟩
    case reading lss rest arrived =>
      cases arrived
      case some => exact absurd rfl hr
      case none =>
        by_cases hu : u = []
        case pos => exact .inl ⟨hu, lss, rest, rfl⟩
        case neg =>
          have ⟨d, u', hd, ne, le, cut, _⟩ := a.readable hu
          subst hd hf
          exact .inr ⟨_, .arrive ne le cut⟩

end Relay.On

-- A system with a stream of bytes on its way to it refines the chain: each of its steps is one of
-- the chain or leaves the chain as it is, and whatever the chain can do next, it can do.
structure Relay.Refines {σ ℓ : Type*} (decrypt : Data → Data) (fs : List Frame)
    (step : σ × Data → ℓ → σ × Data → Prop) (rel : Relay → σ → Prop) : Prop where
  forth : ∀ {r s l t u}, rel r s → r.On decrypt fs → step (s, r.unread) l (t, u) →
    ∃ r', (r' = r ∨ r.Move decrypt fs r') ∧ r'.unread = u ∧ rel r' t
  back : ∀ {r s r'}, rel r s → r.stage.Valid → r.Move decrypt fs r' →
    ∃ l t, step (s, r.unread) l (t, r'.unread) ∧ rel r' t

namespace Relay.Refines

variable {σ ℓ : Type*} {decrypt : Data → Data} {fs : List Frame}
  {step : σ × Data → ℓ → σ × Data → Prop} {rel : Relay → σ → Prop} {r : Relay} {s : σ}
  {x : σ × Data}

-- The states of the system.
def Simulates (decrypt : Data → Data) (fs : List Frame) (rel : Relay → σ → Prop) (r : Relay)
    (x : σ × Data) : Prop :=
  r.unread = x.2 ∧ r.On decrypt fs ∧ rel r x.1

theorem reachable (h : Refines decrypt fs step rel) {n : Nat} (hn : n ≤ maxLength)
    (hr : rel ⟨.reading (.receiving n) 0 none, stream fs, []⟩ s)
    (hx : Transition.Reachable (· = (s, stream fs)) step x) :
    ∃ r, Simulates decrypt fs rel r x := by
  refine Transition.Invariant.reachable (P := fun x => ∃ r, Simulates decrypt fs rel r x)
    ⟨?init, ?step⟩ hx
  case init =>
    rintro _ rfl
    exact ⟨_, rfl, .start hn, hr⟩
  case step =>
    intro x l y ⟨r, hu, on, i⟩ e
    cases x
    cases hu
    have ⟨r', hr, hu', i'⟩ := h.forth i on e
    cases hr
    case inl hr => exact ⟨r', hu', hr ▸ on, i'⟩
    case inr m  => exact ⟨r', hu', (on.move m).1, i'⟩

theorem progress (h : Refines decrypt fs step rel) (hr : Simulates decrypt fs rel r x) : r.Idle ∨
    ∃ r' l y, step x l y ∧ Simulates decrypt fs rel r' y ∧ r'.work < r.work := by
  have ⟨hu, on, i⟩ := hr
  cases on.progress
  case inl idle => exact .inl idle
  case inr hm =>
    have ⟨r', m⟩ := hm
    have ⟨_, _, _, a⟩ := on
    have ⟨on', hw⟩ := on.move m
    have ⟨l, t, e, i'⟩ := h.back i a.valid m
    cases x
    cases hu
    exact .inr ⟨r', l, (t, r'.unread), e, ⟨rfl, on', i'⟩, hw⟩

-- From any state everything can be read and written.
theorem exists_idle (h : Refines decrypt fs step rel) (hr : Simulates decrypt fs rel r x) :
    ∃ r' y, Transition.Reachable (· = x) step y ∧ Simulates decrypt fs rel r' y ∧ r'.Idle :=
  Transition.Reachable.exists_final (Simulates decrypt fs rel) Relay.Idle Relay.work h.progress hr

end Relay.Refines

section Relayed

variable {ε : Type*} {out : ε → Data} {ends : ε → Bool} {log l : List ε} {written : Data} {e : ε}

-- Since the log was `log`, what a session has written is `written`, and it has not begun to end.
-- `out` are the bytes that are written in an event, and `ends` says whether it is a beginning of
-- the end.
def Relayed (out : ε → Data) (ends : ε → Bool) (log : List ε) (written : Data) (l : List ε) :
    Prop :=
  ∃ es, l = log ++ es ∧ es.flatMap out = written ∧ ∀ e ∈ es, ends e = false

namespace Relayed

theorem refl : Relayed out ends log [] log :=
  ⟨[], by simp⟩

theorem snoc (h : Relayed out ends log written l) (he : ends e = false) :
    Relayed out ends log (written ++ out e) (l ++ [e]) := by
  have ⟨es, hl, hw, hes⟩ := h
  refine ⟨es ++ [e], by rw [hl, List.append_assoc], ?_, ?_⟩
  · simp [← hw]
  · simpa [or_imp, forall_and, he] using hes

theorem quiet (h : Relayed out ends log written l) (hw : out e = []) (he : ends e = false) :
    Relayed out ends log written (l ++ [e]) := by
  simpa [hw] using h.snoc he

end Relayed
end Relayed
end Lproxy
