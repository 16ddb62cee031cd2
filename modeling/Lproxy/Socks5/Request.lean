import Lproxy.Socks5

-- Which inputs the constructor of a request accepts, and which bytes it reads.
namespace Lproxy.Socks5.Req

-- The indices that the constructor reads, in its order.
def reads (mem : Nat → Byte) (len : Nat) : List Nat :=
  if len < 7 then []
  else if mem 0 ≠ 0x05 then [0]
  else if mem 1 ≠ 0x01 ∧ mem 1 ≠ 0x02 ∧ mem 1 ≠ 0x03 then [0, 1]
  else if mem 2 ≠ 0x00 then [0, 1, 2]
  else if mem 3 = 0x01 then [0, 1, 2, 3] ++ .range' 4 4 ++ [8, 9]
  else if mem 3 = 0x03 then
    [0, 1, 2, 3, 4] ++ .range' 5 (mem 4).toNat ++ [5 + (mem 4).toNat, 6 + (mem 4).toNat]
  else if mem 3 = 0x04 then [0, 1, 2, 3] ++ .range' 4 16 ++ [20, 21]
  else [0, 1, 2, 3]

-- The first four bytes are those of a request.
structure Begins (p : Data) : Prop where
  version : p[0]? = some 0x05
  cmd : p[1]? = some 0x01 ∨ p[1]? = some 0x02 ∨ p[1]? = some 0x03
  reserved : p[2]? = some 0x00
  addrType : p[3]? = some 0x01 ∨ p[3]? = some 0x03 ∨ p[3]? = some 0x04

-- A complete request of RFC 1928, which other bytes may follow.
structure Complete (p : Data) : Prop extends Begins p where
  length : size p ≤ p.length

-- A request that has the length the constructor asks for, and from which bytes are missing.
structure Truncated (p : Data) : Prop extends Begins p where
  seven_le : 7 ≤ p.length
  length : p.length < size p

-- The fields are the bytes of the request.
structure OfBytes (p : Data) (r : Req) : Prop where
  cmd : p[1]? = some r.cmd
  addrType : p[3]? = some r.addrType
  destAddr : match r.destAddr with
    | .ipv4 ip         => r.addrType = 0x01 ∧ ip.toList = (p.drop 4).take 4
    | .domain len name =>
      r.addrType = 0x03 ∧ p[4]? = some len ∧ name = (p.drop 5).take len.toNat ∧
        name.length = len.toNat
    | .ipv6 ip         => r.addrType = 0x04 ∧ ip.toList = (p.drop 4).take 16
  destPort : ∃ high low, p[size p - 2]? = some high ∧ p[size p - 1]? = some low ∧
    r.destPort.toNat = 256 * high.toNat + low.toNat

-- The constructor reads nothing past the end, accepts the complete requests, and takes them apart.
structure Exact (p : Data) : Prop where
  inBounds : ∀ beyond, ∀ i ∈ reads (memory p beyond) p.length, i < p.length
  accepts : ∀ beyond, (∃ r, parse (memory p beyond) p.length = .ok r) ↔ Complete p
  fields : ∀ beyond r, parse (memory p beyond) p.length = .ok r → OfBytes p r

-- What is read if the first three bytes are those of a request.
def readsAddress (mem : Nat → Byte) : List Nat :=
  if mem 3 = 0x01 then [0, 1, 2, 3] ++ .range' 4 4 ++ [8, 9]
  else if mem 3 = 0x03 then
    [0, 1, 2, 3, 4] ++ .range' 5 (mem 4).toNat ++ [5 + (mem 4).toNat, 6 + (mem 4).toNat]
  else if mem 3 = 0x04 then [0, 1, 2, 3] ++ .range' 4 16 ++ [20, 21]
  else [0, 1, 2, 3]

theorem reads_eq {mem : Nat → Byte} {len : Nat} (hl : ¬len < 7) (h₀ : ¬mem 0 ≠ 0x05)
    (h₁ : ¬(mem 1 ≠ 0x01 ∧ mem 1 ≠ 0x02 ∧ mem 1 ≠ 0x03)) (h₂ : ¬mem 2 ≠ 0x00) :
    reads mem len = readsAddress mem := by
  rw [reads, if_neg hl, if_neg h₀, if_neg h₁, if_neg h₂, readsAddress]

-- The constructor depends on nothing but what it reads.
theorem parse_congr {mem mem' : Nat → Byte} {len : Nat} (h : ∀ i ∈ reads mem len, mem i = mem' i) :
    parse mem len = parse mem' len := by
  by_cases hl : len < 7
  case pos => simp [parse, hl]
  by_cases h₀ : mem 0 ≠ 0x05
  case pos =>
    have e₀ : mem 0 = mem' 0 := h 0 (by simp [reads, hl, h₀])
    simp [parse, hl, ← e₀, h₀]
  by_cases h₁ : mem 1 ≠ 0x01 ∧ mem 1 ≠ 0x02 ∧ mem 1 ≠ 0x03
  case pos =>
    have hr : reads mem len = [0, 1] := by rw [reads, if_neg hl, if_neg h₀, if_pos h₁]
    rw [hr] at h
    simp only [parse, hl, ← h 0 (by simp), ← h 1 (by simp), h₀, if_pos h₁]
  by_cases h₂ : mem 2 ≠ 0x00
  case pos =>
    have hr : reads mem len = [0, 1, 2] := by rw [reads, if_neg hl, if_neg h₀, if_neg h₁, if_pos h₂]
    rw [hr] at h
    simp only [parse, hl, ← h 0 (by simp), ← h 1 (by simp), ← h 2 (by simp), h₀, h₁, if_pos h₂]
  rw [reads_eq hl h₀ h₁ h₂, readsAddress] at h
  have header {i : Nat} (hi : i < 4) : mem i = mem' i := by
    apply h
    split_ifs <;> simp <;> omega
  simp only [parse, hl, ← header (i := 0) (by omega), ← header (i := 1) (by omega),
    ← header (i := 2) (by omega), ← header (i := 3) (by omega), h₀, h₁, h₂, if_false]
  split_ifs at h ⊢
  case pos =>
    have hip (i : Fin 4) : mem (4 + i) = mem' (4 + i) := h _ (by simp; omega)
    simp [hip, h 8, h 9]
  case pos =>
    have e₄ : mem 4 = mem' 4 := h 4 (by simp)
    have hname : readRange mem 5 (mem 4).toNat = readRange mem' 5 (mem 4).toNat :=
      List.map_congr_left fun i hi => h _ (by simp at hi ⊢; omega)
    simp [← e₄, hname, h (5 + (mem 4).toNat), h (6 + (mem 4).toNat)]
  case pos =>
    have hip (i : Fin 16) : mem (4 + i) = mem' (4 + i) := h _ (by simp; omega)
    simp [hip, h 20, h 21]
  case neg => rfl

variable {p : Data} {beyond : Nat → Byte}

theorem memory_eq_iff {i : Nat} (h : i < p.length) (b : Byte) :
    memory p beyond i = b ↔ p[i]? = some b := by
  simp [memory, List.getElem?_eq_getElem h]

theorem seven_le_size (p : Data) : 7 ≤ size p := by
  unfold size
  split <;> try split
  all_goals omega

theorem begins_iff (h : 7 ≤ p.length) (beyond : Nat → Byte) : Begins p ↔
    memory p beyond 0 = 0x05 ∧
      (memory p beyond 1 = 0x01 ∨ memory p beyond 1 = 0x02 ∨ memory p beyond 1 = 0x03) ∧
      memory p beyond 2 = 0x00 ∧
      (memory p beyond 3 = 0x01 ∨ memory p beyond 3 = 0x03 ∨ memory p beyond 3 = 0x04) := by
  simp only [memory_eq_iff (show 0 < p.length by omega), memory_eq_iff (show 1 < p.length by omega),
    memory_eq_iff (show 2 < p.length by omega), memory_eq_iff (show 3 < p.length by omega)]
  constructor
  case mp  => exact fun b => ⟨b.version, b.cmd, b.reserved, b.addrType⟩
  case mpr => exact fun ⟨h₀, h₁, h₂, h₃⟩ => ⟨h₀, h₁, h₂, h₃⟩

theorem parse_ok_iff :
    (∃ r, parse (memory p beyond) p.length = .ok r) ↔ 7 ≤ p.length ∧ Begins p := by
  by_cases hl : p.length < 7
  case pos => simp [parse, hl]
  case neg =>
    rw [begins_iff (by omega) beyond]
    by_cases h₀ : memory p beyond 0 ≠ 0x05
    case pos =>
      refine iff_of_false ?_ fun b => h₀ b.2.1
      simp [parse, hl, h₀]
    by_cases h₁ : memory p beyond 1 ≠ 0x01 ∧ memory p beyond 1 ≠ 0x02 ∧ memory p beyond 1 ≠ 0x03
    case pos =>
      obtain ⟨n₁, n₂, n₃⟩ := h₁
      refine iff_of_false ?_ fun b => b.2.2.1.elim n₁ fun b => b.elim n₂ n₃
      simp [parse, hl, h₀, n₁, n₂, n₃]
    by_cases h₂ : memory p beyond 2 ≠ 0x00
    case pos =>
      refine iff_of_false ?_ fun b => h₂ b.2.2.2.1
      rw [parse, if_neg hl, if_neg h₀, if_neg h₁, if_pos h₂]
      simp
    have b₁ := h₁
    simp only [not_and_or, not_not] at b₁
    rw [parse, if_neg hl, if_neg h₀, if_neg h₁, if_neg h₂]
    split_ifs with h₃ h₃' h₃''
    case pos =>
      exact iff_of_true ⟨_, rfl⟩ ⟨not_lt.mp hl, not_not.mp h₀, b₁, not_not.mp h₂, .inl h₃⟩
    case pos =>
      exact iff_of_true ⟨_, rfl⟩ ⟨not_lt.mp hl, not_not.mp h₀, b₁, not_not.mp h₂, .inr (.inl h₃')⟩
    case pos =>
      exact iff_of_true ⟨_, rfl⟩ ⟨not_lt.mp hl, not_not.mp h₀, b₁, not_not.mp h₂, .inr (.inr h₃'')⟩
    case neg =>
      exact iff_of_false (by simp) fun b =>
        b.2.2.2.2.elim h₃ fun b => b.elim h₃' h₃''

section Reads

theorem memory_getD {i : Nat} (h : i < p.length) : memory p beyond i = p.getD i 0 := by
  simp [memory_of_lt h, List.getElem?_eq_getElem h]

theorem size_eq (h : 7 ≤ p.length) (beyond : Nat → Byte) :
    size p = if memory p beyond 3 = 0x01 then 10
      else if memory p beyond 3 = 0x03 then 7 + (memory p beyond 4).toNat else 22 := by
  rw [memory_getD (i := 3) (by omega), memory_getD (i := 4) (by omega), size]

theorem reads_of_begins (h : 7 ≤ p.length) (hb : Begins p) :
    reads (memory p beyond) p.length = readsAddress (memory p beyond) := by
  have ⟨h₀, h₁, h₂, _⟩ := (begins_iff h beyond).mp hb
  refine reads_eq (by omega) (not_not.mpr h₀) ?_ (not_not.mpr h₂)
  intro ⟨n₁, n₂, n₃⟩
  exact h₁.elim n₁ fun h => h.elim n₂ n₃

theorem reads_lt_four (h : ¬Begins p) : ∀ i ∈ reads (memory p beyond) p.length, i < 4 := by
  intro i hi
  by_cases hl : p.length < 7
  case pos => simp [reads, hl] at hi
  case neg =>
    by_cases h₀ : memory p beyond 0 ≠ 0x05
    case pos =>
      simp [reads, hl, h₀] at hi
      omega
    by_cases h₁ : memory p beyond 1 ≠ 0x01 ∧ memory p beyond 1 ≠ 0x02 ∧ memory p beyond 1 ≠ 0x03
    case pos =>
      rw [reads, if_neg hl, if_neg h₀, if_pos h₁] at hi
      simp at hi
      omega
    by_cases h₂ : memory p beyond 2 ≠ 0x00
    case pos =>
      rw [reads, if_neg hl, if_neg h₀, if_neg h₁, if_pos h₂] at hi
      simp at hi
      omega
    -- The address type is none of the three.
    have h₃ :
        ¬(memory p beyond 3 = 0x01 ∨ memory p beyond 3 = 0x03 ∨ memory p beyond 3 = 0x04) := by
      intro h₃
      exact h ((begins_iff (by omega) beyond).mpr
        ⟨not_not.mp h₀, by simpa only [not_and_or, not_not] using h₁, not_not.mp h₂, h₃⟩)
    simp only [not_or] at h₃
    rw [reads_eq hl h₀ h₁ h₂, readsAddress, if_neg h₃.1, if_neg h₃.2.1, if_neg h₃.2.2] at hi
    simp at hi
    omega

theorem reads_lt_size (h : 7 ≤ p.length) : ∀ i ∈ reads (memory p beyond) p.length, i < size p := by
  intro i hi
  by_cases hb : Begins p
  case pos =>
    rw [reads_of_begins h hb, readsAddress] at hi
    rw [size_eq h beyond]
    split_ifs at hi ⊢ <;> simp at hi <;> omega
  case neg =>
    have := reads_lt_four hb i hi
    have := seven_le_size p
    omega

-- The last byte of a request is read, whether it is there or not.
theorem last_mem_reads (h : 7 ≤ p.length) (hb : Begins p) :
    size p - 1 ∈ reads (memory p beyond) p.length := by
  have ⟨_, _, _, h₃⟩ := (begins_iff h beyond).mp hb
  rw [size_eq h beyond, reads_of_begins h hb, readsAddress]
  split_ifs with n₁ n₂ n₃
  case pos => simp
  case pos => simp
  case pos => simp
  case neg => exact (h₃.elim n₁ fun h => h.elim n₂ n₃).elim

end Reads

theorem port_toNat (high low : Byte) :
    (port high low).toNat = 256 * high.toNat + low.toNat :=
  Packet.dataLen_toNat (p := ⟨0, 0, high, low, []⟩)

theorem ofFn_memory {start n : Nat} (h : start + n ≤ p.length) :
    (Vector.ofFn fun i : Fin n => memory p beyond (start + i)).toList = (p.drop start).take n := by
  apply List.ext_getElem (by simp; omega)
  intro i h₁ _
  simp only [Vector.length_toList] at h₁
  simp [memory_of_lt (show start + i < p.length by omega)]

-- What the constructor makes of a complete request.
theorem ofBytes (c : Complete p) {r : Req} (h : parse (memory p beyond) p.length = .ok r) :
    OfBytes p r := by
  have hs := c.length
  have hl : 7 ≤ p.length := (seven_le_size p).trans hs
  have get {i : Nat} (hi : i < p.length) : p[i]? = some (memory p beyond i) :=
    (memory_eq_iff hi _).mp rfl
  have hz := size_eq hl beyond
  unfold parse at h
  split_ifs at h with h₀ h₁ h₂ h₃ h₄ h₅ h₆ <;> cases h
  · rw [if_pos h₄] at hz
    exact {
      cmd := get (by omega)
      addrType := get (by omega)
      destAddr := ⟨h₄, ofFn_memory (by omega)⟩
      destPort := ⟨_, _, hz ▸ get (by omega), hz ▸ get (by omega), port_toNat _ _⟩ }
  · rw [if_neg h₄, if_pos h₅] at hz
    exact {
      cmd := get (by omega)
      addrType := get (by omega)
      destAddr := ⟨h₅, get (by omega), readRange_memory (by omega), length_readRange ..⟩
      destPort := by
        refine ⟨_, _, ?_, ?_, port_toNat _ _⟩
        · rw [hz, show 7 + (memory p beyond 4).toNat - 2 = 5 + (memory p beyond 4).toNat by omega]
          exact get (by omega)
        · rw [hz, show 7 + (memory p beyond 4).toNat - 1 = 6 + (memory p beyond 4).toNat by omega]
          exact get (by omega) }
  · rw [if_neg h₄, if_neg h₅] at hz
    exact {
      cmd := get (by omega)
      addrType := get (by omega)
      destAddr := ⟨h₆, ofFn_memory (by omega)⟩
      destPort := ⟨_, _, hz ▸ get (by omega), hz ▸ get (by omega), port_toNat _ _⟩ }

theorem exact_iff (p : Data) : Exact p ↔ ¬Truncated p := by
  constructor
  case mp =>
    intro e t
    have := e.inBounds (fun _ => 0) _ (last_mem_reads t.seven_le t.toBegins)
    have := t.length
    omega
  case mpr =>
    intro t
    have complete {beyond : Nat → Byte} :
        (∃ r, parse (memory p beyond) p.length = .ok r) ↔ Complete p := by
      rw [parse_ok_iff]
      constructor
      case mp  => exact fun ⟨hl, hb⟩ => ⟨hb, by_contra fun h => t ⟨hb, hl, by omega⟩⟩
      case mpr => exact fun c => ⟨(seven_le_size p).trans c.length, c.toBegins⟩
    refine ⟨fun beyond i hi => ?_, fun _ => complete, fun _ r h => ofBytes (complete.mp ⟨r, h⟩) h⟩
    by_cases hl : p.length < 7
    case pos => simp [reads, hl] at hi
    case neg =>
      by_cases hb : Begins p
      case pos =>
        have := reads_lt_size (by omega) i hi
        have hr := @parse_ok_iff p beyond |>.mpr ⟨by omega, hb⟩
        have := (complete.mp hr).length
        omega
      case neg =>
        have := reads_lt_four hb i hi
        omega

-- A request for an IPv4 address that ends within the address.
theorem not_exact_seven_bytes : ¬∀ p : Data, Exact p := by
  intro h
  exact absurd ((h [5, 1, 0, 1, 127, 0, 0]).inBounds (fun _ => 0) 9 (by decide)) (by decide)

end Lproxy.Socks5.Req
