import Lproxy.Crypto.Rsa

-- The sizes of keys that are supported, and what the loops of `Rsa` make of them.
namespace Lproxy.Crypto

-- `RsaKey::size`.
inductive RsaKey.Size
  | bit512
  | bit1024
  | bit2048
  | bit4096
  | bit8192
  | bit11776
  | bit15360
  | bit30720
  | bit61140
  deriving DecidableEq, Repr

def RsaKey.Size.bits : Size → Nat
  | bit512   => 512
  | bit1024  => 1024
  | bit2048  => 2048
  | bit4096  => 4096
  | bit8192  => 8192
  | bit11776 => 11776
  | bit15360 => 15360
  | bit30720 => 30720
  | bit61140 => 61140

-- A `crypto::RsaKey` with a modulus of the given size.
def RsaKey.ofSize (parameters : Data) (size : Size) : RsaKey where
  parameters := parameters
  keysize := .ofNat size.bits

-- RSAES-OAEP with SHA-1 for a modulus of `k` bits. A ciphertext that has not the length of the
-- modulus is rejected.
structure Rsa.OaepBits (c : CryptoPP) (publicKey privateKey : Data) (k : Nat) : Prop where
  encrypts : ∀ rng block, block.length ≤ (k - 1) / 8 - 41 →
    ∃ cipher, c.oaepEncrypt publicKey rng block = some cipher ∧ cipher.length = (k + 7) / 8 ∧
      c.oaepDecrypt privateKey cipher = some block
  rejects : ∀ cipher, cipher.length ≠ (k + 7) / 8 → c.oaepDecrypt privateKey cipher = none

namespace Rsa

variable {c : CryptoPP} {r : Rsa} {parameters src cipher : Data} {rng k : Nat} {size : RsaKey.Size}

-- If every block can be encrypted, so can the text.
theorem encrypt_of_blocks (hm : 0 < r.maxBlockSize.toNat)
    (h : ∀ i block, block.length ≤ r.maxBlockSize.toNat →
      (c.oaepEncrypt r.publicKey (rng + i) block).isSome) :
    ∃ cipher, r.encrypt c rng src = .ok cipher := by
  have hz : r.maxBlockSize ≠ 0 := by
    intro hz
    simp [hz] at hm
  have hb : (List.range (r.maxLoop src.length)).mapM (fun loop =>
      c.oaepEncrypt r.publicKey (rng + loop) (r.block src loop)) =
        some ((List.range (r.maxLoop src.length)).map fun loop =>
          (c.oaepEncrypt r.publicKey (rng + loop) (r.block src loop)).getD []) := by
    rw [Chunks.mapM_eq_some_iff, List.map_map]
    apply List.map_congr_left
    intro i hi
    have hl : (r.block src i).length ≤ r.maxBlockSize.toNat := by
      rw [block_eq ((maxLoop_spec hm _).2 i (List.mem_range.mp hi))]
      simp [Chunks.chunk]
    obtain ⟨cipher, hc⟩ := Option.isSome_iff_exists.mp (h i _ hl)
    simp [hc]
  exact ⟨_, by rw [encrypt, if_neg hz, hb]⟩

theorem keysize_ofSize (size : RsaKey.Size) :
    ((RsaKey.ofSize parameters size).keysize / 8).toNat = size.bits / 8 := by
  cases size <;> rfl

theorem maxBlockSize_ofSize (size : RsaKey.Size) :
    (ofRsaKey (.ofSize parameters size)).maxBlockSize.toNat = size.bits / 8 - 42 := by
  have h : (ofRsaKey (.ofSize parameters size)).keysize = .ofNat size.bits := rfl
  rw [maxBlockSize, h]
  cases size <;> decide

-- All sizes but one are multiples of eight.
theorem bits_ceil_iff (size : RsaKey.Size) :
    (size.bits + 7) / 8 = size.bits / 8 ↔ size ≠ .bit61140 := by
  cases size <;> decide

theorem bits_le (size : RsaKey.Size) :
    0 < size.bits / 8 - 42 ∧ size.bits / 8 - 42 ≤ (size.bits - 1) / 8 - 41 := by
  cases size <;> decide

theorem encrypt_ofSize (ho : OaepBits c parameters parameters size.bits) :
    ∃ cipher, (ofRsaKey (.ofSize parameters size)).encrypt c rng src = .ok cipher := by
  apply encrypt_of_blocks
  case hm => exact maxBlockSize_ofSize size ▸ (bits_le size).1
  case h  =>
    intro i block hl
    rw [maxBlockSize_ofSize] at hl
    have ⟨cipher, hc, _⟩ := ho.encrypts (rng + i) block (hl.trans (bits_le size).2)
    exact Option.isSome_of_eq_some hc

-- The blocks of a ciphertext have the length of the modulus, and are decrypted to the text.
theorem blocks_ofSize (ho : OaepBits c parameters parameters size.bits)
    (h : (ofRsaKey (.ofSize parameters size)).encrypt c rng src = .ok cipher) :
    ∃ blocks plains : List Data, cipher = blocks.flatten ∧ src = plains.flatten ∧
      (∀ b ∈ blocks, b.length = (size.bits + 7) / 8) ∧
      blocks.map (c.oaepDecrypt parameters) = plains.map some := by
  obtain ⟨hm, blocks, he, hl, hb⟩ := encrypt_ok h
  have hcover := (maxLoop_spec hm src.length).1
  rw [maxBlockSize_ofSize, ← hl] at hcover
  rw [maxBlockSize_ofSize] at hb
  -- What becomes of a block.
  have hd (i : Nat) (hi : i < blocks.length) : blocks[i].length = (size.bits + 7) / 8 ∧
      c.oaepDecrypt parameters blocks[i] = some (Chunks.chunk (size.bits / 8 - 42) i src) := by
    have hle : (Chunks.chunk (size.bits / 8 - 42) i src).length ≤ size.bits / 8 - 42 := by
      simp [Chunks.chunk]
    obtain ⟨cipher, hc, hlen, hdec⟩ := ho.encrypts (rng + i) _ (hle.trans (bits_le size).2)
    have he : cipher = blocks[i] := Option.some.inj (hc.symm.trans (hb i hi))
    exact he ▸ ⟨hlen, hdec⟩
  refine ⟨blocks, (List.range blocks.length).map fun i => Chunks.chunk (size.bits / 8 - 42) i src,
    he, ?_, ?_, ?_⟩
  · rw [Chunks.flatten_chunks, List.take_of_length_le hcover]
  · intro b hm
    obtain ⟨i, hi, he⟩ := List.mem_iff_getElem.mp hm
    exact he ▸ (hd i hi).1
  · apply List.ext_getElem (by simp)
    intro i h₁ _
    simpa using (hd i (by simpa using h₁)).2

theorem decrypt_ofSize (ho : OaepBits c parameters parameters size.bits)
    (h : (ofRsaKey (.ofSize parameters size)).encrypt c rng src = .ok cipher) :
    (ofRsaKey (.ofSize parameters size)).decrypt c cipher = .ok src ↔
      size ≠ .bit61140 ∨ src = [] := by
  obtain ⟨blocks, plains, hc, hs, hl, hd⟩ := blocks_ofSize ho h
  have hk : (RsaKey.ofSize parameters size).keysize / 8 ≠ 0 := by
    intro h₀
    have hk : ((RsaKey.ofSize parameters size).keysize / 8).toNat = size.bits / 8 :=
      keysize_ofSize size
    rw [h₀] at hk
    have := (bits_le size).1
    simp at hk
    omega
  constructor
  case mp =>
    intro h
    by_contra hn
    obtain ⟨hsize, hne⟩ := not_or.mp hn
    have hceil := (bits_ceil_iff size).not.mpr hsize
    obtain ⟨plains', hp, hlen, hdec⟩ := (decrypt_eq_ok_iff hk).mp h
    rw [keysize_ofSize] at hlen hdec
    -- The first block that is decrypted has not the length of the modulus.
    have hpos : 0 < plains'.length := by
      apply List.length_pos_iff.mpr
      intro hnil
      exact hne (by rw [hp, hnil, List.flatten_nil])
    have hchunk : (Chunks.chunk (size.bits / 8) 0 cipher).length = size.bits / 8 := by
      have hle : size.bits / 8 ≤ cipher.length := hlen ▸ Nat.le_mul_of_pos_left _ hpos
      simpa [Chunks.chunk] using hle
    have hr := ho.rejects (Chunks.chunk (size.bits / 8) 0 cipher) (by omega)
    have hd := hdec 0 hpos
    rw [RsaKey.ofSize, hr] at hd
    cases hd
  case mpr =>
    intro hor
    cases hor
    case inl hsize =>
      rw [hc, hs]
      apply decrypt_flatten hk _ hd
      intro b hb
      rw [hl b hb, keysize_ofSize, (bits_ceil_iff size).mpr hsize]
    case inr hnil =>
      subst hnil
      obtain ⟨_, blocks, he, hl, _⟩ := encrypt_ok h
      have hz : blocks = [] := List.length_eq_zero_iff.mp (by simp [hl, maxLoop])
      rw [he, hz]
      have h₀ : ([] : List Data).map (c.oaepDecrypt (RsaKey.ofSize parameters size).parameters) =
        ([] : List Data).map some := rfl
      exact decrypt_flatten hk (List.forall_mem_nil _) h₀

-- What is encrypted by an object of a supported size is decrypted by it, unless the size of the
-- modulus is no number of bytes; then only the empty text is.
theorem round_trip_iff (ho : OaepBits c parameters parameters size.bits) :
    (∃ cipher, (ofRsaKey (.ofSize parameters size)).encrypt c rng src = .ok cipher ∧
      (ofRsaKey (.ofSize parameters size)).decrypt c cipher = .ok src) ↔
        size ≠ .bit61140 ∨ src = [] := by
  constructor
  case mp =>
    intro ⟨cipher, he, hd⟩
    exact (decrypt_ofSize ho he).mp hd
  case mpr =>
    intro h
    have ⟨cipher, he⟩ : ∃ cipher, (ofRsaKey (.ofSize parameters size)).encrypt c rng src =
      .ok cipher := encrypt_ofSize ho
    exact ⟨cipher, he, (decrypt_ofSize ho he).mpr h⟩

-- Blocks that are padded to the length of a modulus of `k` bits.
def padded (k : Nat) : CryptoPP :=
  { transparent with
    oaepEncrypt := fun _ _ d =>
      if d.length ≤ (k - 1) / 8 - 41 then some (d ++ 1 :: zeros ((k - 1) / 8 - d.length)) else none
    oaepDecrypt := fun _ d =>
      if d.length = (k + 7) / 8 then some (d.reverse.dropWhile (· = 0)).tail.reverse else none }

theorem dropWhile_zeros (n : Nat) (l : Data) :
    (zeros n ++ 1 :: l).dropWhile (· = 0) = 1 :: l := by
  induction n
  case zero      => rfl
  case succ n hi => exact hi

theorem padded_oaepBits {publicKey privateKey : Data} (hk : 0 < k) :
    OaepBits (padded k) publicKey privateKey k where
  encrypts _ block h := by
    have hl : (block ++ 1 :: zeros ((k - 1) / 8 - block.length)).length = (k + 7) / 8 := by
      simp
      omega
    have hd : ((block ++ 1 :: zeros ((k - 1) / 8 - block.length)).reverse.dropWhile (· = 0)).tail =
        block.reverse := by
      have hr : (block ++ 1 :: zeros ((k - 1) / 8 - block.length)).reverse =
          zeros ((k - 1) / 8 - block.length) ++ 1 :: block.reverse := by
        simp [zeros]
      rw [hr, dropWhile_zeros, List.tail_cons]
    refine ⟨_, if_pos h, hl, ?_⟩
    simp only [padded, hl, if_true, hd, List.reverse_reverse]
  rejects _ h := if_neg h

theorem round_trip_iff_512 : (∃ cipher,
    (ofRsaKey (.ofSize [7] .bit512)).encrypt (padded 512) 0 [1, 2, 3] = .ok cipher ∧
      (ofRsaKey (.ofSize [7] .bit512)).decrypt (padded 512) cipher = .ok [1, 2, 3]) ↔
        RsaKey.Size.bit512 ≠ .bit61140 ∨ ([1, 2, 3] : Data) = [] :=
  round_trip_iff (padded_oaepBits (by decide))

-- The one block of a ciphertext has 7643 bytes, and blocks of 7642 bytes are decrypted.
theorem not_round_trip_61140 : ¬∀ (c : CryptoPP) (parameters src : Data) (rng : Nat)
    (size : RsaKey.Size), OaepBits c parameters parameters size.bits →
    ∃ cipher, (ofRsaKey (.ofSize parameters size)).encrypt c rng src = .ok cipher ∧
      (ofRsaKey (.ofSize parameters size)).decrypt c cipher = .ok src := by
  intro h
  have ho : OaepBits (padded 61140) [7] [7] RsaKey.Size.bit61140.bits :=
    padded_oaepBits (by decide)
  have ⟨cipher, he, hd⟩ := h (padded 61140) [7] [1] 0 .bit61140 ho
  have h := (decrypt_ofSize ho he).mp hd
  revert h
  decide

end Rsa
end Lproxy.Crypto
