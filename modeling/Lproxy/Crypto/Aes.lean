import Lproxy.Packet
import Mathlib.Data.Set.Lattice
import Mathlib.Order.CompletePartialOrder

namespace Lproxy

-- The primitives of the crypto library that `crypto::Aes` and `crypto::Rsa` rest on. None of them
-- is part of this repository.
structure CryptoPP where
  -- AES on one block: byte `i` of the encryption of a counter block under a key.
  aes : Key → BitVec 128 → Fin 16 → Byte
  -- The MD5 digest.
  md5 : Data → Vector Byte 16
  -- Loading a public key that is given in hex.
  loadPublicKey : Data → Option Data
  -- RSAES-OAEP of one block; the number is the state of the random number generator.
  oaepEncrypt : Data → Nat → Data → Option Data
  oaepDecrypt : Data → Data → Option Data

namespace Crypto

-- `CryptoPP::HexEncoder`, which writes upper case letters.
def hexDigit (n : Nat) : Byte :=
  if n < 10 then .ofNat (48 + n) else .ofNat (55 + n)

def hexEncode (d : Data) : Data :=
  d.flatMap fun b => [hexDigit (b.toNat / 16), hexDigit (b.toNat % 16)]

-- `Md5::encrypt`.
def md5Cipher (c : CryptoPP) (src : Data) : Data :=
  hexEncode (c.md5 src).toList

-- The bytes of the string literal that `initialize_counter` appends to the key:
-- "lproxy_crypto_2bbb8318cccb968".
def counterSuffix : Data :=
  [108, 112, 114, 111, 120, 121, 95, 99, 114, 121, 112, 116, 111, 95, 50, 98, 98, 98, 56, 51, 49,
    56, 99, 99, 99, 98, 57, 54, 56]

-- A counter block as a number, the first byte being the most significant one.
def counterBlock (d : Data) : BitVec 128 :=
  d.foldl (fun n b => n <<< 8 ||| b.toBitVec.setWidth 128) 0

structure Aes where
  aesKey : Key
  ctr : Data
  deriving DecidableEq

namespace Aes

-- `Aes::initialize_counter`.
def initializeCounter (c : CryptoPP) (something : Data) : Data :=
  overwrite (List.replicate 16 28) ((md5Cipher c (something ++ counterSuffix)).take 16)

-- The constructors with `raw256keysetting`. That the key has 32 bytes is asserted there.
def raw256 (c : CryptoPP) (key : Key) : Aes where
  aesKey := key
  ctr := initializeCounter c key.val

variable (c : CryptoPP) (a : Aes)

-- Byte `i` of the keystream. The mode object is created anew by each call of `encrypt` and
-- `decrypt` and set to the initial counter.
def keystream (i : Nat) : Byte :=
  c.aes a.aesKey (counterBlock a.ctr + BitVec.ofNat 128 (i / 16)) (Fin.ofNat 16 i)

-- The counter block that byte `i` of the keystream is taken from, and those for a text of `n`
-- bytes.
def block (i : Nat) : BitVec 128 :=
  counterBlock a.ctr + BitVec.ofNat 128 (i / 16)

def blocks (n : Nat) : Set (BitVec 128) :=
  { b | ∃ i < n, a.block i = b }

-- `ProcessData` of the CTR mode.
def processData (src : Data) : Data :=
  src.mapIdx fun i b => b ^^^ a.keystream c i

def encrypt (src : Data) : Data :=
  a.processData c src

def decrypt (src : Data) : Data :=
  a.processData c src

variable {c a}

theorem blocks_mono {m n : Nat} (h : m ≤ n) : a.blocks m ⊆ a.blocks n := by
  intro b hb
  have ⟨i, hi, he⟩ := hb
  exact ⟨i, by omega, he⟩

-- Every text starts with the same block.
theorem disjoint_blocks_iff {m n : Nat} :
    Disjoint (a.blocks m) (a.blocks n) ↔ m = 0 ∨ n = 0 := by
  constructor
  case mp  =>
    intro h
    by_contra hn
    have first {k : Nat} (hk : k ≠ 0) : a.block 0 ∈ a.blocks k := ⟨0, by omega, rfl⟩
    exact Set.disjoint_left.mp h (first fun hm => hn (.inl hm)) (first fun hk => hn (.inr hk))
  case mpr =>
    intro h
    refine Set.disjoint_left.mpr fun b hm hn => ?_
    have ⟨_, hi, _⟩ := hm
    have ⟨_, hj, _⟩ := hn
    omega

@[simp]
theorem length_processData (src : Data) : (a.processData c src).length = src.length := by
  simp [processData]

@[simp]
theorem length_encrypt (src : Data) : (a.encrypt c src).length = src.length :=
  length_processData src

@[simp]
theorem length_decrypt (src : Data) : (a.decrypt c src).length = src.length :=
  length_processData src

theorem xor_xor_self (b k : Byte) : b ^^^ k ^^^ k = b := by
  rw [UInt8.xor_assoc, UInt8.xor_self, UInt8.xor_zero]

theorem processData_processData (src : Data) : a.processData c (a.processData c src) = src := by
  apply List.ext_getElem (by simp)
  intro i _ _
  simp only [processData, List.getElem_mapIdx]
  exact xor_xor_self _ _

-- Two texts that are encrypted with one keystream differ where their ciphertexts do.
theorem xor_encrypt (d e : Data) :
    List.zipWith (· ^^^ ·) (a.encrypt c d) (a.encrypt c e) = List.zipWith (· ^^^ ·) d e := by
  apply List.ext_getElem (by simp)
  intro i _ _
  have h (x y k : Byte) : (x ^^^ k) ^^^ (y ^^^ k) = x ^^^ y := by
    rw [UInt8.xor_comm y k, ← UInt8.xor_assoc, xor_xor_self]
  simp [encrypt, processData, h]

@[simp]
theorem decrypt_encrypt (src : Data) : a.decrypt c (a.encrypt c src) = src :=
  processData_processData src

@[simp]
theorem encrypt_decrypt (src : Data) : a.encrypt c (a.decrypt c src) = src :=
  processData_processData src

theorem decrypt_injective {d₁ d₂ : Data} (h : a.decrypt c d₁ = a.decrypt c d₂) : d₁ = d₂ := by
  rw [← encrypt_decrypt (c := c) (a := a) d₁, h, encrypt_decrypt]

@[simp]
theorem decrypt_nil : a.decrypt c [] = [] :=
  rfl

-- The mode is a stream cipher: a part of the text goes with the same part of the other text.
theorem take_decrypt (src : Data) (n : Nat) :
    (a.decrypt c src).take n = a.decrypt c (src.take n) := by
  apply List.ext_getElem (by simp)
  intro i _ _
  simp [decrypt, processData]

theorem drop_decrypt_eq_iff {d₁ d₂ : Data} (n : Nat) :
    (a.decrypt c d₁).drop n = (a.decrypt c d₂).drop n ↔ d₁.drop n = d₂.drop n := by
  constructor <;> intro h
  case mp =>
    have hl : d₁.length - n = d₂.length - n := by simpa using congrArg List.length h
    apply List.ext_getElem (by simpa using hl)
    intro i h₁ h₂
    have h := List.getElem_of_eq h (i := i) (by simpa using h₁)
    simp [decrypt, processData] at h
    simpa using h
  case mpr =>
    have hl : d₁.length - n = d₂.length - n := by simpa using congrArg List.length h
    apply List.ext_getElem (by simpa using hl)
    intro i h₁ h₂
    have h := List.getElem_of_eq h (i := i) (by simpa using h₁)
    simp at h
    simp [decrypt, processData, h]

end Aes
end Crypto
end Lproxy
