import Lproxy.Crypto.Aes
import Lproxy.Lib.Chunks

namespace Lproxy.Crypto

-- How a call of `Rsa::encrypt` or `Rsa::decrypt` can fail.
inductive RsaError
  -- `EncryptException` or `DecryptException`
  | exception
  -- A remainder by a block size of zero, which is undefined.
  | divisionByZero
  deriving DecidableEq, Repr

-- The state of a `crypto::Rsa`. `keysize_` holds whatever number was cast to `RsaKey::size`.
structure Rsa where
  publicKey : Data
  privateKey : Data
  keysize : UInt64
  flagPrivateKeySet : Bool
  deriving DecidableEq

-- A `crypto::RsaKey`: the parameters that both halves are made from.
structure RsaKey where
  parameters : Data
  keysize : UInt64
  deriving DecidableEq

namespace Rsa

def ofRsaKey (rsakey : RsaKey) : Rsa where
  publicKey := rsakey.parameters
  privateKey := rsakey.parameters
  keysize := rsakey.keysize
  flagPrivateKeySet := true

-- The constructor from a hex public key and its length; the private key stays default constructed.
def ofPublicKey (c : CryptoPP) (keysize : UInt64) (publicKey : Data) : Option Rsa :=
  (c.loadPublicKey publicKey).map fun k => ⟨k, [], keysize, false⟩

variable (c : CryptoPP) (r : Rsa)

-- `max_block_size`; the subtraction is unsigned and may wrap.
def maxBlockSize : UInt64 :=
  r.keysize / 8 - 42

-- `max_loop`. The single precision quotient is read as the exact one.
def maxLoop (srcLen : Nat) : Nat :=
  let m := r.maxBlockSize.toNat
  if srcLen % m = 0 then srcLen / m else srcLen / m + 1

-- The block that the body of the loop in `Rsa::encrypt` hands to the encryptor.
def block (src : Data) (loop : Nat) : Data :=
  let unprocData := src.length - loop * r.maxBlockSize.toNat
  let offset := if unprocData ≥ r.maxBlockSize.toNat then r.maxBlockSize.toNat else unprocData
  (src.drop (src.length - unprocData)).take offset

def encrypt (rng : Nat) (src : Data) : Except RsaError Data :=
  if r.maxBlockSize = 0 then .error .divisionByZero
  else
    match (List.range (r.maxLoop src.length)).mapM fun loop =>
      c.oaepEncrypt r.publicKey (rng + loop) (r.block src loop)
    with
    | some blocks => .ok blocks.flatten
    | none        => .error .exception

def decrypt (src : Data) : Except RsaError Data :=
  if !r.flagPrivateKeySet then .error .exception
  else if r.keysize / 8 = 0 then .error .divisionByZero
  else
    let blockSize := (r.keysize / 8).toNat
    if src.length % blockSize ≠ 0 then .error .exception
    else
      match (List.range (src.length / blockSize)).mapM fun loop =>
        c.oaepDecrypt r.privateKey ((src.drop (loop * blockSize)).take blockSize)
      with
      | some recovered => .ok recovered.flatten
      | none           => .error .exception

-- Decryption under `rsakey` inverts encryption under the public half that is sent as
-- `publicKeyHex`.
def Inverts (rsakey : RsaKey) (keysize : UInt64) (publicKeyHex : Data) : Prop :=
  ∀ {rng plain cipher e}, ofPublicKey c keysize publicKeyHex = some e →
    e.encrypt c rng plain = .ok cipher → (ofRsaKey rsakey).decrypt c cipher = .ok plain

-- What RSAES-OAEP promises about one block.
structure Oaep (publicKey privateKey : Data) (blockSize : Nat) : Prop where
  length : ∀ {rng block cipher}, c.oaepEncrypt publicKey rng block = some cipher →
    cipher.length = blockSize
  inverts : ∀ {rng block cipher}, c.oaepEncrypt publicKey rng block = some cipher →
    c.oaepDecrypt privateKey cipher = some block

-- What the padding of RSAES-OAEP promises about one block: it is decrypted to a text if, and only
-- if, the encryption makes it of that text in some state of the random number generator.
def Exact (publicKey privateKey : Data) : Prop :=
  ∀ {block cipher}, c.oaepDecrypt privateKey cipher = some block ↔
    ∃ rng, c.oaepEncrypt publicKey rng block = some cipher

-- A ciphertext that the encryption makes of some texts, a whole block of each.
def Blocks (k : RsaKey) (cipher : Data) (plains : List Data) : Prop :=
  ∃ blocks : List Data, cipher = blocks.flatten ∧
    (∀ b ∈ blocks, b.length = (k.keysize / 8).toNat) ∧
    List.Forall₂ (fun b plain => ∃ rng, c.oaepEncrypt k.parameters rng plain = some b) blocks plains

variable {c r} {src cipher : Data} {rng : Nat}

theorem block_eq {i : Nat} (h : i * r.maxBlockSize.toNat ≤ src.length) :
    r.block src i = Chunks.chunk r.maxBlockSize.toNat i src := by
  have hs : src.length - (src.length - i * r.maxBlockSize.toNat) = i * r.maxBlockSize.toNat := by
    omega
  simp only [block, Chunks.chunk, hs]
  split
  case isTrue    => rfl
  case isFalse h =>
    rw [List.take_of_length_le (by simp), List.take_of_length_le (by simp; omega)]

-- The rounds of the loop cover the text, and each starts within it.
theorem maxLoop_spec (hm : 0 < r.maxBlockSize.toNat) (n : Nat) :
    n ≤ r.maxLoop n * r.maxBlockSize.toNat ∧
      ∀ i < r.maxLoop n, i * r.maxBlockSize.toNat ≤ n := by
  have hd := Nat.div_add_mod n r.maxBlockSize.toNat
  have hlt := Nat.mod_lt n hm
  have hc := Nat.mul_comm r.maxBlockSize.toNat (n / r.maxBlockSize.toNat)
  have mono {i k : Nat} (h : i ≤ k) : i * r.maxBlockSize.toNat ≤ k * r.maxBlockSize.toNat :=
    Nat.mul_le_mul_right _ h
  simp only [maxLoop]
  split
  case isTrue h  => exact ⟨by omega, fun i hi => by have := mono hi.le; omega⟩
  case isFalse h =>
    refine ⟨by rw [Nat.succ_mul]; omega, fun i hi => ?_⟩
    have := mono (Nat.le_of_lt_succ hi)
    omega

-- The blocks of a ciphertext.
theorem encrypt_ok (h : r.encrypt c rng src = .ok cipher) :
    0 < r.maxBlockSize.toNat ∧ ∃ blocks : List Data, cipher = blocks.flatten ∧
      blocks.length = r.maxLoop src.length ∧ ∀ i (hi : i < blocks.length),
        c.oaepEncrypt r.publicKey (rng + i) (Chunks.chunk r.maxBlockSize.toNat i src) =
          some blocks[i] := by
  unfold encrypt at h
  split at h
  case isTrue  => cases h
  case isFalse hm =>
    have hm : 0 < r.maxBlockSize.toNat := by
      rw [Nat.pos_iff_ne_zero]
      exact fun h => hm (UInt64.toNat_inj.mp h)
    split at h
    case h_2 => cases h
    case h_1 blocks hb =>
      cases h
      have hb := Chunks.mapM_eq_some_iff.mp hb
      have hl : blocks.length = r.maxLoop src.length := by
        simpa using (congrArg List.length hb).symm
      refine ⟨hm, blocks, rfl, hl, fun i hi => ?_⟩
      have h := List.getElem_of_eq hb (i := i) (by simp; omega)
      rw [← block_eq ((maxLoop_spec hm _).2 i (by omega))]
      simpa using h

-- Every block of a ciphertext has the size of the modulus.
theorem length_encrypt {privateKey : Data} {size : Nat} (ho : Oaep c r.publicKey privateKey size)
    (h : r.encrypt c rng src = .ok cipher) : cipher.length = r.maxLoop src.length * size := by
  have ⟨_, blocks, he, hl, hb⟩ := encrypt_ok h
  subst he
  rw [← hl]
  apply Chunks.length_flatten
  intro b hm
  have ⟨i, hi, hg⟩ := List.mem_iff_getElem.mp hm
  exact ho.length (hg ▸ hb i hi)

-- A short text is encrypted to less than what the length field of a packet can count, whatever the
-- size of the key is.
theorem length_encrypt_lt {privateKey : Data}
    (ho : Oaep c r.publicKey privateKey (r.keysize / 8).toNat)
    (h : r.encrypt c rng src = .ok cipher)
    (hk : r.keysize.toNat < 65536) (hs : src.length ≤ 42) :
    cipher.length < 65536 := by
  have ⟨hm, _⟩ := encrypt_ok h
  have hspec := (maxLoop_spec hm src.length).2
  have hlen := length_encrypt ho h
  have hsize : (r.keysize / 8).toNat = r.keysize.toNat / 8 := UInt64.toNat_div ..
  have hmax : r.maxBlockSize.toNat = (2 ^ 64 - 42 + r.keysize.toNat / 8) % 2 ^ 64 := by
    rw [maxBlockSize, UInt64.toNat_sub, hsize]
    rfl
  rw [hsize] at hlen
  cases hL : r.maxLoop src.length
  case zero   => simp [hL] at hlen; simp [hlen]
  case succ n =>
    -- The last round starts within the text.
    have hn : n * r.maxBlockSize.toNat ≤ 42 := (hspec n (by omega)).trans hs
    by_cases hz : n = 0
    case pos => simp [hL, hz] at hlen; omega
    case neg =>
      have hle : r.maxBlockSize.toNat ≤ 42 := (Nat.le_mul_of_pos_left _ (by omega)).trans hn
      have hle' : n ≤ 42 := (Nat.le_mul_of_pos_right _ hm).trans hn
      have hb : r.keysize.toNat / 8 ≤ 84 := by omega
      calc cipher.length
        _ = (n + 1) * (r.keysize.toNat / 8) := by rw [hlen, hL]
        _ ≤ 43 * 84                         := Nat.mul_le_mul (by omega) hb
        _ < 65536                           := by decide

theorem decrypt_eq {k : RsaKey} (hk : k.keysize / 8 ≠ 0) (d : Data) :
    (ofRsaKey k).decrypt c d =
      if d.length % (k.keysize / 8).toNat ≠ 0 then .error .exception
      else match (List.range (d.length / (k.keysize / 8).toNat)).mapM fun i =>
          c.oaepDecrypt k.parameters (Chunks.chunk (k.keysize / 8).toNat i d) with
        | some recovered => .ok recovered.flatten
        | none           => .error .exception := by
  simp only [decrypt, ofRsaKey, Bool.not_true, Bool.false_eq_true, if_false, hk]
  rfl

theorem decrypt_error {k : RsaKey} (hk : k.keysize / 8 ≠ 0) {d : Data} {e : RsaError}
    (h : (ofRsaKey k).decrypt c d = .error e) : e = .exception := by
  rw [decrypt_eq hk] at h
  split_ifs at h
  case pos => cases h; rfl
  case neg => split at h <;> cases h; rfl

-- What is decrypted is a sequence of blocks, each of which is decrypted for itself.
theorem decrypt_eq_ok_iff {k : RsaKey} (hk : k.keysize / 8 ≠ 0) {d plain : Data} :
    (ofRsaKey k).decrypt c d = .ok plain ↔ ∃ plains : List Data, plain = plains.flatten ∧
      d.length = plains.length * (k.keysize / 8).toNat ∧ ∀ i (hi : i < plains.length),
        c.oaepDecrypt k.parameters (Chunks.chunk (k.keysize / 8).toNat i d) = some plains[i] := by
  have hpos : 0 < (k.keysize / 8).toNat := by
    rw [Nat.pos_iff_ne_zero]
    exact fun h => hk (UInt64.toNat_inj.mp h)
  rw [decrypt_eq hk]
  generalize (k.keysize / 8).toNat = size at hpos
  constructor
  case mp =>
    intro h
    split_ifs at h with hm
    case neg =>
      split at h <;> cases h
      case h_1 plains hp =>
        have hp := Chunks.mapM_eq_some_iff.mp hp
        have hl : d.length / size = plains.length := by simpa using congrArg List.length hp
        refine ⟨plains, rfl, ?_, fun i hi => ?_⟩
        · rw [← hl, Nat.div_mul_cancel (Nat.dvd_of_mod_eq_zero (not_not.mp hm))]
        · have h := List.getElem_of_eq hp (i := i) (by simp; omega)
          simpa using h
  case mpr =>
    intro ⟨plains, he, hl, h⟩
    have hp : (List.range (d.length / size)).mapM (fun i =>
        c.oaepDecrypt k.parameters (Chunks.chunk size i d)) = some plains := by
      rw [Chunks.mapM_eq_some_iff, hl, Nat.mul_div_cancel _ hpos]
      apply List.ext_getElem (by simp)
      intro i h₁ _
      simpa using h i (by simpa using h₁)
    rw [hl, Nat.mul_mod_left, if_neg (by simp), ← hl, hp, he]

theorem decrypt_flatten {k : RsaKey} (hk : k.keysize / 8 ≠ 0) {blocks plains : List Data}
    (hl : ∀ b ∈ blocks, b.length = (k.keysize / 8).toNat)
    (h : blocks.map (c.oaepDecrypt k.parameters) = plains.map some) :
    (ofRsaKey k).decrypt c blocks.flatten = .ok plains.flatten := by
  have hp : blocks.length = plains.length := by simpa using congrArg List.length h
  refine (decrypt_eq_ok_iff hk).mpr ⟨plains, rfl, hp ▸ Chunks.length_flatten hl, fun i hi => ?_⟩
  rw [Chunks.chunk_flatten hl (hp ▸ hi)]
  have h := List.getElem_of_eq h (i := i) (by simp; omega)
  simpa using h

-- What is decrypted has been made block by block.
theorem decrypt_iff_blocks {k : RsaKey} (hk : k.keysize / 8 ≠ 0)
    (hx : Exact c k.parameters k.parameters) {d plain : Data} :
    (ofRsaKey k).decrypt c d = .ok plain ↔
      ∃ plains, plain = plains.flatten ∧ Blocks c k d plains := by
  constructor
  case mp =>
    intro h
    obtain ⟨plains, he, hl, hd⟩ := (decrypt_eq_ok_iff hk).mp h
    refine ⟨plains, he, (List.range plains.length).map fun i =>
      Chunks.chunk (k.keysize / 8).toNat i d, ?_, ?_, ?_⟩
    · rw [Chunks.flatten_chunks, ← hl, List.take_length]
    · intro b hb
      obtain ⟨i, hi, hb⟩ := List.mem_map.mp hb
      have hi : (i + 1) * (k.keysize / 8).toNat ≤ plains.length * (k.keysize / 8).toNat :=
        Nat.mul_le_mul_right _ (List.mem_range.mp hi)
      rw [Nat.succ_mul] at hi
      rw [← hb, Chunks.chunk, List.length_take, List.length_drop]
      omega
    · rw [List.forall₂_iff_get]
      refine ⟨by simp, fun i h₁ h₂ => ?_⟩
      simpa using hx.mp (hd i h₂)
  case mpr =>
    rintro ⟨_, rfl, blocks, rfl, hl, hb⟩
    refine decrypt_flatten hk hl ?_
    rw [← List.forall₂_eq_eq_eq, List.forall₂_map_left_iff, List.forall₂_map_right_iff]
    exact hb.imp fun _ _ h => hx.mpr h

-- The loops of `Rsa::encrypt` and `Rsa::decrypt` fit together.
theorem inverts_of_oaep {rsakey : RsaKey} {keysize : UInt64} {publicKeyHex : Data}
    (hk : keysize = rsakey.keysize) (h₀ : keysize / 8 ≠ 0)
    (h : ∀ {k}, c.loadPublicKey publicKeyHex = some k →
      Oaep c k rsakey.parameters (keysize / 8).toNat) :
    Inverts c rsakey keysize publicKeyHex := by
  intro rng plain cipher e he hc
  subst hk
  have ⟨k, hload, hs⟩ := Option.map_eq_some_iff.mp he
  subst hs
  have ⟨hm, blocks, he₁, hl, hb⟩ := encrypt_ok hc
  subst he₁
  have hspec := maxLoop_spec hm plain.length
  have hplain := Chunks.flatten_chunks (l := plain)
    (m := (maxBlockSize ⟨k, [], rsakey.keysize, false⟩).toNat) blocks.length
  rw [List.take_of_length_le (hl ▸ hspec.1)] at hplain
  refine hplain ▸ decrypt_flatten h₀ ?_ ?_
  · intro b hm
    have ⟨i, hi, he₂⟩ := List.mem_iff_getElem.mp hm
    subst he₂
    exact (h hload).length (hb i hi)
  · apply List.ext_getElem (by simp)
    intro i h₁ h₂
    simpa using (h hload).inverts (hb i (by simpa using h₁))

end Rsa

-- Primitives that hide nothing, for runs that are computed. Each block of RSA is padded to 64
-- bytes.
def transparent : CryptoPP where
  aes _ _ _ := 0
  md5 _ := .replicate 16 0
  loadPublicKey := some
  oaepEncrypt _ _ d :=
    if d.length < 64 then some (.ofNat d.length :: overwrite (zeros 63) d) else none
  oaepDecrypt _ d := some ((d.drop 1).take (d.headD 0).toNat)

theorem transparent_oaep {publicKey privateKey : Data} :
    Rsa.Oaep transparent publicKey privateKey 64 where
  length h := by
    simp only [transparent] at h
    split at h <;> cases h
    simpa using length_overwrite (show _ ≤ (zeros 63).length by simp; omega)
  inverts h := by
    simp only [transparent] at h
    split at h <;> cases h
    case isTrue hl =>
      have hm {n : Nat} (h : n < 64) : n % 256 = n := Nat.mod_eq_of_lt (by omega)
      simp [transparent, hm hl]

-- The same, but that nothing is decrypted which has not been encrypted.
def strict : CryptoPP :=
  { transparent with
    oaepDecrypt := fun k d => (transparent.oaepDecrypt k d).filter fun block =>
      transparent.oaepEncrypt k 0 block = some d }

theorem strict_exact {publicKey privateKey : Data} : Rsa.Exact strict publicKey privateKey := by
  intro block cipher
  simp only [strict, Option.filter_eq_some_iff, decide_eq_true_eq]
  constructor
  case mp  => exact fun h => ⟨0, h.2⟩
  case mpr => exact fun ⟨_, h⟩ => ⟨transparent_oaep.inverts h, h⟩

end Lproxy.Crypto
