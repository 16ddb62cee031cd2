import Lproxy.Crypto.Rsa
import Lproxy.Lib.Transition

-- The constructors of `Rsa` that are given both halves of a key.
namespace Lproxy.Crypto

-- How the halves of a key are saved in hex, and how a private key is loaded.
structure KeyHex where
  publicKeyHex : Data → Data
  privateKeyHex : Data → Data
  loadPrivateKey : Data → Option Data

-- What has been saved of a key is loaded again.
structure KeyHex.Recovers (x : KeyHex) (c : CryptoPP) (rsakey : RsaKey) : Prop where
  publicKey : c.loadPublicKey (x.publicKeyHex rsakey.parameters) = some rsakey.parameters
  privateKey : x.loadPrivateKey (x.privateKeyHex rsakey.parameters) = some rsakey.parameters

structure RsaKey.Pair where
  publicKey : Data
  privateKey : Data
  keysize : UInt64

def RsaKey.keyPair (rsakey : RsaKey) : Pair where
  publicKey := rsakey.parameters
  privateKey := rsakey.parameters
  keysize := rsakey.keysize

-- The ways in which a call of `Rsa::decrypt` fails: two exceptions of its own, that of the library,
-- and a remainder by zero.
inductive DecryptError
  | privateKeyNotSet
  | illegalLength
  | library
  | divisionByZero
  deriving DecidableEq, Repr

def DecryptError.toRsaError : DecryptError → RsaError
  | divisionByZero => .divisionByZero
  | _              => .exception

namespace Rsa

-- The constructors from a reference to a pair and from a temporary, which is copied as well.
def ofPair (keyPair : RsaKey.Pair) : Rsa where
  publicKey := keyPair.publicKey
  privateKey := keyPair.privateKey
  keysize := keyPair.keysize
  flagPrivateKeySet := true

def ofPairMove (keyPair : RsaKey.Pair) : Rsa where
  publicKey := keyPair.publicKey
  privateKey := keyPair.privateKey
  keysize := keyPair.keysize
  flagPrivateKeySet := true

-- Loads both halves. `none` models the exception that is thrown if one of them cannot be loaded.
def load (c : CryptoPP) (x : KeyHex) (keysize : UInt64) (publicKey privateKey : Data)
    (flagPrivateKeySet : Bool) : Option Rsa :=
  match c.loadPublicKey publicKey, x.loadPrivateKey privateKey with
  | some p, some s => some ⟨p, s, keysize, flagPrivateKeySet⟩
  | _,      _      => none

-- The constructor from hex strings.
def ofHex (c : CryptoPP) (x : KeyHex) (keysize : UInt64) (publicKey privateKey : Data) :
    Option Rsa :=
  load c x keysize publicKey privateKey true

-- The constructor from pointers to hex strings, which sets the flag to `false`.
def ofHexPointers (c : CryptoPP) (x : KeyHex) (keysize : UInt64) (publicKey privateKey : Data) :
    Option Rsa :=
  load c x keysize publicKey privateKey false

-- `Rsa::decrypt`, with the exceptions told apart.
def decryptWhat (c : CryptoPP) (r : Rsa) (src : Data) : Except DecryptError Data :=
  if !r.flagPrivateKeySet then .error .privateKeyNotSet
  else if r.keysize / 8 = 0 then .error .divisionByZero
  else
    let blockSize := (r.keysize / 8).toNat
    if src.length % blockSize ≠ 0 then .error .illegalLength
    else
      match (List.range (src.length / blockSize)).mapM fun loop =>
        c.oaepDecrypt r.privateKey ((src.drop (loop * blockSize)).take blockSize)
      with
      | some recovered => .ok recovered.flatten
      | none           => .error .library

theorem decrypt_eq_decryptWhat (c : CryptoPP) (r : Rsa) (src : Data) :
    r.decrypt c src = (r.decryptWhat c src).mapError DecryptError.toRsaError := by
  simp only [decrypt, decryptWhat]
  split_ifs
  case pos => rfl
  case pos => rfl
  case pos => rfl
  case neg =>
    generalize (List.mapM _ _ : Option (List Data)) = recovered
    cases recovered <;> rfl

end Rsa

-- An object of the class `Rsa`, with the state of its random number generator.
structure RsaObject where
  rsa : Rsa
  rng : Nat

namespace RsaObject

inductive Call
  | encrypt (src : Data) (result : Except RsaError Data)
  | decrypt (src : Data) (result : Except DecryptError Data)

-- A call of a member. It leaves the generator in some state.
inductive Step (c : CryptoPP) : RsaObject → Call → RsaObject → Prop
  | encrypt {o : RsaObject} (src : Data) (rng : Nat) :
    Step c o (.encrypt src (o.rsa.encrypt c o.rng src)) { o with rng := rng }
  | decrypt {o : RsaObject} (src : Data) (rng : Nat) :
    Step c o (.decrypt src (o.rsa.decryptWhat c src)) { o with rng := rng }

-- What has become of an object that was constructed as `r`.
abbrev After (c : CryptoPP) (r : Rsa) : RsaObject → Prop :=
  Transition.Reachable (fun o => o.rsa = r) (Step c)

-- A call changes nothing but the generator.
theorem After.rsa_eq {c : CryptoPP} {r : Rsa} {o : RsaObject} (h : After c r o) : o.rsa = r := by
  induction h
  case init h    => exact h
  case step e hi => cases e <;> exact hi

end RsaObject

-- After whatever calls, the two objects decrypt the same ciphertexts, to the same texts, and
-- neither of them lacks its private key.
structure Rsa.Alike (c : CryptoPP) (a b : Rsa) : Prop where
  decrypt : ∀ o o', RsaObject.After c a o → RsaObject.After c b o' →
    ∀ src m, o.rsa.decryptWhat c src = .ok m ↔ o'.rsa.decryptWhat c src = .ok m
  keySet : ∀ o o', RsaObject.After c a o → RsaObject.After c b o' →
    ∀ src, o.rsa.decryptWhat c src ≠ .error .privateKeyNotSet ∧
      o'.rsa.decryptWhat c src ≠ .error .privateKeyNotSet

-- The constructors that are given both halves.
inductive Constructor
  | rsaKey
  | pair
  | pairMove
  | hex
  | hexPointers
  deriving DecidableEq, Repr

-- The object that a constructor makes of a key.
def Constructor.build (c : CryptoPP) (x : KeyHex) (rsakey : RsaKey) : Constructor → Option Rsa
  | rsaKey      => some (.ofRsaKey rsakey)
  | pair        => some (.ofPair rsakey.keyPair)
  | pairMove    => some (.ofPairMove rsakey.keyPair)
  | hex         => Rsa.ofHex c x rsakey.keysize (x.publicKeyHex rsakey.parameters)
      (x.privateKeyHex rsakey.parameters)
  | hexPointers => Rsa.ofHexPointers c x rsakey.keysize (x.publicKeyHex rsakey.parameters)
      (x.privateKeyHex rsakey.parameters)

section Constructors

variable {c : CryptoPP} {x : KeyHex} {rsakey : RsaKey}

-- All of them make the same object, but for the flag.
theorem Constructor.build_eq (h : x.Recovers c rsakey) (p : Constructor) :
    p.build c x rsakey =
      some { Rsa.ofRsaKey rsakey with flagPrivateKeySet := p ≠ .hexPointers } := by
  cases p
  case rsaKey      => rfl
  case pair        => rfl
  case pairMove    => rfl
  case hex         => simp [build, Rsa.ofHex, Rsa.load, h.publicKey, h.privateKey, Rsa.ofRsaKey]
  case hexPointers =>
    simp [build, Rsa.ofHexPointers, Rsa.load, h.publicKey, h.privateKey, Rsa.ofRsaKey]

theorem Rsa.decryptWhat_keySet_iff {r : Rsa} {src : Data} :
    r.decryptWhat c src ≠ .error .privateKeyNotSet ↔ r.flagPrivateKeySet = true := by
  cases hf : r.flagPrivateKeySet
  case false => simp [decryptWhat, hf]
  case true  =>
    simp only [decryptWhat, hf, Bool.not_true, Bool.false_eq_true, if_false, iff_true]
    split_ifs
    case pos => exact nofun
    case pos => exact nofun
    case neg =>
      generalize (List.mapM _ _ : Option (List Data)) = recovered
      cases recovered <;> exact nofun

theorem Rsa.alike_self {r : Rsa} (h : r.flagPrivateKeySet = true) : Alike c r r where
  decrypt _ _ ha hb _ _ := by rw [ha.rsa_eq, hb.rsa_eq]
  keySet _ _ ha hb _    := by
    rw [ha.rsa_eq, hb.rsa_eq]
    exact ⟨decryptWhat_keySet_iff.mpr h, decryptWhat_keySet_iff.mpr h⟩

theorem Rsa.Alike.keysSet {a b : Rsa} (h : Alike c a b) :
    a.flagPrivateKeySet = true ∧ b.flagPrivateKeySet = true := by
  have h := h.keySet ⟨a, 0⟩ ⟨b, 0⟩ (.init rfl) (.init rfl) []
  exact ⟨decryptWhat_keySet_iff.mp h.1, decryptWhat_keySet_iff.mp h.2⟩

-- Two objects that are made of one key are interchangeable unless one of them was made from
-- pointers.
theorem constructors_alike_iff (h : x.Recovers c rsakey) (p q : Constructor) :
    ∃ a b, p.build c x rsakey = some a ∧ q.build c x rsakey = some b ∧
      (Rsa.Alike c a b ↔ p ≠ .hexPointers ∧ q ≠ .hexPointers) := by
  refine ⟨_, _, p.build_eq h, q.build_eq h, ?_⟩
  constructor
  case mp =>
    intro ha
    have ⟨hp, hq⟩ := ha.keysSet
    exact ⟨of_decide_eq_true hp, of_decide_eq_true hq⟩
  case mpr =>
    intro ⟨hp, hq⟩
    simp only [ne_eq, hp, hq, not_false_eq_true, decide_true]
    exact Rsa.alike_self rfl

-- Keys that are saved as they are.
def plainHex : KeyHex where
  publicKeyHex := id
  privateKeyHex := id
  loadPrivateKey := some

theorem plainHex_recovers : plainHex.Recovers transparent rsakey where
  publicKey := rfl
  privateKey := rfl

theorem constructors_alike_iff_hex : ∃ a b,
    Constructor.rsaKey.build transparent plainHex ⟨[7], 512⟩ = some a ∧
      Constructor.hex.build transparent plainHex ⟨[7], 512⟩ = some b ∧
        (Rsa.Alike transparent a b ↔
          Constructor.rsaKey ≠ .hexPointers ∧ Constructor.hex ≠ .hexPointers) :=
  constructors_alike_iff plainHex_recovers .rsaKey .hex

-- An object that is made from pointers does not decrypt anything.
theorem not_alike_hexPointers : ¬∀ (c : CryptoPP) (x : KeyHex) (rsakey : RsaKey),
    x.Recovers c rsakey → ∀ (p q : Constructor) (a b : Rsa), p.build c x rsakey = some a →
      q.build c x rsakey = some b → Rsa.Alike c a b := by
  intro h
  have h := h transparent plainHex ⟨[7], 512⟩ plainHex_recovers .rsaKey .hexPointers _ _ rfl rfl
  exact absurd h.keysSet.2 (by decide)

end Constructors
end Lproxy.Crypto
