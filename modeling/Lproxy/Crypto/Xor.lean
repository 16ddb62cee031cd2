import Lproxy.Crypto.Aes
import Lproxy.Lib.StreamCipher

namespace Lproxy.Crypto

open StreamCipher

-- A `crypto::Xor`. No sum of two lengths or places exceeds the range of a `size_t`, since an array
-- has less than half of it.
structure Xor where
  key : Data
  encryLoc : Nat
  decryLoc : Nat
  isSynchro : Bool
  deriving DecidableEq

namespace Xor

def new (key : Data) (isSynchro : Bool) : Xor where
  key := key
  encryLoc := 0
  decryLoc := 0
  isSynchro := isSynchro

variable (x : Xor)

-- The result and the location after the call. `none` models a remainder by a length of zero.
def xorEncrypt (src : Data) (loc : Nat) : Option (Data × Nat) :=
  if x.key = [] ∧ (src ≠ [] ∨ x.isSynchro) then none
  else
    some (src.mapIdx fun i b => b ^^^ x.key.getD ((i + loc) % x.key.length) 0,
      if x.isSynchro then (src.length + loc) % x.key.length else loc)

def encrypt (src : Data) : Option (Xor × Data) :=
  (x.xorEncrypt src x.encryLoc).map fun (dest, loc) => ({ x with encryLoc := loc }, dest)

def decrypt (src : Data) : Option (Xor × Data) :=
  (x.xorEncrypt src x.decryLoc).map fun (dest, loc) => ({ x with decryLoc := loc }, dest)

abbrev Encrypts (x : Xor) (src : Data) (y : Xor) (dest : Data) : Prop :=
  x.encrypt src = some (y, dest)

abbrev Decrypts (x : Xor) (src : Data) (y : Xor) (dest : Data) : Prop :=
  x.decrypt src = some (y, dest)

-- Any calls of an object, one after the other.
inductive Calls : Xor → Xor → Prop
  | nil {x : Xor} : Calls x x
  | encrypt {x y z : Xor} {src dest : Data} (h : Calls x y) (e : y.Encrypts src z dest) : Calls x z
  | decrypt {x y z : Xor} {src dest : Data} (h : Calls x y) (e : y.Decrypts src z dest) : Calls x z

-- The key, repeated without end.
def keystream (key : Data) (n : Nat) : Byte :=
  key.getD (n % key.length) 0

variable {x} {y z : Xor} {key src dest : Data} {m n : Nat}

theorem xorEncrypt_eq (hk : x.key ≠ []) {loc : Nat} (hl : loc = n % x.key.length) :
    x.xorEncrypt src loc = some (mixFrom (· ^^^ ·) (keystream x.key) n src,
      if x.isSynchro then (n + src.length) % x.key.length else loc) := by
  have hd : (src.mapIdx fun i b => b ^^^ x.key.getD ((i + loc) % x.key.length) 0) =
      mixFrom (· ^^^ ·) (keystream x.key) n src := by
    apply List.ext_getElem (by simp)
    intro i _ _
    simp [mixFrom, keystream, hl, Nat.add_comm i]
  have hm : (src.length + loc) % x.key.length = (n + src.length) % x.key.length := by
    simp [hl, Nat.add_comm src.length]
  rw [xorEncrypt, if_neg (fun h => hk h.1), hd, hm]

-- In synchronous mode, the locations are the places in the keystream, up to multiples of the length
-- of the key.
structure At (key : Data) (x : Xor) (m n : Nat) : Prop where
  key_eq : x.key = key
  encryLoc : x.encryLoc = m % x.key.length
  decryLoc : x.decryLoc = n % x.key.length
  isSynchro : x.isSynchro = true

theorem At.encrypt_eq (hk : key ≠ []) (h : At key x m n) :
    x.encrypt src = some ({ x with encryLoc := (m + src.length) % x.key.length },
      mixFrom (· ^^^ ·) (keystream key) m src) := by
  rw [encrypt, xorEncrypt_eq (h.key_eq ▸ hk) h.encryLoc, h.isSynchro, h.key_eq]
  rfl

theorem At.decrypt_eq (hk : key ≠ []) (h : At key x m n) :
    x.decrypt src = some ({ x with decryLoc := (n + src.length) % x.key.length },
      mixFrom (· ^^^ ·) (keystream key) n src) := by
  rw [decrypt, xorEncrypt_eq (h.key_eq ▸ hk) h.decryLoc, h.isSynchro, h.key_eq]
  rfl

theorem at_new : At key (new key true) 0 0 :=
  ⟨rfl, (Nat.zero_mod _).symm, (Nat.zero_mod _).symm, rfl⟩

theorem follows (hk : key ≠ []) : Follows Encrypts Decrypts (· ^^^ ·) (keystream key)
    (fun _ => True) (At key) where
  encrypt _ h he := by
    rw [Encrypts, h.encrypt_eq hk] at he
    cases he
    exact ⟨rfl, h.key_eq, rfl, h.decryLoc, h.isSynchro⟩
  decrypt _ h he := by
    rw [Decrypts, h.decrypt_eq hk] at he
    cases he
    exact ⟨rfl, h.key_eq, h.encryLoc, rfl, h.isSynchro⟩

-- Without the synchronous mode, no call changes the object.
theorem encrypt_new (hk : key ≠ []) : (new key false).encrypt src =
    some (new key false, mixFrom (· ^^^ ·) (keystream key) 0 src) := by
  have h : (new key false).xorEncrypt src 0 = some (mixFrom (· ^^^ ·) (keystream key) 0 src, 0) :=
    xorEncrypt_eq hk (Nat.zero_mod _).symm
  exact congrArg (Option.map _) h

theorem decrypt_new (hk : key ≠ []) : (new key false).decrypt src =
    some (new key false, mixFrom (· ^^^ ·) (keystream key) 0 src) := by
  have h : (new key false).xorEncrypt src 0 = some (mixFrom (· ^^^ ·) (keystream key) 0 src, 0) :=
    xorEncrypt_eq hk (Nat.zero_mod _).symm
  exact congrArg (Option.map _) h

theorem Calls.eq_new (hk : key ≠ []) (h : Calls (new key false) x) : x = new key false := by
  induction h
  case nil          => rfl
  case encrypt e hi =>
    subst hi
    rw [Encrypts, encrypt_new hk] at e
    cases e
    rfl
  case decrypt e hi =>
    subst hi
    rw [Decrypts, decrypt_new hk] at e
    cases e
    rfl

-- What an object in synchronous mode gives: in every conversation, every call is defined, what has
-- been decrypted is the beginning of what has been encrypted, and the ciphertext is that of a fresh
-- object which is given all at once.
structure Synchronous (key : Data) (c : Conversation Xor Byte) : Prop where
  defined : ∀ src, (∃ y dest, c.object.Encrypts src y dest) ∧ ∃ y dest, c.object.Decrypts src y dest
  recovered : c.recovered <+: c.plain
  all : c.fed = c.cipher → c.recovered = c.plain
  at_once : ∃ y, (new key true).Encrypts c.plain y c.cipher

theorem synchronous (hk : key ≠ []) {c : Conversation Xor Byte}
    (r : Transition.Reachable (· = Conversation.start (new key true)) (Step Encrypts Decrypts) c) :
    Synchronous key c := by
  have h : InStep (· ^^^ ·) (keystream key) (At key) c :=
    .reachable (follows hk) at_new (r.mono fun e => ⟨e, trivial⟩)
  have hr := h.recovered_eq Aes.xor_xor_self
  constructor
  case defined =>
    intro src
    exact ⟨⟨_, _, h.place.encrypt_eq hk⟩, ⟨_, _, h.place.decrypt_eq hk⟩⟩
  case recovered => exact hr ▸ List.take_prefix ..
  case all =>
    intro he
    rw [hr, he, h.cipher, length_mixFrom, List.take_length]
  case at_once => exact ⟨_, by rw [Encrypts, at_new.encrypt_eq hk, h.cipher]⟩

-- In synchronous mode, the object is a stream cipher; without it, it inverts every single message,
-- whatever it is called for before and in between.
theorem xor_streaming (hk : key ≠ []) :
    (∀ c, Transition.Reachable (· = Conversation.start (new key true)) (Step Encrypts Decrypts) c →
      Synchronous key c) ∧
    ∀ x src, Calls (new key false) x → ∃ x' dest, x.Encrypts src x' dest ∧
      ∀ y, Calls x' y → ∃ y', y.Decrypts dest y' src := by
  constructor
  case left  => exact fun _ => synchronous hk
  case right =>
    intro x src hx
    rw [hx.eq_new hk]
    refine ⟨_, _, encrypt_new hk, fun y hy => ?_⟩
    rw [hy.eq_new hk]
    exact ⟨_, by rw [Decrypts, decrypt_new hk, mixFrom_mixFrom Aes.xor_xor_self]⟩

theorem xor_streaming_sample :
    (∀ c, Transition.Reachable (· = Conversation.start (new [104, 105] true))
      (Step Encrypts Decrypts) c → Synchronous [104, 105] c) ∧
    ∀ x src, Calls (new [104, 105] false) x → ∃ x' dest, x.Encrypts src x' dest ∧
      ∀ y, Calls x' y → ∃ y', y.Decrypts dest y' src :=
  xor_streaming (by decide)

end Xor
end Lproxy.Crypto
