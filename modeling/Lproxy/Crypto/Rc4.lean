import Lproxy.Crypto.Aes
import Lproxy.Lib.StreamCipher
import Lproxy.Session

namespace Lproxy.Crypto

open StreamCipher

-- `rc4_state`
structure Rc4State where
  perm : Vector Byte 256
  index1 : Byte
  index2 : Byte
  deriving DecidableEq

namespace Rc4State

variable (state : Rc4State)

def get (i : Byte) : Byte :=
  state.perm.get i.toFin

-- `swap_bytes` on two elements of the permutation.
def swapBytes (i j : Byte) : Rc4State :=
  { state with perm := state.perm.swap i.toNat j.toNat i.toNat_lt j.toNat_lt }

-- One round of the loop that randomizes the permutation, and its variable `j`.
def randomize (key : Data) (keylen : Int) (p : Rc4State × Byte) (i : Nat) : Rc4State × Byte :=
  let j := p.2 + p.1.get (.ofNat i) + key.getD ((i : Int).tmod keylen).toNat 0
  (p.1.swapBytes (.ofNat i) j, j)

-- `rc4_init`; `none` models the remainder by zero.
def init (key : Data) (keylen : Int) : Option Rc4State :=
  if keylen = 0 then none
  else
    let identity : Rc4State := ⟨.ofFn fun i => .ofNat i, 0, 0⟩
    some ((List.range 256).foldl (randomize key keylen) (identity, 0)).1

-- One round of the loop of `rc4_crypt`, up to the byte of the keystream.
def advance : Rc4State × Byte :=
  let index1 := state.index1 + 1
  let index2 := state.index2 + state.get index1
  let state := { state with index1 := index1, index2 := index2 }.swapBytes index1 index2
  (state, state.get (state.get index1 + state.get index2))

-- The loop over the bytes of `inbuf`.
def process (state : Rc4State) : Data → Rc4State × Data
  | []     => (state, [])
  | b :: d =>
    let (state, k) := state.advance
    let (state, out) := state.process d
    (state, (b ^^^ k) :: out)

-- `rc4_crypt`: what is left of `outbuf` stays as it is.
def crypt (inbuf outbuf : Data) (buflen : Int) : Rc4State × Data :=
  let (state, out) := state.process (inbuf.take buflen.toNat)
  (state, overwrite outbuf out)

end Rc4State

-- A `crypto::Rc4`.
structure Rc4 where
  enState : Rc4State
  deState : Rc4State
  deriving DecidableEq

namespace Rc4

-- The lengths are converted to `int`.
def new (key : Data) : Option Rc4 :=
  (Rc4State.init key (toInt key.length)).bind fun enState =>
    (Rc4State.init key (toInt key.length)).map fun deState => ⟨enState, deState⟩

variable (r : Rc4)

-- `temp` is what the local array contains before it is written.
def encrypt (src temp : Data) : Rc4 × Data :=
  let p := r.enState.crypt src temp (toInt src.length)
  ({ r with enState := p.1 }, p.2)

def decrypt (src temp : Data) : Rc4 × Data :=
  let p := r.deState.crypt src temp (toInt src.length)
  ({ r with deState := p.1 }, p.2)

-- A call, with any contents of the array, which has the length of `src`.
def Encrypts (r : Rc4) (src : Data) (s : Rc4) (dest : Data) : Prop :=
  ∃ temp : Data, temp.length = src.length ∧ r.encrypt src temp = (s, dest)

def Decrypts (r : Rc4) (src : Data) (s : Rc4) (dest : Data) : Prop :=
  ∃ temp : Data, temp.length = src.length ∧ r.decrypt src temp = (s, dest)

end Rc4

namespace Rc4State

-- The state after some rounds, and the bytes that the rounds yield.
def after (state : Rc4State) : Nat → Rc4State
  | 0     => state
  | n + 1 => (state.after n).advance.1

def keystream (state : Rc4State) (n : Nat) : Byte :=
  (state.after n).advance.2

variable {state : Rc4State} {n : Nat} {src temp : Data}

-- The loop goes on in the keystream where it has stopped before, whatever the data are.
theorem process_after : (state.after n).process src =
    (state.after (n + src.length), mixFrom (· ^^^ ·) state.keystream n src) := by
  induction src generalizing n
  case nil         => rfl
  case cons b d hi =>
    have hs : (state.after n).process (b :: d) = (((state.after (n + 1)).process d).1,
        (b ^^^ state.keystream n) :: ((state.after (n + 1)).process d).2) := rfl
    have hl : n + 1 + d.length = n + (b :: d).length := by
      rw [List.length_cons]
      omega
    rw [hs, hi, mixFrom_cons, hl]

example : (process ⟨.ofFn fun i => .ofNat i, 0, 0⟩ [80, 108, 97]).2 = [82, 105, 102] := by
  decide +kernel

theorem toInt_of_lt (h : n < 2 ^ 31) : toInt n = n := by
  rw [toInt, Int.bmod_eq_of_le] <;> omega

theorem crypt_after (h : src.length < 2 ^ 31) (ht : temp.length = src.length) :
    (state.after n).crypt src temp (toInt src.length) =
      (state.after (n + src.length), mixFrom (· ^^^ ·) state.keystream n src) := by
  rw [crypt, toInt_of_lt h, Int.toNat_natCast, List.take_length, process_after]
  simp [overwrite, ht]

theorem exists_init {key : Data} {keylen : Int} (h : keylen ≠ 0) :
    ∃ state, init key keylen = some state :=
  ⟨_, if_neg h⟩

end Rc4State

namespace Rc4

variable {r s : Rc4} {state : Rc4State} {key src dest : Data} {m n : Nat}

-- The states of the two directions are those after as many rounds as bytes have been processed.
structure At (state : Rc4State) (r : Rc4) (m n : Nat) : Prop where
  enState : r.enState = state.after m
  deState : r.deState = state.after n

theorem follows : Follows Encrypts Decrypts (· ^^^ ·) state.keystream (·.length < 2 ^ 31)
    (At state) where
  encrypt hl h he := by
    have ⟨temp, ht, he⟩ := he
    rw [encrypt, h.enState, Rc4State.crypt_after hl ht] at he
    cases he
    exact ⟨rfl, rfl, h.deState⟩
  decrypt hl h he := by
    have ⟨temp, ht, he⟩ := he
    rw [decrypt, h.deState, Rc4State.crypt_after hl ht] at he
    cases he
    exact ⟨rfl, h.enState, rfl⟩

-- The length is converted to zero if and only if it is a multiple of 2 ^ 32.
theorem toInt_ne_zero (h : ¬2 ^ 32 ∣ n) : toInt n ≠ 0 := by
  intro hz
  rw [toInt] at hz
  have hd := Int.dvd_of_bmod_eq_zero hz
  rw [Int.natCast_dvd_natCast] at hd
  exact h hd

theorem new_eq {key : Data} (h : ¬2 ^ 32 ∣ key.length) :
    ∃ state, new key = some ⟨state, state⟩ := by
  have ⟨state, hs⟩ : ∃ state, Rc4State.init key (toInt key.length) = some state :=
    Rc4State.exists_init (toInt_ne_zero h)
  exact ⟨state, by rw [new, hs, Option.bind_some, Option.map_some]⟩

-- The constructor is defined, and in every conversation what has been decrypted is the beginning of
-- what has been encrypted.
def Streams (key : Data) (cond : Call Byte → Prop) : Prop :=
  ∃ r, new key = some r ∧ ∀ c, Transition.Reachable (· = Conversation.start r)
    (Transition.Guarded (Step Encrypts Decrypts) fun _ l => cond l) c →
      c.recovered <+: c.plain ∧ (c.fed = c.cipher → c.recovered = c.plain)

-- The object is a stream cipher for calls upon less than 2 ^ 31 bytes.
theorem streams_of_lt (hk : ¬2 ^ 32 ∣ key.length) :
    Streams key fun l => l.src.length < 2 ^ 31 := by
  have ⟨state, hn⟩ := new_eq hk
  refine ⟨_, hn, fun c hc => ?_⟩
  have h : InStep (· ^^^ ·) state.keystream (At state) c := .reachable follows ⟨rfl, rfl⟩ hc
  have hr := h.recovered_eq Aes.xor_xor_self
  refine ⟨hr ▸ List.take_prefix .., ?_⟩
  intro he
  rw [hr, he, h.cipher, length_mixFrom, List.take_length]

theorem streams_sample : Streams [75, 101, 121] fun l => l.src.length < 2 ^ 31 :=
  streams_of_lt (by decide)

-- A call upon a length that is converted to a number below zero leaves the array as it was.
theorem encrypts_temp (h : toInt src.length ≤ 0) (hl : dest.length = src.length) :
    r.Encrypts src r dest := by
  refine ⟨dest, hl, ?_⟩
  rw [encrypt, Rc4State.crypt, Int.toNat_of_nonpos h]
  rfl

theorem decrypts_temp (h : toInt src.length ≤ 0) (hl : dest.length = src.length) :
    r.Decrypts src r dest := by
  refine ⟨dest, hl, ?_⟩
  rw [decrypt, Rc4State.crypt, Int.toNat_of_nonpos h]
  rfl

-- A text and its ciphertext are of such a length, and the array contains zeros both times.
theorem not_streams_of_nonpos (hn : 0 < n) (h : toInt n ≤ 0) : ¬Streams key fun _ => True := by
  intro ⟨r, _, hs⟩
  have he : r.Encrypts (List.replicate n 1) r (zeros n) :=
    encrypts_temp (by simpa using h) (by simp)
  have hd : r.Decrypts (zeros n) r (zeros n) := decrypts_temp (by simpa using h) (by simp)
  have r₁ : Transition.Reachable (· = Conversation.start r)
      (Transition.Guarded (Step Encrypts Decrypts) fun _ _ => True) _ :=
    (Transition.Reachable.refl _).step ⟨.encrypt he, trivial⟩
  have r₂ := r₁.step ⟨.decrypt hd List.prefix_rfl, trivial⟩
  have hp : zeros n = List.replicate n 1 := (hs _ r₂).2 rfl
  have h₁ : (1 : Byte) ∈ zeros n := hp ▸ List.mem_replicate.mpr ⟨by omega, rfl⟩
  exact absurd (List.eq_of_mem_replicate h₁) (by decide)

-- A text of 2 ^ 31 bytes is not encrypted at all.
theorem not_streams_of_length : ¬∀ key : Data, key ≠ [] → Streams key fun _ => True := by
  intro h
  exact not_streams_of_nonpos (n := 2 ^ 31) (by decide) (by decide) (h [75, 101, 121] (by decide))

end Rc4
end Lproxy.Crypto
