import Lproxy.Lib.Transition
import Mathlib.Data.List.Basic

-- Ciphers that mix each element of a text with one of a keystream. An object keeps two places in
-- the keystream: one for what it encrypts and one for what it decrypts.
namespace StreamCipher

variable {α κ ω : Type*}

-- A text, mixed with the keystream from its element `n` on.
def mixFrom (mix : α → κ → α) (ks : ℕ → κ) (n : ℕ) (src : List α) : List α :=
  src.mapIdx fun i a => mix a (ks (n + i))

-- What has been done with an object: all that was encrypted, the ciphertext of it, how much of the
-- ciphertext has been decrypted again, and what that has given.
structure Conversation (ω α : Type*) where
  object : ω
  plain : List α
  cipher : List α
  fed : List α
  recovered : List α

def Conversation.start (o : ω) : Conversation ω α where
  object := o
  plain := []
  cipher := []
  fed := []
  recovered := []

-- A call of an object, with the text that it is given.
inductive Call (α : Type*)
  | encrypt (src : List α)
  | decrypt (src : List α)

def Call.src : Call α → List α
  | encrypt src | decrypt src => src

-- The calls `enc o src o' dest` and `dec o src o' dest` leave the object as `o'` and return `dest`.
-- The ciphertext is decrypted in its order, in pieces of any size, and never ahead of what there
-- is.
inductive Step (enc dec : ω → List α → ω → List α → Prop) :
    Conversation ω α → Call α → Conversation ω α → Prop
  | encrypt {c : Conversation ω α} {src dest : List α} {o : ω} (h : enc c.object src o dest) :
    Step enc dec c (.encrypt src)
      { c with object := o, plain := c.plain ++ src, cipher := c.cipher ++ dest }
  | decrypt {c : Conversation ω α} {src dest : List α} {o : ω} (h : dec c.object src o dest)
    (hf : c.fed ++ src <+: c.cipher) :
    Step enc dec c (.decrypt src)
      { c with object := o, fed := c.fed ++ src, recovered := c.recovered ++ dest }

-- The calls upon texts that are `ok` mix them with the keystream from the place on where the last
-- call has ended. The places of an object are `place o`, if any.
structure Follows (enc dec : ω → List α → ω → List α → Prop) (mix : α → κ → α) (ks : ℕ → κ)
    (ok : List α → Prop) (place : ω → ℕ → ℕ → Prop) : Prop where
  encrypt : ∀ {o o' m n src dest}, ok src → place o m n → enc o src o' dest →
    dest = mixFrom mix ks m src ∧ place o' (m + src.length) n
  decrypt : ∀ {o o' m n src dest}, ok src → place o m n → dec o src o' dest →
    dest = mixFrom mix ks n src ∧ place o' m (n + src.length)

variable {mix : α → κ → α} {ks : ℕ → κ} {n : ℕ} {a b src : List α}

theorem mixFrom_cons {x : α} :
    mixFrom mix ks n (x :: src) = mix x (ks n) :: mixFrom mix ks (n + 1) src := by
  simp [mixFrom, List.mapIdx_cons, Nat.add_assoc, Nat.add_comm 1]

@[simp]
theorem length_mixFrom : (mixFrom mix ks n src).length = src.length := by
  simp [mixFrom]

theorem mixFrom_append :
    mixFrom mix ks n (a ++ b) = mixFrom mix ks n a ++ mixFrom mix ks (n + a.length) b := by
  simp [mixFrom, List.mapIdx_append, Nat.add_assoc, Nat.add_comm a.length]

-- Mixing twice restores the text.
theorem mixFrom_mixFrom (h : ∀ a k, mix (mix a k) k = a) :
    mixFrom mix ks n (mixFrom mix ks n src) = src := by
  apply List.ext_getElem (by simp)
  intro i _ _
  simp [mixFrom, h]

theorem mixFrom_prefix (h : a <+: b) : mixFrom mix ks n a <+: mixFrom mix ks n b := by
  have ⟨c, hc⟩ := h
  rw [← hc, mixFrom_append]
  exact List.prefix_append ..

-- Both ends have gone through the same keystream from its beginning.
structure InStep (mix : α → κ → α) (ks : ℕ → κ) (place : ω → ℕ → ℕ → Prop)
    (c : Conversation ω α) : Prop where
  cipher : c.cipher = mixFrom mix ks 0 c.plain
  fed : c.fed <+: c.cipher
  recovered : c.recovered = mixFrom mix ks 0 c.fed
  place : place c.object c.plain.length c.fed.length

variable {enc dec : ω → List α → ω → List α → Prop} {ok : List α → Prop}
  {place : ω → ℕ → ℕ → Prop} {c d : Conversation ω α}

namespace InStep

theorem start {o : ω} (h : place o 0 0) : InStep mix ks place (Conversation.start o) where
  cipher := rfl
  fed := List.prefix_rfl
  recovered := rfl
  place := h

theorem step {l : Call α} (f : Follows enc dec mix ks ok place) (h : InStep mix ks place c)
    (hl : ok l.src) (e : Step enc dec c l d) : InStep mix ks place d := by
  cases e
  case encrypt src dest o he =>
    have hl : ok src := hl
    have ⟨hd, hp⟩ := f.encrypt hl h.place he
    have hc : c.cipher ++ dest = mixFrom mix ks 0 (c.plain ++ src) := by
      rw [mixFrom_append, Nat.zero_add, hd, h.cipher]
    exact ⟨hc, h.fed.trans (List.prefix_append ..), h.recovered, by simpa using hp⟩
  case decrypt src dest o hd hf =>
    have hl : ok src := hl
    have ⟨he, hp⟩ := f.decrypt hl h.place hd
    have hr : c.recovered ++ dest = mixFrom mix ks 0 (c.fed ++ src) := by
      rw [mixFrom_append, Nat.zero_add, he, h.recovered]
    exact ⟨h.cipher, hf, hr, by simpa using hp⟩

theorem reachable {o : ω} (f : Follows enc dec mix ks ok place) (ho : place o 0 0)
    (r : Transition.Reachable (· = Conversation.start o)
      (Transition.Guarded (Step enc dec) fun _ l => ok l.src) c) : InStep mix ks place c := by
  induction r
  case init h    => exact h ▸ start ho
  case step e hi => exact hi.step f e.cond e.step

-- What has been recovered is the beginning of the text, as far as the ciphertext has been fed.
theorem recovered_eq (hm : ∀ a k, mix (mix a k) k = a) (h : InStep mix ks place c) :
    c.recovered = c.plain.take c.fed.length := by
  have hp : c.recovered <+: c.plain := by
    have he : mixFrom mix ks 0 (mixFrom mix ks 0 c.plain) = c.plain := mixFrom_mixFrom hm
    rw [h.recovered, ← he, ← h.cipher]
    exact mixFrom_prefix h.fed
  have hl : c.recovered.length = c.fed.length := by rw [h.recovered, length_mixFrom]
  rw [← hl]
  exact List.prefix_iff_eq_take.mp hp

end InStep
end StreamCipher
