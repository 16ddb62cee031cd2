import Lproxy.Crypto.Rsa
import Lproxy.Lib.Ranges

-- What the loop of `Rsa::encrypt` reads of its text.
namespace Lproxy.Crypto.Rsa

-- The variables in one round of the loop. All of them are unsigned.
structure Round where
  loop : UInt64
  unprocData : UInt64
  offset : UInt64
  current : UInt64

namespace Round

-- What the encryptor is given.
def range (x : Round) : Nat × Nat :=
  (x.current.toNat, x.offset.toNat)

def read (x : Round) (src : Data) : Data :=
  (src.drop x.current.toNat).take x.offset.toNat

end Round

variable (r : Rsa) (srcLen : UInt64)

def round (loop : UInt64) : Round :=
  let unprocData := srcLen - loop * r.maxBlockSize
  { loop := loop
    unprocData := unprocData
    offset := if unprocData ≥ r.maxBlockSize then r.maxBlockSize else unprocData
    current := srcLen - unprocData }

-- The next `n` rounds of the loop.
def rounds : (n : Nat) → (loop : UInt64) → List Round
  | 0, _        => []
  | n + 1, loop => round r srcLen loop :: rounds n (loop + 1)

-- All rounds that there are for a text.
def encryptRounds : List Round :=
  r.rounds srcLen (r.maxLoop srcLen.toNat) 0

-- The unsigned arithmetic of a round is that of the numbers.
structure Round.Exact (x : Round) : Prop where
  mul : (x.loop * r.maxBlockSize).toNat = x.loop.toNat * r.maxBlockSize.toNat
  le : x.loop.toNat * r.maxBlockSize.toNat ≤ srcLen.toNat
  unprocData : x.unprocData.toNat + x.loop.toNat * r.maxBlockSize.toNat = srcLen.toNat
  current : x.current.toNat + x.unprocData.toNat = srcLen.toNat

section

variable {r srcLen} {loop : UInt64} {n : Nat} {src : Data}

theorem maxBlockSize_toNat (hk : 42 < r.keysize.toNat / 8) :
    r.maxBlockSize.toNat = r.keysize.toNat / 8 - 42 := by
  have hd : (r.keysize / 8).toNat = r.keysize.toNat / 8 := UInt64.toNat_div ..
  have hle : (42 : UInt64) ≤ r.keysize / 8 := by
    rw [UInt64.le_iff_toNat_le, hd]
    exact hk.le
  rw [maxBlockSize, UInt64.toNat_sub_of_le _ _ hle, hd]
  rfl

-- There is something left of the text in every round.
theorem lt_of_lt_maxLoop (hm : 0 < r.maxBlockSize.toNat) {i : Nat} (h : i < r.maxLoop n) :
    i * r.maxBlockSize.toNat < n := by
  have hd := Nat.div_add_mod' n r.maxBlockSize.toNat
  rw [maxLoop] at h
  split at h
  case isTrue  =>
    have := Nat.mul_le_mul_right r.maxBlockSize.toNat (Nat.succ_le_of_lt h)
    rw [Nat.succ_mul] at this
    omega
  case isFalse =>
    have := Nat.mul_le_mul_right r.maxBlockSize.toNat (Nat.le_of_lt_succ h)
    omega

theorem maxLoop_lt (hm : 0 < r.maxBlockSize.toNat) : r.maxLoop srcLen.toNat < 2 ^ 64 := by
  have hs := srcLen.toNat_lt
  have hd := Nat.div_add_mod' srcLen.toNat r.maxBlockSize.toNat
  have hle := Nat.le_mul_of_pos_right (srcLen.toNat / r.maxBlockSize.toNat) hm
  rw [maxLoop]
  split <;> omega

theorem round_exact (h : loop.toNat * r.maxBlockSize.toNat < srcLen.toNat) :
    (r.round srcLen loop).Exact r srcLen := by
  have hm : (loop * r.maxBlockSize).toNat = loop.toNat * r.maxBlockSize.toNat := by
    rw [UInt64.toNat_mul, Nat.mod_eq_of_lt (h.trans srcLen.toNat_lt)]
  have hle : loop * r.maxBlockSize ≤ srcLen := by
    rw [UInt64.le_iff_toNat_le, hm]
    exact h.le
  have hu : (srcLen - loop * r.maxBlockSize).toNat =
      srcLen.toNat - loop.toNat * r.maxBlockSize.toNat := by
    rw [UInt64.toNat_sub_of_le _ _ hle, hm]
  have hu' : srcLen - loop * r.maxBlockSize ≤ srcLen := by
    rw [UInt64.le_iff_toNat_le, hu]
    exact Nat.sub_le ..
  refine ⟨hm, h.le, ?_, ?_⟩
  case refine_1 => rw [round, hu, Nat.sub_add_cancel h.le]
  case refine_2 =>
    have hc : (srcLen - (srcLen - loop * r.maxBlockSize)).toNat = _ :=
      UInt64.toNat_sub_of_le _ _ hu'
    rw [round, hc, Nat.sub_add_cancel (UInt64.le_iff_toNat_le.mp hu')]

-- A round reads from where the rounds before it have got to, up to the size of a block.
theorem range_round (h : loop.toNat * r.maxBlockSize.toNat < srcLen.toNat) :
    (r.round srcLen loop).range = (loop.toNat * r.maxBlockSize.toNat,
      min r.maxBlockSize.toNat (srcLen.toNat - loop.toNat * r.maxBlockSize.toNat)) := by
  have e := round_exact h
  have hl : (r.round srcLen loop).loop = loop := rfl
  have hu := e.unprocData
  have hc := e.current
  rw [hl] at hu
  have ho : (r.round srcLen loop).offset.toNat =
      min r.maxBlockSize.toNat (r.round srcLen loop).unprocData.toNat := by
    have ho : (r.round srcLen loop).offset =
        if (r.round srcLen loop).unprocData ≥ r.maxBlockSize then r.maxBlockSize
        else (r.round srcLen loop).unprocData := rfl
    rw [ho]
    split
    case isTrue hle  => rw [Nat.min_eq_left (UInt64.le_iff_toNat_le.mp hle)]
    case isFalse hle =>
      rw [ge_iff_le, UInt64.le_iff_toNat_le] at hle
      rw [Nat.min_eq_right (by omega)]
  rw [Round.range, ho]
  congr 1
  case e_fst => omega
  case e_snd => congr 1; omega

theorem toNat_succ (h : loop.toNat + 1 < 2 ^ 64) : (loop + 1).toNat = loop.toNat + 1 := by
  rw [UInt64.toNat_add, UInt64.toNat_one, Nat.mod_eq_of_lt h]

theorem rounds_eq (h : loop.toNat + n < 2 ^ 64) :
    r.rounds srcLen n loop = (List.range' loop.toNat n).map (r.round srcLen <| UInt64.ofNat ·) := by
  induction n generalizing loop
  case zero      => rfl
  case succ n hi =>
    have hs : (loop + 1).toNat = loop.toNat + 1 := toNat_succ (by omega)
    have hi : r.rounds srcLen n (loop + 1) = _ := hi (by omega)
    rw [rounds, List.range'_succ, List.map_cons, UInt64.ofNat_toNat, hi, hs]

-- What is left of the text is read by the remaining rounds.
theorem chain_rounds (hm : 0 < r.maxBlockSize.toNat)
    (h : loop.toNat + n = r.maxLoop srcLen.toNat) :
    Ranges.Chain r.maxBlockSize.toNat (min (loop.toNat * r.maxBlockSize.toNat) srcLen.toNat)
      ((r.rounds srcLen n loop).map Round.range) srcLen.toNat := by
  induction n generalizing loop
  case zero =>
    have := (maxLoop_spec (r := r) hm srcLen.toNat).1
    rw [← h, Nat.add_zero] at this
    rw [Nat.min_eq_right this]
    exact .nil
  case succ n hi =>
    have hl : loop.toNat < r.maxLoop srcLen.toNat := by omega
    have hlt := lt_of_lt_maxLoop hm hl
    have hs : (loop + 1).toNat = loop.toNat + 1 :=
      toNat_succ (Nat.lt_of_le_of_lt hl (maxLoop_lt hm))
    have hn : (loop + 1).toNat + n = r.maxLoop srcLen.toNat := by omega
    have hi := hi hn
    rw [hs, Nat.succ_mul] at hi
    rw [rounds, List.map_cons, range_round hlt, Nat.min_eq_left hlt.le]
    refine .cons (by omega) (Nat.min_le_left ..) ?_
    have he : loop.toNat * r.maxBlockSize.toNat +
        min r.maxBlockSize.toNat (srcLen.toNat - loop.toNat * r.maxBlockSize.toNat) =
          min (loop.toNat * r.maxBlockSize.toNat + r.maxBlockSize.toNat) srcLen.toNat := by
      omega
    rw [he]
    exact hi

theorem encryptRounds_eq (hm : 0 < r.maxBlockSize.toNat) : r.encryptRounds srcLen =
    (List.range (r.maxLoop srcLen.toNat)).map (r.round srcLen <| UInt64.ofNat ·) := by
  rw [encryptRounds, rounds_eq (by simpa using maxLoop_lt hm), List.range_eq_range']
  rfl

theorem round_of_mem (hm : 0 < r.maxBlockSize.toNat) {x : Round} (h : x ∈ r.encryptRounds srcLen) :
    x = r.round srcLen x.loop ∧ x.loop.toNat * r.maxBlockSize.toNat < srcLen.toNat := by
  rw [encryptRounds_eq hm] at h
  have ⟨i, hi, he⟩ := List.mem_map.mp h
  have hi := List.mem_range.mp hi
  have hl : x.loop.toNat = i := by
    rw [← he]
    exact UInt64.toNat_ofNat_of_lt' (hi.trans (maxLoop_lt hm))
  refine ⟨?_, hl ▸ lt_of_lt_maxLoop hm hi⟩
  rw [← he]
  rfl

-- The rounds read the blocks of the text.
theorem map_read_encryptRounds (hm : 0 < r.maxBlockSize.toNat) (hs : src.length = srcLen.toNat) :
    (r.encryptRounds srcLen).map (·.read src) =
      (List.range (r.maxLoop src.length)).map (r.block src) := by
  rw [encryptRounds_eq hm, List.map_map, hs]
  refine List.map_congr_left fun i hi => ?_
  have hi := List.mem_range.mp hi
  have hlt := lt_of_lt_maxLoop hm hi
  have hl : (UInt64.ofNat i).toNat = i := UInt64.toNat_ofNat_of_lt' (hi.trans (maxLoop_lt hm))
  have hr : (r.round srcLen (UInt64.ofNat i)).range = _ := range_round (hl.symm ▸ hlt)
  have ⟨hc, ho⟩ := Prod.mk.inj hr
  rw [Function.comp_apply, Round.read, hc, ho, block_eq (hs ▸ hlt.le), Chunks.chunk, hl]
  rw [List.take_eq_take_iff, List.length_drop]
  omega

-- The ranges that are encrypted follow each other from the start of the text to its end, and
-- nothing else is read.
theorem encryptRounds_cover (hk : 42 < r.keysize.toNat / 8) (srcLen : UInt64) :
    Ranges.Chain (r.keysize.toNat / 8 - 42) 0 ((r.encryptRounds srcLen).map Round.range)
      srcLen.toNat ∧
    (∀ x ∈ r.encryptRounds srcLen, x.Exact r srcLen ∧
      x.current.toNat + x.offset.toNat ≤ srcLen.toNat) ∧
    (∀ i, (∃ x ∈ r.encryptRounds srcLen, x.current.toNat ≤ i ∧
      i < x.current.toNat + x.offset.toNat) ↔ i < srcLen.toNat) ∧
    ∀ src : Data, src.length = srcLen.toNat →
      ((r.encryptRounds srcLen).map (·.read src)).flatten = src := by
  have hb := maxBlockSize_toNat hk
  have hm : 0 < r.maxBlockSize.toNat := by omega
  have hc : Ranges.Chain r.maxBlockSize.toNat 0 ((r.encryptRounds srcLen).map Round.range)
      srcLen.toNat := by
    have h : (0 : UInt64).toNat + r.maxLoop srcLen.toNat = r.maxLoop srcLen.toNat := Nat.zero_add _
    have hc := chain_rounds hm h
    rw [UInt64.toNat_zero, Nat.zero_mul, Nat.zero_min] at hc
    exact hc
  refine ⟨hb ▸ hc, fun x hx => ⟨?_, ?_⟩, fun i => ?_, fun src hs => ?_⟩
  case refine_1 =>
    have ⟨he, hlt⟩ := round_of_mem hm hx
    rw [he]
    exact round_exact hlt
  case refine_2 => exact (hc.within _ (List.mem_map_of_mem hx)).2
  case refine_3 =>
    simpa [Round.range] using hc.mem_iff (x := i)
  case refine_4 =>
    have hf := hc.flatten_eq (l := src)
    have ht : src.take (srcLen.toNat - 0) = src := by rw [Nat.sub_zero, ← hs, List.take_length]
    rw [List.map_map, List.drop_zero, ht] at hf
    exact hf

end

def sampleRsa : Rsa where
  publicKey := []
  privateKey := []
  keysize := 512
  flagPrivateKeySet := false

theorem encryptRounds_cover_sample :
    Ranges.Chain 22 0 ((sampleRsa.encryptRounds 50).map Round.range) 50 :=
  (encryptRounds_cover (r := sampleRsa) (by decide) 50).1

end Lproxy.Crypto.Rsa
