import Lproxy.Relay

-- What the read handlers of the server and of the local have in common.
namespace Lproxy

section Trim

variable {bt n : Nat} {lss : Packet}

-- Only the bytes that have been received are left of a packet.
theorem data_trim (h : Holds bt lss) (h₄ : 4 ≤ bt) :
    (trim bt lss).data = lss.data.take (bt - 4) := by
  have := h.le
  unfold trim
  split
  case isTrue  => rfl
  case isFalse => rw [List.take_of_length_le (by omega)]

@[simp]
theorem type_trim : (trim bt lss).type = lss.type := by
  unfold trim
  split <;> rfl

theorem trim_eq (h : Holds bt lss) (h₄ : 4 ≤ bt) :
    trim bt lss = { lss with data := lss.data.take (bt - 4) } := by
  rw [← data_trim h h₄]
  unfold trim
  split <;> rfl

theorem holds_trim (h : Holds bt lss) (h₄ : 4 ≤ bt) : Holds bt (trim bt lss) := by
  have := length_trim h h₄
  have := h.le
  have := h.bound
  exact ⟨by omega, by omega⟩

theorem trim_trim (h : Holds bt lss) (h₄ : 4 ≤ bt) : trim bt (trim bt lss) = trim bt lss := by
  rw [trim_eq (holds_trim h h₄) h₄, trim_eq h h₄, List.take_take, Nat.min_self]

theorem lssPackIntegrityCheck_trim :
    lssPackIntegrityCheck bt (trim bt lss) = lssPackIntegrityCheck bt lss := by
  rw [lssPackIntegrityCheck, lssPackIntegrityCheck, dataLen_trim]

-- What is read of a packet that has passed the integrity check has been received.
theorem take_data_trim (h : Holds bt lss) (hb : 4 + n ≤ bt) :
    (trim bt lss).data.take n = lss.data.take n := by
  rw [data_trim h (by omega), List.take_take, Nat.min_eq_left (by omega)]

theorem getD_data_trim (h : Holds bt lss) (hb : 4 + n < bt) :
    (trim bt lss).data.getD n 0 = lss.data.getD n 0 := by
  rw [data_trim h (by omega), List.getD_eq_getElem?_getD, List.getElem?_take_of_lt (by omega),
    List.getD_eq_getElem?_getD]

theorem cutPacket_trim (h : Holds bt lss) (hb : 4 + lss.dataLen.toNat + 4 ≤ bt) :
    cutPacket bt (trim bt lss) = cutPacket bt lss := by
  have ht : (trim bt lss).toData = lss.toData.take bt := toData_trim h (by omega)
  have get {i : Nat} (hi : i < bt) : (lss.toData.take bt).getD i 0 = lss.toData.getD i 0 := by
    rw [List.getD_eq_getElem?_getD, List.getElem?_take_of_lt hi, List.getD_eq_getElem?_getD]
  simp only [cutPacket, ht, dataLen_trim, List.take_take, Nat.min_self]
  rw [get (by omega), get (by omega), get (by omega), get (by omega)]

theorem writeNext_trim (h : Holds bt lss) (hb : 4 + lss.dataLen.toNat ≤ bt) :
    writeNext bt (toInt (bt - (4 + lss.dataLen.toNat))) (trim bt lss) =
      writeNext bt (toInt (bt - (4 + lss.dataLen.toNat))) lss := by
  have ht := writeNext_eq (holds_trim h (by omega)) (by rw [dataLen_trim]; exact hb)
  rw [dataLen_trim] at ht
  rw [ht, writeNext_eq h hb]
  split
  case isTrue  => rfl
  case isFalse => rw [cutPacket_trim h (by omega)]

end Trim

-- A session that reads frames from a socket, and writes their payloads to another. `σ` are its
-- states, and `κ` is what its handlers find that is not up to it.
structure ReadHandler (σ κ : Type*) where
  -- The handler of a read, without an error, for a packet of which some bytes have been received.
  handle : κ → σ → Nat → Packet → σ
  -- The start of a read, and the start of the write of a payload.
  read : σ → Packet → Nat → σ
  write : Crypto.Aes → σ → Data → WriteNext → σ
  -- What runs when a read has returned some bytes, and when a write is done.
  readDone : κ → σ → Packet → Nat → Data → σ
  writeDone : κ → σ → Data → WriteNext → σ
  decrypt : Crypto.Aes → Data → Data
  -- The session relays what it reads, and the encryptor is its own.
  Established : Crypto.Aes → σ → Prop
  -- The handlers that the writes of payloads which are outstanding are bound to.
  nexts : σ → List WriteNext

namespace ReadHandler

variable {σ κ : Type*} (x : ReadHandler σ κ)

-- What is known of the handlers.
structure Lawful : Prop where
  readDone : ∀ k s lss rest d,
    x.readDone k s lss rest d = x.handle k s (entry lss rest d).1 (entry lss rest d).2
  reenter : ∀ k s plain bt lss, x.writeDone k s plain (.readHandler bt lss) = x.handle k s bt lss
  writeHandler : ∀ {aes s}, x.Established aes s → ∀ k plain,
    x.writeDone k s plain .writeHandler = x.read s (.receiving maxLength) 0
  incomplete : ∀ {bt lss n}, lssPackIntegrityCheck bt lss = .error (n : Nat) → 0 < n →
    ∀ k s, x.handle k s bt lss = x.read s (trim bt lss) n
  payload : ∀ {aes s bt lss}, x.Established aes s → Holds bt lss → 4 + lss.dataLen.toNat ≤ bt →
    IsData lss → ∀ k, x.handle k s bt lss =
      x.write aes s (x.decrypt aes (lss.data.take lss.dataLen.toNat))
        (writeNext bt (toInt (bt - (4 + lss.dataLen.toNat))) lss)
  trimmed : ∀ {bt lss}, Holds bt lss → 4 ≤ bt →
    ∀ k s, x.handle k s bt (trim bt lss) = x.handle k s bt lss
  nexts : ∀ {bt lss}, Holds bt lss → ∀ k s, ∃ l, x.nexts (x.handle k s bt lss) = x.nexts s ++ l ∧
    ∀ next ∈ l, 4 + lss.dataLen.toNat ≤ bt ∧
      next = writeNext bt (toInt (bt - (4 + lss.dataLen.toNat))) lss
  write : ∀ {aes s}, x.Established aes s → ∀ plain next,
    x.Established aes (x.write aes s plain next)

-- The handler that runs when the operation of a stage has completed.
def completed (k : κ) (s : σ) : Stage → σ
  | .reading lss rest (some d) => x.readDone k s lss rest d
  | .writing plain next true   => x.writeDone k s plain next
  | _                          => s

-- Starts the operation of a stage.
def carryOn (aes : Crypto.Aes) (s : σ) : Stage → σ
  | .reading lss rest _   => x.read s lss rest
  | .writing plain next _ => x.write aes s plain next

namespace Lawful

variable {x} {aes : Crypto.Aes} {s : σ} {bt : Nat} {lss : Packet} {g g' : Stage}

-- What the handler goes on with is what the chain goes on with.
theorem handle_enter (l : x.Lawful) (hs : x.Established aes s) (h : Holds bt lss)
    (he : enter (x.decrypt aes) bt lss = some g) (k : κ) :
    x.handle k s bt lss = x.carryOn aes s g := by
  unfold enter at he
  split at he
  case h_1 less hc =>
    split at he
    case isFalse     => cases he
    case isTrue hpos =>
      cases he
      have hc : lssPackIntegrityCheck bt lss = .error (less.toNat : Nat) := by
        rw [hc, Int.toNat_of_nonneg hpos.le]
      exact l.incomplete hc (by omega) k s
  case h_2 hc =>
    split at he
    case isFalse   => cases he
    case isTrue hd =>
      cases he
      rw [lssPackIntegrityCheck_eq h] at hc
      have hb : 4 + lss.dataLen.toNat ≤ bt := by
        by_contra hlt
        by_cases h₄ : bt < 4 <;> simp [h₄, Nat.lt_of_not_le hlt] at hc
      exact l.payload hs h hb hd k

theorem completed_proceed (l : x.Lawful) (hs : x.Established aes s) (hv : g.Valid)
    (hp : g.proceed (x.decrypt aes) = some g') (k : κ) :
    x.completed k s g = x.carryOn aes s g' := by
  cases hv
  case reading        => cases hp
  case arrived p _ le => exact (l.readDone k s ..).trans (l.handle_enter hs (entry_holds p le) hp k)
  case more done h _  =>
    cases done
    case false => cases hp
    case true  => exact (l.reenter k s ..).trans (l.handle_enter hs h hp k)
  case last done =>
    cases done
    case false => cases hp
    case true  =>
      cases hp
      exact l.writeHandler hs k _

end Lawful
end ReadHandler
end Lproxy
