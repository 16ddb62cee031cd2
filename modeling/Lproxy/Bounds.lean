import Lproxy.Local.Invariants
import Lproxy.Local.Schedule
import Lproxy.Server.Invariants
import Lproxy.Server.Schedule

-- The bounds on the receive buffers of both sessions.
namespace Lproxy

-- What a read handler relies on after the correction with which it starts.
structure InBounds (bytesTransferred : Nat) (lss : Packet) : Prop where
  le : bytesTransferred ≤ lss.data.length + 4
  size : lss.data.length ≤ 65535
  -- Only received bytes are decrypted.
  payload : lssPackIntegrityCheck bytesTransferred lss = .ok () →
    4 + lss.dataLen.toNat ≤ bytesTransferred
  rest : lssPackIntegrityCheck bytesTransferred lss = .ok () →
    0 ≤ toInt (bytesTransferred - (4 + lss.dataLen.toNat))
  -- The slices that `cut_lss` takes of the flattened packet.
  cut : lssPackIntegrityCheck bytesTransferred lss = .ok () →
    ∀ start lss', start = bytesTransferred - toInt (bytesTransferred - (4 + lss.dataLen.toNat)) →
      cutLss start.toNat bytesTransferred lss = some lss' →
      0 ≤ start ∧ start + 4 ≤ bytesTransferred ∧ bytesTransferred ≤ lss.toData.length
  -- `resize(bytes_transferred - 4)`
  resize : ∀ less, lssPackIntegrityCheck bytesTransferred lss = .error less → less > 0 →
    4 ≤ bytesTransferred

theorem Holds.inBounds {bt : Nat} {lss : Packet} (h : Holds bt lss) : InBounds bt lss := by
  have hle := h.le
  have hc := lssPackIntegrityCheck_eq h
  have hp (ho : lssPackIntegrityCheck bt lss = .ok ()) : 4 + lss.dataLen.toNat ≤ bt := by
    rw [hc] at ho
    split_ifs at ho
    omega
  exact {
    le := by omega
    size := h.bound
    payload := hp
    rest := by
      intro ho
      rw [restLen_eq h (hp ho)]
      omega
    cut := by
      intro ho start lss' hs hcut
      have hb := hp ho
      rw [restLen_eq h hb] at hs
      unfold cutLss at hcut
      split at hcut
      case isTrue => cases hcut
      case isFalse =>
        rw [Packet.length_toData]
        omega
    resize := by
      intro less hl hpos
      rw [hc] at hl
      split_ifs at hl
      · cases hl
        omega
      · omega }

namespace Server.Session

variable {cfg : Config} {ch : Choice} {s : Session} {op : Op} {o : Outcome} {error : Bool}
  {bt : Nat} {lss : Packet} {rest : Data}

theorem deliver_leftReadCall (h : leftReadCall op o = some (error, bt, lss, rest)) :
    s.deliver cfg ch op o = s.leftReadHandler cfg ch error bt lss rest := by
  cases op
  case leftRead =>
    cases o
    case bytes =>
      simp only [leftReadCall, Option.some.injEq, Prod.mk.injEq] at h
      have ⟨hs, he₁, he⟩ := h
      subst hs he₁
      simp only [deliver, he]
    all_goals
      cases h
      rfl
  case rightWrite next =>
    cases next <;> cases h
    rfl
  all_goals cases h

theorem Inv.call_holds (i : Inv cfg [op] s) (c : Completes op o)
    (h : leftReadCall op o = some (error, bt, lss, rest)) :
    Holds (rectify bt lss rest).1 (rectify bt lss rest).2 := by
  have hb := i.buffered op (List.mem_cons_self ..)
  cases op
  case leftRead lss rest =>
    cases c
    case error =>
      cases h
      exact rectify_failed_holds hb
    case leftRead ne le =>
      simp only [leftReadCall, Option.some.injEq, Prod.mk.injEq] at h
      have ⟨hs, he₁, he⟩ := h
      subst hs he₁
      have hh := i.holds (.leftRead ne le) .read
      simpa only [entry, he] using hh
  case rightWrite next =>
    cases next <;> cases h
    exact hb
  all_goals cases h

end Server.Session

namespace Local.Session

variable {cfg : Config} {ch : Choice} {s : Session} {op : Op} {o : Outcome} {error : Bool}
  {bt : Nat} {lss : Packet} {rest : Data}

theorem deliver_rightReadCall (h : rightReadCall op o = some (error, bt, lss, rest)) :
    s.deliver cfg ch op o = s.rightReadHandler cfg ch error bt lss rest := by
  cases op
  case rightRead =>
    cases o
    case bytes =>
      simp only [rightReadCall, Option.some.injEq, Prod.mk.injEq] at h
      have ⟨hs, he₁, he⟩ := h
      subst hs he₁
      simp only [deliver, he]
    all_goals
      cases h
      rfl
  case leftWrite next =>
    rcases next with _ | (_ | _) <;> cases h
    rfl
  all_goals cases h

theorem Inv.call_holds (i : Inv cfg [op] s) (c : Completes op o)
    (h : rightReadCall op o = some (error, bt, lss, rest)) :
    Holds (rectify bt lss rest).1 (rectify bt lss rest).2 := by
  have hb := i.buffered op (List.mem_cons_self ..)
  cases op
  case rightRead lss rest =>
    cases c
    case error =>
      cases h
      exact rectify_failed_holds hb
    case rightRead ne le =>
      simp only [rightReadCall, Option.some.injEq, Prod.mk.injEq] at h
      have ⟨hs, he₁, he⟩ := h
      subst hs he₁
      have hh := i.holds (.rightRead ne le) .read
      simpa only [entry, he] using hh
  case leftWrite next =>
    rcases next with _ | (_ | _) <;> cases h
    exact hb
  all_goals cases h

end Local.Session

-- Whatever the peer sends, and however it is cut, each read handler finds its buffers in bounds at
-- every one of its calls.
theorem receive_buffers_inBounds :
    (∀ {cfg : Server.Config} {ch : Server.Choice} {s t : Server.Session} {op : Server.Op}
      {o : Server.Outcome} {error : Bool} {bt : Nat} {lss : Packet} {rest : Data},
      Server.Reachable cfg s → Server.Step cfg s (.deliver op o ch) t →
      Server.leftReadCall op o = some (error, bt, lss, rest) →
      InBounds (rectify bt lss rest).1 (rectify bt lss rest).2) ∧
    (∀ {cfg : Local.Config} {ch : Local.Choice} {s t : Local.Session} {op : Local.Op}
      {o : Local.Outcome} {error : Bool} {bt : Nat} {lss : Packet} {rest : Data},
      Local.Reachable cfg s → Local.Step cfg s (.deliver op o ch) t →
      Local.rightReadCall op o = some (error, bt, lss, rest) →
      InBounds (rectify bt lss rest).1 (rectify bt lss rest).2) := by
  constructor
  case left =>
    intro cfg ch s t op o error bt lss rest r e h
    cases e with | deliver hio => ?_
    have i := Server.Session.inv_reachable r
    have c := i.queued ⟨op, some o⟩ (by simp [hio]) o rfl
    exact ((i.dequeue hio).call_holds c h).inBounds
  case right =>
    intro cfg ch s t op o error bt lss rest r e h
    cases e with | deliver hio => ?_
    have i := Local.Session.inv_reachable r
    have c := i.queued ⟨op, some o⟩ (by simp [hio]) o rfl
    exact ((i.dequeue hio).call_holds c h).inBounds

-- One byte of a header, received by each side in its first read.
theorem receive_buffers_inBounds_one_byte :
    InBounds (rectify 1 ((Packet.receiving lengthHandshake).fill [0]) []).1
      (rectify 1 ((Packet.receiving lengthHandshake).fill [0]) []).2 := by
  have ⟨server, localSide⟩ := receive_buffers_inBounds
  have : InBounds (rectify 1 ((Packet.receiving lengthHandshake).fill [0]) []).1
      (rectify 1 ((Packet.receiving lengthHandshake).fill [0]) []).2 := by
    have ⟨s, r, h⟩ := Local.exists_sampleRun
      ([.start false] ++ Local.Act.run 0 (.endpoints ⟨[49], 80⟩ []) ++ Local.Act.run 0 .done ++
        Local.Act.run 0 .done ++ [.complete 0 (.bytes [0])])
      (fun s => s.io = [] ++ ⟨.rightRead (.receiving lengthHandshake) 0, some (.bytes [0])⟩ :: [])
      (by decide +kernel)
    exact localSide r (show Local.Step _ s (.deliver _ _ Local.sampleChoice) _ from
      .deliver (of_decide_eq_true h)) rfl
  have ⟨s, r, h⟩ := Server.exists_sampleRun
    ([.start false, .complete 0 (.bytes [0])])
    (fun s => s.io = [] ++ ⟨.leftRead (.receiving lengthHandshake) 0, some (.bytes [0])⟩ :: [])
    (by decide +kernel)
  exact server r (show Server.Step _ s (.deliver _ _ Server.sampleChoice) _ from
    .deliver (of_decide_eq_true h)) rfl

end Lproxy
