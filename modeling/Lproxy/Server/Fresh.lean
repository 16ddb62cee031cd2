import Lproxy.Server.Log

-- A session that has not received a request yet.
namespace Lproxy.Server

-- The events that belong to a request: its processing, and what is sent to the local about it.
def Event.isAnswer : Event → Bool
  | socks5RequestProcessing _ | socks5Resp _ => true
  | started (.leftWrite lss _)               => lss = packTimeout
  | _                                        => false

namespace Session

variable {cfg : Config} {ch : Choice} {s t : Session} {op : Op} {o : Outcome}

-- Until the session is connected, an operation of the left chain is the only operation, and no
-- request has been received before it.
structure Fresh (running : List Op) (s : Session) : Prop where
  unstarted : s.status = .notConnected → s.io = [] ∧ s.log = []
  alone : s.socks5State ≠ .connected → 0 < (ops running s).countP Op.inLeft →
    (ops running s).length = 1 ∧ ∀ e ∈ s.log, e.isAnswer = false

theorem requestProcessed_left (h : RequestProcessed cfg s t) (hs : s.io = []) :
    t.socks5State = .connected ∨ (ops [] t).countP Op.inLeft = 0 := by
  cases h <;> simp [ops, hs, Op.inLeft]

theorem isAnswer_pack {type : ReplyType} {data : Data} {next : LeftWriteNext}
    (h : type ≠ .timeout) :
    (Event.started (.leftWrite (pack type data) next)).isAnswer = false :=
  decide_eq_false (pack_ne_timeout h)

-- A left chain that goes on before the session is connected.
theorem leftReadDone_alone {bt : Nat} {lss : Packet} (h : LeftReadDone cfg ch s bt lss t)
    (hs : s.io = []) (hl : ∀ e ∈ s.log, e.isAnswer = false) (ht : t.socks5State ≠ .connected)
    (hp : 0 < (ops [] t).countP Op.inLeft) :
    (ops [] t).length = 1 ∧ ∀ e ∈ t.log, e.isAnswer = false := by
  have app {es : List Event} (he : ∀ e ∈ es, e.isAnswer = false) :
      ∀ e ∈ s.log ++ es, e.isAnswer = false := by
    simpa [or_imp, forall_and] using ⟨hl, he⟩
  cases h
  case request r =>
    rcases requestProcessed_left r hs with h | h
    · exact absurd h ht
    · omega
  case more    => exact ⟨by simp [ops, hs], app (by simp [Event.isAnswer])⟩
  case hello   => exact ⟨by simp [ops, hs], app (by simp [packHello, isAnswer_pack])⟩
  case forward h _ _ _ => exact absurd h ht
  case exchange hpk =>
    obtain ⟨_, he₁, he₂, _⟩ := packExchange_some hpk
    subst he₁ he₂
    refine ⟨by simp [ops, hs], ?_⟩
    intro e he
    simp only [start_log, note_log, List.append_assoc, List.cons_append, List.nil_append] at he
    refine app (fun e he => ?_) e he
    rcases List.mem_pair.mp he with rfl | rfl
    · rfl
    · exact isAnswer_pack (by simp)
  all_goals simp [ops, hs, Op.inLeft] at hp

theorem respToLocal_left {u : Session × Option Exn} (h : RespToLocal cfg s u) :
    u.1.socks5State = .connected ∨
      (ops [] u.1).countP Op.inLeft = (ops [] s).countP Op.inLeft := by
  cases h <;> simp [ops, Op.inLeft]

@[simp]
theorem countP_timerCancelled (s : Session) (p : Proto) (q : Op → Bool) :
    (ops [] (s.timerCancelled p)).countP q = (ops [] s).countP q := by
  cases p <;> simp [ops, timerCancelled, Function.comp_def]

@[simp]
theorem countP_closeRight (s : Session) (p : Proto) (q : Op → Bool) :
    (ops [] (s.closeRight p)).countP q = (ops [] s).countP q := by
  simp [ops, Function.comp_def]

theorem countP_connecting (s : Session) (e : Endpoint) (rest : List Endpoint) (p : Proto)
    {q : Op → Bool} (ht : q .timerWait = false) :
    (ops [] (s.connecting cfg e rest p)).countP q =
      (ops [] s).countP q + if q (.connect p e rest) then 1 else 0 := by
  cases p <;> simp [ops, connecting, Function.comp_def, ht, List.countP_cons]

-- What the handler of an operation outside the left chain does not do.
theorem delivered_left (i : Inv cfg [op] s) (h : Delivered cfg ch s op o t)
    (hop : op.inLeft = false) :
    t.socks5State = .connected ∨ (ops [] t).countP Op.inLeft ≤ (ops [] s).countP Op.inLeft := by
  cases h
  case left e _ => cases e <;> cases hop
  case hello    => cases hop
  case exchange => cases hop
  case written  => cases hop
  case again h hs =>
    exact absurd ⟨i.fits _ (List.mem_cons_self ..), i.refusal hs (by simp [ops_cons, Op.inRight])⟩ h
  case unresolved p _ _ _ _ h =>
    refine (respToLocal_left h).imp_right fun h => ?_
    rw [h]
    exact (countP_timerCancelled s p _).le
  case unreachable p _ _ _ h =>
    refine (respToLocal_left h).imp_right fun h => ?_
    rw [h]
    exact (countP_timerCancelled s p _).le
  case connected p _ _ _ h =>
    refine (respToLocal_left h).imp_right fun h => ?_
    rw [h]
    cases p
    case tcp => exact (countP_timerCancelled s .tcp _).le
    case udp => exact le_rfl
  case resolved =>
    right
    rw [countP_connecting _ _ _ _ rfl, countP_timerCancelled]
    exact le_rfl
  case retried =>
    right
    rw [countP_connecting _ _ _ _ rfl, countP_closeRight, countP_timerCancelled]
    exact le_rfl
  all_goals exact .inr (by simp [ops, Op.inLeft, Function.comp_def])

theorem delivered_alone (h : Delivered cfg ch s op o t) (hop : op.inLeft) (hs : s.io = [])
    (hl : ∀ e ∈ s.log, e.isAnswer = false) (ht : t.socks5State ≠ .connected)
    (hp : 0 < (ops [] t).countP Op.inLeft) :
    (ops [] t).length = 1 ∧ ∀ e ∈ t.log, e.isAnswer = false := by
  cases h
  case left h => exact leftReadDone_alone h hs hl ht hp
  case hello =>
    exact ⟨by simp [ops, hs], by simpa [or_imp, forall_and, Event.isAnswer] using hl⟩
  case exchange =>
    exact ⟨by simp [ops, hs], by simpa [or_imp, forall_and, Event.isAnswer] using hl⟩
  case written =>
    exact ⟨by simp [ops, hs], by simpa [or_imp, forall_and, Event.isAnswer] using hl⟩
  case cancelled   => simp [ops, hs] at hp
  case unsupported => simp [ops, hs, Op.inLeft] at hp
  case broken      => simp [ops, hs, Op.inLeft] at hp
  all_goals cases hop

-- The state of the negotiation never moves back.
theorem delivered_rank (h : Delivered cfg ch s op o t) :
    s.socks5State.rank ≤ t.socks5State.rank := by
  have resp {u : Session} {v : Session × Option Exn} (h : RespToLocal cfg u v)
      (hu : u.socks5State = s.socks5State) : s.socks5State.rank ≤ v.1.socks5State.rank := by
    cases h
    case threw    => exact hu ▸ le_rfl
    case refused  => exact hu ▸ le_rfl
    case accepted => exact s.socks5State.rank_le
  cases h
  case left h =>
    cases h
    case badRequest hs _ _ => exact Socks5.State.rank_le_one hs
    case request hs _ _ r  =>
      cases r
      case accepted => exact s.socks5State.rank_le
      all_goals exact Socks5.State.rank_le_one hs
    case exchange hp       =>
      have ⟨_, he, he₁, _⟩ := packExchange_some hp
      subst he he₁
      exact le_rfl
    all_goals exact le_rfl
  case unresolved p _ _ _ _ h => exact resp h (by cases p <;> rfl)
  case unreachable p _ _ _ h  => exact resp h (by cases p <;> rfl)
  case connected p _ _ _ h    => exact resp h (by cases p <;> rfl)
  case resolved p _ _ _ _     => cases p <;> exact le_rfl
  case retried p _ _ _ _      => cases p <;> exact le_rfl
  all_goals exact le_rfl

-- A session stays connected.
theorem delivered_connected (h : Delivered cfg ch s op o t) (hs : s.socks5State = .connected) :
    t.socks5State = .connected := by
  have hr := delivered_rank h
  rw [hs] at hr
  exact Socks5.State.eq_connected_of_rank hr

theorem status_of_log {es : List Event} (i : Inv cfg run s) (j : Inv cfg run' t)
    (h : t.log = s.log ++ es) (ht : t.status = .notConnected) : s.status = .notConnected := by
  have hl := j.trail
  rw [h, List.filterMap_append, i.trail, ht] at hl
  cases hs : s.status <;> simp [hs, Server.trail] at hl ⊢

theorem fresh_deliver {l r : List (Outstanding Op Outcome)} (f : Fresh [] s)
    (h : s.io = l ++ ⟨op, some o⟩ :: r) (i : Inv cfg [op] { s with io := l ++ r })
    (hd : Delivered cfg ch { s with io := l ++ r } op o t) (j : Inv cfg [] t) : Fresh [] t where
  unstarted := by
    intro ht
    obtain ⟨es, he, _⟩ := delivered_logs hd
    have hs := (f.unstarted (status_of_log (s := { s with io := l ++ r }) i j he ht)).1
    simp [h] at hs
  alone := by
    intro ht hp
    have hs : s.socks5State ≠ .connected := fun hs => ht (delivered_connected hd hs)
    have hc : (ops [] s).countP Op.inLeft =
        (ops [] { s with io := l ++ r }).countP Op.inLeft + if op.inLeft then 1 else 0 := by
      simp [ops, h, List.countP_cons]
      omega
    have hlen : (ops [] s).length = (l ++ r).length + 1 := by
      simp [ops, h]
      omega
    cases hop : op.inLeft
    case false =>
      -- Another operation is the one of the left chain.
      rcases delivered_left i hd hop with hc' | hc'
      · exact absurd hc' ht
      · obtain ⟨h₁, _⟩ := f.alone hs (by omega)
        have hnil : l ++ r = [] := List.length_eq_zero_iff.mp (by omega)
        rw [show (ops [] { s with io := l ++ r }).countP Op.inLeft = 0 by simp [ops, hnil]] at hc'
        omega
    case true =>
      obtain ⟨h₁, hl⟩ := f.alone hs (by simp [hc, hop])
      have hnil : l ++ r = [] := List.length_eq_zero_iff.mp (by omega)
      exact delivered_alone hd hop hnil hl ht hp

theorem fresh_step {lb : Label} (r : Reachable cfg s) (f : Fresh [] s) (e : Step cfg s lb t) :
    Fresh [] t := by
  have i := inv_reachable r
  have j := inv_reachable (.step r e)
  cases e
  case deliver op o _ h =>
    have c := i.queued ⟨op, some o⟩ (by simp [h]) o rfl
    exact fresh_deliver f h (i.dequeue h) ((i.dequeue h).deliver c) j
  case start remoteError h =>
    have ⟨hio, hl⟩ := f.unstarted h
    cases remoteError
    case true  => exact f
    case false =>
      exact ⟨nofun, fun _ _ => ⟨by simp [startSession, ops, hio],
        by simp [startSession, hl, Event.isAnswer]⟩⟩
  case complete h _ _ =>
    refine ⟨fun hs => ?_, ?_⟩
    · have := (f.unstarted hs).1
      simp [h] at this
    · simpa [ops, h] using f.alone
  case tick => exact ⟨f.unstarted, f.alone⟩

theorem fresh_reachable (r : Reachable cfg s) : Fresh [] s := by
  induction r
  case init h      => exact ⟨fun _ => ⟨h.io, h.log⟩, by simp [ops, h.io]⟩
  case step r e hi => exact fresh_step r hi e

end Session
end Lproxy.Server
