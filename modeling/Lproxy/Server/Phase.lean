import Lproxy.Server.Connect

-- The phases of the SOCKS5 negotiation.
namespace Lproxy.Server

-- The operations on a socket to the remote that has been connected.
def Op.onRight : Op → Bool
  | rightRead _ | rightWrite .. => true
  | _                           => false

-- The operations that can be outstanding once the session has refused a request.
def Op.isClosing : Op → Bool
  | leftWrite _ next => next = .leftWriteHandler ∨ next = .cancel
  | timerWait        => true
  | _                => false

theorem Op.isClosing_iff {op : Op} :
    op.isClosing ↔ op.inLeft = false ∧ op.inConnect = false ∧ op.onRight = false := by
  cases op
  case leftWrite next => cases next <;> simp [isClosing, inLeft, inConnect, onRight]
  all_goals simp [isClosing, inLeft, inConnect, onRight]

-- A reply other than 0x00.
@[simp]
def Event.isRefusal : Event → Bool
  | socks5Resp reply => reply ≠ 0x00
  | _                => false

-- The branches for a state or a command that the session does not go on in.
inductive DeadBranch (s : Session) : Op → Outcome → Prop
  | leftReadHandler {op : Op} {o : Outcome} {bytesTransferred : Nat} {lssRequest : Packet}
    {dataLeftRest : Data}
    (call : leftReadCall op o = some (false, bytesTransferred, lssRequest, dataLeftRest))
    (hs : s.socks5State = .connected) (hc : s.socks5Cmd ≠ .connect ∧ s.socks5Cmd ≠ .udp) :
    DeadBranch s op o
  | leftWriteHandlerState {lss : Packet} (hr : ¬(s.status = .data ∧ s.socks5RespReply ≠ 0x00))
    (hs : s.socks5State ≠ .connected) : DeadBranch s (.leftWrite lss .leftWriteHandler) .done
  | leftWriteHandler {lss : Packet} (hr : ¬(s.status = .data ∧ s.socks5RespReply ≠ 0x00))
    (hc : s.socks5Cmd ≠ .connect ∧ s.socks5Cmd ≠ .udp) :
    DeadBranch s (.leftWrite lss .leftWriteHandler) .done
  | rightWriteHandler {p : Proto} {d : Data}
    (hc : s.socks5Cmd ≠ .connect ∧ s.socks5Cmd ≠ .udp) :
    DeadBranch s (.rightWrite p d .writeHandler) .done

namespace Session

variable {cfg : Config} {ch : Choice} {s t : Session} {op : Op} {o : Outcome} {run : List Op}

-- The sockets to the remote are used only in the state CONNECTED. Once a request has been refused,
-- nothing is left but to write the reply, or a farewell.
structure Phased (running : List Op) (s : Session) : Prop where
  relaying : 0 < (ops running s).countP Op.onRight → s.socks5State = .connected
  refused : (∃ e ∈ s.log, e.isRefusal) → s.socks5State ≠ .connected ∧ s.socks5RespReply ≠ 0x00 ∧
    ∀ op ∈ ops running s, op.isClosing

theorem requestProcessed_onRight (h : RequestProcessed cfg s t) :
    (ops [] t).countP Op.onRight = (ops [] s).countP Op.onRight := by
  cases h <;> simp [ops, Op.onRight, Function.comp_def]

theorem respToLocal_onRight {u : Session × Option Exn} (h : RespToLocal cfg s u) :
    (ops [] u.1).countP Op.onRight = (ops [] s).countP Op.onRight := by
  cases h <;> simp [ops, Op.onRight]

theorem leftReadDone_onRight {bt : Nat} {lss : Packet} (h : LeftReadDone cfg ch s bt lss t)
    (hs : s.socks5State ≠ .connected) :
    (ops [] t).countP Op.onRight = (ops [] s).countP Op.onRight := by
  cases h
  case request r        => exact (requestProcessed_onRight r).trans rfl
  case forward h _ _ _  => exact absurd h hs
  case exchange hp      =>
    have ⟨_, he, he₁, _⟩ := packExchange_some hp
    subst he he₁
    simp [ops, Op.onRight]
  all_goals simp [ops, Op.onRight, Function.comp_def]

-- A session that is not connected leaves the sockets to the remote alone.
theorem delivered_onRight (h : Delivered cfg ch s op o t) (hs : s.socks5State ≠ .connected)
    (hop : op.onRight = false) :
    (ops [] t).countP Op.onRight = (ops [] s).countP Op.onRight := by
  cases h
  case left h           => exact leftReadDone_onRight h hs
  case replied h        => exact absurd h hs
  case written          => cases hop
  case relayed          => cases hop
  case unresolved p _ _ _ _ h =>
    exact (respToLocal_onRight h).trans (countP_timerCancelled s p _)
  case unreachable p _ _ _ h =>
    exact (respToLocal_onRight h).trans (countP_timerCancelled s p _)
  case connected p _ _ _ h =>
    rw [respToLocal_onRight h]
    cases p
    case tcp => exact countP_timerCancelled s .tcp _
    case udp => rfl
  case resolved =>
    rw [countP_connecting _ _ _ _ rfl, countP_timerCancelled]
    rfl
  case retried =>
    rw [countP_connecting _ _ _ _ rfl, countP_closeRight, countP_timerCancelled]
    rfl
  all_goals simp [ops, Op.onRight, Function.comp_def]

-- What a session is like if it has just sent a reply other than 0x00.
def Refuses (s t : Session) : Prop :=
  s.log.countP Event.isRefusal < t.log.countP Event.isRefusal →
    t.socks5State ≠ .connected ∧ t.socks5RespReply ≠ 0x00 ∧ 0 < (ops [] t).countP Op.inRight

theorem requestProcessed_refuses (h : RequestProcessed cfg s t) : Refuses s t := by
  cases h
  case refused hr _ => exact fun _ => ⟨nofun, hr, by simp [ops, Op.inRight]⟩
  all_goals simp [Refuses, List.countP_cons]

theorem respToLocal_refuses {u : Session} {v : Session × Option Exn} (h : RespToLocal cfg u v)
    (hs : u.socks5State ≠ .connected) (hl : u.log = s.log) : Refuses s v.1 := by
  cases h
  case threw         => simp [Refuses, hl]
  case refused hr _  => exact fun _ => ⟨hs, hr, by simp [ops, Op.inRight]⟩
  case accepted hr _ => simp [Refuses, hl, hr]

theorem leftReadDone_refuses {bt : Nat} {lss : Packet} (h : LeftReadDone cfg ch s bt lss t) :
    Refuses s t := by
  cases h
  case request r =>
    exact fun hc => requestProcessed_refuses r (by simpa using hc)
  case exchange hp =>
    have ⟨_, he, he₁, _⟩ := packExchange_some hp
    subst he he₁
    simp [Refuses, List.countP_cons]
  all_goals simp [Refuses, List.countP_cons]

theorem connecting_refuses {u : Session} (hl : u.log = s.log) (e : Endpoint)
    (rest : List Endpoint) (p : Proto) : Refuses s (u.connecting cfg e rest p) := by
  cases p <;> simp [Refuses, Session.connecting, List.countP_cons, hl]

theorem delivered_refuses (i : Inv cfg [op] s) (h : Delivered cfg ch s op o t) : Refuses s t := by
  have idle (hc : op.inConnect) (p : Proto) : (s.timerCancelled p).socks5State ≠ .connected := by
    cases p <;> exact i.not_connected hc
  cases h
  case left h => exact leftReadDone_refuses h
  case resolved => exact connecting_refuses (timerCancelled_log _) _ _ _
  case retried p _ _ _ _ =>
    exact connecting_refuses (u := (s.timerCancelled p).closeRight p) (timerCancelled_log p) _ _ _
  case unresolved p _ _ _ _ h =>
    exact respToLocal_refuses h (idle rfl p) (timerCancelled_log _)
  case unreachable p _ _ _ h =>
    exact respToLocal_refuses h (idle rfl p) (timerCancelled_log _)
  case connected p _ _ _ h =>
    refine respToLocal_refuses h ?_ ?_
    · cases p <;> exact idle rfl _
    · cases p <;> rfl
  all_goals simp [Refuses, List.countP_cons]

-- The reply that refuses a request is the last thing but farewells.
theorem delivered_closing (i : Inv cfg [op] s) (h : Delivered cfg ch s op o t) (hop : op.isClosing)
    (hs : s.socks5State ≠ .connected) (hr : s.socks5RespReply ≠ 0x00)
    (ho : ∀ op' ∈ ops [] s, op'.isClosing) : t.socks5State = s.socks5State ∧
      t.socks5RespReply = s.socks5RespReply ∧ ∀ op' ∈ ops [] t, op'.isClosing := by
  have hf := i.fits op (List.mem_cons_self ..)
  have hc : ∀ op' ∈ ops [] s.cancel, op'.isClosing := by simpa [ops] using ho
  cases h
  case left e _            => cases e <;> cases hop
  case replied h           => exact absurd h hs
  case address h           => exact absurd h hs
  case again h _           => exact absurd ⟨hf, hr⟩ h
  case unsupported _ h     =>
    cases h
    case inl h =>
      obtain ⟨_, _, hc⟩ := h
      exact absurd hc hs
    case inr h =>
      obtain ⟨_, _, he⟩ := h
      cases he ▸ hop
  case timeout             =>
    exact ⟨rfl, rfl, by simpa [ops_start, or_imp, forall_and, Op.isClosing] using ho⟩
  case cancelled           => exact ⟨rfl, rfl, hc⟩
  case farewell            => exact ⟨rfl, rfl, hc⟩
  case refused             => exact ⟨rfl, rfl, hc⟩
  case timerIdle           => exact ⟨rfl, rfl, ho⟩
  case broken h            => cases op <;> simp [Op.sendsBadOnError, Op.isClosing] at h hop
  all_goals cases hop

namespace Phased

theorem dequeue {l r : List (Outstanding Op Outcome)} (f : Phased [] s)
    (h : s.io = l ++ ⟨op, some o⟩ :: r) : Phased [op] { s with io := l ++ r } := by
  have hp := ops_dequeue h
  exact {
    relaying := by simpa only [hp.countP_eq] using f.relaying
    refused := fun he => (f.refused he).imp_right fun h =>
      ⟨h.1, fun op hop => h.2 op (hp.mem_iff.mp hop)⟩ }

theorem relaying_delivered (f : Phased [op] s) (d : Delivered cfg ch s op o t)
    (hp : 0 < (ops [] t).countP Op.onRight) : t.socks5State = .connected := by
  by_cases hs : s.socks5State = .connected
  case pos => exact delivered_connected d hs
  case neg =>
    have hz : (ops [op] s).countP Op.onRight = 0 := by
      by_contra hc
      exact hs (f.relaying (Nat.pos_of_ne_zero hc))
    simp only [ops_cons, List.countP_cons] at hz
    rw [delivered_onRight d hs (by by_contra hop; simp [hop] at hz)] at hp
    omega

theorem refused_delivered (f : Phased [op] s) (i : Inv cfg [op] s) (j : Inv cfg [] t)
    (d : Delivered cfg ch s op o t) (he : ∃ e ∈ t.log, e.isRefusal) :
    t.socks5State ≠ .connected ∧ t.socks5RespReply ≠ 0x00 ∧ ∀ op' ∈ ops [] t, op'.isClosing := by
  by_cases hlt : s.log.countP Event.isRefusal < t.log.countP Event.isRefusal
  case pos =>
    -- The reply that has just been sent is the only operation but for farewells and the timer.
    have ⟨hs, hr, hp⟩ := delivered_refuses i d hlt
    have hc := j.chain hs
    have hz : (ops [] t).countP Op.onRight = 0 := by
      by_contra hc
      exact hs (f.relaying_delivered d (Nat.pos_of_ne_zero hc))
    have hl : (ops [] t).countP Op.inLeft = 0 := by omega
    have hn : (ops [] t).countP Op.inConnect = 0 := by omega
    rw [List.countP_eq_zero] at hl hn hz
    refine ⟨hs, hr, fun op' hop => Op.isClosing_iff.mpr ⟨?_, ?_, ?_⟩⟩
    · simpa using hl op' hop
    · simpa using hn op' hop
    · simpa using hz op' hop
  case neg =>
    have ⟨es, hl, _⟩ := delivered_logs d
    have hpos : 0 < t.log.countP Event.isRefusal := List.countP_pos_iff.mpr he
    have ⟨hs, hr, ho⟩ := f.refused (List.countP_pos_iff.mp (by omega))
    have ⟨h₁, h₂, h₃⟩ := delivered_closing i d (ho op (List.mem_cons_self ..)) hs hr
      fun op' hop => ho op' (List.mem_cons_of_mem _ hop)
    exact ⟨h₁ ▸ hs, h₂ ▸ hr, h₃⟩

end Phased

theorem phased_step {lb : Label} (r : Reachable cfg s) (f : Phased [] s) (e : Step cfg s lb t) :
    Phased [] t := by
  have i := inv_reachable r
  have j := inv_reachable (.step r e)
  cases e
  case deliver op o ch h =>
    have d : Delivered cfg ch _ op o _ := i.deliver_queued h
    exact ⟨(f.dequeue h).relaying_delivered d, (f.dequeue h).refused_delivered (i.dequeue h) j d⟩
  case start remoteError h =>
    have ⟨hio, hl⟩ := (fresh_reachable r).unstarted h
    cases remoteError
    case true  => exact f
    case false => constructor <;> simp [startSession, ops, hio, hl, Op.onRight]
  case complete h _ _ =>
    exact ⟨by simpa [ops, h] using f.relaying, by simpa [ops, h] using f.refused⟩
  case tick => exact ⟨f.relaying, f.refused⟩

theorem phased_reachable (r : Reachable cfg s) : Phased [] s := by
  induction r
  case init h      => constructor <;> simp [ops, h.io, h.log]
  case step r e hi => exact phased_step r hi e

-- A session that has refused a request cancels when the reply has been written, and the handler of
-- no read from the local runs again.
theorem cancel_of_refused (r : Reachable cfg s) (he : ∃ e ∈ s.log, e.isRefusal)
    (e : Step cfg s (.deliver op o ch) t) : leftReadCall op o = none ∧
      ∀ lss, op = .leftWrite lss .leftWriteHandler → t.log = s.log ++ [.cancelled] := by
  have ⟨hs, hr, ho⟩ := (phased_reachable r).refused he
  have i := inv_reachable r
  cases e with | deliver h => ?_
  have hm : op ∈ ops [] s := by simp [ops, h]
  have hc := Op.isClosing_iff.mp (ho op hm)
  constructor
  case left =>
    unfold leftReadCall
    split <;> simp [Op.inLeft] at hc ⊢
  case right =>
    rintro lss rfl
    have hd : s.status = .data := i.fits _ hm
    cases o <;> simp [deliver, leftWriteHandler, Outcome.failed, hd, hr]

-- No delivery takes one of the branches that the session does not go on in.
theorem not_deadBranch (r : Reachable cfg s) (e : Step cfg s (.deliver op o ch) t) :
    ¬DeadBranch s op o := by
  have i := inv_reachable r
  have f := phased_reachable r
  cases e with | deliver h => ?_
  have hm : op ∈ ops [] s := by simp [ops, h]
  have known (hs : s.socks5State = .connected) :
      ¬(s.socks5Cmd ≠ .connect ∧ s.socks5Cmd ≠ .udp) := by
    have := i.cmd (.inl hs)
    tauto
  intro d
  cases d
  case leftReadHandler hs hc _ => exact known hs hc
  case leftWriteHandlerState hr hs =>
    have hp : 0 < (ops [] s).countP Op.inRight := List.countP_pos_iff.mpr ⟨_, hm, rfl⟩
    exact hr ⟨i.fits _ hm, i.refusal hs hp⟩
  case leftWriteHandler hr hc =>
    have hp : 0 < (ops [] s).countP Op.inRight := List.countP_pos_iff.mpr ⟨_, hm, rfl⟩
    have hs : s.socks5State = .connected := by
      by_contra hs
      exact hr ⟨i.fits _ hm, i.refusal hs hp⟩
    exact known hs hc
  case rightWriteHandler hc =>
    exact known (f.relaying (List.countP_pos_iff.mpr ⟨_, hm, rfl⟩)) hc

-- What the state of the negotiation says about a session.
structure Phase (cfg : Config) (s : Session) : Prop where
  connected : s.socks5State = .connected → s.socks5RespReply = 0x00 ∧
    (s.socks5Cmd = .connect ∨ s.socks5Cmd = .udp) ∧ s.status = .data ∧ s.aesEncryptor.isSome
  forward : ∀ {lb t}, Step cfg s lb t → s.socks5State.rank ≤ t.socks5State.rank
  refused : ∀ {op o ch t}, (∃ e ∈ s.log, e.isRefusal) → Step cfg s (.deliver op o ch) t →
    leftReadCall op o = none ∧
      ∀ lss, op = .leftWrite lss .leftWriteHandler → t.log = s.log ++ [.cancelled]
  live : ∀ {op o ch t}, Step cfg s (.deliver op o ch) t → ¬DeadBranch s op o

theorem step_rank {lb : Label} (r : Reachable cfg s) (e : Step cfg s lb t) :
    s.socks5State.rank ≤ t.socks5State.rank := by
  cases e
  case deliver op o ch h =>
    have d : Delivered cfg ch _ op o _ := (inv_reachable r).deliver_queued h
    have h := delivered_rank d
    exact h
  case start remoteError _ => cases remoteError <;> exact le_rfl
  case complete            => exact le_rfl
  case tick                => exact le_rfl

theorem socks5_phase (r : Reachable cfg s) : Phase cfg s where
  connected hs :=
    have i := inv_reachable r
    have hd := i.processing (by simp [hs])
    ⟨i.reply hs, i.cmd (.inl hs), hd, i.keyed hd⟩
  forward      := step_rank r
  refused      := cancel_of_refused r
  live         := not_deadBranch r

-- A session that has refused a request for BIND.
theorem socks5_phase_refused :
    ∃ s : Session, (∃ e ∈ s.log, e.isRefusal) ∧ Phase sampleConfig s := by
  have ⟨s, r, h⟩ := exists_sampleRun
    (handshake ++ Act.run 0 (.bytes (frame .data [5, 2, 0, 1, 127, 0, 0, 1, 0, 80])))
    (fun s => s.log.any Event.isRefusal) (by decide +kernel)
  exact ⟨s, List.any_eq_true.mp h, socks5_phase r⟩

end Session
end Lproxy.Server
