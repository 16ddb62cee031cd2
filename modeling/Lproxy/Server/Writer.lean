import Lproxy.Server.Fresh
import Lproxy.Server.Schedule

-- The writes to the socket that leads to the local.
namespace Lproxy.Server

def Op.isLeftWrite : Op → Bool
  | leftWrite .. => true
  | _            => false

namespace Session

variable {cfg : Config} {ch : Choice} {s t : Session} {op : Op} {o : Outcome}

-- How many operations of a kind have not completed.
def pending (p : Op → Bool) (s : Session) : Nat :=
  s.io.countP fun x => p x.op && x.outcome.isNone

-- The completions upon which a packet is sent out of turn: a header that has not been received as a
-- whole, the failure of an operation on the remote, and an expiration.
inductive Interjects (s : Session) : Op → Outcome → Prop
  | short {op : Op} {o : Outcome} {bt : Nat} {lss : Packet} (e : LeftEntry op o bt lss) (h : bt < 4)
    (hs : s.socks5State = .connected) : Interjects s op o
  | broken {op : Op} {code : ErrorCode} (h : op.sendsBadOnError) : Interjects s op (.error code)
  | timeout (h : s.expiresAt ≤ s.now) : Interjects s .timerWait .done

-- The completions upon which the chain to the local goes on: with the reply to the request, or with
-- data of the remote.
def Continues (s : Session) (op : Op) (o : Outcome) : Prop :=
  Replies s op o ∨ ∃ p d, op = .rightRead p ∧ o = .bytes d

-- A run keeps its writes apart if a handler sends a packet out of turn only while no write to the
-- local is under way, and the chain to the local goes on only while no farewell is under way.
def Apart (s : Session) : Label → Prop
  | .deliver op o _ =>
    (Interjects s op o → s.pending Op.isLeftWrite = 0) ∧
    (Continues s op o → s.pending Op.isFarewell = 0)
  | _               => True

theorem Interjects.of_io {io : List (Outstanding Op Outcome)}
    (h : Interjects { s with io := io } op o) : Interjects s op o := by
  cases h with
  | short e h hs => exact .short e h hs
  | broken h     => exact .broken h
  | timeout h    => exact .timeout h

section Pending

variable {p q : Op → Bool}

@[simp]
theorem pending_start (op : Op) : (s.start op).pending p = s.pending p + if p op then 1 else 0 := by
  simp [pending, List.countP_cons]

@[simp]
theorem pending_note (e : Event) : (s.note e).pending p = s.pending p :=
  rfl

@[simp]
theorem pending_setStatus (status : Status) : (s.setStatus status).pending p = s.pending p :=
  rfl

theorem pending_abort_le : (s.abort q).pending p ≤ s.pending p := by
  simp only [pending, abort_io, List.countP_map]
  refine List.countP_mono_left fun x _ h => ?_
  simp only [Function.comp_apply, Outstanding.abort_op, Bool.and_eq_true] at h ⊢
  rcases x.abort_outcome q (.error .operationAborted) with ha | ⟨ha, -⟩
  · exact ⟨h.1, ha ▸ h.2⟩
  · exact ⟨h.1, by simp [ha]⟩

theorem pending_timerCancelled_le (pr : Proto) : (s.timerCancelled pr).pending p ≤ s.pending p := by
  cases pr
  case tcp => exact pending_abort_le
  case udp => exact le_rfl

theorem pending_connecting_le (hc : ∀ pr e rest, p (.connect pr e rest) = false)
    (ht : p .timerWait = false) (e : Endpoint) (rest : List Endpoint) (pr : Proto) :
    (s.connecting cfg e rest pr).pending p ≤ s.pending p := by
  cases pr
  case udp => simp [connecting, hc]
  case tcp =>
    have := pending_abort_le (s := s) (p := p) (q := Op.isTimerWait)
    simp only [connecting, timerRestart, pending_start, hc, ht]
    exact this

-- The operation whose handler runs next is not pending.
theorem pending_dequeue {l r : List (Outstanding Op Outcome)} (h : s.io = l ++ ⟨op, some o⟩ :: r) :
    { s with io := l ++ r }.pending p = s.pending p := by
  simp [pending, h]

end Pending

section Handlers

@[simp]
theorem pending_requested {p : Op → Bool} (rq : Socks5.Req) (name : Data) (cmd : Cmd)
    (reply : Byte) : (s.requested rq name cmd reply).pending p = s.pending p :=
  rfl

@[simp]
theorem pending_refuse {p : Op → Bool} (data : Data) (lss : Packet) :
    (s.refuse data lss).pending p =
      s.pending p + if p (.leftWrite lss .leftWriteHandler) then 1 else 0 := by
  simp [refuse]

theorem pending_accept (data : Data) (lss : Packet) :
    (s.accept data lss).pending Op.isLeftWrite = s.pending Op.isLeftWrite + 1 := by
  simp only [accept, pending_start, Op.isLeftWrite]
  rfl

theorem pending_cancel_le {p : Op → Bool} : s.cancel.pending p ≤ s.pending p :=
  pending_abort_le

theorem requestProcessed_pending (h : RequestProcessed cfg s t) :
    t.pending Op.isLeftWrite ≤ s.pending Op.isLeftWrite + 1 := by
  cases h
  case connect rq name n reply port =>
    have := pending_abort_le (s := s.requested rq name .connect reply) (p := Op.isLeftWrite)
      (q := Op.isTimerWait)
    simp only [timerRestart, pending_start, Op.isLeftWrite]
    exact Nat.le_succ_of_le this
  case udp      => simp [Op.isLeftWrite]
  case refused  => simp [Op.isLeftWrite]
  case accepted => simp [pending_accept]
  case cancel   => exact Nat.le_succ_of_le pending_cancel_le
  case bad      => simp [sendBad, Op.isLeftWrite]

theorem respToLocal_pending {u : Session × Option Exn} (h : RespToLocal cfg s u) :
    u.1.pending Op.isLeftWrite ≤ s.pending Op.isLeftWrite + 1 := by
  cases h
  case threw    => exact Nat.le_succ _
  case refused  => simp [Op.isLeftWrite]
  case accepted => simp [pending_accept]

theorem leftReadDone_pending {bt : Nat} {lss : Packet} (h : LeftReadDone cfg ch s bt lss t) :
    t.pending Op.isLeftWrite ≤ s.pending Op.isLeftWrite + 1 := by
  cases h
  case request r => exact requestProcessed_pending (s := s.note _) r
  case exchange hp =>
    have ⟨_, he, hs, _⟩ := packExchange_some hp
    subst he hs
    simp only [pending_start, Op.isLeftWrite]
    rfl
  case cancel        => exact Nat.le_succ_of_le pending_cancel_le
  case undecryptable => exact Nat.le_succ_of_le pending_cancel_le
  case shortPlain    => exact Nat.le_succ_of_le pending_cancel_le
  case address       => exact Nat.le_succ_of_le pending_cancel_le
  case badRequest =>
    simp only [sendBad, pending_start, Op.isLeftWrite]
    rfl
  all_goals simp [sendBad, Op.isLeftWrite]

theorem Inv.data_of_connected (i : Inv cfg run s) (hs : s.socks5State = .connected) :
    s.status = .data :=
  i.processing (by simp [hs])

-- Once the session is connected, only a header that has not been received as a whole makes the read
-- handler write to the local.
theorem leftReadDone_apart (i : Inv cfg [op] s) {bt : Nat} {lss : Packet}
    (e : LeftEntry op o bt lss) (h : LeftReadDone cfg ch s bt lss t)
    (hs : s.socks5State = .connected) :
    t.pending Op.isLeftWrite ≤ s.pending Op.isLeftWrite ∨ Interjects s op o := by
  have hd := i.data_of_connected hs
  cases h
  case cancel                => exact .inl pending_cancel_le
  case address               => exact .inl pending_cancel_le
  case short h               => exact .inr (.short e h hs)
  case more                  => simp [Op.isLeftWrite]
  case forward               => simp [Op.isLeftWrite]
  case badRequest hn _ _     => exact absurd hs hn
  case request hn _ _ _      => exact absurd hs hn
  case unsupported hc _ _    => rcases hc with hc | hc <;> simpa [hc] using i.cmd (.inl hs)
  case wrongPacketType h     => simp [hd] at h
  case hello h _             => simp [hd] at h
  case undecryptable h       => simp [hd] at h
  case shortPlain h          => simp [hd] at h
  case deny h _ _            => simp [hd] at h
  case assertion h           => simp [hd] at h
  case exchange h _ _ _ _    => simp [hd] at h

-- A handler starts at most one write to the local, and only in its turn or out of turn.
theorem delivered_pending (i : Inv cfg [op] s) (h : Delivered cfg ch s op o t) :
    t.pending Op.isLeftWrite ≤ s.pending Op.isLeftWrite ∨
      t.pending Op.isLeftWrite ≤ s.pending Op.isLeftWrite + 1 ∧
        (Interjects s op o ∨ Continues s op o ∨ op.inLeft ∧ s.socks5State ≠ .connected) := by
  have unsupported (hc : s.socks5Cmd = .bind ∨ s.socks5Cmd = .unsupport) :
      s.socks5State ≠ .connected := by
    intro hs
    rcases hc with hc | hc <;> simpa [hc] using i.cmd (.inl hs)
  cases h
  case left e h =>
    by_cases hs : s.socks5State = .connected
    case pos =>
      exact (leftReadDone_apart i e h hs).imp_right fun h' => ⟨leftReadDone_pending h, .inl h'⟩
    case neg => exact .inr ⟨leftReadDone_pending h, .inr (.inr ⟨by cases e <;> rfl, hs⟩)⟩
  case cancelled => exact .inl pending_cancel_le
  case farewell  => exact .inl pending_cancel_le
  case refused   => exact .inl pending_cancel_le
  case unsupported hc ho =>
    rcases ho with ⟨_, _, hs⟩ | ⟨_, _, rfl⟩
    · exact absurd hs (unsupported hc)
    · exact .inr ⟨by simp [sendBad, Op.isLeftWrite], .inr (.inr ⟨rfl, unsupported hc⟩)⟩
  case broken h  => exact .inr ⟨by simp [sendBad, Op.isLeftWrite], .inl (.broken h)⟩
  case timeout h => exact .inr ⟨by simp [Op.isLeftWrite], .inl (.timeout h)⟩
  case relayed   => exact .inr ⟨by simp [Op.isLeftWrite], .inr (.inl (.inr ⟨_, _, rfl, rfl⟩))⟩
  case resolved =>
    left
    exact (pending_connecting_le (fun _ _ _ => rfl) rfl _ _ _).trans (pending_timerCancelled_le _)
  case retried =>
    left
    exact (pending_connecting_le (fun _ _ _ => rfl) rfl _ _ _).trans
      (pending_abort_le.trans (pending_timerCancelled_le _))
  case unresolved p _ _ _ _ h =>
    right
    refine ⟨(respToLocal_pending h).trans ?_, .inr (.inl (.inl .unresolved))⟩
    exact Nat.succ_le_succ (pending_timerCancelled_le p)
  case unreachable p _ _ _ h =>
    right
    refine ⟨(respToLocal_pending h).trans ?_, .inr (.inl (.inl .unreachable))⟩
    exact Nat.succ_le_succ (pending_timerCancelled_le p)
  case connected p _ _ _ h =>
    right
    refine ⟨(respToLocal_pending h).trans ?_, .inr (.inl (.inl .connected))⟩
    cases p
    case tcp => exact Nat.succ_le_succ (pending_timerCancelled_le .tcp)
    case udp => exact le_rfl
  all_goals exact .inl (by simp [Op.isLeftWrite])

-- After the exchange, and with nothing in the chain to the local, only farewells are written.
theorem pending_farewell (i : Inv cfg run s) (hd : s.status = .data)
    (hr : (ops [] s).countP Op.inRight = 0) (hf : ∀ op ∈ ops [] s, op ∈ ops run s) :
    s.pending Op.isLeftWrite ≤ s.pending Op.isFarewell := by
  refine List.countP_mono_left fun x hx h => ?_
  have hm : x.op ∈ ops [] s := List.mem_map_of_mem hx
  have hfit := i.fits x.op (hf _ hm)
  have hright := List.countP_eq_zero.mp hr x.op hm
  rw [hd] at hfit
  simp only [Bool.and_eq_true] at h ⊢
  refine ⟨?_, h.2⟩
  cases ho : x.op
  case leftWrite next =>
    cases next <;> simp [ho, Op.Fits, Op.inRight, Op.isFarewell] at hfit hright ⊢
  all_goals simp [ho, Op.isLeftWrite] at h

-- The writes that are under way when the chain to the local goes on are farewells.
theorem Continues.pending_le (i : Inv cfg [op] s) (h : Continues s op o)
    (hf : op.inLeft → s.socks5State ≠ .connected → s.io = []) :
    s.pending Op.isLeftWrite ≤ s.pending Op.isFarewell := by
  have hm : ∀ op' ∈ ops [] s, op' ∈ ops [op] s := fun _ h => List.mem_cons_of_mem _ h
  have reach (hc : op.inConnect) (hd : s.status = .data) :
      s.pending Op.isLeftWrite ≤ s.pending Op.isFarewell :=
    pending_farewell i hd (i.alone (i.not_connected hc) (.inr (.inr hc))).2.1 hm
  have fits := i.fits op (List.mem_cons_self ..)
  rcases h with h | ⟨p, d, rfl, rfl⟩
  case inr =>
    refine pending_farewell i fits ?_ hm
    have := i.right
    simp only [ops_cons, List.countP_cons, Op.inRight, if_true] at this
    omega
  case inl =>
    cases h
    case request h =>
      obtain ⟨e, _, hs⟩ := h
      have hio := hf (by cases e <;> rfl) hs
      simp [pending, hio]
    case unresolved  => exact reach rfl fits
    case connected   => exact reach rfl fits
    case unreachable => exact reach rfl fits

end Handlers

theorem apart_deliver {l r : List (Outstanding Op Outcome)} (hr : Reachable cfg s)
    (h : s.io = l ++ ⟨op, some o⟩ :: r) (hc : Apart s (.deliver op o ch))
    (hd : Delivered cfg ch { s with io := l ++ r } op o t) (hp : s.pending Op.isLeftWrite ≤ 1) :
    t.pending Op.isLeftWrite ≤ 1 := by
  have i : Inv cfg [op] { s with io := l ++ r } := (inv_reachable hr).dequeue h
  have alone (hl : op.inLeft) (hs : s.socks5State ≠ .connected) : l ++ r = [] := by
    have hpos : 0 < (ops [] s).countP Op.inLeft :=
      List.countP_pos_iff.mpr ⟨op, by simp [ops, h], hl⟩
    have hlen := ((fresh_reachable hr).alone hs hpos).1
    simp only [ops, h, List.nil_append, List.length_map, List.length_append,
      List.length_cons] at hlen
    exact List.length_eq_zero_iff.mp (by rw [List.length_append]; omega)
  have hw : { s with io := l ++ r }.pending Op.isLeftWrite = s.pending Op.isLeftWrite :=
    pending_dequeue h
  have hfw : { s with io := l ++ r }.pending Op.isFarewell = s.pending Op.isFarewell :=
    pending_dequeue h
  rcases delivered_pending i hd with hle | ⟨hle, hi | hco | ⟨hl, hs⟩⟩
  · omega
  · have := hc.1 hi.of_io
    omega
  · have := hco.pending_le i alone
    have := hc.2 (hco.imp_left .of_io)
    omega
  · have hz : { s with io := l ++ r }.pending Op.isLeftWrite = 0 := by simp [pending, alone hl hs]
    omega

theorem apart_step {lb : Label} (hr : Reachable cfg s) (e : Step cfg s lb t) (hc : Apart s lb)
    (hp : s.pending Op.isLeftWrite ≤ 1) : t.pending Op.isLeftWrite ≤ 1 := by
  cases e
  case deliver op o ch h =>
    have i := inv_reachable hr
    have c := i.queued ⟨op, some o⟩ (by simp [h]) o rfl
    exact apart_deliver hr h hc ((i.dequeue h).deliver c) hp
  case start remoteError _ => cases remoteError <;> simpa [startSession, Op.isLeftWrite] using hp
  case tick                => exact hp
  case complete h _ _ =>
    refine le_trans ?_ hp
    simp only [pending, h, List.countP_append, List.countP_cons, Option.isNone_some, Bool.and_false,
      Bool.false_eq_true, if_false]
    omega

-- In a run that keeps its writes apart, at most one write to the local is under way.
theorem single_writer (r : Transition.Reachable Session.Initial
    (Transition.Guarded (Step cfg) Apart) s) : s.pending Op.isLeftWrite ≤ 1 := by
  induction r
  case init h      => simp [pending, h.io]
  case step r e hi => exact apart_step r.of_guarded e.step e.cond hi

-- Deliveries of which a run may be made up so as to keep its writes apart.
def isApart (s : Session) : Label → Bool
  | .deliver .. => s.pending Op.isLeftWrite = 0
  | _           => true

theorem apart_of_isApart {lb : Label} (h : s.isApart lb) : Apart s lb := by
  cases lb
  case deliver =>
    have hw : s.pending Op.isLeftWrite = 0 := of_decide_eq_true h
    refine ⟨fun _ => hw, fun _ => ?_⟩
    have hle : s.pending Op.isFarewell ≤ s.pending Op.isLeftWrite := by
      refine List.countP_mono_left fun x _ hx => ?_
      cases hop : x.op <;> simp_all [Op.isFarewell, Op.isLeftWrite]
    omega
  all_goals trivial

-- A session that is writing data of the remote.
theorem single_writer_relaying : ∃ s : Session, s.pending Op.isLeftWrite = 1 ∧
    s.pending Op.isLeftWrite ≤ 1 := by
  have ⟨s, r, h⟩ := Schedule.exists_guarded act_sound apart_of_isApart newSession_initial
    (handshake ++ connectRequest ++ connection ++ Act.run 3 (.bytes [1]))
    (fun s => s.pending Op.isLeftWrite = 1)
    (show (Schedule.exec (act sampleConfig) isApart newSession _).any _ by decide +kernel)
  exact ⟨s, of_decide_eq_true h, single_writer r⟩

-- Data of the remote is being written when one byte of a header is received.
theorem two_writers : ¬∀ {cfg : Config} {s : Session}, Reachable cfg s →
    s.pending Op.isLeftWrite ≤ 1 := by
  intro hall
  have ⟨s, r, h⟩ := exists_sampleRun
    (handshake ++ connectRequest ++ connection ++ Act.run 3 (.bytes [1]) ++
      Act.run 2 (.bytes [0]))
    (fun s => s.pending Op.isLeftWrite = 2) (by decide +kernel)
  have := of_decide_eq_true h
  have := hall r
  omega

end Session
end Lproxy.Server
