import Lproxy.Server.Fresh
import Lproxy.Server.Schedule

-- The outcome of a request: a timeout packet, or a reply.
namespace Lproxy.Server

namespace Event

@[simp]
def isRequest : Event → Bool
  | socks5RequestProcessing _ => true
  | _                         => false

@[simp]
def isResp : Event → Bool
  | socks5Resp _ => true
  | _            => false

@[simp]
def isTimeout : Event → Bool
  | started (.leftWrite lss _) => lss = packTimeout
  | _                          => false

@[simp]
def isConnect : Event → Bool
  | started (.connect ..) => true
  | _                     => false

@[simp]
def isOutcome (e : Event) : Bool :=
  e.isTimeout || e.isResp

end Event

namespace Session

variable {cfg : Config} {ch : Choice} {s t : Session} {op : Op} {o : Outcome}

-- How much a delivery can log about a request, and what is outstanding after a reply.
structure Answers (s t : Session) : Prop where
  outcome : t.log.countP Event.isOutcome ≤ s.log.countP Event.isOutcome + 1
  request : t.log.countP Event.isRequest ≤ s.log.countP Event.isRequest + 1
  resp : s.log.countP Event.isResp < t.log.countP Event.isResp →
    t.socks5State = .connected ∨ 0 < (ops [] t).countP Op.inRight

theorem Packs.ne_timeout {data : Data} {lss : Packet} (h : Packs cfg s data lss) :
    lss ≠ packTimeout := by
  have ⟨_, _, he⟩ := h
  subst he
  exact pack_ne_timeout (by cases cfg.zipOn <;> nofun)

theorem requestProcessed_answers (h : RequestProcessed cfg s t) : Answers s t := by
  cases h
  case refused hp => constructor <;> simp [List.countP_cons, hp.ne_timeout, ops, Op.inRight]
  case accepted hp => constructor <;> simp [List.countP_cons, hp.ne_timeout]
  all_goals constructor <;> simp [List.countP_cons, packBad, pack_ne_timeout]

theorem Answers.of_unpacked {plain : Data} (h : Answers (s.note (.unpacked plain)) t) :
    Answers s t where
  outcome := by simpa using h.outcome
  request := by simpa using h.request
  resp := by simpa using h.resp

theorem leftReadDone_answers {bt : Nat} {lss : Packet} (h : LeftReadDone cfg ch s bt lss t) :
    Answers s t := by
  cases h
  case request r => exact (requestProcessed_answers r).of_unpacked
  case exchange hp =>
    have ⟨_, he, hs, _⟩ := packExchange_some hp
    subst he hs
    constructor <;> simp [List.countP_cons, pack_ne_timeout]
  all_goals constructor <;> simp [List.countP_cons, packBad, packDeny, packHello, pack_ne_timeout]

theorem respToLocal_answers {u : Session} {v : Session × Option Exn} (h : RespToLocal cfg u v)
    (hl : u.log = s.log) : Answers s v.1 := by
  cases h
  case threw => constructor <;> simp [hl]
  case refused hp =>
    constructor <;> simp [List.countP_cons, hl, hp.ne_timeout, ops, Op.inRight]
  case accepted hp => constructor <;> simp [List.countP_cons, hl, hp.ne_timeout]

theorem connecting_answers {u : Session} (hl : u.log = s.log) (e : Endpoint)
    (rest : List Endpoint) (p : Proto) : Answers s (u.connecting cfg e rest p) := by
  cases p <;> constructor <;> simp [Session.connecting, List.countP_cons, hl]

theorem delivered_answers (h : Delivered cfg ch s op o t) : Answers s t := by
  cases h
  case left h => exact leftReadDone_answers h
  case resolved => exact connecting_answers (timerCancelled_log _) _ _ _
  case retried p _ _ _ _ =>
    exact connecting_answers (u := (s.timerCancelled p).closeRight p) (timerCancelled_log p) _ _ _
  case unresolved h => exact respToLocal_answers h (timerCancelled_log _)
  case unreachable h => exact respToLocal_answers h (timerCancelled_log _)
  case connected p _ _ _ h =>
    refine respToLocal_answers h ?_
    cases p <;> rfl
  case relayed hp => constructor <;> simp [List.countP_cons, hp.ne_timeout]
  all_goals constructor <;> simp [List.countP_cons, packBad, pack_ne_timeout]

-- Where an attempt to reach the remote comes from.
theorem delivered_connects (h : Delivered cfg ch s op o t)
    (hp : 0 < (ops [] t).countP Op.inConnect) :
    op.inConnect ∨ 0 < (ops [] s).countP Op.inConnect ∨ Requests s op o := by
  cases h
  case left e h =>
    cases h
    case request h hs _ _ _ => exact .inr (.inr (.intro e h hs))
    case exchange hpk =>
      have ⟨_, he, he₁, _⟩ := packExchange_some hpk
      subst he he₁
      exact .inr (.inl (by simpa [ops, Op.inConnect] using hp))
    all_goals
      exact .inr (.inl (by simpa [ops, Op.inConnect, Function.comp_def] using hp))
  case resolved    => exact .inl rfl
  case unresolved  => exact .inl rfl
  case connected   => exact .inl rfl
  case retried     => exact .inl rfl
  case unreachable => exact .inl rfl
  case endOfList   => exact .inl rfl
  all_goals exact .inr (.inl (by simpa [ops, Op.inConnect, Function.comp_def] using hp))

-- A run keeps to the time limit if no expiration is handled after an outcome has been sent, and
-- neither the resolver nor an attempt to connect completes after a timeout packet has been sent.
def Timely (s : Session) : Label → Prop
  | .deliver op o _ =>
    (op = .timerWait → o = .done → s.expiresAt ≤ s.now → s.log.countP Event.isOutcome = 0) ∧
    (op.inConnect → s.log.countP Event.isTimeout = 0)
  | _               => True

-- What holds of the log in a run that keeps to the time limit.
structure Punctual (s : Session) : Prop where
  outcome : s.log.countP Event.isOutcome ≤ 1
  request : s.log.countP Event.isRequest ≤ 1
  pending : 0 < (ops [] s).countP Op.inConnect → s.log.countP Event.isResp = 0
  after : Trace.NoneAfter (·.isTimeout) (·.isConnect) s.log

theorem countP_outcome (l : List Event) :
    l.countP Event.isOutcome = l.countP Event.isTimeout + l.countP Event.isResp := by
  induction l
  case nil          => rfl
  case cons e l ih =>
    simp only [List.countP_cons, ih]
    cases e
    case started op => cases op <;> simp; omega
    all_goals simp; try omega

theorem isAnswer_eq (e : Event) : e.isAnswer = (e.isRequest || e.isOutcome) := by
  cases e
  case started op => cases op <;> simp [Event.isAnswer]
  all_goals rfl

-- Nothing has been answered when a request is received.
theorem Requests.unanswered (hr : Reachable cfg s) {l r : List (Outstanding Op Outcome)}
    (h : s.io = l ++ ⟨op, some o⟩ :: r) (hq : Requests s op o) :
    s.log.countP Event.isOutcome = 0 ∧ s.log.countP Event.isRequest = 0 := by
  obtain ⟨e, _, hs⟩ := hq
  have hop : op.inLeft := by cases e <;> rfl
  have hp : 0 < (ops [] s).countP Op.inLeft := by
    simp only [ops, h, List.nil_append, List.map_append, List.map_cons, List.countP_append,
      List.countP_cons, hop, if_true]
    omega
  obtain ⟨_, hl⟩ := (fresh_reachable hr).alone hs hp
  simp only [List.countP_eq_zero]
  constructor <;>
  · intro e he
    have := hl e he
    rw [isAnswer_eq, Bool.or_eq_false_iff] at this
    simp only [this, Bool.false_eq_true, not_false_eq_true]

theorem step_answers {lb : Label} (r : Reachable cfg s) (e : Step cfg s lb t) : Answers s t := by
  have i := inv_reachable r
  cases e
  case deliver op o ch h =>
    have c := i.queued ⟨op, some o⟩ (by simp [h]) o rfl
    have d : Delivered cfg ch _ op o _ := (i.dequeue h).deliver c
    have a := delivered_answers d
    exact ⟨a.outcome, a.request, a.resp⟩
  case start remoteError _ => cases remoteError <;> constructor <;> simp [startSession]
  case complete            => constructor <;> simp
  case tick                => constructor <;> simp

theorem pending_pos {l r : List (Outstanding Op Outcome)} (h : s.io = l ++ ⟨op, some o⟩ :: r)
    (hc : op.inConnect) : 0 < (ops [] s).countP Op.inConnect :=
  List.countP_pos_iff.mpr ⟨op, by simp [ops, h], hc⟩

theorem step_connects {lb : Label} (r : Reachable cfg s) (e : Step cfg s lb t)
    (hp : 0 < (ops [] t).countP Op.inConnect) :
    0 < (ops [] s).countP Op.inConnect ∨ ∃ op o ch, lb = .deliver op o ch ∧ Requests s op o := by
  have i := inv_reachable r
  cases e
  case deliver op o ch h =>
    have c := i.queued ⟨op, some o⟩ (by simp [h]) o rfl
    have d : Delivered cfg ch _ op o _ := (i.dequeue h).deliver c
    rcases delivered_connects d hp with hc | hc | hc
    · exact .inl (pending_pos h hc)
    · left
      simp only [ops, h, List.nil_append, List.map_append, List.map_cons, List.countP_append,
        List.countP_cons] at hc ⊢
      omega
    · exact .inr ⟨op, o, ch, rfl, hc.of_io⟩
  case start remoteError _ =>
    cases remoteError
    case true  => exact .inl hp
    case false => exact .inl (by simpa [ops, startSession, Op.inConnect] using hp)
  case complete h _ _ => exact .inl (by simpa [ops, h] using hp)
  case tick           => exact .inl hp

section Logged

variable {e : Event}

theorem Logged.of_request (h : Logged s op o e) (he : e.isRequest) : Requests s op o := by
  cases h
  case request h => exact h
  all_goals cases he

theorem Logged.of_resp (h : Logged s op o e) (he : e.isResp) : Replies s op o := by
  cases h
  case resp h => exact h
  all_goals cases he

theorem Logged.of_timeout (h : Logged s op o e) (he : e.isTimeout) :
    op = .timerWait ∧ o = .done ∧ s.expiresAt ≤ s.now := by
  cases h
  case timeout h ho hx   => exact ⟨h, ho, hx⟩
  case leftWrite ht _    => exact absurd (by simpa using he) ht
  case data h hd         =>
    obtain rfl : _ = packTimeout := by simpa using he
    exact absurd hd (not_isData_pack ⟨nofun, nofun⟩)
  all_goals cases he

theorem Logged.of_connect (h : Logged s op o e) (he : e.isConnect) : op.inConnect := by
  cases h
  case connect h => cases h <;> rfl
  all_goals cases he

end Logged

-- The completion that a step delivers, if the step logs an event that only handlers log.
theorem loggedBy_deliver {lb : Label} {e : Event} (h : LoggedBy s lb e)
    (he : e.isRequest ∨ e.isOutcome ∨ e.isConnect) :
    ∃ op o ch, lb = .deliver op o ch ∧ Logged s op o e := by
  cases lb
  case deliver op o ch => exact ⟨op, o, ch, rfl, h⟩
  case start => rcases h with ⟨_, rfl⟩ | ⟨_, rfl⟩ <;> simp at he
  all_goals cases h

theorem Replies.unanswered (hr : Reachable cfg s) {l r : List (Outstanding Op Outcome)}
    (h : s.io = l ++ ⟨op, some o⟩ :: r) (p : Punctual s)
    (hc : op.inConnect → s.log.countP Event.isTimeout = 0) (hq : Replies s op o) :
    s.log.countP Event.isOutcome = 0 := by
  have reach (hop : op.inConnect) : s.log.countP Event.isOutcome = 0 := by
    rw [countP_outcome, hc hop, p.pending (pending_pos h hop)]
  cases hq
  case request hq  => exact (hq.unanswered hr h).1
  case unresolved  => exact reach rfl
  case connected   => exact reach rfl
  case unreachable => exact reach rfl

-- No outcome has been sent before the step that sends one.
theorem unanswered_of_outcome {lb : Label} {e : Event} (hr : Reachable cfg s) (st : Step cfg s lb t)
    (hc : Timely s lb) (p : Punctual s) (h : LoggedBy s lb e) (he : e.isOutcome) :
    s.log.countP Event.isOutcome = 0 := by
  have ⟨op, o, ch, hs, h⟩ := loggedBy_deliver h (.inr (.inl he))
  subst hs
  cases st with | deliver hio => ?_
  simp only [Event.isOutcome, Bool.or_eq_true] at he
  rcases he with he | he
  · have ⟨ht, ho, hx⟩ := h.of_timeout he
    exact hc.1 ht ho hx
  · exact (h.of_resp he).unanswered hr hio p hc.2

theorem unrequested_of_request {lb : Label} {e : Event} (hr : Reachable cfg s)
    (st : Step cfg s lb t) (h : LoggedBy s lb e) (he : e.isRequest) :
    s.log.countP Event.isRequest = 0 := by
  have ⟨op, o, ch, he₁, h⟩ := loggedBy_deliver h (.inl he)
  subst he₁
  cases st with | deliver hio => ?_
  exact ((h.of_request he).unanswered hr hio).2

-- A count that a step raises by at most one, and only from zero, stays at most one.
theorem countP_le_one {p : Event → Bool} {l es : List Event} (h : l.countP p ≤ 1)
    (hle : (l ++ es).countP p ≤ l.countP p + 1) (hz : ∀ e ∈ es, p e → l.countP p = 0) :
    (l ++ es).countP p ≤ 1 := by
  by_cases he : ∃ e ∈ es, p e
  case pos =>
    have ⟨e, hm, hp⟩ := he
    have := hz e hm hp
    omega
  case neg =>
    have hn : es.countP p = 0 := List.countP_eq_zero.mpr fun e hm hp => he ⟨e, hm, hp⟩
    rw [List.countP_append, hn]
    exact h

-- While an attempt to reach the remote is outstanding, no reply has been sent.
theorem pending_step {lb : Label} (hr : Reachable cfg s) (e : Step cfg s lb t) (p : Punctual s)
    (hp : 0 < (ops [] t).countP Op.inConnect) : t.log.countP Event.isResp = 0 := by
  have a := step_answers hr e
  have i := inv_reachable (.step hr e)
  have hs : s.log.countP Event.isResp = 0 := by
    rcases step_connects hr e hp with h | ⟨op, o, ch, rfl, hq⟩
    · exact p.pending h
    · cases e with | deliver hio => ?_
      have := (hq.unanswered hr hio).1
      rw [countP_outcome] at this
      omega
  by_contra h
  rcases a.resp (by omega) with hc | hc
  · have := i.connect hc
    omega
  · by_cases hc' : t.socks5State = .connected
    · have := i.connect hc'
      omega
    · have := i.chain hc'
      omega

theorem punctual_step {lb : Label} (hr : Reachable cfg s) (e : Step cfg s lb t) (hc : Timely s lb)
    (p : Punctual s) : Punctual t := by
  have ⟨es, he, _, hl⟩ := step_logs hr e
  have a := step_answers hr e
  exact {
    outcome := by
      have hle := a.outcome
      rw [he] at hle ⊢
      exact countP_le_one p.outcome hle fun b hb ho => unanswered_of_outcome hr e hc p (hl b hb) ho
    request := by
      have hle := a.request
      rw [he] at hle ⊢
      exact countP_le_one p.request hle fun b hb ho => unrequested_of_request hr e (hl b hb) ho
    pending := pending_step hr e p
    after := by
      rw [he]
      refine p.after.append ?_ ?_
      · intro l₁ b l₂ h hb c hm hco
        have ⟨op, o, ch, hs, h₁⟩ := loggedBy_deliver (hl c (by simp [h, hm])) (.inr (.inr hco))
        subst hs
        have h₂ := (Logged.of_timeout (hl b (by simp [h])) hb).1
        cases h₂ ▸ h₁.of_connect hco
      · rintro ⟨b, hm, hb⟩ c hc' hco
        have ⟨op, o, ch, he₁, h⟩ := loggedBy_deliver (hl c hc') (.inr (.inr hco))
        subst he₁
        exact List.countP_eq_zero.mp (hc.2 (h.of_connect hco)) b hm hb }

-- In a run that keeps to the time limit, a session sends at most one outcome, for the one request
-- that it handles, and starts no attempt to connect after a timeout packet.
theorem connect_outcome (r : Transition.Reachable Session.Initial
    (Transition.Guarded (Step cfg) Timely) s) :
    s.log.countP Event.isRequest ≤ 1 ∧ s.log.countP Event.isOutcome ≤ 1 ∧
      Trace.NoneAfter (·.isTimeout) (·.isConnect) s.log := by
  have p : Punctual s := by
    induction r
    case init h => exact ⟨by simp [h.log], by simp [h.log], by simp [h.log], h.log ▸ .nil⟩
    case step r e hi => exact punctual_step r.of_guarded e.step e.cond hi
  exact ⟨p.request, p.outcome, p.after⟩

-- Deliveries of which a run may be made up so as to be timely.
def isTimely (s : Session) : Label → Bool
  | .deliver op _ _ => s.log.countP Event.isOutcome = 0 || !op.isTimerWait && !op.inConnect
  | _               => true

theorem timely_of_isTimely {lb : Label} (h : s.isTimely lb) : Timely s lb := by
  cases lb
  case deliver op o ch =>
    simp only [isTimely, Bool.or_eq_true, decide_eq_true_eq, Bool.and_eq_true] at h
    constructor
    case left =>
      rintro rfl - -
      exact h.resolve_right (by simp [Op.isTimerWait])
    case right =>
      intro hc
      have := h.resolve_right (by simp [hc])
      rw [countP_outcome] at this
      omega
  all_goals trivial

-- A session that has sent the reply to its request.
theorem connect_outcome_replied : ∃ s : Session, s.log.countP Event.isResp = 1 ∧
    s.log.countP Event.isRequest ≤ 1 ∧ s.log.countP Event.isOutcome ≤ 1 ∧
    Trace.NoneAfter (·.isTimeout) (·.isConnect) s.log := by
  have ⟨s, r, h⟩ := Schedule.exists_guarded act_sound timely_of_isTimely newSession_initial
    (handshake ++ connectRequest ++ connection)
    (fun s => s.log.countP Event.isResp = 1)
    (show (Schedule.exec (act sampleConfig) isTimely newSession _).any _ by decide +kernel)
  exact ⟨s, of_decide_eq_true h, connect_outcome r⟩

-- The timer expires while the attempt to connect succeeds: the reply is followed by a timeout
-- packet.
theorem connect_outcome_twice : ¬∀ {cfg : Config} {s : Session}, Reachable cfg s →
    s.log.countP Event.isRequest ≤ 1 ∧ s.log.countP Event.isOutcome ≤ 1 ∧
      Trace.NoneAfter (·.isTimeout) (·.isConnect) s.log := by
  intro hall
  have ⟨s, r, h⟩ := exists_sampleRun
    (handshake ++ connectRequest ++ [.tick 10, .complete 1 .done, .complete 2 .done,
      .deliver 2 sampleChoice, .deliver 1 sampleChoice])
    (fun s => s.log.countP Event.isOutcome = 2) (by decide +kernel)
  have := of_decide_eq_true h
  have := (hall r).2.1
  omega

end Session
end Lproxy.Server
