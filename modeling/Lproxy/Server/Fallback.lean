import Lproxy.Server.Connect
import Lproxy.Lib.Search

-- The attempts to connect to the endpoints that a resolver has returned.
namespace Lproxy.Server

def Event.reply? : Event → Option Byte
  | socks5Resp reply => some reply
  | _                => none

def Event.attempt? (p : Proto) : Event → Option Endpoint
  | started (.connect q e _) => if q = p then some e else none
  | _                        => none

-- How the attempt has ended whose handler a step runs.
def Label.result? (p : Proto) : Label → Option (Endpoint × Bool)
  | deliver (.connect q e _) o _ => if q = p then some (e, !o.failed) else none
  | _                            => none

-- What can be seen of the answer to a request: the replies that have been sent, `socks5_state`,
-- `dest_name`, and how often the end of a list has been dereferenced.
structure Seen where
  replies : List Byte
  state : Socks5.State
  destName : Data
  faults : Nat

-- A reply is sent if it can be packed, which takes a bind address of version 4.
def Seen.answered (cfg : Config) (v : Seen) (reply : Byte) : Seen :=
  if cfg.bindAddrSocks5.isSome then
    { v with
      replies := v.replies ++ [reply]
      state := if reply = 0x00 then .connected else v.state }
  else v

section Seen

variable {cfg : Config} {v : Seen} {reply : Byte}

@[simp]
theorem Seen.answered_destName : (v.answered cfg reply).destName = v.destName := by
  unfold answered
  split <;> rfl

@[simp]
theorem Seen.answered_faults : (v.answered cfg reply).faults = v.faults := by
  unfold answered
  split <;> rfl

end Seen

-- How a search ends that starts where `v` is seen. After a UDP endpoint has been found, the next
-- one is dereferenced.
inductive Ends (cfg : Config) (v : Seen) : Proto → Search Endpoint → Seen → Prop
  | tcp {failed rest : List Endpoint} {e : Endpoint} :
    Ends cfg v .tcp (.found failed e rest) (v.answered cfg 0x00)
  | udp {failed rest : List Endpoint} {e e' : Endpoint} {opened : Bool} :
    Ends cfg v .udp (.found failed e (e' :: rest))
      ({ v with destName := e'.address }.answered cfg (if opened then 0x00 else 0x01))
  | endOfList {failed : List Endpoint} {e : Endpoint} :
    Ends cfg v .udp (.found failed e []) { v with faults := v.faults + 1 }
  | exhausted {p : Proto} {failed : List Endpoint} :
    Ends cfg v p (.exhausted failed) (v.answered cfg 0x03)

namespace Session

variable {cfg : Config} {ch : Choice} {s t : Session} {op : Op} {o : Outcome} {p : Proto}

def attempts (p : Proto) (s : Session) : List Endpoint :=
  s.log.filterMap (Event.attempt? p)

def results (p : Proto) (tr : List (Session × Label)) : List (Endpoint × Bool) :=
  tr.filterMap fun q => q.2.result? p

def seen (s : Session) : Seen where
  replies := s.log.filterMap Event.reply?
  state := s.socks5State
  destName := s.destName
  faults := s.log.count .fault

-- There is nothing left to try, and there is no request to come.
structure Settled (s : Session) : Prop where
  connect : (ops [] s).countP Op.inConnect = 0
  left : s.socks5State = .connected ∨ (ops [] s).countP Op.inLeft = 0
  started : s.log ≠ []

section Quiet

-- The handler of another operation takes no part in the search.
theorem delivered_quiet (i : Inv cfg [op] s) (d : Delivered cfg ch s op o t)
    (hc : op.inConnect = false) (hl : s.socks5State = .connected ∨ op.inLeft = false) :
    t.seen = s.seen ∧ t.attempts p = s.attempts p := by
  have hf := i.fits op (List.mem_cons_self ..)
  cases d
  case left e h =>
    have hs : s.socks5State = .connected := hl.resolve_right (by cases e <;> simp [Op.inLeft])
    have hd : s.status = .data := i.processing (by simp [hs])
    cases h
    case undecryptable h => simp [hd] at h
    case shortPlain h    => simp [hd] at h
    case assertion h     => simp [hd] at h
    case exchange h _ _ _ _ => simp [hd] at h
    case badRequest hn _ _  => exact absurd hs hn
    case request hn _ _ _   => exact absurd hs hn
    all_goals simp [seen, attempts, Event.reply?, Event.attempt?]
  case resolved    => cases hc
  case unresolved  => cases hc
  case connected   => cases hc
  case endOfList   => cases hc
  case retried     => cases hc
  case unreachable => cases hc
  all_goals simp [seen, attempts, Event.reply?, Event.attempt?]

-- Nor does it take an operation of the search away.
theorem delivered_mem_ops {op' : Op} (d : Delivered cfg ch s op o t) (hc : op.inConnect = false)
    (hl : op.inLeft = false) (hop : op' ∈ ops [] s) : op' ∈ ops [] t := by
  have add (u : Op) : op' ∈ ops [] (s.start u) := by
    rw [ops_start]
    exact List.mem_append_left _ hop
  have cancel : op' ∈ ops [] s.cancel := by simpa [ops] using hop
  cases d
  case left e _    => cases e <;> cases hl
  case cancelled   => exact cancel
  case farewell    => exact cancel
  case hello       => cases hl
  case exchange    => cases hl
  case refused     => exact cancel
  case replied     => exact add _
  case address     => exact hop
  case again       => exact add _
  case written     => cases hl
  case unsupported => exact add _
  case broken      => exact add _
  case relayed     => exact add _
  case timerIdle   => exact hop
  case timeout     => exact add _
  all_goals cases hc

theorem ops_getElem {l r : List (Outstanding Op Outcome)} {x : Option Outcome}
    (h : s.io = l ++ ⟨op, x⟩ :: r) : op ∈ ops [] s := by
  simp [ops, h]

theorem Settled.deliver {l r : List (Outstanding Op Outcome)} (h : Settled s)
    (hio : s.io = l ++ ⟨op, some o⟩ :: r) (i : Inv cfg [] s)
    (d : Delivered cfg ch { s with io := l ++ r } op o t) :
    Settled t ∧ t.seen = s.seen ∧ t.attempts p = s.attempts p := by
  have hm := ops_getElem hio
  have hc : op.inConnect = false := by simpa using List.countP_eq_zero.mp h.connect op hm
  have hl : s.socks5State = .connected ∨ op.inLeft = false :=
    h.left.imp_right fun h => by simpa using List.countP_eq_zero.mp h op hm
  have count (q : Op → Bool) :
      (ops [] { s with io := l ++ r }).countP q ≤ (ops [] s).countP q := by
    rw [← (ops_dequeue hio).countP_eq, ops_cons, List.countP_cons]
    omega
  have hq := delivered_quiet (p := p) (i.dequeue hio) d hc hl
  have ⟨es, hlog, _⟩ := delivered_logs d
  refine ⟨⟨?_, ?_, hlog ▸ List.append_ne_nil_of_left_ne_nil h.started es⟩, hq⟩
  case refine_1 =>
    by_contra hn
    rcases delivered_connects d (Nat.pos_of_ne_zero hn) with h' | h' | h'
    · simp [hc] at h'
    · have := count Op.inConnect
      have := h.connect
      omega
    · cases h' with | intro e _ hs => ?_
      have hl := hl.resolve_left hs
      cases e <;> cases hl
  case refine_2 =>
    cases h.left
    case inl hs => exact .inl (delivered_connected d hs)
    case inr hz =>
      refine (hl.imp_left (delivered_connected d)).elim .inl fun hl => ?_
      have := count Op.inLeft
      exact (delivered_left (i.dequeue hio) d hl).imp_right fun _ => by omega

end Quiet

section Search

variable {e : Endpoint} {rest failed : List Endpoint}

theorem packSocks5Resp_cases (hr : s.socks5RespReply ≤ 0x08) :
    cfg.bindAddrSocks5 = none ∧ (∃ e, s.packSocks5Resp cfg = .error e) ∨
      cfg.bindAddrSocks5.isSome ∧ ∃ data, s.packSocks5Resp cfg = .ok data := by
  unfold packSocks5Resp
  cases cfg.bindAddrSocks5
  case none => exact .inl ⟨rfl, _, rfl⟩
  case some =>
    have hr : ¬s.socks5RespReply > 0x08 := by simpa using hr
    refine .inr ⟨rfl, ?_⟩
    simp [Socks5.Resp.pack, Socks5.Resp.setIPv4, Socks5.Resp.setBindPort, hr, Except.mapError]

-- The handler of an attempt runs alone.
structure Searching (s : Session) : Prop where
  keyed : s.aesEncryptor.isSome
  connect : (ops [] s).countP Op.inConnect = 0
  left : (ops [] s).countP Op.inLeft = 0
  started : s.log ≠ []

theorem Inv.searching (i : Inv cfg [op] s) (hc : op.inConnect) : Searching s := by
  have ⟨hl, _, hn⟩ := i.alone (i.not_connected hc) (.inr (.inr hc))
  have hd : s.status = .data := by
    have hf := i.fits op (List.mem_cons_self ..)
    cases op <;> cases hc <;> exact hf
  have ⟨_, he, _⟩ := i.accepted (i.keyed hd)
  exact ⟨i.keyed hd, hn, hl, List.ne_nil_of_mem he⟩

theorem Searching.of_ops (h : Searching s) (ho : ops [] t = ops [] s)
    (ha : t.aesEncryptor = s.aesEncryptor) (hl : t.log = s.log) : Searching t :=
  ⟨ha ▸ h.keyed, ho ▸ h.connect, ho ▸ h.left, hl ▸ h.started⟩

theorem Searching.answered (h : Searching s) (hr : s.socks5RespReply ≤ 0x08) :
    Settled (s.socks5RespToLocal cfg).1 ∧
      (s.socks5RespToLocal cfg).1.seen = s.seen.answered cfg s.socks5RespReply ∧
      (s.socks5RespToLocal cfg).1.attempts p = s.attempts p := by
  rcases packSocks5Resp_cases hr with ⟨hb, _, he⟩ | ⟨hb, data, hd⟩
  · rw [socks5RespToLocal_error he]
    exact ⟨⟨h.connect, .inr h.left, h.started⟩, by simp [Seen.answered, hb], rfl⟩
  · have ⟨lss, _, he⟩ := socks5RespToLocal_eq h.keyed hd
    rw [he]
    split
    case isTrue h0  =>
      refine ⟨⟨?_, .inl rfl, by simp⟩, ?_, ?_⟩
      · simpa [ops, Op.inConnect] using h.connect
      · simp [seen, Seen.answered, hb, h0, Event.reply?]
      · simp [attempts, Event.attempt?]
    case isFalse h0 =>
      refine ⟨⟨?_, .inr ?_, by simp⟩, ?_, ?_⟩
      · simpa [ops, Op.inConnect] using h.connect
      · simpa [ops, Op.inLeft] using h.left
      · simp [seen, Seen.answered, hb, h0, Event.reply?]
      · simp [attempts, Event.attempt?]

theorem ops_timerCancelled (s : Session) (p : Proto) : ops [] (s.timerCancelled p) = ops [] s := by
  cases p
  case tcp => simp [ops, timerCancelled]
  case udp => rfl

-- An attempt that has succeeded.
theorem deliver_found (h : Searching s) :
    let t := s.deliver cfg ch (.connect p e rest) .done
    Settled t ∧ Ends cfg s.seen p (.found failed e rest) t.seen ∧ t.attempts p = s.attempts p := by
  cases p
  case tcp =>
    have hu : Searching { s.timerCancel with socks5RespReply := 0x00 } :=
      h.of_ops (ops_timerCancelled s .tcp) rfl rfl
    obtain ⟨h₁, h₂, h₃⟩ := @Searching.answered cfg _ .tcp hu (by simp)
    exact ⟨h₁, h₂ ▸ .tcp, h₃⟩
  case udp =>
    cases rest
    case nil  =>
      have hs : (s.note .fault).seen = { s.seen with faults := s.seen.faults + 1 } := by
        simp [seen, Event.reply?]
      have ha : (s.note .fault).attempts .udp = s.attempts .udp := by
        simp [attempts, Event.attempt?]
      exact ⟨⟨h.connect, .inr h.left, List.append_ne_nil_of_left_ne_nil h.started _⟩,
        hs ▸ .endOfList, ha⟩
    case cons e' rest =>
      have hu : Searching (s.connectedTo ch (e' :: rest) .udp) := h.of_ops rfl rfl rfl
      obtain ⟨h₁, h₂, h₃⟩ := @Searching.answered cfg _ .udp hu
        (by cases ho : ch.udpOpened <;> simp [connectedTo, ho])
      exact ⟨h₁, h₂ ▸ .udp, h₃⟩

-- An attempt that has failed, after which there is nothing left to try.
theorem deliver_exhausted (h : Searching s) (code : ErrorCode) :
    let t := s.deliver cfg ch (.connect p e []) (.error code)
    Settled t ∧ Ends cfg s.seen p (.exhausted failed) t.seen ∧ t.attempts p = s.attempts p := by
  have hu : Searching { s.timerCancelled p with socks5RespReply := 0x03 } :=
    h.of_ops (ops_timerCancelled s p) (by cases p <;> rfl) (timerCancelled_log p)
  have ⟨h₁, h₂, h₃⟩ := @Searching.answered cfg _ p hu (by simp)
  cases p
  · exact ⟨h₁, h₂ ▸ .exhausted, h₃⟩
  · exact ⟨h₁, h₂ ▸ .exhausted, h₃⟩

theorem connecting_trying {e' : Endpoint} :
    let t := s.connecting cfg e' rest p
    .connect p e' rest ∈ ops [] t ∧ t.seen = s.seen ∧ t.attempts p = s.attempts p ++ [e'] := by
  cases p <;>
    simp [connecting, ops, seen, attempts, Event.reply?, Event.attempt?, List.filterMap_cons]

-- An attempt that has failed, after which the next endpoint is tried.
theorem deliver_next {e' : Endpoint} (code : ErrorCode) :
    let t := s.deliver cfg ch (.connect p e (e' :: rest)) (.error code)
    .connect p e' rest ∈ ops [] t ∧ t.seen = s.seen ∧ t.attempts p = s.attempts p ++ [e'] := by
  cases p
  · exact @connecting_trying cfg (s.timerCancel.closeRight .tcp) .tcp rest e'
  · exact @connecting_trying cfg (s.closeRight .udp) .udp rest e'

end Search

section Run

variable {s₀ : Session} {tr : List (Session × Label)} {x : Search Endpoint}

-- Where a session stands with a search that has started where `v` was seen.
inductive Stands (cfg : Config) (p : Proto) (v : Seen) : Search Endpoint → Session → Prop
  | trying {failed rest : List Endpoint} {e : Endpoint} {s : Session}
    (h : .connect p e rest ∈ ops [] s) (hs : s.seen = v) :
    Stands cfg p v (.trying failed e rest) s
  | ended {x : Search Endpoint} {s : Session} (h : Settled s) (he : Ends cfg v p x s.seen) :
    Stands cfg p v x s

-- A run of a session follows a search.
structure Follows (cfg : Config) (p : Proto) (s₀ : Session) (tr : List (Session × Label))
    (x : Search Endpoint) (s : Session) : Prop where
  attempts : s.attempts p = s₀.attempts p ++ x.attempts
  results : results p tr = x.results
  stands : Stands cfg p s₀.seen x s

theorem stands_next {e : Endpoint} {failed rest : List Endpoint} {v : Seen} (h : Searching s)
    (hs : s.seen = v) (code : ErrorCode) :
    let t := s.deliver cfg ch (.connect p e rest) (.error code)
    Stands cfg p v (.next (failed ++ [e]) rest) t ∧
      t.attempts p = s.attempts p ++ rest.head?.toList := by
  cases rest
  case nil =>
    have ⟨h₁, h₂, h₃⟩ := @deliver_exhausted cfg ch s p e (failed ++ [e]) h code
    exact ⟨.ended h₁ (hs ▸ h₂), by simpa using h₃⟩
  case cons e' rest =>
    have ⟨h₁, h₂, h₃⟩ := @deliver_next cfg ch s p e rest e' code
    exact ⟨.trying h₁ (h₂.trans hs), h₃⟩

theorem results_snoc (lb : Label) :
    results p (tr ++ [(s, lb)]) = results p tr ++ (lb.result? p).toList := by
  cases h : lb.result? p <;> simp [results, h]

-- While an attempt is outstanding, it is the only operation that takes part in the search.
theorem Inv.other {l r : List (Outstanding Op Outcome)} {op' : Op} (i : Inv cfg [] s)
    (h : s.io = l ++ ⟨op, some o⟩ :: r) (hc : op'.inConnect)
    (hm : op' ∈ ops [] { s with io := l ++ r }) : op.inConnect = false ∧ op.inLeft = false := by
  have hp : 0 < (ops [] { s with io := l ++ r }).countP Op.inConnect :=
    List.countP_pos_iff.mpr ⟨op', hm, hc⟩
  have hs : s.socks5State ≠ .connected := by
    intro hs
    have hm := (ops_dequeue h).mem_iff.mp (List.mem_cons_of_mem _ hm)
    exact List.countP_eq_zero.mp (i.connect hs) op' hm hc
  have hi := (i.dequeue h).chain hs
  simp only [ops_cons, List.countP_cons] at hi
  cases hn : op.inConnect <;> cases hl : op.inLeft <;> simp [hn, hl] at hi ⊢ <;> omega

theorem result?_of_other (h : op.inConnect = false) : (Label.deliver op o ch).result? p = none := by
  cases op <;> simp [Label.result?, Op.inConnect] at h ⊢

theorem Settled.step {lb : Label} (hr : Reachable cfg s) (h : Settled s) (e : Step cfg s lb t) :
    Settled t ∧ t.seen = s.seen ∧ t.attempts p = s.attempts p ∧ lb.result? p = none := by
  have i := inv_reachable hr
  cases e
  case start hs        => exact absurd ((fresh_reachable hr).unstarted hs).2 h.started
  case complete hio _ _ =>
    have ho (y : Option Outcome) := @ops_complete _ _ [] _ _ _ y hio
    exact ⟨⟨by rw [ho, h.connect], by rw [ho]; exact h.left, h.started⟩, rfl, rfl, rfl⟩
  case tick            => exact ⟨⟨h.connect, h.left, h.started⟩, rfl, rfl, rfl⟩
  case deliver op o ch hio =>
    have hc : op.inConnect = false := by
      simpa using List.countP_eq_zero.mp h.connect op (ops_getElem hio)
    have ⟨h₁, h₂, h₃⟩ := h.deliver (p := p) hio i (@Inv.deliver_queued cfg ch _ _ _ _ _ i hio)
    exact ⟨h₁, h₂, h₃, result?_of_other hc⟩

-- One step of a search that is under way.
theorem trying_deliver {l r : List (Outstanding Op Outcome)} {e : Endpoint}
    {failed rest : List Endpoint} (f : Follows cfg p s₀ tr (.trying failed e rest) s)
    (hm : .connect p e rest ∈ ops [] s) (hs : s.seen = s₀.seen) (i : Inv cfg [] s)
    (h : s.io = l ++ ⟨op, some o⟩ :: r) :
    ∃ x, x.all = (Search.trying failed e rest).all ∧
      Follows cfg p s₀ (tr ++ [(s, .deliver op o ch)]) x
        ({ s with io := l ++ r }.deliver cfg ch op o) := by
  have ⟨ha, hr, _⟩ := f
  have ha : ({ s with io := l ++ r } : Session).attempts p = _ := ha
  cases List.mem_cons.mp ((ops_dequeue h).mem_iff.mpr hm)
  case inl he =>
    subst he
    have c := i.queued ⟨.connect p e rest, some o⟩ (by simp [h]) o rfl
    have hq := (i.dequeue h).searching rfl
    cases c
    case connect =>
      have ⟨h₁, h₂, h₃⟩ := @deliver_found cfg ch _ p e rest failed hq
      refine ⟨.found failed e rest, rfl, h₃.trans ha, ?_, .ended h₁ (hs ▸ h₂)⟩
      simp [results_snoc, hr, Label.result?, Outcome.failed]
    case error code =>
      have ⟨h₁, h₂⟩ := @stands_next cfg ch _ p e failed rest _ hq hs code
      refine ⟨.next (failed ++ [e]) rest, by simp, ?_, ?_, h₁⟩
      · simp [h₂, ha]
      · simp [results_snoc, hr, Label.result?, Outcome.failed]
  case inr hm =>
    have d : Delivered cfg ch _ op o _ := i.deliver_queued h
    have ⟨hc, hl⟩ := i.other h rfl hm
    have ⟨h₁, h₂⟩ := delivered_quiet (p := p) (i.dequeue h) d hc (.inr hl)
    exact ⟨_, rfl, h₂.trans ha, by simp [results_snoc, result?_of_other hc, hr],
      .trying (delivered_mem_ops d hc hl hm) (h₁.trans hs)⟩

theorem Follows.step {lb : Label} (hr : Reachable cfg s) (f : Follows cfg p s₀ tr x s)
    (e : Step cfg s lb t) : ∃ x', x'.all = x.all ∧ Follows cfg p s₀ (tr ++ [(s, lb)]) x' t := by
  have ⟨ha, hres, hst⟩ := f
  cases hst
  case ended hs he =>
    have ⟨h₁, h₂, h₃, h₄⟩ := hs.step (p := p) hr e
    exact ⟨x, rfl, h₃.trans ha, by simp [results_snoc, h₄, hres], .ended h₁ (h₂ ▸ he)⟩
  case trying hm hs =>
    cases e
    case start h        =>
      have hio := ((fresh_reachable hr).unstarted h).1
      simp [ops, hio] at hm
    case complete h _ _ =>
      exact ⟨_, rfl, ha, by simp [results_snoc, Label.result?, hres],
        .trying (by rw [ops_complete h]; exact hm) hs⟩
    case tick           =>
      exact ⟨_, rfl, ha, by simp [results_snoc, Label.result?, hres], .trying hm hs⟩
    case deliver h      => exact trying_deliver f hm hs (inv_reachable hr) h

theorem Follows.run (hr : Reachable cfg s) (f : Follows cfg p s₀ [] x s)
    (r : Transition.Run (Step cfg) s tr t) :
    ∃ x', x'.all = x.all ∧ Follows cfg p s₀ tr x' t := by
  induction r
  case nil             => exact ⟨x, rfl, f⟩
  case snoc r e ih =>
    have ⟨x', hx, f'⟩ := ih
    have ⟨x'', hx', f''⟩ := f'.step (r.reachable_of hr) e
    exact ⟨x'', hx'.trans hx, f''⟩

-- The search that starts when a resolver has returned a list.
theorem resolved_follows {l r : List (Outstanding Op Outcome)} {name : Data} {port : UInt16}
    {e : Endpoint} {rest : List Endpoint} :
    Follows cfg p s [] (.trying [] e rest)
      ({ s with io := l ++ r }.deliver cfg ch (.resolve p name port) (.endpoints e rest)) := by
  have hc : ({ s with io := l ++ r } : Session).deliver cfg ch (.resolve p name port)
      (.endpoints e rest) =
        (({ s with io := l ++ r } : Session).timerCancelled p).connecting cfg e rest p := by
    cases p <;> rfl
  have ⟨h₁, h₂, h₃⟩ := @connecting_trying cfg
    (({ s with io := l ++ r } : Session).timerCancelled p) p rest e
  rw [hc]
  refine ⟨h₃.trans ?_, rfl, .trying h₁ (h₂.trans ?_)⟩
  · cases p <;> rfl
  · cases p <;> rfl

theorem unresolved_settled {l r : List (Outstanding Op Outcome)} {name : Data} {port : UInt16}
    {code : ErrorCode} (hr : Reachable cfg s)
    (h : s.io = l ++ ⟨.resolve p name port, some (.error code)⟩ :: r) :
    let t := { s with io := l ++ r }.deliver cfg ch (.resolve p name port) (.error code)
    Settled t ∧ t.seen = s.seen.answered cfg 0x04 ∧ t.attempts p = s.attempts p := by
  have hq : Searching { s with io := l ++ r } := ((inv_reachable hr).dequeue h).searching rfl
  have hu : Searching { ({ s with io := l ++ r } : Session).timerCancelled p with
      socks5RespReply := 0x04 } :=
    hq.of_ops (ops_timerCancelled _ p) (by cases p <;> rfl) (timerCancelled_log p)
  have ⟨h₁, h₂, h₃⟩ := @Searching.answered cfg _ p hu (by simp)
  cases p
  · exact ⟨h₁, h₂, h₃⟩
  · exact ⟨h₁, h₂, h₃⟩

theorem Settled.run (hr : Reachable cfg s) (h : Settled s)
    (r : Transition.Run (Step cfg) s tr t) :
    Settled t ∧ t.seen = s.seen ∧ t.attempts p = s.attempts p := by
  induction r
  case nil         => exact ⟨h, rfl, rfl⟩
  case snoc r e ih =>
    have ⟨h₁, h₂, h₃⟩ := ih
    have ⟨h₁, h₂', h₃', _⟩ := h₁.step (p := p) (r.reachable_of hr) e
    exact ⟨h₁, h₂'.trans h₂, h₃'.trans h₃⟩

theorem exists_queued (hm : op ∈ ops [] s) : ∃ t l r o,
    Transition.Reachable (· = s) (Step cfg) t ∧ t.io = l ++ ⟨op, some o⟩ :: r := by
  have ⟨x, hx, he⟩ := List.mem_map.mp hm
  have ⟨l, r, hio⟩ := List.append_of_mem hx
  subst he
  cases ho : x.outcome
  case some o => exact ⟨s, l, r, o, .refl s, by rw [hio, ← ho]⟩
  case none   =>
    have e : Step cfg s (.complete x.op (.error .other)) _ :=
      .complete (by rw [hio, ← ho]) .error nofun
    exact ⟨_, l, r, _, .step (.refl s) e, rfl⟩

-- An attempt can always be brought to its end.
theorem exists_tried {e : Endpoint} {rest : List Endpoint} (hr : Reachable cfg s)
    (hm : .connect p e rest ∈ ops [] s) : ∃ t, Transition.Reachable (· = s) (Step cfg) t ∧
      (Settled t ∨ ∃ e' rest', rest = e' :: rest' ∧ .connect p e' rest' ∈ ops [] t) := by
  have ⟨t, l, r, o, ht, hio⟩ := @exists_queued cfg _ _ hm
  have i := inv_reachable (hr.trans ht)
  have c := i.queued ⟨_, some o⟩ (by simp [hio]; exact .inr (.inl rfl)) o rfl
  have hq := (i.dequeue hio).searching rfl
  refine ⟨_, ht.step (@Step.deliver cfg _ _ _ _ _ sampleChoice hio), ?_⟩
  cases c
  case connect    => exact .inl (@deliver_found cfg sampleChoice _ p e rest [] hq).1
  case error code =>
    cases rest
    case nil          => exact .inl (@deliver_exhausted cfg sampleChoice _ p e [] hq code).1
    case cons e' rest =>
      exact .inr ⟨e', rest, rfl, (@deliver_next cfg sampleChoice _ p e rest e' code).1⟩

-- And so can the search.
theorem exists_settled {e : Endpoint} {rest : List Endpoint} (hr : Reachable cfg s)
    (hm : .connect p e rest ∈ ops [] s) :
    ∃ t, Transition.Reachable (· = s) (Step cfg) t ∧ Settled t := by
  induction rest generalizing s e
  all_goals have ⟨t, ht, h⟩ := exists_tried hr hm
  case nil =>
    cases h
    case inl h => exact ⟨t, ht, h⟩
    case inr h =>
      have ⟨_, _, h, _⟩ := h
      cases h
  case cons ih =>
    cases h
    case inl h => exact ⟨t, ht, h⟩
    case inr h =>
      have ⟨_, _, he, hm⟩ := h
      cases he
      have ⟨u, hu, h⟩ := ih (hr.trans ht) hm
      exact ⟨u, ht.trans hu, h⟩

end Run

section Tcp

variable {s₀ : Session} {tr : List (Session × Label)} {l r : List (Outstanding Op Outcome)}
  {name : Data} {port : UInt16}

-- How a run has gone on from a session `s₀` in which the resolver has completed: the endpoints are
-- tried in their order until one succeeds, and there is one reply.
def FallsBack (s₀ : Session) (o : Outcome) (tr : List (Session × Label)) (s : Session) : Prop :=
  match o with
  | .endpoints e rest => ∃ x : Search Endpoint, x.all = e :: rest ∧
    s.attempts .tcp = s₀.attempts .tcp ++ x.attempts ∧ results .tcp tr = x.results ∧
    match x with
    | .trying _ e rest => .connect .tcp e rest ∈ ops [] s ∧
      s.seen.replies = s₀.seen.replies ∧ s.socks5State = s₀.socks5State
    | .found ..        =>
      s.seen.replies = s₀.seen.replies ++ [0x00] ∧ s.socks5State = .connected
    | .exhausted _     =>
      s.seen.replies = s₀.seen.replies ++ [0x03] ∧ s.socks5State = s₀.socks5State
  | _                 => s.attempts .tcp = s₀.attempts .tcp ∧
    s.seen.replies = s₀.seen.replies ++ [0x04] ∧ s.socks5State = s₀.socks5State

theorem fallsBack_of_follows {e : Endpoint} {rest : List Endpoint} {x : Search Endpoint}
    (hb : cfg.bindAddrSocks5.isSome) (hx : x.all = e :: rest) (f : Follows cfg .tcp s₀ tr x s) :
    FallsBack s₀ (.endpoints e rest) tr s := by
  have ⟨ha, hr, hst⟩ := f
  refine ⟨x, hx, ha, hr, ?_⟩
  cases hst
  case trying hm hs => exact ⟨hm, congrArg Seen.replies hs, congrArg Seen.state hs⟩
  case ended he =>
    generalize hv : s.seen = v at he
    have hs : s.socks5State = v.state := congrArg Seen.state hv
    have hs₀ : s₀.seen.state = s₀.socks5State := rfl
    cases he
    case tcp       => simp [hs, Seen.answered, hb]
    case exhausted => simp [hs, hs₀, Seen.answered, hb]

-- Without a bind address of version 4 no reply is sent.
theorem replies_of_follows {x : Search Endpoint}
    (hb : cfg.bindAddrSocks5.isSome = false) (f : Follows cfg .tcp s₀ tr x s) :
    s.seen.replies = s₀.seen.replies := by
  cases f.stands
  case trying hs => exact congrArg Seen.replies hs
  case ended he  =>
    generalize s.seen = v at he
    cases he <;> simp [Seen.answered, hb]

-- The handler of the resolver starts what falls back from each endpoint to the next, and what can
-- be brought to its end.
def Falls (cfg : Config) (s₀ : Session) (o : Outcome) (s₁ : Session) : Prop :=
  ∀ {tr : List (Session × Label)} {s : Session}, Transition.Run (Step cfg) s₁ tr s →
    FallsBack s₀ o tr s ∧
      ∃ t, Transition.Reachable (· = s) (Step cfg) t ∧ (ops [] t).countP Op.inConnect = 0

theorem falls_unresolved {code : ErrorCode} (hr : Reachable cfg s₀)
    (h : s₀.io = l ++ ⟨.resolve .tcp name port, some (.error code)⟩ :: r) (ch : Choice) :
    Falls cfg s₀ (.error code) ({ s₀ with io := l ++ r }.deliver cfg ch (.resolve .tcp name port)
      (.error code)) ↔ cfg.bindAddrSocks5.isSome := by
  have ⟨hs, hv, ha⟩ := @unresolved_settled cfg ch s₀ .tcp l r name port code hr h
  constructor
  case mp =>
    intro hf
    have ⟨_, hrep, _⟩ := (hf .nil).1
    rw [hv] at hrep
    by_contra hb
    simp [Seen.answered, hb] at hrep
  case mpr =>
    intro hb tr s hrun
    have ⟨hs', hv', ha'⟩ := hs.run (p := .tcp) (hr.step (.deliver h)) hrun
    have hv := hv'.trans hv
    have hst : s.socks5State = _ := congrArg Seen.state hv
    refine ⟨⟨ha'.trans ha, ?_, ?_⟩, s, .refl s, hs'.connect⟩
    · simp [hv, Seen.answered, hb]
    · simp [hst, Seen.answered, hb, seen]

theorem falls_resolved {e : Endpoint} {rest : List Endpoint} (hr : Reachable cfg s₀)
    (h : s₀.io = l ++ ⟨.resolve .tcp name port, some (.endpoints e rest)⟩ :: r) (ch : Choice) :
    Falls cfg s₀ (.endpoints e rest) ({ s₀ with io := l ++ r }.deliver cfg ch
      (.resolve .tcp name port) (.endpoints e rest)) ↔ cfg.bindAddrSocks5.isSome := by
  have f := @resolved_follows cfg ch s₀ .tcp l r name port e rest
  have hr₁ := hr.step (@Step.deliver cfg _ _ _ _ _ ch h)
  constructor
  case mp =>
    intro hf
    by_contra hb
    have ⟨_, t, ht, hc⟩ := hf .nil
    have ⟨_, tr, he, hrun⟩ := ht.exists_run
    subst he
    have ⟨x, _, f'⟩ := f.run hr₁ hrun
    have hrep := replies_of_follows (by simpa using hb) f'
    have ⟨x', _, _, _, hx⟩ := (hf hrun).1
    cases x'
    case trying    => exact List.countP_eq_zero.mp hc _ hx.1 rfl
    case found     => simp [hrep] at hx
    case exhausted => simp [hrep] at hx
  case mpr =>
    intro hb tr s hrun
    have ⟨x, hx, f'⟩ := f.run hr₁ hrun
    refine ⟨fallsBack_of_follows hb hx f', ?_⟩
    cases f'.stands
    case trying hm _ =>
      have ⟨t, ht, hs⟩ := exists_settled (hrun.reachable_of hr₁) hm
      exact ⟨t, ht, hs.connect⟩
    case ended hs _  => exact ⟨s, .refl s, hs.connect⟩

theorem tcp_fallback (hr : Reachable cfg s₀)
    (h : s₀.io = l ++ ⟨.resolve .tcp name port, some o⟩ :: r) (ch : Choice) :
    Falls cfg s₀ o ({ s₀ with io := l ++ r }.deliver cfg ch (.resolve .tcp name port) o) ↔
      cfg.bindAddrSocks5.isSome := by
  have c := (inv_reachable hr).queued ⟨.resolve .tcp name port, some o⟩ (by simp [h]) o rfl
  cases c
  case error   => exact falls_unresolved hr h ch
  case resolve => exact falls_resolved hr h ch

-- A resolver that has returned two endpoints.
theorem tcp_fallback_two_endpoints : ∃ (s₀ s : Session) (e e' : Endpoint),
    e ≠ e' ∧ FallsBack s₀ (.endpoints e [e']) [] s := by
  let e : Endpoint := ⟨[49], 80⟩
  let e' : Endpoint := ⟨[50], 80⟩
  have ⟨s₀, hr, h⟩ := exists_sampleRun
    (handshake ++ Act.run 0 (.bytes (frame .data [5, 1, 0, 1, 127, 0, 0, 1, 0, 80])) ++
      [.complete 1 (.endpoints e [e'])])
    (fun s => s.io = [⟨.timerWait, none⟩] ++
      ⟨.resolve .tcp [127] 80, some (.endpoints e [e'])⟩ :: []) (by decide +kernel)
  exact ⟨s₀, _, e, e', by decide,
    ((tcp_fallback hr (of_decide_eq_true h) sampleChoice).mpr rfl .nil).1⟩

-- A configuration with a bind address of version 6: the reply to a request whose name is not known
-- cannot be packed.
theorem tcp_fallback_ipv6_bind : ¬∀ {cfg : Config} {s₀ : Session}
    {l r : List (Outstanding Op Outcome)} {name : Data} {port : UInt16} {o : Outcome},
    Reachable cfg s₀ → s₀.io = l ++ ⟨.resolve .tcp name port, some o⟩ :: r → ∀ ch : Choice,
    Falls cfg s₀ o ({ s₀ with io := l ++ r }.deliver cfg ch (.resolve .tcp name port) o) := by
  intro hall
  let cfg : Config := { sampleConfig with bindAddrSocks5 := none }
  have ⟨s₀, hr, h⟩ := Schedule.exists_reachable (@act_sound cfg) newSession_initial
    (handshake ++ Act.run 0 (.bytes (frame .data [5, 1, 0, 1, 127, 0, 0, 1, 0, 80])) ++
      [.complete 1 (.error .other)])
    (fun s => s.io = [⟨.timerWait, none⟩] ++
      ⟨.resolve .tcp [127] 80, some (.error .other)⟩ :: []) (by decide +kernel)
  have ⟨_, hrep, _⟩ := (hall hr (of_decide_eq_true h) sampleChoice .nil).1
  have hrep : s₀.seen.replies = s₀.seen.replies ++ [0x04] := hrep
  simp at hrep

end Tcp

section Udp

variable {s₀ : Session} {tr : List (Session × Label)} {l r : List (Outstanding Op Outcome)}
  {name : Data} {port : UInt16} {e : Endpoint} {rest : List Endpoint}

-- What a search for a UDP endpoint that has ended is to leave behind: the address of the endpoint
-- that has been found, and no end of the list dereferenced; or one reply.
def Records (s₀ s : Session) : Search Endpoint → Prop
  | .trying ..    => True
  | .found _ e _  => s.destName = e.address ∧ s.seen.faults = s₀.seen.faults
  | .exhausted _  => s.seen.replies = s₀.seen.replies ++ [0x03]

-- The endpoint that is found is not the last one, and the one after it has the same address; or
-- there is a bind address of version 4.
def RecordsWhen (cfg : Config) : Search Endpoint → Prop
  | .trying ..             => True
  | .found _ e (e' :: _)   => e'.address = e.address
  | .found _ _ []          => False
  | .exhausted _           => cfg.bindAddrSocks5.isSome

theorem records_iff {x : Search Endpoint} (f : Follows cfg .udp s₀ tr x s) :
    Records s₀ s x ↔ RecordsWhen cfg x := by
  have ⟨_, _, hst⟩ := f
  cases hst
  case trying => rfl
  case ended he =>
    generalize hv : s.seen = v at he
    have hd : s.destName = v.destName := congrArg Seen.destName hv
    have hf : s.seen.faults = v.faults := congrArg Seen.faults hv
    have hr : s.seen.replies = v.replies := congrArg Seen.replies hv
    cases he
    case udp       => simp [Records, RecordsWhen, hd, hf]
    case endOfList => simp [Records, RecordsWhen, hf]
    case exhausted =>
      cases hb : cfg.bindAddrSocks5.isSome <;> simp [Records, RecordsWhen, hr, Seen.answered, hb]

-- Every run from the handler of the resolver on goes through the endpoints in their order, and what
-- it leaves behind is right exactly under the condition above.
theorem udp_connect (hr : Reachable cfg s₀)
    (h : s₀.io = l ++ ⟨.resolve .udp name port, some (.endpoints e rest)⟩ :: r) (ch : Choice)
    (hrun : Transition.Run (Step cfg) ({ s₀ with io := l ++ r }.deliver cfg ch
      (.resolve .udp name port) (.endpoints e rest)) tr s) :
    ∃ x : Search Endpoint, x.all = e :: rest ∧
      s.attempts .udp = s₀.attempts .udp ++ x.attempts ∧ results .udp tr = x.results ∧
      (Records s₀ s x ↔ RecordsWhen cfg x) := by
  have ⟨x, hx, f⟩ := (@resolved_follows cfg ch s₀ .udp l r name port e rest).run
    (hr.step (.deliver h)) hrun
  exact ⟨x, hx, f.attempts, f.results, records_iff f⟩

def udpRequest : List Act :=
  handshake ++ Act.run 0 (.bytes (frame .data [5, 3, 0, 1, 127, 0, 0, 1, 0, 80]))

-- The resolver has returned one endpoint, and the attempt to connect to it ends.
theorem exists_udpRun {e : Endpoint} {o : Outcome}
    (he : (sampleRun (udpRequest ++ [.complete 0 (.endpoints e [])])).any fun s =>
      s.io = [] ++ ⟨.resolve .udp [127] 80, some (.endpoints e [])⟩ :: [])
    (ho : Completes (.connect .udp e []) o) : ∃ (s₀ s : Session) (tr : List (Session × Label)),
      Reachable sampleConfig s₀ ∧
      s₀.io = [] ++ ⟨.resolve .udp [127] 80, some (.endpoints e [])⟩ :: [] ∧
      Transition.Run (Step sampleConfig) ({ s₀ with io := [] ++ [] }.deliver sampleConfig
        sampleChoice (.resolve .udp [127] 80) (.endpoints e [])) tr s ∧
      results .udp tr = [(e, !o.failed)] := by
  have ⟨s₀, hr, h⟩ := exists_sampleRun _ _ he
  let s₁ : Session := { s₀ with io := [] ++ [] }.deliver sampleConfig sampleChoice
    (.resolve .udp [127] 80) (.endpoints e [])
  have h₁ : Step sampleConfig s₁ (.complete (.connect .udp e []) o)
      { s₁ with io := [] ++ ⟨.connect .udp e [], some o⟩ :: [] } :=
    .complete (l := []) (r := []) rfl ho (fun hn => by cases hn)
  exact ⟨s₀, _, _, hr, of_decide_eq_true h,
    (Transition.Run.nil.snoc h₁).snoc (@Step.deliver _ _ [] [] _ _ sampleChoice rfl), rfl⟩

-- The only endpoint cannot be reached.
theorem udp_connect_unreachable : ∃ (s₀ s : Session) (tr : List (Session × Label)),
    results .udp tr = [(⟨[49], 80⟩, false)] ∧ Records s₀ s (.exhausted [⟨[49], 80⟩]) := by
  have ⟨s₀, s, tr, hr, h, hrun, hres⟩ := @exists_udpRun ⟨[49], 80⟩ (.error .other)
    (by decide +kernel) .error
  have ⟨x, hall, _, hx, hw⟩ := udp_connect hr h sampleChoice hrun
  cases @Search.eq_of_results _ x (.exhausted [⟨[49], 80⟩]) hall (hx.symm.trans hres)
  exact ⟨s₀, s, tr, hres, hw.mpr rfl⟩

-- The connection to the only endpoint succeeds, and the end of the list is dereferenced.
theorem udp_connect_end_of_list : ¬∀ {cfg : Config} {s₀ s : Session}
    {l r : List (Outstanding Op Outcome)} {name : Data} {port : UInt16} {e : Endpoint}
    {rest : List Endpoint} {tr : List (Session × Label)}, Reachable cfg s₀ →
    s₀.io = l ++ ⟨.resolve .udp name port, some (.endpoints e rest)⟩ :: r → ∀ ch : Choice,
    Transition.Run (Step cfg) ({ s₀ with io := l ++ r }.deliver cfg ch (.resolve .udp name port)
      (.endpoints e rest)) tr s → ∀ x : Search Endpoint, x.all = e :: rest →
    results .udp tr = x.results → Records s₀ s x := by
  intro hall
  have ⟨s₀, s, tr, hr, h, hrun, hres⟩ := @exists_udpRun ⟨[49], 80⟩ .done
    (by decide +kernel) .connect
  have ⟨x, hx, f⟩ := (@resolved_follows sampleConfig sampleChoice s₀ .udp [] [] [127] 80
    ⟨[49], 80⟩ []).run (hr.step (.deliver h)) hrun
  cases @Search.eq_of_results _ x (.found [] ⟨[49], 80⟩ []) hx (f.results.symm.trans hres)
  exact (records_iff f).mp (hall hr h sampleChoice hrun (.found [] ⟨[49], 80⟩ []) rfl hres)

end Udp

end Session
end Lproxy.Server
