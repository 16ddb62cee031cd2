import Lproxy.Server.Fallback
import Lproxy.Server.Link

-- That a server session does not come to a halt: as long as it has not cancelled, each of its
-- chains has an operation.
namespace Lproxy.Server

-- The operations of the two chains, and of what comes before them.
def Op.inChain (op : Op) : Bool :=
  op.inLeft || op.inRight || op.inConnect

namespace Session

variable {cfg : Config} {ch : Choice} {s t u : Session} {op : Op} {o : Outcome} {run new : List Op}

-- From `s` to `t` the session is connected to the same remote, or it is still not connected.
structure Keeps (s t : Session) : Prop where
  socks5State : t.socks5State = s.socks5State
  socks5Cmd : t.socks5Cmd = s.socks5Cmd
  destName : t.destName = s.destName

-- The session is connected to a remote from which it cannot read.
structure Mute (cfg : Config) (s : Session) : Prop where
  socks5State : s.socks5State = .connected
  socks5Cmd : s.socks5Cmd = .udp
  destName : ¬cfg.boost.isAddress s.destName

-- What a handler may leave behind instead of the operation that has ended: a farewell, an operation
-- of the same chain, any operation as long as the session is not connected, or both chains.
inductive Replaces (cfg : Config) (s t : Session) (op : Op) (new : List Op) : Prop
  | farewell {op' : Op} (hm : op' ∈ new) (h : op'.isFarewell) : Replaces cfg s t op new
  | single {op' : Op} (hs : t.socks5State ≠ .connected) (hm : op' ∈ new) (h : op'.inChain) :
    Replaces cfg s t op new
  | connected {left right : Op} (hs : t.socks5State = .connected) (hl : left ∈ new)
    (hl' : left.inLeft) (hr : right ∈ new) (hr' : right.inRight) : Replaces cfg s t op new
  | chain {op' : Op} (hk : Keeps s t) (hm : op' ∈ new) (hl : op.inLeft → op'.inLeft)
    (hr : op.inRight → op'.inRight) (hc : op.inChain → op'.inChain) : Replaces cfg s t op new
  | idle (hk : Keeps s t) (h : op.inChain = false) : Replaces cfg s t op new
  | mute (hk : Keeps s t) (hm : Mute cfg s) (hl : op.inLeft = false) : Replaces cfg s t op new

-- A session that has cancelled, or that has replaced the operation whose handler has run and has
-- not failed in doing so.
def Proceeds (cfg : Config) (s t : Session) (op : Op) : Prop :=
  .cancelled ∈ t.log ∨ .fault ∈ t.log ∨
    ∃ new, ops [] t = ops [] s ++ new ∧ Replaces cfg s t op new

namespace Proceeds

theorem farewell {lss : Packet} (h : ops [] u = ops [] s) :
    Proceeds cfg s (u.start (.leftWrite lss .cancel)) op :=
  .inr (.inr ⟨[.leftWrite lss .cancel], by simp [h], .farewell (List.mem_singleton_self _) rfl⟩)

theorem chain {op' : Op} (ho : ops [] t = ops [] s ++ [op']) (hk : Keeps s t)
    (hl : op.inLeft → op'.inLeft) (hr : op.inRight → op'.inRight) (hc : op.inChain → op'.inChain) :
    Proceeds cfg s t op :=
  .inr (.inr ⟨[op'], ho, .chain hk (List.mem_singleton_self _) hl hr hc⟩)

theorem left {op' : Op} (ho : ops [] t = ops [] s ++ [op']) (hk : Keeps s t)
    (hr : op.inRight = false) (h : op'.inLeft) : Proceeds cfg s t op :=
  chain ho hk (fun _ => h) (fun hr' => by simp [hr] at hr') fun _ => by simp [Op.inChain, h]

theorem right {op' : Op} (ho : ops [] t = ops [] s ++ [op']) (hk : Keeps s t)
    (hl : op.inLeft = false) (h : op'.inRight) : Proceeds cfg s t op :=
  chain ho hk (fun hl' => by simp [hl] at hl') (fun _ => h) fun _ => by simp [Op.inChain, h]

theorem single {op' : Op} (new : List Op) (hn : ops [] t = ops [] s ++ new)
    (hs : t.socks5State ≠ .connected) (hm : op' ∈ new) (h : op'.inChain) : Proceeds cfg s t op :=
  .inr (.inr ⟨new, hn, .single hs hm h⟩)

end Proceeds

theorem refuse_proceeds {d : Data} {lss : Packet} (hu : ops [] u = ops [] s)
    (hs : u.socks5State ≠ .connected) : Proceeds cfg s (u.refuse d lss) op := by
  have hn : ops [] (u.refuse d lss) = ops [] s ++ [.leftWrite lss .leftWriteHandler] := by
    rw [← hu]
    simp [refuse, ops]
  exact .single _ hn hs (List.mem_singleton_self _) rfl

theorem accept_proceeds {d : Data} {lss : Packet} (hu : ops [] u = ops [] s) :
    Proceeds cfg s (u.accept d lss) op := by
  have hn : ops [] (u.accept d lss) =
      ops [] s ++ [.leftWrite lss .leftWriteHandler, .leftRead (.receiving maxLength) 0] := by
    rw [← hu]
    simp [accept, ops]
  have hm : Op.leftRead (.receiving maxLength) 0 ∈ _ :=
    List.mem_cons_of_mem (.leftWrite lss .leftWriteHandler) (List.mem_singleton_self _)
  exact .inr (.inr ⟨_, hn, .connected rfl hm rfl (List.mem_cons_self ..) rfl⟩)

theorem respToLocal_proceeds {v : Session × Option Exn} (hu : ops [] u = ops [] s)
    (hs : u.socks5State ≠ .connected) (r : RespToLocal cfg u v) (hl : v.1.log ≠ u.log) :
    Proceeds cfg s v.1 op := by
  cases r
  case threw    => exact absurd rfl hl
  case refused  => exact refuse_proceeds hu hs
  case accepted => exact accept_proceeds hu

theorem connecting_proceeds {p : Proto} {e : Endpoint} {rest : List Endpoint}
    (hu : ops [] u = ops [] s) (hs : u.socks5State ≠ .connected) :
    Proceeds cfg s (u.connecting cfg e rest p) op := by
  cases p
  case tcp =>
    refine .single [.timerWait, .connect .tcp e rest] ?_ hs
      (List.mem_cons_of_mem _ (List.mem_singleton_self _)) rfl
    rw [← hu]
    simp [connecting, ops, Function.comp_def]
  case udp =>
    refine .single [.connect .udp e rest] ?_ hs (List.mem_singleton_self _) rfl
    rw [← hu]
    simp [connecting, ops]

theorem requestProcessed_proceeds (hu : ops [] u = ops [] s) (r : RequestProcessed cfg u t) :
    Proceeds cfg s t op := by
  have req {rq : Socks5.Req} {name : Data} {cmd : Cmd} {reply : Byte} :
      ops [] (u.requested rq name cmd reply) = ops [] s := hu
  cases r
  case connect n _ port =>
    refine .single [.timerWait, .resolve .tcp n port] ?_ (by simp)
      (List.mem_cons_of_mem _ (List.mem_singleton_self _)) rfl
    rw [← hu]
    simp [ops, Function.comp_def]
  case udp n _ port     =>
    refine .single [.resolve .udp n port] ?_ (by simp) (List.mem_singleton_self _) rfl
    rw [← hu]
    simp [ops]
  case refused          => exact refuse_proceeds req (by simp)
  case accepted         => exact accept_proceeds req
  case cancel           => exact .inl (by simp)
  case bad              => exact .farewell req

theorem leftReadDone_proceeds {bt : Nat} {lss : Packet} (e : LeftEntry op o bt lss)
    (h : LeftReadDone cfg ch s bt lss t) : Proceeds cfg s t op := by
  have hl : op.inLeft := by cases e <;> rfl
  have hr : op.inRight = false := (op.inLeft_only hl).1
  have chain {u : Session} {op' : Op} (hu : ops [] u = ops [] s) (hk : Keeps s (u.start op'))
      (h : op'.inLeft) : Proceeds cfg s (u.start op') op :=
    .chain (by simp [hu]) hk (fun _ => h) (by simp [hr]) fun _ => by simp [Op.inChain, h]
  cases h
  case cancel          => exact .inl (by simp)
  case short           => exact .farewell rfl
  case more            => exact chain rfl ⟨rfl, rfl, rfl⟩ rfl
  case wrongPacketType => exact .farewell rfl
  case hello           => exact chain rfl ⟨rfl, rfl, rfl⟩ rfl
  case undecryptable   => exact .inl (by simp)
  case shortPlain      => exact .inl (by simp)
  case deny            => exact .farewell rfl
  case assertion       => exact .inr (.inl (by simp))
  case exchange hp     =>
    have ⟨_, hu, _⟩ := packExchange_some hp
    subst hu
    exact chain rfl ⟨rfl, rfl, rfl⟩ rfl
  case badRequest      => exact .farewell rfl
  case request r       => exact requestProcessed_proceeds (u := s.note (.unpacked _)) rfl r
  case forward         => exact chain rfl ⟨rfl, rfl, rfl⟩ rfl
  case address         => exact .inl (by simp)
  case unsupported     => exact .farewell rfl

theorem respToLocal_log (hb : cfg.bindAddrSocks5.isSome) (ha : u.aesEncryptor.isSome)
    (hr : u.socks5RespReply ≤ 0x08) : (u.socks5RespToLocal cfg).1.log ≠ u.log := by
  have h : (cfg.bindAddrSocks5 = none ∧ _) ∨ _ := packSocks5Resp_cases hr
  rcases h with ⟨hn, _⟩ | ⟨_, d, hd⟩
  case inl => simp [hn] at hb
  case inr =>
    have ⟨lss, _, he⟩ := socks5RespToLocal_eq ha hd
    rw [he]
    split <;> simp

-- If the session has an address to reply with, the handlers of the attempts to reach the remote log
-- something, and so they do not fail by an exception.
theorem deliver_log (hb : cfg.bindAddrSocks5.isSome) (ha : s.aesEncryptor.isSome)
    (hop : op.inConnect) (c : Completes op o) : (s.deliver cfg ch op o).log ≠ s.log := by
  have le : ∀ code ∈ ([0x00, 0x01, 0x03, 0x04] : List Byte), code ≤ 0x08 := by simp
  have reply {u : Session} (hu : u.aesEncryptor = s.aesEncryptor) (hl : u.log = s.log)
      (hr : u.socks5RespReply ∈ ([0x00, 0x01, 0x03, 0x04] : List Byte)) :
      (u.socks5RespToLocal cfg).1.log ≠ s.log :=
    hl ▸ respToLocal_log hb (hu ▸ ha) (le _ hr)
  cases op
  case resolve p _ _    =>
    cases c
    case error   => cases p <;> exact reply rfl rfl (by simp)
    case resolve => cases p <;> simp [deliver, tcpResolveHandler, udpResolveHandler]
  case connect p _ rest =>
    cases c
    case error   =>
      cases p <;> cases rest
      case tcp.nil => exact reply rfl rfl (by simp)
      case udp.nil => exact reply rfl rfl (by simp)
      all_goals
        simp [deliver, tcpConnectHandler, udpConnectHandler, Outcome.failed, List.append_assoc]
    case connect =>
      cases p
      case tcp => exact reply rfl rfl (by simp)
      case udp =>
        cases rest
        case nil  => simp [deliver, udpConnectHandler, Outcome.failed]
        case cons =>
          refine reply (u := { s with destName := _, socks5RespReply := _ }) rfl rfl ?_
          cases ch.udpOpened <;> simp
  all_goals cases hop

-- The handler of a write to the local that neither starts an operation nor cancels.
theorem mute_of_deliver {lss : Packet} (hs : s.socks5State = .connected)
    (h : (s.deliver cfg ch (.leftWrite lss .leftWriteHandler) .done).log = s.log) : Mute cfg s := by
  change (s.leftWriteHandler cfg false).log = s.log at h
  unfold leftWriteHandler at h
  simp only [Bool.false_eq_true, if_false] at h
  split at h
  case isTrue  => simp at h
  case isFalse =>
    cases hc : s.socks5Cmd <;> simp only [hc] at h
    case udp =>
      split at h
      case isTrue     => simp at h
      case isFalse hd => exact ⟨hs, hc, hd⟩
    all_goals simp at h

theorem delivered_proceeds (hb : cfg.bindAddrSocks5.isSome) (i : Inv cfg [op] s)
    (c : Completes op o) : Proceeds cfg s (s.deliver cfg ch op o) op := by
  have hf := i.fits op (List.mem_cons_self ..)
  have hl (hop : op.inConnect) : (s.deliver cfg ch op o).log ≠ s.log := by
    refine deliver_log hb (i.keyed ?_) hop c
    cases op <;> cases hop <;> exact hf
  have idle (hop : op.inConnect) (p : Proto) : (s.timerCancelled p).socks5State ≠ .connected := by
    cases p <;> exact i.not_connected hop
  have d : Delivered cfg ch s op o (s.deliver cfg ch op o) := i.deliver c
  generalize ht : s.deliver cfg ch op o = t at d hl ⊢
  cases d
  case left e r      => exact leftReadDone_proceeds e r
  case cancelled     => exact .inl (by simp)
  case farewell      => exact .inl (by simp)
  case hello         => exact .left (by simp [ops]; rfl) ⟨rfl, rfl, rfl⟩ rfl rfl
  case exchange      => exact .left (by simp [ops]; rfl) ⟨rfl, rfl, rfl⟩ rfl rfl
  case refused       => exact .inl (by simp)
  case replied       => exact .right (by simp; rfl) ⟨rfl, rfl, rfl⟩ rfl rfl
  case address hs    =>
    exact .inr (.inr ⟨[], by simp, .mute ⟨rfl, rfl, rfl⟩
      (mute_of_deliver hs (congrArg log ht)) rfl⟩)
  case again h hs    =>
    exact absurd ⟨hf, i.refusal hs (by simp [ops_cons, Op.inRight])⟩ h
  case written       => exact .left (by simp; rfl) ⟨rfl, rfl, rfl⟩ rfl rfl
  case unsupported   => exact .farewell rfl
  case broken        => exact .farewell rfl
  case relayed       => exact .right (by simp [ops]; rfl) ⟨rfl, rfl, rfl⟩ rfl rfl
  case timerIdle     => exact .inr (.inr ⟨[], by simp, .idle ⟨rfl, rfl, rfl⟩ rfl⟩)
  case timeout       => exact .farewell rfl
  case resolved p _ _ _ _     => exact connecting_proceeds (ops_timerCancelled s p) (idle rfl p)
  case unresolved p _ _ _ _ r =>
    exact respToLocal_proceeds (u := { s.timerCancelled p with socks5RespReply := 0x04 })
      (ops_timerCancelled s p) (idle rfl p) r (by simpa using hl rfl)
  case connected p _ _ _ r    =>
    refine respToLocal_proceeds ?_ ?_ r ?_
    · cases p <;> exact ops_timerCancelled s _
    · cases p <;> exact idle rfl _
    · cases p <;> simpa [connectedTo] using hl rfl
  case endOfList              => exact .inr (.inl (by simp))
  case retried p _ _ _ _      =>
    refine connecting_proceeds ?_ (idle rfl p)
    rw [← ops_timerCancelled s p]
    simp [ops]
  case unreachable p _ _ _ r  =>
    exact respToLocal_proceeds (u := { s.timerCancelled p with socks5RespReply := 0x03 })
      (ops_timerCancelled s p) (idle rfl p) r (by simpa using hl rfl)

-- There is a farewell, or an operation until the session is connected and then one of each chain,
-- but for the one that reads from the remote if this cannot be done.
inductive Going (cfg : Config) (running : List Op) (s : Session) : Prop
  | farewell {op : Op} (hm : op ∈ ops running s) (h : op.isFarewell) : Going cfg running s
  | single {op : Op} (hs : s.socks5State ≠ .connected) (hm : op ∈ ops running s) (h : op.inChain) :
    Going cfg running s
  | connected {left : Op} (hs : s.socks5State = .connected) (hl : left ∈ ops running s)
    (hl' : left.inLeft) (hr : (∃ right ∈ ops running s, right.inRight) ∨ Mute cfg s) :
    Going cfg running s

theorem Mute.keep (h : Mute cfg s) (hk : Keeps s t) : Mute cfg t where
  socks5State := hk.socks5State.trans h.socks5State
  socks5Cmd := hk.socks5Cmd.trans h.socks5Cmd
  destName := hk.destName ▸ h.destName

namespace Going

theorem keep (g : Going cfg run s) (hk : Keeps s t) {run' : List Op}
    (hm : ∀ op ∈ ops run s, op ∈ ops run' t) : Going cfg run' t := by
  cases g
  case farewell h h'     => exact .farewell (hm _ h) h'
  case single hs h h'    => exact .single (hk.socks5State ▸ hs) (hm _ h) h'
  case connected hs hl hl' hr =>
    refine .connected (hk.socks5State.trans hs) (hm _ hl) hl' (hr.imp ?_ fun h => h.keep hk)
    exact fun ⟨right, h, h'⟩ => ⟨right, hm _ h, h'⟩

theorem replace (g : Going cfg [op] s) (hf : op.isFarewell = false)
    (ho : ops [] t = ops [] s ++ new) (h : Replaces cfg s t op new) : Going cfg [] t := by
  have mem {op' : Op} (h : op' ∈ new) : op' ∈ ops [] t := ho ▸ List.mem_append_right _ h
  cases h
  case farewell h h'          => exact .farewell (mem h) h'
  case single hs h h'         => exact .single hs (mem h) h'
  case connected hs hl hl' hr hr' => exact .connected hs (mem hl) hl' (.inl ⟨_, mem hr, hr'⟩)
  case chain op' hk hn hl hr hc =>
    cases g
    case farewell hm h  => exact .farewell (Outstanding.mem_of_ne ho hf hm h) h
    case single hs hm h =>
      have ⟨x, hx, hp⟩ := Outstanding.exists_replaced ho hn hc hm h
      exact .single (hk.socks5State ▸ hs) hx hp
    case connected hs hm hm' h =>
      have ⟨x, hx, hp⟩ := Outstanding.exists_replaced ho hn hl hm hm'
      refine .connected (hk.socks5State.trans hs) hx hp (h.imp ?_ fun h => h.keep hk)
      exact fun ⟨right, h, h'⟩ => Outstanding.exists_replaced ho hn hr h h'
  case idle hk hc             =>
    have hc' : (op.inLeft = false ∧ op.inRight = false) ∧ op.inConnect = false := by
      simpa [Op.inChain] using hc
    cases g
    case farewell hm h  => exact .farewell (Outstanding.mem_of_ne ho hf hm h) h
    case single hs hm h => exact .single (hk.socks5State ▸ hs) (Outstanding.mem_of_ne ho hc hm h) h
    case connected hs hm hm' h =>
      refine .connected (hk.socks5State.trans hs) (Outstanding.mem_of_ne ho hc'.1.1 hm hm') hm'
        (h.imp ?_ fun h => h.keep hk)
      exact fun ⟨right, h, h'⟩ => ⟨right, Outstanding.mem_of_ne ho hc'.1.2 h h', h'⟩
  case mute hk hm hl          =>
    cases g
    case farewell hm h         => exact .farewell (Outstanding.mem_of_ne ho hf hm h) h
    case single hs _ _         => exact absurd hm.socks5State hs
    case connected hs hm' h _  =>
      exact .connected (hk.socks5State.trans hs) (Outstanding.mem_of_ne ho hl hm' h) h
        (.inr (hm.keep hk))

end Going

-- What a session is like that has not cancelled: it has not started, or it goes on.
inductive Alive (cfg : Config) (s : Session) : Prop
  | idle (hl : s.log = []) (hi : s.io = [])
  | going (h : Going cfg [] s)

theorem delivered_farewell (c : Completes op o) (hop : op.isFarewell) :
    .cancelled ∈ (s.deliver cfg ch op o).log := by
  cases op
  case leftWrite next =>
    cases next <;> simp [Op.isFarewell] at hop
    simp [deliver]
  all_goals cases hop

theorem alive_step {lb : Label} (hb : cfg.bindAddrSocks5.isSome) (r : Reachable cfg s)
    (a : .cancelled ∈ s.log ∨ .fault ∈ s.log ∨ Alive cfg s) (e : Step cfg s lb t) :
    .cancelled ∈ t.log ∨ .fault ∈ t.log ∨ Alive cfg t := by
  have i := inv_reachable r
  cases e
  case start remoteError h =>
    cases remoteError
    case true  => exact a
    case false =>
      refine a.imp (by simp [startSession, ·]) (.imp (by simp [startSession, ·]) fun _ => ?_)
      have hs : s.socks5State ≠ .connected := by
        intro hs
        have := i.processing (by simp [hs])
        simp [h] at this
      have hm : Op.leftRead (.receiving lengthHandshake) 0 ∈ ops [] (s.startSession false) := by
        simp [ops, startSession]
      exact .going (.single hs hm rfl)
  case complete h _ _    =>
    refine a.imp_right (.imp_right fun a => ?_)
    cases a
    case idle hi => simp [hi] at h
    case going g =>
      refine .going (g.keep ?_ fun op hm => ?_)
      · exact ⟨rfl, rfl, rfl⟩
      · rwa [ops_complete h]
  case deliver op o ch h =>
    have c := i.queued ⟨op, some o⟩ (by simp [h]) o rfl
    have j := i.dequeue h
    have d : Delivered cfg ch _ op o _ := j.deliver c
    obtain ⟨es, hl, _⟩ := delivered_logs d
    rcases a with hc | hf | ⟨_, hi⟩ | g
    case inl           => exact .inl (hl ▸ List.mem_append_left _ hc)
    case inr.inl       => exact .inr (.inl (hl ▸ List.mem_append_left _ hf))
    case inr.inr.idle  => simp [hi] at h
    case inr.inr.going =>
      by_cases hop : op.isFarewell
      case pos => exact .inl (delivered_farewell c hop)
      case neg =>
        refine (delivered_proceeds hb j c).imp_right (.imp_right ?_)
        rintro ⟨new, ho, hr⟩
        refine .going (Going.replace (g.keep ?_ fun op hm => ?_) (by simpa using hop) ho hr)
        · exact ⟨rfl, rfl, rfl⟩
        · exact (ops_dequeue h).mem_iff.mpr hm
  case tick              =>
    refine a.imp_right (.imp_right fun a => ?_)
    cases a
    case idle hl hi => exact .idle hl hi
    case going g    =>
      refine .going (g.keep ?_ fun _ hm => hm)
      exact ⟨rfl, rfl, rfl⟩

theorem alive_reachable (hb : cfg.bindAddrSocks5.isSome) (r : Reachable cfg s) :
    .cancelled ∈ s.log ∨ .fault ∈ s.log ∨ Alive cfg s := by
  induction r
  case init h      => exact .inr (.inr (.idle h.log h.io))
  case step r e hi => exact alive_step hb r hi e

-- A session that has been started, has not cancelled and has run into no undefined behaviour is not
-- stuck: unless it is about to cancel, there is one operation until it is connected, and then one
-- of each chain. The exception is a remote with which it speaks UDP and whose address `from_string`
-- refuses.
theorem keeps_going (hb : cfg.bindAddrSocks5.isSome) (r : Reachable cfg s) (hs : s.log ≠ [])
    (hc : .cancelled ∉ s.log) (hf : .fault ∉ s.log) :
    (∃ op ∈ ops [] s, op.isFarewell) ∨
      (s.socks5State ≠ .connected ∧ (ops [] s).countP Op.inChain = 1) ∨
      (s.socks5State = .connected ∧ (ops [] s).countP Op.inLeft = 1 ∧
        ((ops [] s).countP Op.inRight = 1 ∨
          s.socks5Cmd = .udp ∧ ¬cfg.boost.isAddress s.destName)) := by
  have i := inv_reachable r
  cases ((alive_reachable hb r).resolve_left hc).resolve_left hf
  case idle hl _ => exact absurd hl hs
  case going g   =>
    cases g
    case farewell hm h      => exact .inl ⟨_, hm, h⟩
    case single hs hm h     =>
      have h₁ : (ops [] s).countP Op.inChain ≤ _ :=
        countP_or_le (fun op => op.inLeft || op.inRight) Op.inConnect _
      have h₂ := countP_or_le Op.inLeft Op.inRight (ops [] s)
      have hle := i.chain hs
      exact .inr (.inl ⟨hs, Nat.le_antisymm (by omega) (List.countP_pos_iff.mpr ⟨_, hm, h⟩)⟩)
    case connected hs hl hl' hr =>
      refine .inr (.inr ⟨hs, Nat.le_antisymm i.left (List.countP_pos_iff.mpr ⟨_, hl, hl'⟩), ?_⟩)
      exact hr.imp (fun h => Nat.le_antisymm i.right (List.countP_pos_iff.mpr h)) fun h =>
        ⟨h.socks5Cmd, h.destName⟩

-- A session that is connected, and has sent the reply.
theorem keeps_going_connected : ∃ s : Session, Reachable sampleConfig s ∧
    s.socks5State = .connected ∧ ((∃ op ∈ ops [] s, op.isFarewell) ∨
      (s.socks5State ≠ .connected ∧ (ops [] s).countP Op.inChain = 1) ∨
      (s.socks5State = .connected ∧ (ops [] s).countP Op.inLeft = 1 ∧
        ((ops [] s).countP Op.inRight = 1 ∨
          s.socks5Cmd = .udp ∧ ¬sampleConfig.boost.isAddress s.destName))) := by
  have ⟨s, r, h⟩ := exists_sampleRun (handshake ++ connectRequest ++ connection)
    (fun s => s.socks5State = .connected ∧ s.log ≠ [] ∧ .cancelled ∉ s.log ∧ .fault ∉ s.log)
    (by decide +kernel)
  have ⟨hs, hl, hc, hf⟩ := of_decide_eq_true h
  exact ⟨s, r, hs, keeps_going rfl r hl hc hf⟩

end Session
end Lproxy.Server
