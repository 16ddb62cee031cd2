import Lproxy.Local.Gate
import Lproxy.Local.Serial

-- That a local session does not come to a halt: as long as it has not ended, each of its chains has
-- an operation.
namespace Lproxy.Local.Session

variable {cfg : Config} {ch : Choice} {s t : Session} {op : Op} {o : Outcome} {run new : List Op}

-- What a handler may leave behind instead of the operation that has ended: a farewell, or an
-- operation of the same chain, where the chains have forked.
inductive Replaces (s t : Session) (op : Op) : List Op → Prop
  | farewell {op' : Op} (h : op'.isFarewell) : Replaces s t op [op']
  | handshake {op' : Op} (hs : s.status ≠ .data) (ht : t.status = .data → op'.inGreeting) :
    Replaces s t op [op']
  | greeting {op' : Op} (h : op.inGreeting) (h' : op'.inGreeting) : Replaces s t op [op']
  | fork {left right : Op} (h : op.inGreeting) (hl : left.inLeft) (hr : right.inRight) :
    Replaces s t op [left, right]
  | chain {op' : Op} (hs : s.status = .data) (h : op'.inRight = op.inRight)
    (hg : op.inGreeting = false) : Replaces s t op [op']

-- A session that has ended or run into undefined behaviour, or that has replaced the operation
-- whose handler has run.
def Proceeds (s t : Session) (op : Op) : Prop :=
  .cancelled ∈ t.log ∨ .fault ∈ t.log ∨ ∃ new, ops [] t = ops [] s ++ new ∧ Replaces s t op new

theorem Proceeds.start {op' : Op} {u : Session} (hu : ops [] u = ops [] s)
    (h : Replaces s (u.start op') op [op']) : Proceeds s (u.start op') op :=
  .inr (.inr ⟨[op'], by simp [hu], h⟩)

theorem Proceeds.setStatus {op' : Op} {status : Status} (hs : s.status ≠ .data)
    (h : status = .data → op'.inGreeting) : Proceeds s ((s.start op').setStatus status) op :=
  .inr (.inr ⟨[op'], by simp [ops], .handshake hs h⟩)

theorem rightReadDone_proceeds {bt : Nat} {lss : Packet} (e : RightEntry op o bt lss)
    (h : RightReadDone cfg ch s bt lss t) : Proceeds s t op := by
  have hr : op.inRight := by cases e <;> rfl
  have hg : op.inGreeting = false := by cases e <;> rfl
  cases h
  case more =>
    by_cases hs : s.status = .data
    case pos => exact .start rfl (.chain hs hr.symm hg)
    case neg => exact .start rfl (.handshake hs fun h => absurd h hs)
  case hello h _ _ hp =>
    have ⟨he, _⟩ := packExchange_ok hp
    subst he
    exact .start rfl (.handshake (by simp [h]) (by simp [h]))
  case exchange h _ _ _ =>
    exact .inr (.inr ⟨[.leftRead .leftReadSocks5Step1], by simp [ops],
      .handshake (by simp [h]) fun _ => rfl⟩)
  case assertion        => exact .inr (.inl (by simp))
  case relay h _ _ _    => exact .start rfl (.chain h hr.symm hg)
  all_goals exact .inl (by simp)

theorem delivered_proceeds (i : Inv cfg [op] s) (h : Delivered cfg ch s op o t) :
    Proceeds s t op := by
  have hf := i.fits op (List.mem_cons_self ..)
  have early {status : Status} (h : s.status = status) (hn : status ≠ .data) : s.status ≠ .data :=
    h ▸ hn
  cases h
  case right e h   => exact rightReadDone_proceeds e h
  case broken      => exact .start rfl (.farewell rfl)
  case badGreeting => exact .start rfl (.farewell rfl)
  case resolved    =>
    have hs := early hf (by simp)
    exact .start rfl (.handshake hs fun h => absurd h hs)
  case connected h =>
    have hs : s.status ≠ .data := by
      rcases h with ⟨_, _, rfl⟩ | ⟨_, _, rfl⟩ <;> exact early hf (by simp)
    exact .start rfl (.handshake hs (by simp))
  case retried h   =>
    have hs : s.status ≠ .data := by cases h <;> exact early hf (by simp)
    exact .start (by simp [ops]) (.handshake hs fun h => absurd h hs)
  case hello       => exact .setStatus (early hf (by simp)) (by simp)
  case exchange    => exact .setStatus (early hf (by simp)) (by simp)
  case greeted     => exact .start rfl (.greeting rfl rfl)
  case opened      =>
    exact .inr (.inr ⟨[.leftRead .leftReadHandler, .rightRead (.receiving lengthHandshake) 0],
      by simp, .fork rfl rfl rfl⟩)
  case packed      => exact .start rfl (.chain hf rfl rfl)
  case assertion   => exact .inr (.inl (by simp))
  case written     => exact .start rfl (.chain hf rfl rfl)
  case relayed     => exact .start rfl (.chain hf rfl rfl)
  all_goals exact .inl (by simp)

-- There is a farewell, or an operation until the chains fork and then one of each of them.
inductive Going (running : List Op) (s : Session) : Prop
  | farewell {op : Op} (hm : op ∈ ops running s) (h : op.isFarewell) : Going running s
  | handshake {op : Op} (hs : s.status ≠ .data) (hm : op ∈ ops running s) : Going running s
  | greeting {op : Op} (hm : op ∈ ops running s) (h : op.inGreeting) : Going running s
  | forked {left right : Op} (hl : left ∈ ops running s) (hl' : left.inLeft)
    (hr : right ∈ ops running s) (hr' : right.inRight) : Going running s

theorem Going.replace (g : Going [op] s) (hf : op.isFarewell = false)
    (ho : ops [] t = ops [] s ++ new) (h : Replaces s t op new) : Going [] t := by
  have mem {x : Op} (h : x ∈ new) : x ∈ ops [] t := ho ▸ List.mem_append_right _ h
  cases h
  case farewell h        => exact .farewell (mem (List.mem_singleton_self _)) h
  case handshake op' _ h =>
    have hm : op' ∈ ops [] t := mem (List.mem_singleton_self _)
    by_cases hs : t.status = .data
    case pos => exact .greeting hm (h hs)
    case neg => exact .handshake hs hm
  case greeting h        => exact .greeting (mem (List.mem_singleton_self _)) h
  case fork hl hr        =>
    exact .forked (mem (List.mem_cons_self ..)) hl (mem (List.mem_of_mem_tail (by simp))) hr
  case chain op' hs h hg =>
    have hn' : op' ∈ [op'] := List.mem_singleton_self op'
    cases g
    case farewell hm h    =>
      obtain ⟨x, hx, hp⟩ := Outstanding.exists_replaced ho hn' (by simp [hf]) hm h
      exact .farewell hx hp
    case handshake hn _   => exact absurd hs hn
    case greeting hm h    =>
      obtain ⟨x, hx, hp⟩ := Outstanding.exists_replaced ho hn' (by simp [hg]) hm h
      exact .greeting hx hp
    case forked hl hl' hr hr' =>
      obtain ⟨x, hx, hp⟩ := Outstanding.exists_replaced ho hn' (by simp [Op.inLeft, h]) hl hl'
      obtain ⟨y, hy, hq⟩ := Outstanding.exists_replaced ho hn' (by simp [h]) hr hr'
      exact .forked hx hp hy hq

theorem Going.reorder (g : Going [] s) {io : List (Outstanding Op Outcome)}
    (hp : (ops run { s with io := io }).Perm (ops [] s)) : Going run { s with io := io } := by
  cases g
  case farewell hm h        => exact .farewell (hp.mem_iff.mpr hm) h
  case handshake hs hm      => exact .handshake hs (hp.mem_iff.mpr hm)
  case greeting hm h        => exact .greeting (hp.mem_iff.mpr hm) h
  case forked hl hl' hr hr' => exact .forked (hp.mem_iff.mpr hl) hl' (hp.mem_iff.mpr hr) hr'

theorem delivered_farewell (h : Delivered cfg ch s op o t) (hop : op.isFarewell) :
    .cancelled ∈ t.log := by
  cases op
  case rightWrite next =>
    cases next <;> simp [Op.isFarewell] at hop
    cases h
    case right e _ => cases e
    case broken h  => cases h
    case retried h => cases h
    case connected h => simp at h
    all_goals simp
  all_goals cases hop

-- What a session is like that has not ended: it has not started, or it goes on.
inductive Alive (s : Session) : Prop
  | idle (h : s = initial)
  | going (h : Going [] s)

theorem alive_step {lb : Label} (r : Reachable cfg s)
    (a : .cancelled ∈ s.log ∨ .fault ∈ s.log ∨ Alive s) (e : Step cfg s lb t) :
    .cancelled ∈ t.log ∨ .fault ∈ t.log ∨ Alive t := by
  cases e
  case start remoteError h =>
    subst h
    cases remoteError
    case true  => exact .inr (.inr (.idle rfl))
    case false =>
      have hs : (initial.start .resolve).status ≠ .data := by simp [initial]
      have hm : Op.resolve ∈ ops [] (initial.start .resolve) := by simp [ops]
      exact .inr (.inr (.going (.handshake hs hm)))
  case complete h _ =>
    refine a.imp_right (.imp_right fun a => ?_)
    cases a
    case idle hi => simp [hi, initial] at h
    case going g => exact .going (g.reorder (by rw [ops_complete h]))
  case deliver op o ch h =>
    have i := inv_reachable r
    have d : Delivered cfg ch _ op o _ := i.deliver_queued h
    have j := i.dequeue h
    obtain ⟨es, hl, _⟩ := delivered_guards j d
    rcases a with hc | hf | hi | g
    case inl           => exact .inl (by simp [hl, hc])
    case inr.inl       => exact .inr (.inl (by simp [hl, hf]))
    case inr.inr.idle  => simp [hi, initial] at h
    case inr.inr.going =>
      by_cases hop : op.isFarewell
      case pos => exact .inl (delivered_farewell d hop)
      case neg =>
        refine (delivered_proceeds j d).imp_right (.imp_right ?_)
        rintro ⟨new, ho, hr⟩
        exact .going ((g.reorder (ops_dequeue h)).replace (by simpa using hop) ho hr)

theorem alive_reachable (r : Reachable cfg s) :
    .cancelled ∈ s.log ∨ .fault ∈ s.log ∨ Alive s := by
  induction r
  case init h      => exact .inr (.inr (.idle h))
  case step r e hi => exact alive_step r hi e

-- A session that has been started, has not cancelled and has run into no undefined behaviour is not
-- stuck: unless it is about to cancel, there is one operation until the chains fork, and then one
-- of each of them.
theorem never_stalls (r : Reachable cfg s) (hs : s ≠ initial) (hc : .cancelled ∉ s.log)
    (hf : .fault ∉ s.log) :
    (∃ op ∈ ops [] s, op.isFarewell) ∨
      ((s.status ≠ .data ∨ 0 < (ops [] s).countP Op.inGreeting) ∧ (ops [] s).length = 1) ∨
      (s.status = .data ∧ (ops [] s).countP Op.inLeft = 1 ∧
        (ops [] s).countP Op.inRight = 1) := by
  have i := serial_reachable r
  have one {op : Op} (h : s.status ≠ .data ∨ 0 < (ops [] s).countP Op.inGreeting)
      (hm : op ∈ ops [] s) : (ops [] s).length = 1 := by
    have hle := i.single h
    have hpos := List.length_pos_of_mem hm
    rw [← Op.length_eq] at hle
    omega
  cases ((alive_reachable r).resolve_left hc).resolve_left hf
  case idle h  => exact absurd h hs
  case going g =>
    cases g
    case farewell hm h    => exact .inl ⟨_, hm, h⟩
    case handshake hs hm  => exact .inr (.inl ⟨.inl hs, one (.inl hs) hm⟩)
    case greeting hm h    =>
      have hg : s.status ≠ .data ∨ 0 < (ops [] s).countP Op.inGreeting :=
        .inr (List.countP_pos_iff.mpr ⟨_, hm, h⟩)
      exact .inr (.inl ⟨hg, one hg hm⟩)
    case forked hl hl' hr hr' =>
      have hl := List.countP_pos_iff.mpr ⟨_, hl, hl'⟩
      have hr := List.countP_pos_iff.mpr ⟨_, hr, hr'⟩
      have hd : s.status = .data := by
        by_contra hn
        have := i.single (.inl hn)
        omega
      exact .inr (.inr ⟨hd, Nat.le_antisymm i.left hl, Nat.le_antisymm i.right hr⟩)

-- A session that has answered the greeting, and whose first read from the client has failed.
theorem never_stalls_broken : ∃ s : Session, Reachable sampleConfig s ∧ s.status = .data ∧
    ((∃ op ∈ ops [] s, op.isFarewell) ∨
      ((s.status ≠ .data ∨ 0 < (ops [] s).countP Op.inGreeting) ∧ (ops [] s).length = 1) ∨
      (s.status = .data ∧ (ops [] s).countP Op.inLeft = 1 ∧
        (ops [] s).countP Op.inRight = 1)) := by
  have ⟨s, r, h⟩ := exists_sampleRun (handshake ++ greeting ++ Act.run 0 (.error .other))
    (fun s => s.status = .data ∧ s ≠ .initial ∧ .cancelled ∉ s.log ∧ .fault ∉ s.log)
    (by decide +kernel)
  have ⟨hd, hs, hc, hf⟩ := of_decide_eq_true h
  exact ⟨s, r, hd, never_stalls r hs hc hf⟩

end Lproxy.Local.Session
