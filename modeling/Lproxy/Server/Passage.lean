import Lproxy.Lib.Arrivals
import Lproxy.Server.Link
import Lproxy.Server.Phase

-- What passes through a session: the frames of its local become writes to the remote, after the one
-- that carries the request, and the reads from the remote become frames, after the one that carries
-- the reply, whatever fails in the meantime.
namespace Lproxy.Server

open List (filterMap_cons)

-- What a read from the remote returns.
def read? : Op → Outcome → Option Data
  | .rightRead _, .bytes d => some d
  | _, _                   => none

def Label.read? : Label → Option Data
  | complete op o => Server.read? op o
  | _             => none

def Event.forwarded? : Event → Option Data
  | started (.rightWrite _ d _) => some d
  | _                           => none

theorem read?_eq_some {op : Op} {o : Outcome} {d : Data} (h : read? op o = some d) :
    ∃ p, op = .rightRead p ∧ o = .bytes d := by
  unfold read? at h
  split at h <;> cases h
  exact ⟨_, rfl, rfl⟩

@[simp]
theorem read?_error (op : Op) (code : ErrorCode) : read? op (.error code) = none := by
  unfold read?
  split
  case h_1 he => cases he
  case h_2    => rfl

theorem arrivals_abort (p : Op → Bool) (io : List (Outstanding Op Outcome)) :
    Outstanding.arrivals read? (io.map (Outstanding.abort p (.error .operationAborted))) =
      Outstanding.arrivals read? io :=
  Outstanding.arrivals_abort (read?_error · _) p io

namespace Session

variable {cfg : Config} {ch : Choice} {s t u : Session} {op : Op} {o : Outcome}
  {chunks : List Data} {run new : List Op}

-- What has been read from the remote, while the handler is queued.
def arrived (s : Session) : List Data :=
  Outstanding.arrivals read? s.io

-- What has been sent to the remote.
def forwarded (s : Session) : List Data :=
  s.log.filterMap Event.forwarded?

-- From `s` to `t` the operations of `new` have been started, and the plaintexts of three lists have
-- been unpacked, packed, and sent to the remote.
structure Adds (s : Session) (new : List Op) (plains packs writes : List Data) (t : Session) :
    Prop where
  ops : ops [] t = ops [] s ++ new
  arrived : t.arrived = s.arrived
  unpacked : t.unpacked = s.unpacked ++ plains
  packed : t.packed = s.packed ++ packs
  forwarded : t.forwarded = s.forwarded ++ writes

-- What the handler of an operation does about the bytes that pass through the session. Before the
-- session is connected, it is about the request and the reply to it.
inductive Passing (s : Session) (op : Op) (o : Outcome) (t : Session) : Prop
  | quiet {new : List Op} (a : Adds s new [] [] [] t) (hr : read? op o = none)
    (hs : t.socks5State = s.socks5State)
    (hl : ∀ op' ∈ new, op'.inLeft → op.inLeft) (hc : ∀ op' ∈ new, op'.inConnect → op.inConnect) :
    Passing s op o t
  | request {new : List Op} {plain : Data} (a : Adds s new [plain] [] [] t) (h : op.inLeft)
    (hs : s.socks5State ≠ .connected) (ht : t.socks5State ≠ .connected)
    (hn : ∀ op' ∈ new, op'.inLeft = false) : Passing s op o t
  | reply {new : List Op} {plains : List Data} {d : Data} (a : Adds s new plains [d] [] t)
    (h : op.inLeft ∧ plains.length = 1 ∨ op.inConnect ∧ plains = [])
    (hs : s.socks5State ≠ .connected) (hc : ∀ op' ∈ new, op'.inConnect = false)
    (ht : t.socks5State = .connected ∨ ∀ op' ∈ new, op'.inLeft = false) : Passing s op o t
  | forward {new : List Op} {plain : Data} (a : Adds s new [plain] [] [plain] t) (h : op.inLeft)
    (hs : s.socks5State = .connected) (ht : t.socks5State = .connected)
    (hc : ∀ op' ∈ new, op'.inConnect = false) : Passing s op o t
  | drop {new : List Op} {plain : Data} (a : Adds s new [plain] [] [] t) (h : op.inLeft)
    (hs : s.socks5State = .connected) (ht : t.socks5State = .connected)
    (hn : ∀ op' ∈ new, op'.inReading = false) : Passing s op o t
  | relay {new : List Op} {d : Data} (a : Adds s new [] [d] [] t) (hr : read? op o = some d)
    (hs : s.socks5State = .connected) (ht : t.socks5State = .connected)
    (hn : ∀ op' ∈ new, op'.inReading = false) : Passing s op o t

namespace Adds

variable {plains packs writes : List Data}

theorem refl (s : Session) : Adds s [] [] [] [] s := by
  constructor <;> simp

-- What concerns neither the operations nor the log.
theorem of_eq (a : Adds s new plains packs writes t) (hi : u.io = t.io) (hl : u.log = t.log) :
    Adds s new plains packs writes u where
  ops := by rw [← a.ops, Session.ops, Session.ops, hi]
  arrived := by rw [← a.arrived, Session.arrived, Session.arrived, hi]
  unpacked := by rw [← a.unpacked, Session.unpacked, Session.unpacked, hl]
  packed := by rw [← a.packed, Session.packed, Session.packed, hl]
  forwarded := by rw [← a.forwarded, Session.forwarded, Session.forwarded, hl]

theorem noted (a : Adds s new plains packs writes t) (e : Event) :
    Adds s new (plains ++ e.unpacked?.toList) (packs ++ e.packed?.toList)
      (writes ++ e.forwarded?.toList) (t.note e) where
  ops := a.ops
  arrived := a.arrived
  unpacked := by rw [← List.append_assoc, ← a.unpacked]; exact Outstanding.filterMap_snoc ..
  packed := by rw [← List.append_assoc, ← a.packed]; exact Outstanding.filterMap_snoc ..
  forwarded := by rw [← List.append_assoc, ← a.forwarded]; exact Outstanding.filterMap_snoc ..

theorem note (a : Adds s new plains packs writes t) {e : Event} (hu : e.unpacked? = none)
    (hp : e.packed? = none) (hf : e.forwarded? = none) :
    Adds s new plains packs writes (t.note e) := by
  simpa [hu, hp, hf] using a.noted e

theorem unpack (a : Adds s new plains packs writes t) (d : Data) :
    Adds s new (plains ++ [d]) packs writes (t.note (.unpacked d)) := by
  simpa [Event.unpacked?, Event.packed?, Event.forwarded?] using a.noted (.unpacked d)

theorem pack (a : Adds s new plains packs writes t) (d : Data) :
    Adds s new plains (packs ++ [d]) writes (t.note (.packed d)) := by
  simpa [Event.unpacked?, Event.packed?, Event.forwarded?] using a.noted (.packed d)

theorem started (a : Adds s new plains packs writes t) (op : Op) :
    Adds s (new ++ [op]) plains packs (writes ++ (Event.started op).forwarded?.toList)
      (t.start op) := { (a.noted (.started op)) with
  ops := by rw [ops_start, a.ops, List.append_assoc]
  arrived := (Outstanding.arrivals_start ..).trans a.arrived
  unpacked := (a.noted (.started op)).unpacked.trans (by simp [Event.unpacked?])
  packed := (a.noted (.started op)).packed.trans (by simp [Event.packed?]) }

theorem abort (a : Adds s new plains packs writes t) (p : Op → Bool) :
    Adds s new plains packs writes (t.abort p) := { a with
  ops := (ops_abort t p).trans a.ops
  arrived := (arrivals_abort p t.io).trans a.arrived }

theorem start (a : Adds s new plains packs writes t) (h : (Event.started op).forwarded? = none) :
    Adds s (new ++ [op]) plains packs writes (t.start op) := by
  simpa [h] using a.started op

theorem write (a : Adds s new plains packs writes t) (p : Proto) (d : Data) (next : WriteNext) :
    Adds s (new ++ [.rightWrite p d next]) plains packs (writes ++ [d])
      (t.start (.rightWrite p d next)) :=
  a.started _

theorem cancel (a : Adds s new plains packs writes t) : Adds s new plains packs writes t.cancel :=
  (a.abort _).note rfl rfl rfl

theorem sendBad (a : Adds s new plains packs writes t) :
    Adds s (new ++ [.leftWrite packBad .cancel]) plains packs writes t.sendBad :=
  a.start rfl

theorem setStatus (a : Adds s new plains packs writes t) (status : Status) :
    Adds s new plains packs writes (t.setStatus status) :=
  (a.note (e := .statusSet status) rfl rfl rfl).of_eq rfl rfl

theorem timerRestart (a : Adds s new plains packs writes t) :
    Adds s (new ++ [.timerWait]) plains packs writes (t.timerRestart cfg) :=
  ((a.abort Op.isTimerWait).of_eq (u := { t.abort Op.isTimerWait with
    expiresAt := t.now + cfg.timeout }) rfl rfl).start rfl

theorem timerCancelled (a : Adds s new plains packs writes t) (p : Proto) :
    Adds s new plains packs writes (t.timerCancelled p) := by
  cases p
  case tcp => exact a.abort _
  case udp => exact a

theorem connecting (a : Adds s new plains packs writes t) (cfg : Config) (p : Proto) (e : Endpoint)
    (rest : List Endpoint) : ∃ new', (∀ op ∈ new', op.inLeft = false) ∧
      Adds s (new ++ new') plains packs writes (t.connecting cfg e rest p) := by
  cases p
  case tcp =>
    refine ⟨[.timerWait, .connect .tcp e rest], by simp [Op.inLeft], ?_⟩
    have h : Adds s (new ++ [.timerWait] ++ [.connect .tcp e rest]) plains packs writes
        (t.connecting cfg e rest .tcp) := a.timerRestart.start rfl
    rwa [List.append_assoc] at h
  case udp => exact ⟨[.connect .udp e rest], by simp [Op.inLeft], a.start rfl⟩

theorem requested (a : Adds s new plains packs writes t) (rq : Socks5.Req) (name : Data) (cmd : Cmd)
    (reply : Byte) : Adds s new plains packs writes (t.requested rq name cmd reply) :=
  Adds.of_eq (a.note (e := .socks5RequestProcessing rq) rfl rfl rfl) rfl rfl

theorem refuse (a : Adds s new plains packs writes t) (d : Data) (lss : Packet) :
    Adds s (new ++ [.leftWrite lss .leftWriteHandler]) plains (packs ++ [d]) writes
      (t.refuse d lss) :=
  ((a.note (e := .socks5Resp t.socks5RespReply) rfl rfl rfl).pack d).start rfl

theorem accept (a : Adds s new plains packs writes t) (d : Data) (lss : Packet) :
    Adds s (new ++ [.leftWrite lss .leftWriteHandler] ++ [.leftRead (.receiving maxLength) 0])
      plains (packs ++ [d]) writes (t.accept d lss) :=
  Adds.of_eq ((a.refuse d lss).start rfl) rfl rfl

theorem mem (a : Adds s new plains packs writes t) {op : Op} (h : op ∈ Session.ops [] t) :
    op ∈ Session.ops [] s ∨ op ∈ new :=
  List.mem_append.mp (a.ops ▸ h)

end Adds

-- A reply to a request is sent, after which the session is connected, or reads no more.
theorem respToLocal_passing {v : Session × Option Exn} (r : RespToLocal cfg u v)
    (a : Adds s [] [] [] [] u) (hc : op.inConnect) (hr : read? op o = none)
    (hu : u.socks5State = s.socks5State) (hs : s.socks5State ≠ .connected) :
    Passing s op o v.1 := by
  cases r
  case threw => exact .quiet a hr hu nofun nofun
  case refused d lss _ _ _ =>
    exact .reply (a.refuse d lss) (.inr ⟨hc, rfl⟩) hs (by simp [Op.inConnect])
      (.inr (by simp [Op.inLeft]))
  case accepted d lss _ _ _ =>
    exact .reply (a.accept d lss) (.inr ⟨hc, rfl⟩) hs (by simp [Op.inConnect]) (.inl rfl)

theorem requestProcessed_passing {plain : Data} (a : Adds s [] [plain] [] [] u)
    (r : RequestProcessed cfg u t) (hl : op.inLeft) (hs : s.socks5State ≠ .connected) :
    Passing s op o t := by
  cases r
  case connect rq name n reply port =>
    exact .request ((a.requested rq name .connect reply).timerRestart.start rfl) hl hs (by simp)
      (by simp [Op.inLeft])
  case udp rq name n reply port =>
    exact .request ((a.requested rq name .udp reply).start rfl) hl hs (by simp)
      (by simp [Op.inLeft])
  case refused rq name cmd reply d lss _ _ _ =>
    exact .reply ((a.requested rq name cmd reply).refuse d lss) (.inl ⟨hl, rfl⟩) hs
      (by simp [Op.inConnect]) (.inr (by simp [Op.inLeft]))
  case accepted rq name d lss _ _ =>
    exact .reply ((a.requested rq name .udp 0x00).accept d lss) (.inl ⟨hl, rfl⟩) hs
      (by simp [Op.inConnect]) (.inl rfl)
  case cancel rq name cmd reply =>
    exact .request (a.requested rq name cmd reply).cancel hl hs (by simp) (by simp)
  case bad rq name cmd reply =>
    exact .request (a.requested rq name cmd reply).sendBad hl hs (by simp) (by simp [Op.inLeft])

theorem leftReadDone_passing {bt : Nat} {lss : Packet} (e : LeftEntry op o bt lss)
    (r : LeftReadDone cfg ch s bt lss t) : Passing s op o t := by
  have hr : read? op o = none := by cases e <;> rfl
  have hl : op.inLeft := by cases e <;> rfl
  have a : Adds s [] [] [] [] s := .refl s
  have quiet {new : List Op} {t : Session} (a : Adds s new [] [] [] t)
      (hs : t.socks5State = s.socks5State) (hc : ∀ op' ∈ new, op'.inConnect = false) :
      Passing s op o t :=
    .quiet a hr hs (fun _ _ _ => hl) fun op' h hn => absurd hn (by simp [hc op' h])
  cases r
  case cancel          => exact quiet a.cancel rfl (by simp)
  case short           => exact quiet a.sendBad rfl (by simp [Op.inConnect])
  case more            => exact quiet (a.start rfl) rfl (by simp [Op.inConnect])
  case wrongPacketType => exact quiet a.sendBad rfl (by simp [Op.inConnect])
  case hello           => exact quiet (a.start rfl) rfl (by simp [Op.inConnect])
  case undecryptable   => exact quiet (a.note rfl rfl rfl).cancel rfl (by simp)
  case shortPlain      => exact quiet ((a.note rfl rfl rfl).note rfl rfl rfl).cancel rfl (by simp)
  case deny            =>
    exact quiet ((a.note rfl rfl rfl).start rfl) rfl (by simp [Op.inConnect])
  case assertion       => exact quiet ((a.note rfl rfl rfl).note rfl rfl rfl) rfl (by simp)
  case exchange hp     =>
    obtain ⟨_, hu, _⟩ := packExchange_some hp
    subst hu
    exact quiet (Adds.of_eq ((a.note rfl rfl rfl).start rfl) rfl rfl) rfl (by simp [Op.inConnect])
  case badRequest plain _ hs _ _ =>
    exact .request (Adds.of_eq (a.unpack plain).sendBad rfl rfl) hl hs (by simp)
      (by simp [Op.inLeft])
  case forward p plain _ hs _ _ _ =>
    exact .forward ((a.unpack plain).write p plain _) hl hs hs (by simp [Op.inConnect])
  case address plain _ hs _ _ => exact .drop (a.unpack plain).cancel hl hs hs (by simp)
  case unsupported plain _ hs _ _ _ =>
    exact .drop (a.unpack plain).sendBad hl hs hs (by simp [Op.inReading, Op.inLeft, Op.inConnect])
  case request plain _ hs _ _ r => exact requestProcessed_passing (a.unpack plain) r hl hs

theorem delivered_passing (i : Inv cfg [op] s) (f : Phased [op] s) (d : Delivered cfg ch s op o t) :
    Passing s op o t := by
  have a : Adds s [] [] [] [] s := .refl s
  cases d
  case left e r    => exact leftReadDone_passing e r
  case cancelled   => exact .quiet a.cancel (read?_error ..) rfl nofun nofun
  case farewell    => exact .quiet a.cancel rfl rfl nofun nofun
  case hello       => exact .quiet ((a.start rfl).setStatus _) rfl rfl (by simp [Op.inLeft]) nofun
  case exchange    => exact .quiet ((a.start rfl).setStatus _) rfl rfl (by simp [Op.inLeft]) nofun
  case refused     => exact .quiet a.cancel rfl rfl nofun nofun
  case replied     =>
    exact .quiet (a.start rfl) rfl rfl (by simp [Op.inLeft]) (by simp [Op.inConnect])
  case address     => exact .quiet a rfl rfl nofun nofun
  case again h hs  =>
    exact absurd ⟨i.fits _ (List.mem_cons_self ..), i.refusal hs (by simp [ops_cons, Op.inRight])⟩ h
  case written     =>
    exact .quiet (a.start rfl) rfl rfl (by simp [Op.inLeft]) (by simp [Op.inConnect])
  case unsupported ho =>
    have hr : read? op o = none := by rcases ho with ⟨_, rfl, _⟩ | ⟨_, _, rfl⟩ <;> rfl
    exact .quiet a.sendBad hr rfl (by simp [Op.inLeft]) (by simp [Op.inConnect])
  case broken      =>
    exact .quiet a.sendBad (read?_error ..) rfl (by simp [Op.inLeft]) (by simp [Op.inConnect])
  case relayed p d lss _ =>
    have hs := f.relaying (by simp [ops_cons, Op.onRight])
    exact .relay ((a.pack d).start rfl) rfl hs hs (by simp [Op.inReading, Op.inLeft, Op.inConnect])
  case timerIdle   => exact .quiet a rfl rfl nofun nofun
  case timeout     =>
    exact .quiet (a.start rfl) rfl rfl (by simp [Op.inLeft]) (by simp [Op.inConnect])
  case resolved p _ _ e rest =>
    obtain ⟨new, hn, ha⟩ := (a.timerCancelled p).connecting cfg p e rest
    exact .quiet ha rfl (by cases p <;> rfl) (by simpa [Op.inLeft] using hn) fun _ _ _ => rfl
  case retried p _ e rest _ =>
    obtain ⟨new, hn, ha⟩ := ((a.timerCancelled p).abort (Op.isRight p)).connecting cfg p e rest
    exact .quiet ha (read?_error ..) (by cases p <;> rfl)
      (by simpa [Op.inLeft] using hn) fun _ _ _ => rfl
  case endOfList   => exact .quiet (a.note rfl rfl rfl) rfl rfl nofun nofun
  case unresolved p _ _ _ _ r =>
    exact respToLocal_passing r (Adds.of_eq (a.timerCancelled p) rfl rfl) rfl (read?_error ..)
      (by cases p <;> rfl) (i.not_connected rfl)
  case connected p _ _ _ r    =>
    refine respToLocal_passing r (Adds.of_eq (a.timerCancelled p) ?_ ?_) rfl rfl ?_
      (i.not_connected rfl) <;> cases p <;> rfl
  case unreachable p _ _ _ r  =>
    exact respToLocal_passing r (Adds.of_eq (a.timerCancelled p) rfl rfl) rfl (read?_error ..)
      (by cases p <;> rfl) (i.not_connected rfl)

-- Before the session is connected, a request is unpacked once, and the reply to it is packed once.
-- What has been unpacked since is sent to the remote, unless the session is about to end.
structure Carried (run : List Op) (s : Session) : Prop where
  requested : s.socks5State ≠ .connected → ∀ op ∈ ops run s, op.inLeft → s.unpacked = []
  connecting : ∀ op ∈ ops run s, op.inConnect → s.unpacked ≠ []
  unanswered : s.socks5State ≠ .connected → ∀ op ∈ ops run s, op.inReading → s.packed = []
  connected : s.socks5State = .connected → s.packed ≠ [] ∧ s.unpacked ≠ []
  forwarded : s.forwarded <+: s.unpacked.tail
  current : ∀ op ∈ ops run s, op.inReading → s.forwarded = s.unpacked.tail

theorem read?_of_inReading (h : op.inReading) : read? op o = none := by
  by_contra hn
  have ⟨d, hd⟩ := Option.ne_none_iff_exists'.mp hn
  have ⟨p, hp, _⟩ := read?_eq_some hd
  subst hp
  cases h

-- The operations that are left when the handler of one that leads to a read runs.
theorem Inv.alone_reading (i : Inv cfg [op] s) (h : op.inReading) :
    ∀ op' ∈ ops [] s, op'.inReading = false := by
  have hle := i.reading
  rw [ops_cons, List.countP_cons_of_pos h] at hle
  simpa using List.countP_eq_zero.mp (by omega)

namespace Carried

variable {plain d : Data} {plains : List Data}

theorem quiet (h : Carried [op] s) (a : Adds s new [] [] [] t) (hs : t.socks5State = s.socks5State)
    (hl : ∀ op' ∈ new, op'.inLeft → op.inLeft) (hc : ∀ op' ∈ new, op'.inConnect → op.inConnect) :
    Carried [] t := by
  have hu : t.unpacked = s.unpacked := a.unpacked.trans (List.append_nil _)
  have hp : t.packed = s.packed := a.packed.trans (List.append_nil _)
  have hf : t.forwarded = s.forwarded := a.forwarded.trans (List.append_nil _)
  have hr : ∀ op' ∈ new, op'.inReading → op.inReading := by
    intro op' hm hr
    simp only [Op.inReading, Bool.or_eq_true] at hr ⊢
    exact hr.imp (hl op' hm) (hc op' hm)
  -- What holds of the operations before the handler runs holds of those after it.
  have pass {p : Op → Bool} {q : Prop} (hp : ∀ op' ∈ new, p op' → p op)
      (h : ∀ op' ∈ ops [op] s, p op' → q) : ∀ op' ∈ ops [] t, p op' → q := by
    intro op' hm hop
    cases a.mem hm
    case inl hm => exact h op' (.tail _ hm) hop
    case inr hm => exact h op (List.mem_cons_self ..) (hp op' hm hop)
  constructor <;> simp only [hu, hp, hf, hs]
  case requested  => exact fun hs => pass hl (h.requested hs)
  case connecting => exact pass hc h.connecting
  case unanswered => exact fun hs => pass hr (h.unanswered hs)
  case connected  => exact h.connected
  case forwarded  => exact h.forwarded
  case current    => exact pass hr h.current

theorem request (h : Carried [op] s) (i : Inv cfg [op] s) (a : Adds s new [plain] [] [] t)
    (hl : op.inLeft) (hs : s.socks5State ≠ .connected) (ht : t.socks5State ≠ .connected)
    (hn : ∀ op' ∈ new, op'.inLeft = false) : Carried [] t := by
  have hop : op ∈ ops [op] s := List.mem_cons_self ..
  have hr := Op.inReading_of_inLeft hl
  have hu : t.unpacked = [plain] := by rw [a.unpacked, h.requested hs op hop hl, List.nil_append]
  have hp : t.packed = [] := by rw [a.packed, h.unanswered hs op hop hr, List.append_nil]
  have hf : t.forwarded = [] := by
    rw [a.forwarded, List.append_nil, h.current op hop hr, h.requested hs op hop hl, List.tail_nil]
  constructor
  case requested  =>
    intro _ op' hm hl'
    cases a.mem hm
    case inl hm => exact absurd (i.alone_reading hr op' hm) (by simp [Op.inReading, hl'])
    case inr hm => exact absurd (hn op' hm) (by simp [hl'])
  case connecting => simp [hu]
  case unanswered => simp [hp]
  case connected  => exact fun hs => absurd hs ht
  case forwarded  => simp [hf]
  case current    => simp [hf, hu]

theorem reply (h : Carried [op] s) (i : Inv cfg [op] s) (a : Adds s new plains [d] [] t)
    (hop : op.inLeft ∧ plains.length = 1 ∨ op.inConnect ∧ plains = [])
    (hs : s.socks5State ≠ .connected) (hc : ∀ op' ∈ new, op'.inConnect = false)
    (ht : t.socks5State = .connected ∨ ∀ op' ∈ new, op'.inLeft = false) : Carried [] t := by
  have hm : op ∈ ops [op] s := List.mem_cons_self ..
  have hr : op.inReading := by
    rcases hop with ⟨hl, _⟩ | ⟨hc, _⟩
    · exact Op.inReading_of_inLeft hl
    · exact Op.inReading_of_inConnect hc
  have hp : t.packed = [d] := by rw [a.packed, h.unanswered hs op hm hr, List.nil_append]
  have hf : t.forwarded = s.unpacked.tail := by
    rw [a.forwarded, List.append_nil, h.current op hm hr]
  have ⟨hu, hu'⟩ : t.unpacked ≠ [] ∧ t.unpacked.tail = s.unpacked.tail := by
    rw [a.unpacked]
    rcases hop with ⟨hl, h₁⟩ | ⟨hc, h₀⟩
    · have ⟨plain, hpl⟩ := List.length_eq_one_iff.mp h₁
      simp [h.requested hs op hm hl, hpl]
    · simp [h₀, h.connecting op hm hc]
  constructor
  case requested  =>
    intro hs' op' hm hl'
    cases a.mem hm
    case inl hm => exact absurd (i.alone_reading hr op' hm) (by simp [Op.inReading, hl'])
    case inr hm => exact absurd (ht.resolve_left hs' op' hm) (by simp [hl'])
  case connecting => exact fun _ _ _ => hu
  case unanswered =>
    intro hs' op' hm hr'
    cases a.mem hm
    case inl hm => exact absurd (i.alone_reading hr op' hm) (by simp [hr'])
    case inr hm =>
      exact absurd hr' (by simp [Op.inReading, ht.resolve_left hs' op' hm, hc op' hm])
  case connected  => exact fun _ => ⟨by simp [hp], hu⟩
  case forwarded  => simp [hf, hu']
  case current    => simp [hf, hu']

theorem forward (h : Carried [op] s) (a : Adds s new [plain] [] [plain] t) (hl : op.inLeft)
    (hs : s.socks5State = .connected) (ht : t.socks5State = .connected) : Carried [] t := by
  have ⟨hp, hu⟩ := h.connected hs
  have hf : t.forwarded = t.unpacked.tail := by
    rw [a.forwarded, a.unpacked, List.tail_append_of_ne_nil hu,
      h.current op (List.mem_cons_self ..) (Op.inReading_of_inLeft hl)]
  constructor
  case requested  => exact fun hn => absurd ht hn
  case connecting => simp [a.unpacked]
  case unanswered => exact fun hn => absurd ht hn
  case connected  => exact fun _ => ⟨by simpa [a.packed] using hp, by simp [a.unpacked]⟩
  case forwarded  => simp [hf]
  case current    => exact fun _ _ _ => hf

theorem drop (h : Carried [op] s) (i : Inv cfg [op] s) (a : Adds s new [plain] [] [] t)
    (hl : op.inLeft) (hs : s.socks5State = .connected) (ht : t.socks5State = .connected)
    (hn : ∀ op' ∈ new, op'.inReading = false) : Carried [] t := by
  have hr := Op.inReading_of_inLeft hl
  have ⟨hp, hu⟩ := h.connected hs
  constructor
  case requested  => exact fun hn => absurd ht hn
  case connecting => simp [a.unpacked]
  case unanswered => exact fun hn => absurd ht hn
  case connected  => exact fun _ => ⟨by simpa [a.packed] using hp, by simp [a.unpacked]⟩
  case forwarded  =>
    rw [a.forwarded, a.unpacked, List.tail_append_of_ne_nil hu,
      h.current op (List.mem_cons_self ..) hr]
    simp
  case current    =>
    intro op' hm hr'
    cases a.mem hm
    case inl hm => exact absurd (i.alone_reading hr op' hm) (by simp [hr'])
    case inr hm => exact absurd (hn op' hm) (by simp [hr'])

theorem relay (h : Carried [op] s) (a : Adds s new [] [d] [] t) (hs : s.socks5State = .connected)
    (ht : t.socks5State = .connected) (hn : ∀ op' ∈ new, op'.inReading = false) :
    Carried [] t := by
  have ⟨hp, hu⟩ := h.connected hs
  have hu' : t.unpacked = s.unpacked := a.unpacked.trans (List.append_nil _)
  have hf' : t.forwarded = s.forwarded := a.forwarded.trans (List.append_nil _)
  constructor
  case requested  => exact fun hn => absurd ht hn
  case connecting => exact fun _ _ _ => hu' ▸ hu
  case unanswered => exact fun hn => absurd ht hn
  case connected  => exact fun _ => ⟨by simp [a.packed], hu' ▸ hu⟩
  case forwarded  => exact hu' ▸ hf' ▸ h.forwarded
  case current    =>
    intro op' hm hr'
    rw [hu', hf']
    cases a.mem hm
    case inl hm => exact h.current op' (.tail _ hm) hr'
    case inr hm => exact absurd (hn op' hm) (by simp [hr'])

theorem passing (h : Carried [op] s) (i : Inv cfg [op] s) (p : Passing s op o t) :
    Carried [] t := by
  cases p
  case quiet a _ hs hl hc      => exact h.quiet a hs hl hc
  case request a hl hs ht hn   => exact h.request i a hl hs ht hn
  case reply a hop hs hc ht    => exact h.reply i a hop hs hc ht
  case forward a hl hs ht _    => exact h.forward a hl hs ht
  case drop a hl hs ht hn      => exact h.drop i a hl hs ht hn
  case relay a _ hs ht hn      => exact h.relay a hs ht hn

-- What has been read from the remote is packed after the reply.
theorem packed_tail (h : Carried [op] s) (p : Passing s op o t) :
    t.packed.tail = s.packed.tail ++ (read? op o).toList ∧ t.arrived = s.arrived := by
  have hop : op ∈ ops [op] s := List.mem_cons_self ..
  cases p
  case quiet a hr _ _ _   => exact ⟨by simp [a.packed, hr], a.arrived⟩
  case request a hl _ _ _ =>
    exact ⟨by simp [a.packed, read?_of_inReading (Op.inReading_of_inLeft hl)], a.arrived⟩
  case forward a hl _ _ _ =>
    exact ⟨by simp [a.packed, read?_of_inReading (Op.inReading_of_inLeft hl)], a.arrived⟩
  case drop a hl _ _ _    =>
    exact ⟨by simp [a.packed, read?_of_inReading (Op.inReading_of_inLeft hl)], a.arrived⟩
  case relay a hr hs _ _  =>
    rw [a.packed, List.tail_append_of_ne_nil (h.connected hs).1, hr]
    exact ⟨rfl, a.arrived⟩
  case reply a hop' hs _ _ =>
    have hr : op.inReading := by
      rcases hop' with ⟨hl, _⟩ | ⟨hc, _⟩
      · exact Op.inReading_of_inLeft hl
      · exact Op.inReading_of_inConnect hc
    simp [a.packed, h.unanswered hs op hop hr, read?_of_inReading hr, a.arrived]

theorem reorder (h : Carried [] s) {io : List (Outstanding Op Outcome)}
    (hp : (ops run { s with io := io }).Perm (ops [] s)) : Carried run { s with io := io } where
  requested := fun hs op hm => h.requested hs op (hp.mem_iff.mp hm)
  connecting := fun op hm => h.connecting op (hp.mem_iff.mp hm)
  unanswered := fun hs op hm => h.unanswered hs op (hp.mem_iff.mp hm)
  connected := h.connected
  forwarded := h.forwarded
  current := fun op hm => h.current op (hp.mem_iff.mp hm)

end Carried

-- `chunks` are what has been read from the remote.
structure Forwards (chunks : List Data) (s : Session) : Prop where
  carried : Carried [] s
  packed : s.packed.tail ++ s.arrived = chunks

theorem inRight_of_read (op : Op) (o : Outcome) (d : Data) (h : read? op o = some d) :
    op.inRight := by
  have ⟨p, hop, _⟩ := read?_eq_some h
  rw [hop]
  rfl

theorem forwards_initial (h : s.Initial) : Forwards [] s where
  carried := by
    constructor <;>
      simp [ops, unpacked, packed, forwarded, h.io, h.log, h.socks5State]
  packed := by simp [packed, arrived, h.io, h.log]

theorem forwards_step {lb : Label} (r : Reachable cfg s) (e : Step cfg s lb t)
    (h : s.Forwards chunks) : t.Forwards (chunks ++ lb.read?.toList) := by
  have i := inv_reachable r
  cases e
  case start remoteError hs =>
    obtain ⟨hio, hl⟩ := (fresh_reachable r).unstarted hs
    have hs' : s.socks5State ≠ .connected := by
      have := i.opening (by simp [hs])
      simp [this]
    have hc : chunks = [] := by
      rw [← h.packed]
      simp [Session.packed, arrived, hio, hl]
    subst hc
    cases remoteError
    case true  => exact h
    case false =>
      have a : Adds s [.leftRead (.receiving lengthHandshake) 0] [] [] [] (s.startSession false) :=
        (((Adds.refl s).setStatus _).start rfl).setStatus _
      have hp := a.packed.trans (show s.packed ++ [] = [] by simp [packed, hl])
      have hu := a.unpacked.trans (show s.unpacked ++ [] = [] by simp [unpacked, hl])
      have hf := a.forwarded.trans (show s.forwarded ++ [] = [] by simp [forwarded, hl])
      have ha := a.arrived.trans (show s.arrived = [] by simp [arrived, hio])
      constructor
      case packed  => rw [hp, ha]; rfl
      case carried =>
        constructor
        case connecting =>
          rw [a.ops]
          simp [ops, hio, Op.inConnect]
        case connected  => exact fun h => absurd h hs'
        all_goals simp [hp, hu, hf]
  case tick => exact ⟨{ h.carried with }, h.packed.trans (List.append_nil _).symm⟩
  case complete hio c _ =>
    refine ⟨h.carried.reorder (by simp [ops, hio]), ?_⟩
    rw [arrived, Outstanding.arrivals_complete inRight_of_read i.right hio, ← List.append_assoc]
    exact congrArg (· ++ _) h.packed
  case deliver op o ch hio =>
    have d : Delivered cfg ch _ op o _ := i.deliver_queued hio
    have j := i.dequeue hio
    have hc : Carried [op] _ := h.carried.reorder (ops_dequeue hio)
    have p := delivered_passing j ((phased_reachable r).dequeue hio) d
    obtain ⟨hp, ha⟩ := hc.packed_tail p
    refine ⟨hc.passing j p, ?_⟩
    have hq := Outstanding.arrivals_dequeue inRight_of_read i.right hio
    rw [hp, ha, List.append_assoc]
    exact (congrArg (s.packed.tail ++ ·) hq.symm).trans (h.packed.trans (List.append_nil _).symm)

end Session
end Lproxy.Server
