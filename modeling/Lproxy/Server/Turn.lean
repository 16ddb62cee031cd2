import Lproxy.Server.Frames

-- What the handler of an operation starts.
namespace Lproxy.Server

def Event.started? : Event → Option Op
  | started op => some op
  | _          => none

namespace Op

-- The operations upon which, sooner or later, the session reads from the local again.
def inReading (op : Op) : Bool :=
  op.inLeft || op.inConnect

theorem inReading_of_inLeft {op : Op} (h : op.inLeft) : op.inReading := by
  simp [inReading, h]

theorem inReading_of_inConnect {op : Op} (h : op.inConnect) : op.inReading := by
  simp [inReading, h]

end Op

namespace Session

variable {cfg : Config} {ch : Choice} {s t u : Session} {op op' : Op} {o : Outcome}

-- The operations upon which, sooner or later, the session sends data to the local.
def sends (s : Session) (op : Op) : Bool :=
  op.inRight || op.inReading && s.socks5State ≠ .connected

-- The calls of `left_read_handler` with a packet that carries data.
def Hears (op : Op) (o : Outcome) : Prop :=
  ∃ bt lss, LeftEntry op o bt lss ∧ IsData lss

-- The operations that the handler of `op` can start in a session, when no packet of which a part is
-- missing has been read and no second packet behind the first one.
inductive Begins (cfg : Config) (ch : Choice) (s : Session) (op : Op) (o : Outcome)
    (encryptor : Option Crypto.Aes) : Op → Prop
  | leftRead {n : Nat} (h : op.inReading) :
    Begins cfg ch s op o encryptor (.leftRead (.receiving n) 0)
  | hello (h : op.inLeft) :
    Begins cfg ch s op o encryptor (.leftWrite (packHello cfg) .helloHandler)
  | exchange {bt : Nat} {lss reply : Packet} {plain : Data} {u : Session} (h : op.inLeft)
    (e : LeftEntry op o bt lss) (ht : RequestType.ofByte lss.type = .exchange)
    (hd : Decrypts cfg lss plain)
    (hp : (s.note (.exchangeDecrypted plain)).packExchange cfg ch (plain.take 32) (plain.drop 32) =
      some (u, reply))
    (he : encryptor = some (Crypto.Aes.raw256 cfg.cpp ch.dataKey)) :
    Begins cfg ch s op o encryptor (.leftWrite reply .exchangeHandler)
  | reply {d : Data} {lss : Packet} (h : s.sends op) (hl : op.inLeft → Hears op o)
    (hd : d.length ≤ maxLength) (hp : Packs cfg s d lss) :
    Begins cfg ch s op o encryptor (.leftWrite lss .leftWriteHandler)
  | farewell {lss : Packet} (h : lss = packBad ∨ lss = packDeny ∨ lss = packTimeout) :
    Begins cfg ch s op o encryptor (.leftWrite lss .cancel)
  | rightRead {p : Proto} (h : op.inRight) : Begins cfg ch s op o encryptor (.rightRead p)
  | rightWrite {p : Proto} {d : Data} (h : op.inLeft) :
    Begins cfg ch s op o encryptor (.rightWrite p d .writeHandler)
  | resolve {p : Proto} {name : Data} {port : UInt16} (h : op.inLeft)
    (hs : s.socks5State ≠ .connected) (hl : Hears op o) :
    Begins cfg ch s op o encryptor (.resolve p name port)
  | connect {p : Proto} {e : Endpoint} {rest : List Endpoint} (h : op.inConnect) :
    Begins cfg ch s op o encryptor (.connect p e rest)
  | timerWait : Begins cfg ch s op o encryptor .timerWait

-- From `s` to `t` some pending operations have been aborted, and those of `new` have been started.
-- `encryptor` is the one that the session has then.
structure Turn (cfg : Config) (ch : Choice) (s : Session) (op : Op) (o : Outcome)
    (encryptor : Option Crypto.Aes) (new : List Op) (t : Session) : Prop where
  io : Outstanding.Continues (.error .operationAborted) s.io new t.io
  log : t.log.filterMap Event.started? = s.log.filterMap Event.started? ++ new
  begins : ∀ op' ∈ new, Begins cfg ch s op o encryptor op'

namespace Turn

variable {encryptor : Option Crypto.Aes} {new : List Op}

theorem refl (s : Session) : Turn cfg ch s op o encryptor [] s :=
  ⟨.refl _, by simp, by simp⟩

theorem note (i : Turn cfg ch s op o encryptor new t) {e : Event} (h : e.started? = none) :
    Turn cfg ch s op o encryptor new (t.note e) :=
  ⟨i.io, by simp [i.log, h], i.begins⟩

theorem abort (i : Turn cfg ch s op o encryptor new t) (p : Op → Bool) :
    Turn cfg ch s op o encryptor new (t.abort p) :=
  ⟨i.io.abort p, i.log, i.begins⟩

theorem start (i : Turn cfg ch s op o encryptor new t) (h : Begins cfg ch s op o encryptor op') :
    Turn cfg ch s op o encryptor (new ++ [op']) (t.start op') :=
  ⟨i.io.start op', by simp [i.log, Event.started?],
    by simpa [or_imp, forall_and, h] using i.begins⟩

theorem cancel (i : Turn cfg ch s op o encryptor new t) :
    Turn cfg ch s op o encryptor new t.cancel :=
  (i.abort _).note rfl

theorem sendBad (i : Turn cfg ch s op o encryptor new t) :
    Turn cfg ch s op o encryptor (new ++ [.leftWrite packBad .cancel]) t.sendBad :=
  i.start (.farewell (.inl rfl))

-- What concerns neither the operations nor the log.
theorem of_eq (i : Turn cfg ch s op o encryptor new t) (hi : u.io = t.io) (hl : u.log = t.log) :
    Turn cfg ch s op o encryptor new u :=
  ⟨hi ▸ i.io, hl ▸ i.log, i.begins⟩

theorem setStatus (i : Turn cfg ch s op o encryptor new t) (status : Status) :
    Turn cfg ch s op o encryptor new (t.setStatus status) :=
  (i.note (e := .statusSet status) rfl).of_eq rfl rfl

theorem timerRestart (i : Turn cfg ch s op o encryptor new t) :
    Turn cfg ch s op o encryptor (new ++ [.timerWait]) (t.timerRestart cfg) :=
  ((i.abort Op.isTimerWait).start .timerWait).of_eq rfl rfl

theorem timerCancelled (i : Turn cfg ch s op o encryptor new t) (p : Proto) :
    Turn cfg ch s op o encryptor new (t.timerCancelled p) := by
  cases p
  case tcp => exact i.abort _
  case udp => exact i

theorem refuse (i : Turn cfg ch s op o encryptor new t) (hs : s.sends op)
    (hl : op.inLeft → Hears op o) {d : Data} {lss : Packet} (hd : d.length ≤ maxLength)
    (hp : Packs cfg s d lss) :
    Turn cfg ch s op o encryptor (new ++ [.leftWrite lss .leftWriteHandler]) (t.refuse d lss) :=
  ((i.note (e := .socks5Resp _) rfl).note (e := .packed d) rfl).start (.reply hs hl hd hp)

theorem accept (i : Turn cfg ch s op o encryptor new t) (hs : s.sends op)
    (hl : op.inLeft → Hears op o) (ho : op.inReading) {d : Data} {lss : Packet}
    (hd : d.length ≤ maxLength) (hp : Packs cfg s d lss) :
    Turn cfg ch s op o encryptor
      (new ++ [.leftWrite lss .leftWriteHandler] ++ [.leftRead (.receiving maxLength) 0])
      (t.accept d lss) := by
  have j := (i.note (e := .socks5Resp t.socks5RespReply) rfl).note (e := .packed d) rfl
  exact ((j.start (.reply hs hl hd hp)).start (.leftRead ho)).of_eq rfl rfl

theorem respToLocal (i : Turn cfg ch s op o encryptor new t) (hs : s.sends op)
    (hl : op.inLeft → Hears op o) (ho : op.inReading) {v : Session × Option Exn}
    (r : RespToLocal cfg u v) (hi : u.io = t.io) (hg : u.log = t.log)
    (ha : u.aesEncryptor = s.aesEncryptor) : ∃ new, Turn cfg ch s op o encryptor new v.1 := by
  have hp {d : Data} {lss : Packet} (h : Packs cfg u d lss) : Packs cfg s d lss := by
    have ⟨aes, ht, he⟩ := h
    exact ⟨aes, ha ▸ ht, he⟩
  have i := i.of_eq hi hg
  cases r
  case threw           => exact ⟨_, i⟩
  case refused hd _ h  => exact ⟨_, i.refuse hs hl hd (hp h)⟩
  case accepted hd _ h => exact ⟨_, i.accept hs hl ho hd (hp h)⟩

theorem connecting (i : Turn cfg ch s op o encryptor new t) (hc : op.inConnect) (e : Endpoint)
    (rest : List Endpoint) (p : Proto) :
    ∃ new, Turn cfg ch s op o encryptor new (t.connecting cfg e rest p) := by
  cases p
  case tcp => exact ⟨_, i.timerRestart.start (.connect hc)⟩
  case udp => exact ⟨_, i.start (.connect hc)⟩

theorem requestProcessed (i : Turn cfg ch s op o encryptor new t) (hl : op.inLeft)
    (hs : s.socks5State ≠ .connected) (hh : Hears op o) (ha : t.aesEncryptor = s.aesEncryptor)
    (r : RequestProcessed cfg t u) : ∃ new, Turn cfg ch s op o encryptor new u := by
  have ho := Op.inReading_of_inLeft hl
  have hc : s.sends op := by simp [sends, ho, hs]
  have hp {d : Data} {lss : Packet} (h : Packs cfg t d lss) : Packs cfg s d lss := by
    have ⟨aes, ht, he⟩ := h
    exact ⟨aes, ha ▸ ht, he⟩
  have req {rq : Socks5.Req} {name : Data} {cmd : Cmd} {reply : Byte} :
      Turn cfg ch s op o encryptor new (t.requested rq name cmd reply) :=
    (i.note (e := .socks5RequestProcessing rq) rfl).of_eq rfl rfl
  cases r
  case connect         => exact ⟨_, req.timerRestart.start (.resolve hl hs hh)⟩
  case udp             => exact ⟨_, req.start (.resolve hl hs hh)⟩
  case refused hd _ h  => exact ⟨_, req.refuse hc (fun _ => hh) hd (hp h)⟩
  case accepted hd h   => exact ⟨_, req.accept hc (fun _ => hh) ho hd (hp h)⟩
  case cancel          => exact ⟨_, req.cancel⟩
  case bad             => exact ⟨_, req.sendBad⟩

-- A packet that has been read as a whole, with nothing behind it.
theorem leftReadDone {bt : Nat} {lss : Packet} (e : LeftEntry op o bt lss) (hh : Holds bt lss)
    (hw : bt = 4 + lss.dataLen.toNat) (r : LeftReadDone cfg ch s bt lss t) :
    ∃ new, Turn cfg ch s op o t.aesEncryptor new t := by
  have hl : op.inLeft := by cases e <;> rfl
  have i : Turn cfg ch s op o t.aesEncryptor [] s := .refl s
  cases r
  case cancel          => exact ⟨_, i.cancel⟩
  case short           => exact ⟨_, i.sendBad⟩
  case more hm         => omega
  case wrongPacketType => exact ⟨_, i.sendBad⟩
  case hello           => exact ⟨_, i.start (.hello hl)⟩
  case undecryptable   => exact ⟨_, (i.note rfl).cancel⟩
  case shortPlain      => exact ⟨_, ((i.note rfl).note rfl).cancel⟩
  case deny            => exact ⟨_, (i.note rfl).start (.farewell (.inr (.inl rfl)))⟩
  case assertion       => exact ⟨_, (i.note rfl).note rfl⟩
  case exchange plain u reply _ ht hd _ hp =>
    have ⟨_, hu, _⟩ := packExchange_some hp
    have hs := Begins.exchange hl e ht hd hp (congrArg aesEncryptor hu)
    have j := (i.note (e := .exchangeDecrypted plain) rfl).start hs
    exact ⟨_, j.of_eq (by rw [hu]; rfl) (by rw [hu]; rfl)⟩
  case badRequest plain _ _ _ _ =>
    exact ⟨_, ((i.note (e := .unpacked plain) rfl).sendBad).of_eq rfl rfl⟩
  case request hs ht _ r => exact (i.note rfl).requestProcessed hl hs ⟨_, _, e, ht⟩ rfl r
  case forward =>
    rw [writeNext_eq hh (by omega), if_pos (by omega)]
    exact ⟨_, (i.note rfl).start (.rightWrite hl)⟩
  case address         => exact ⟨_, (i.note rfl).cancel⟩
  case unsupported     => exact ⟨_, (i.note rfl).sendBad⟩

end Turn

theorem delivered_turn (i : Inv cfg [op] s) (c : Completes op o)
    (hw : ∀ {bt lss}, LeftEntry op o bt lss → bt = 4 + lss.dataLen.toNat)
    (d : Delivered cfg ch s op o t) : ∃ new, Turn cfg ch s op o t.aesEncryptor new t := by
  have j (a : Option Crypto.Aes) : Turn cfg ch s op o a [] s := .refl s
  have conn (hc : op.inConnect) : s.sends op := by
    simp [sends, Op.inReading, hc, i.not_connected hc]
  have right {op : Op} {o : Outcome} (h : op.inLeft = false) (hl : op.inLeft) : Hears op o :=
    absurd (h.symm.trans hl) Bool.false_ne_true
  cases d
  case left e r    => exact Turn.leftReadDone e (i.holds c e) (hw e) r
  case cancelled   => exact ⟨_, (j _).cancel⟩
  case farewell    => exact ⟨_, (j _).cancel⟩
  case hello       => exact ⟨_, ((j _).start (.leftRead rfl)).setStatus _⟩
  case exchange    => exact ⟨_, ((j _).start (.leftRead rfl)).setStatus _⟩
  case refused     => exact ⟨_, (j _).cancel⟩
  case replied     => exact ⟨_, (j _).start (.rightRead rfl)⟩
  case address     => exact ⟨_, j _⟩
  case again h hs  =>
    exact absurd ⟨i.fits _ (List.mem_cons_self ..), i.refusal hs (by simp [ops_cons, Op.inRight])⟩ h
  case written     => exact ⟨_, (j _).start (.leftRead rfl)⟩
  case unsupported => exact ⟨_, (j _).sendBad⟩
  case broken      => exact ⟨_, (j _).sendBad⟩
  case relayed hp  =>
    cases c with | rightRead _ le => ?_
    exact ⟨_, ((j _).note rfl).start (.reply (by rfl) (right rfl) le hp)⟩
  case timerIdle   => exact ⟨_, j _⟩
  case timeout     => exact ⟨_, (j _).start (.farewell (.inr (.inr rfl)))⟩
  case resolved p _ _ _ _     => exact ((j _).timerCancelled p).connecting rfl _ _ _
  case unresolved p _ _ _ _ r =>
    refine ((j _).timerCancelled p).respToLocal (conn rfl) (right rfl) rfl r rfl rfl ?_
    cases p <;> rfl
  case connected p _ _ _ r    =>
    refine ((j _).timerCancelled p).respToLocal (conn rfl) (right rfl) rfl r ?_ ?_ ?_ <;>
      cases p <;> rfl
  case endOfList   => exact ⟨_, (j _).note rfl⟩
  case retried p _ _ _ _      => exact (((j _).timerCancelled p).abort _).connecting rfl _ _ _
  case unreachable p _ _ _ r  =>
    refine ((j _).timerCancelled p).respToLocal (conn rfl) (right rfl) rfl r rfl rfl ?_
    cases p <;> rfl

end Session
end Lproxy.Server
