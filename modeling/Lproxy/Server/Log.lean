import Lproxy.Server.Invariants

-- What a delivery adds to the log of a session.
namespace Lproxy.Server

namespace Session

variable {cfg : Config} {ch : Choice} {s t : Session} {op : Op} {o : Outcome}

-- The deliveries of a request.
inductive Requests (s : Session) : Op → Outcome → Prop
  | intro {op : Op} {o : Outcome} {bt : Nat} {lss : Packet} (e : LeftEntry op o bt lss)
    (h : s.status = .data) (hs : s.socks5State ≠ .connected) : Requests s op o

-- The deliveries after which a session sends a reply to the request, if it can be packed.
inductive Replies (s : Session) : Op → Outcome → Prop
  | request {op : Op} {o : Outcome} (h : Requests s op o) : Replies s op o
  | unresolved {p : Proto} {name : Data} {port : UInt16} {code : ErrorCode} :
    Replies s (.resolve p name port) (.error code)
  | connected {p : Proto} {e : Endpoint} {rest : List Endpoint} :
    Replies s (.connect p e rest) .done
  | unreachable {p : Proto} {e : Endpoint} {code : ErrorCode} :
    Replies s (.connect p e []) (.error code)

-- The deliveries after which a session makes an attempt to connect.
inductive Tries : Op → Outcome → Prop
  | resolved {p : Proto} {name : Data} {port : UInt16} {e : Endpoint} {rest : List Endpoint} :
    Tries (.resolve p name port) (.endpoints e rest)
  | retried {p : Proto} {e e' : Endpoint} {rest : List Endpoint} {code : ErrorCode} :
    Tries (.connect p e (e' :: rest)) (.error code)

-- What the delivery of an operation can log.
inductive Logged (s : Session) (op : Op) (o : Outcome) : Event → Prop
  | cancelled : Logged s op o .cancelled
  | statusSet {status : Status} : Logged s op o (.statusSet status)
  | exchangeDecrypted {plain : Data} : Logged s op o (.exchangeDecrypted plain)
  | unpacked {plain : Data} : Logged s op o (.unpacked plain)
  | fault : Logged s op o .fault
  | leftRead {lss : Packet} {rest : Nat} : Logged s op o (.started (.leftRead lss rest))
  | rightRead {p : Proto} : Logged s op o (.started (.rightRead p))
  | timerWait : Logged s op o (.started .timerWait)
  | resolve {p : Proto} {name : Data} {port : UInt16} :
    Logged s op o (.started (.resolve p name port))
  -- A packet that carries no data, and that is no timeout packet.
  | leftWrite {lss : Packet} {next : LeftWriteNext} (hd : ¬IsData lss) (ht : lss ≠ packTimeout)
    (hn : next ≠ .leftWriteHandler) : Logged s op o (.started (.leftWrite lss next))
  | timeout (h : op = .timerWait) (ho : o = .done) (he : s.expiresAt ≤ s.now) :
    Logged s op o (.started (.leftWrite packTimeout .cancel))
  | request {rq : Socks5.Req} (h : Requests s op o) : Logged s op o (.socks5RequestProcessing rq)
  | resp {reply : Byte} (h : Replies s op o) : Logged s op o (.socks5Resp reply)
  | packed {d : Data} (h : Replies s op o ∨ ∃ p, op = .rightRead p ∧ o = .bytes d) :
    Logged s op o (.packed d)
  | data {lss : Packet} (h : Replies s op o ∨ ∃ p d, op = .rightRead p ∧ o = .bytes d)
    (hd : IsData lss) : Logged s op o (.started (.leftWrite lss .leftWriteHandler))
  | rightWrite {p : Proto} {d : Data} {next : WriteNext} {bt : Nat} {lss : Packet}
    (e : LeftEntry op o bt lss) (h : s.status = .data) (hs : s.socks5State = .connected) :
    Logged s op o (.started (.rightWrite p d next))
  | connect {p : Proto} {e : Endpoint} {rest : List Endpoint} (h : Tries op o) :
    Logged s op o (.started (.connect p e rest))

attribute [simp] Logged.cancelled Logged.statusSet Logged.exchangeDecrypted Logged.unpacked
  Logged.fault Logged.leftRead Logged.rightRead Logged.timerWait Logged.resolve

section Packets

variable {data : Data}

theorem not_isData_pack {type : ReplyType} (h : type ≠ .data ∧ type ≠ .zipdata) :
    ¬IsData (pack type data) := by
  cases type <;> simp [IsData, pack, ReplyType.toByte] at h ⊢

theorem pack_ne_timeout {type : ReplyType} (h : type ≠ .timeout) :
    pack type data ≠ packTimeout := by
  intro he
  have := congrArg Packet.type he
  cases type <;> simp [packTimeout, pack, ReplyType.toByte] at h this

@[simp]
theorem logged_pack {type : ReplyType} {next : LeftWriteNext} (h : type ≠ .data ∧ type ≠ .zipdata)
    (ht : type ≠ .timeout) (hn : next ≠ .leftWriteHandler) :
    Logged s op o (.started (.leftWrite (pack type data) next)) :=
  .leftWrite (not_isData_pack h) (pack_ne_timeout ht) hn

end Packets

-- The events that a delivery appends to the log. If the session cancels, that is the last of them.
def Logs (s : Session) (op : Op) (o : Outcome) (t : Session) : Prop :=
  ∃ es, t.log = s.log ++ es ∧ .cancelled ∉ es.dropLast ∧ ∀ e ∈ es, Logged s op o e

theorem requestProcessed_logs {u : Session} (h : RequestProcessed cfg u t) (hr : Requests s op o) :
    ∃ es, t.log = u.log ++ es ∧ .cancelled ∉ es.dropLast ∧ ∀ e ∈ es, Logged s op o e := by
  cases h
  case refused hp =>
    simp [or_imp, forall_and, Logged.request hr, Logged.resp (.request hr),
      Logged.packed (.inl (.request hr)), Logged.data (.inl (.request hr)) hp.isData]
  case accepted hp =>
    simp [or_imp, forall_and, Logged.request hr, Logged.resp (.request hr),
      Logged.packed (.inl (.request hr)), Logged.data (.inl (.request hr)) hp.isData]
  all_goals simp [or_imp, forall_and, Logged.request hr, packBad]

theorem leftReadDone_logs {bt : Nat} {lss : Packet} (e : LeftEntry op o bt lss)
    (h : LeftReadDone cfg ch s bt lss t) : Logs s op o t := by
  cases h
  case request plain h hs _ _ r =>
    have ⟨es, he, hc, hl⟩ := requestProcessed_logs r (.intro e h hs)
    refine ⟨.unpacked plain :: es, by simp [he], ?_, by simpa using hl⟩
    cases es
    case nil  => simp
    case cons => simpa using hc
  case exchange hp =>
    have ⟨_, he₁, he₂, _⟩ := packExchange_some hp
    subst he₁ he₂
    simp [Logs, or_imp, forall_and]
  case forward h hs _ _ _ => simp [Logs, or_imp, forall_and, Logged.rightWrite e h hs]
  all_goals simp [Logs, or_imp, forall_and, packBad, packDeny, packHello]

theorem respToLocal_logs {u : Session} {v : Session × Option Exn} (h : RespToLocal cfg u v)
    (hr : Replies s op o) (hl : u.log = s.log) : Logs s op o v.1 := by
  cases h
  case threw       => simp [Logs, hl]
  case refused hp  =>
    simp [Logs, hl, or_imp, forall_and, Logged.resp hr, Logged.packed (.inl hr),
      Logged.data (.inl hr) hp.isData]
  case accepted hp =>
    simp [Logs, hl, or_imp, forall_and, Logged.resp hr, Logged.packed (.inl hr),
      Logged.data (.inl hr) hp.isData]

theorem connecting_logs {u : Session} (hl : u.log = s.log) (h : Tries op o) (e : Endpoint)
    (rest : List Endpoint) (p : Proto) : Logs s op o (u.connecting cfg e rest p) := by
  cases p <;> simp [Session.connecting, Logs, hl, or_imp, forall_and, Logged.connect h]

@[simp]
theorem timerCancelled_log (p : Proto) : (s.timerCancelled p).log = s.log := by
  cases p <;> rfl

theorem delivered_logs (h : Delivered cfg ch s op o t) : Logs s op o t := by
  cases h
  case left e h => exact leftReadDone_logs e h
  case resolved => exact connecting_logs (timerCancelled_log _) .resolved _ _ _
  case retried p _ _ _ _ =>
    exact connecting_logs (u := (s.timerCancelled p).closeRight p) (timerCancelled_log p) .retried
      _ _ _
  case unresolved h => exact respToLocal_logs h .unresolved (timerCancelled_log _)
  case unreachable h => exact respToLocal_logs h .unreachable (timerCancelled_log _)
  case connected p _ _ _ h =>
    refine respToLocal_logs h .connected ?_
    cases p <;> rfl
  case relayed hp => simp [Logs, or_imp, forall_and, Logged.packed, Logged.data, hp.isData]
  case timeout he => simp [Logs, Logged.timeout, he]
  all_goals simp [Logs, or_imp, forall_and, packBad]

-- What a step can log.
def LoggedBy (s : Session) : Label → Event → Prop
  | .deliver op o _, e => Logged s op o e
  | .start _, e        => (∃ status, e = .statusSet status) ∨ ∃ lss, e = .started (.leftRead lss 0)
  | _, _               => False

section Io

variable {io : List (Outstanding Op Outcome)}

theorem Requests.of_io (h : Requests { s with io := io } op o) : Requests s op o := by
  cases h with | intro e h hs => exact .intro e h hs

theorem Replies.of_io (h : Replies { s with io := io } op o) : Replies s op o := by
  cases h
  case request h   => exact .request h.of_io
  case unresolved  => exact .unresolved
  case connected   => exact .connected
  case unreachable => exact .unreachable

theorem Logged.of_io {e : Event} (h : Logged { s with io := io } op o e) : Logged s op o e := by
  cases h
  case leftWrite hd ht hn   => exact .leftWrite hd ht hn
  case timeout h ho he      => exact .timeout h ho he
  case request h            => exact .request h.of_io
  case resp h               => exact .resp h.of_io
  case packed h             => exact .packed (h.imp_left .of_io)
  case data h hd            => exact .data (h.imp_left .of_io) hd
  case rightWrite e h hs    => exact .rightWrite e h hs
  case connect h            => exact .connect h
  all_goals simp

end Io

theorem step_logs {lb : Label} (r : Reachable cfg s) (e : Step cfg s lb t) :
    ∃ es, t.log = s.log ++ es ∧ .cancelled ∉ es.dropLast ∧ ∀ e ∈ es, LoggedBy s lb e := by
  cases e
  case deliver op o _ h =>
    have i := inv_reachable r
    have c := i.queued ⟨op, some o⟩ (by simp [h]) o rfl
    obtain ⟨es, he, hc, hl⟩ := delivered_logs ((i.dequeue h).deliver c)
    exact ⟨es, he, hc, fun e h => (hl e h).of_io⟩
  case start remoteError h => cases remoteError <;> simp [startSession, LoggedBy]
  case complete            => exact ⟨[], by simp⟩
  case tick                => exact ⟨[], by simp⟩

end Session
end Lproxy.Server
