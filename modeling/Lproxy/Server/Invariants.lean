import Lproxy.Server.Deliver
import Lproxy.Lib.Trace

-- What holds in every reachable state of a server session.
namespace Lproxy.Server

namespace Op

-- The chain from the local to the remote, and the handshake before it.
def inLeft : Op → Bool
  | leftRead .. | rightWrite .. => true
  | leftWrite _ next            => next = .helloHandler ∨ next = .exchangeHandler
  | _                           => false

-- The chain from the remote to the local. It starts with the reply to the request.
def inRight : Op → Bool
  | rightRead _      => true
  | leftWrite _ next => next = .leftWriteHandler
  | _                => false

-- The attempts to reach the remote.
def inConnect : Op → Bool
  | resolve .. | connect .. => true
  | _                       => false

-- A write after which the session cancels.
def isFarewell : Op → Bool
  | leftWrite _ next => next = .cancel
  | _                => false

-- No operation belongs to two of these.
theorem inChain_le (op : Op) : (if op.inLeft then 1 else 0) + (if op.inRight then 1 else 0) +
    (if op.inConnect then 1 else 0) ≤ 1 := by
  cases op
  case leftWrite next => cases next <;> simp [inLeft, inRight, inConnect]
  all_goals simp [inLeft, inRight, inConnect]

theorem inLeft_only (op : Op) (h : op.inLeft) : op.inRight = false ∧ op.inConnect = false := by
  have hle := op.inChain_le
  cases hr : op.inRight <;> cases hc : op.inConnect <;> simp [h, hr, hc] at hle ⊢

-- The status that an operation is outstanding in; `keyed` says whether there is an encryptor.
def Fits (status : Status) (keyed : Bool) : Op → Prop
  | leftRead ..                  => status = .hello ∨ (status = .auth ∧ !keyed) ∨ status = .data
  | leftWrite _ .helloHandler    => status = .hello
  | leftWrite _ .exchangeHandler => status = .auth ∧ keyed
  | leftWrite _ .cancel          => True
  | _                            => status = .data

-- The buffers of an operation.
def Buffered : Op → Prop
  | leftRead lss rest                      => Pending lss rest
  | rightWrite _ _ (.readHandler bt lss)   => Holds bt lss
  | _                                      => True

end Op

-- The values that the status takes until it is `status`.
def trail : Status → List Status
  | .notConnected => []
  | .connected    => [.connected]
  | .hello        => [.connected, .hello]
  | .auth         => [.connected, .hello, .auth]
  | .data         => [.connected, .hello, .auth, .data]

def Event.status? : Event → Option Status
  | statusSet status => some status
  | _                => none

-- Whether an event is none of those that the invariant below excludes or counts.
def Event.isQuiet : Event → Bool
  | statusSet _ | encryptorNotInitialized => false
  | _                                     => true

-- An exchange packet with the authentication key of some local.
def Event.Accepts (cfg : Config) : Event → Prop
  | exchangeDecrypted plain =>
    32 ≤ plain.length ∧ plain.take 32 ∈ cfg.cipherAuthKeySet.map (·.val)
  | _ => False

namespace Session

-- The operations that are outstanding, and those whose handlers are running.
def ops (running : List Op) (s : Session) : List Op :=
  running ++ s.io.map (·.op)

-- The two chains and the attempts to reach the remote each have at most one operation, and before
-- the session is connected there is at most one of all these.
structure Inv (cfg : Config) (running : List Op) (s : Session) : Prop where
  chain : s.socks5State ≠ .connected → (ops running s).countP Op.inLeft +
    (ops running s).countP Op.inRight + (ops running s).countP Op.inConnect ≤ 1
  left : (ops running s).countP Op.inLeft ≤ 1
  right : (ops running s).countP Op.inRight ≤ 1
  connect : s.socks5State = .connected → (ops running s).countP Op.inConnect = 0
  fits : ∀ op ∈ ops running s, op.Fits s.status s.aesEncryptor.isSome
  buffered : ∀ op ∈ ops running s, op.Buffered
  queued : ∀ x ∈ s.io, ∀ o, x.outcome = some o → Completes x.op o
  processing : s.socks5State ≠ .opening → s.status = .data
  keyed : s.status = .data → s.aesEncryptor.isSome
  unkeyed : s.aesEncryptor.isSome → s.status = .auth ∨ s.status = .data
  cmd : s.socks5State = .connected ∨ 0 < (ops running s).countP Op.inConnect →
    s.socks5Cmd = .connect ∨ s.socks5Cmd = .udp
  reply : s.socks5State = .connected → s.socks5RespReply = 0x00
  refusal : s.socks5State ≠ .connected → 0 < (ops running s).countP Op.inRight →
    s.socks5RespReply ≠ 0x00
  accepted : s.aesEncryptor.isSome → ∃ e ∈ s.log, e.Accepts cfg
  trail : s.log.filterMap Event.status? = trail s.status
  encryptor : .encryptorNotInitialized ∉ s.log

variable {cfg : Config} {ch : Choice} {s t : Session} {op : Op} {o : Outcome} {run : List Op}

@[simp]
theorem ops_start (s : Session) (op : Op) :
    ops run (s.start op) = ops run s ++ [op] := by
  simp [ops]

@[simp]
theorem ops_abort (s : Session) (p : Op → Bool) : ops run (s.abort p) = ops run s := by
  simp [ops]

theorem ops_cons (s : Session) : ops (op :: run) s = op :: ops run s :=
  rfl

-- Taking an operation out of the queue only moves it.
theorem ops_dequeue {l r : List (Outstanding Op Outcome)} {x : Option Outcome}
    (h : s.io = l ++ ⟨op, x⟩ :: r) : (ops [op] { s with io := l ++ r }).Perm (ops [] s) := by
  simpa [ops, h] using List.perm_middle.symm

-- The completion of an operation leaves it outstanding.
theorem ops_complete {l r : List (Outstanding Op Outcome)} {x y : Option Outcome}
    (h : s.io = l ++ ⟨op, x⟩ :: r) : ops run { s with io := l ++ ⟨op, y⟩ :: r } = ops run s := by
  simp [ops, h]

namespace Inv

theorem note (i : Inv cfg run s) {e : Event} (h : e.isQuiet) : Inv cfg run (s.note e) := { i with
  accepted := by
    intro hk
    have ⟨e, he, ha⟩ := i.accepted hk
    exact ⟨e, by simp [he], ha⟩
  trail := by cases e <;> simp [Event.isQuiet, Event.status?, i.trail] at h ⊢
  encryptor := by cases e <;> simp [Event.isQuiet, i.encryptor] at h ⊢ }

theorem abort (i : Inv cfg run s) (p : Op → Bool) : Inv cfg run (s.abort p) := { i with
  chain := by simpa using i.chain
  left := by simpa using i.left
  right := by simpa using i.right
  connect := by simpa using i.connect
  fits := by simpa using i.fits
  buffered := by simpa using i.buffered
  cmd := by simpa using i.cmd
  refusal := by simpa using i.refusal
  queued := by
    intro x hx o ho
    have ⟨y, hy, he₁⟩ := List.mem_map.mp hx
    subst he₁
    rcases y.abort_outcome p (.error .operationAborted) with he | ⟨-, he⟩
    · simpa using i.queued y hy o (he ▸ ho)
    · rw [he] at ho
      cases ho
      exact .error }

theorem connecting (i : Inv cfg run s) (hd : s.status = .data) (hs : s.socks5State ≠ .connected) :
    Inv cfg run { s with socks5State := .connecting } := { i with
  chain := fun _ => i.chain hs
  connect := nofun
  processing := fun _ => hd
  cmd := fun h => i.cmd (.inr (h.resolve_left nofun))
  reply := nofun
  refusal := fun _ => i.refusal hs }

theorem expiresAt (i : Inv cfg run s) (n : Nat) : Inv cfg run { s with expiresAt := n } :=
  { i with }

-- The handler of `op` has ended without passing its turn on.
theorem drop (i : Inv cfg (op :: run) s) : Inv cfg run s := { i with
  chain := by
    intro h
    have := i.chain h
    simp only [ops_cons, List.countP_cons] at this
    omega
  left := by
    have := i.left
    simp only [ops_cons, List.countP_cons] at this
    omega
  right := by
    have := i.right
    simp only [ops_cons, List.countP_cons] at this
    omega
  connect := by
    intro h
    have := i.connect h
    simp only [ops_cons, List.countP_cons] at this
    omega
  fits := fun op h => i.fits op (by simp [ops_cons, h])
  buffered := fun op h => i.buffered op (by simp [ops_cons, h])
  cmd := by
    intro h
    refine i.cmd (h.imp_right fun h => ?_)
    simp only [ops_cons, List.countP_cons]
    omega
  refusal := by
    intro hs h
    refine i.refusal hs ?_
    simp only [ops_cons, List.countP_cons]
    omega }

theorem start_queued (i : Inv cfg run s) :
    ∀ x ∈ (s.start op).io, ∀ o, x.outcome = some o → Completes x.op o := by
  simpa [or_imp, forall_and] using i.queued

-- Starts an operation that belongs to none of the chains.
theorem startOther (i : Inv cfg run s) (op : Op) (hl : op.inLeft = false) (hr : op.inRight = false)
    (hc : op.inConnect = false) (hf : op.Fits s.status s.aesEncryptor.isSome) (hb : op.Buffered) :
    Inv cfg run (s.start op) := { i.note (e := .started op) (by rfl) with
  chain := by simpa [hl, hr, hc] using i.chain
  left := by simpa [hl] using i.left
  right := by simpa [hr] using i.right
  connect := by simpa [hc] using i.connect
  fits := by simpa [or_imp, forall_and, hf] using i.fits
  buffered := by simpa [or_imp, forall_and, hb] using i.buffered
  queued := i.start_queued
  cmd := by simpa [hc] using i.cmd
  refusal := by simpa [hr] using i.refusal }

-- Before the session is connected the handler that runs is the only one.
theorem alone (i : Inv cfg (op :: run) s) (hs : s.socks5State ≠ .connected)
    (h : op.inLeft ∨ op.inRight ∨ op.inConnect) :
    (ops run s).countP Op.inLeft = 0 ∧ (ops run s).countP Op.inRight = 0 ∧
      (ops run s).countP Op.inConnect = 0 := by
  have hi := i.chain hs
  simp only [ops_cons, List.countP_cons] at hi
  rcases h with h | h | h <;> simp only [h, if_true] at hi <;> omega

-- A handler passes its turn on to an operation of the same chain, or of any chain before the
-- session is connected.
theorem pass {op' : Op} (i : Inv cfg (op :: run) s)
    (h : op'.inLeft = op.inLeft ∧ op'.inRight = op.inRight ∧ op'.inConnect = op.inConnect ∨
      s.socks5State ≠ .connected ∧ (op.inLeft ∨ op.inRight ∨ op.inConnect))
    (hf : op'.Fits s.status s.aesEncryptor.isSome) (hb : op'.Buffered)
    (hc : op'.inConnect → s.socks5Cmd = .connect ∨ s.socks5Cmd = .udp)
    (hr : op'.inRight → s.socks5State ≠ .connected → s.socks5RespReply ≠ 0x00) :
    Inv cfg run (s.start op') := by
  have count : (∀ p, p = Op.inLeft ∨ p = Op.inRight ∨ p = Op.inConnect →
        (ops run s ++ [op']).countP p = (ops (op :: run) s).countP p) ∨
      s.socks5State ≠ .connected ∧ (ops run s ++ [op']).countP Op.inLeft +
        (ops run s ++ [op']).countP Op.inRight + (ops run s ++ [op']).countP Op.inConnect ≤ 1 := by
    rcases h with ⟨h₁, h₂, h₃⟩ | ⟨hs, h⟩
    case inl =>
      refine .inl fun p hp => ?_
      rcases hp with rfl | rfl | rfl <;> simp [ops_cons, List.countP_cons, h₁, h₂, h₃]
    case inr =>
      have ⟨h₁, h₂, h₃⟩ := i.alone hs h
      have := op'.inChain_le
      simp only [List.countP_append, List.countP_cons, List.countP_nil, h₁, h₂, h₃]
      exact .inr ⟨hs, by omega⟩
  exact { i.drop.note (e := .started op') (by rfl) with
    chain := by
      intro hs
      rcases count with h | ⟨-, h⟩
      · simpa only [ops_start, h _ (.inl rfl), h _ (.inr (.inl rfl)), h _ (.inr (.inr rfl))]
          using i.chain hs
      · simpa only [ops_start] using h
    left := by
      rw [ops_start]
      rcases count with h | ⟨-, h⟩
      · simpa only [h _ (.inl rfl)] using i.left
      · omega
    right := by
      rw [ops_start]
      rcases count with h | ⟨-, h⟩
      · simpa only [h _ (.inr (.inl rfl))] using i.right
      · omega
    connect := by
      intro hs
      rcases count with h | ⟨h, -⟩
      · simpa only [ops_start, h _ (.inr (.inr rfl))] using i.connect hs
      · exact absurd hs h
    fits := by simpa [or_imp, forall_and, hf] using i.drop.fits
    buffered := by simpa [or_imp, forall_and, hb] using i.drop.buffered
    queued := i.start_queued
    cmd := by
      rintro (hs | hs)
      · exact i.cmd (.inl hs)
      · by_cases hc' : op'.inConnect
        · exact hc hc'
        · exact i.drop.cmd (.inr (by simpa [hc'] using hs))
    refusal := by
      intro hs hp
      by_cases hr' : op'.inRight
      · exact hr hr' hs
      · exact i.drop.refusal hs (by simpa [hr'] using hp) }

-- A handler passes its turn on to an operation of the same chain.
theorem sameChain {op' : Op} (i : Inv cfg (op :: run) s) (hl : op'.inLeft = op.inLeft)
    (hr : op'.inRight = op.inRight) (hc : op.inConnect = false) (hc' : op'.inConnect = false)
    (hr' : s.socks5State ≠ .connected → op'.inRight = false)
    (hf : op'.Fits s.status s.aesEncryptor.isSome) (hb : op'.Buffered) :
    Inv cfg run (s.start op') :=
  i.pass (.inl ⟨hl, hr, by rw [hc, hc']⟩) hf hb (by simp [hc']) fun h hs => by simp [hr' hs] at h

section Reply

theorem request (i : Inv cfg [op] s) (hl : op.inLeft) (hd : s.status = .data)
    (hs : s.socks5State ≠ .connected) {rq : Socks5.Req} {name : Data} {cmd : Cmd} {reply : Byte} :
    Inv cfg [op] (s.requested rq name cmd reply) := by
  have ⟨h₁, h₂, h₃⟩ := i.alone hs (.inl hl)
  have ⟨hr, hc⟩ := op.inLeft_only hl
  exact { i.note (e := .socks5RequestProcessing rq) (by rfl) with
    chain := fun _ => i.chain hs
    connect := nofun
    processing := fun _ => hd
    cmd := by
      rintro (h | h)
      · cases h
      · have h₃ : (ops [] (s.requested rq name cmd reply)).countP Op.inConnect = 0 := h₃
        rw [ops_cons, List.countP_cons, h₃, hc] at h
        simp at h
    reply := nofun
    refusal := by
      intro _ h
      have h₂ : (ops [] (s.requested rq name cmd reply)).countP Op.inRight = 0 := h₂
      rw [ops_cons, List.countP_cons, h₂, hr] at h
      simp at h }

-- A session that goes on to send a reply.
theorem withReply (i : Inv cfg [op] s) (hc : op.inConnect) (name : Data) (reply : Byte) :
    Inv cfg [op] { s with destName := name, socks5RespReply := reply } := by
  have hs : s.socks5State ≠ .connected := by
    intro hs
    have := i.connect hs
    simp [ops_cons, hc] at this
  have ⟨_, h, _⟩ := i.alone hs (.inr (.inr hc))
  have hr : op.inRight = false := by
    have := op.inChain_le
    cases hr : op.inRight <;> simp [hr, hc] at this ⊢
  exact { i with
    reply := fun h => absurd h hs
    refusal := by
      intro _ h'
      change 0 < (ops [op] s).countP Op.inRight at h'
      rw [ops_cons, List.countP_cons, h, hr] at h'
      simp at h' }

theorem refuse (i : Inv cfg [op] s) (h : op.inLeft ∨ op.inConnect) (hd : s.status = .data)
    (hs : s.socks5State ≠ .connected) (hr : s.socks5RespReply ≠ 0x00) (data : Data) (lss : Packet) :
    Inv cfg [] (s.refuse data lss) := by
  have i := (i.note (e := .socks5Resp s.socks5RespReply) (by rfl)).note
    (e := .packed data) (by rfl)
  exact i.pass (.inr ⟨hs, h.imp_right .inr⟩) hd trivial (by simp [Op.inConnect]) fun _ _ => hr

-- The turn of the handler goes to both chains.
theorem accept (i : Inv cfg [op] s) (h : op.inLeft ∨ op.inConnect) (hd : s.status = .data)
    (hs : s.socks5State ≠ .connected) (hr : s.socks5RespReply = 0x00)
    (hc : s.socks5Cmd = .connect ∨ s.socks5Cmd = .udp) (data : Data) (lss : Packet) :
    Inv cfg [] (s.accept data lss) := by
  have ⟨h₁, h₂, h₃⟩ := i.alone hs (h.imp_right .inr)
  have i := (i.drop.note (e := .socks5Resp s.socks5RespReply) (by rfl)).note
    (e := .packed data) (by rfl)
  let u : Session :=
    { s.note (.socks5Resp s.socks5RespReply) with socks5State := .connected }.note (.packed data)
  have hu : ops [] u = ops [] s := rfl
  have iu : Inv cfg [.leftWrite lss .leftWriteHandler, .leftRead (.receiving maxLength) 0] u :=
    { i with
    chain := fun h => absurd rfl h
    left := by
      rw [ops_cons, ops_cons, hu, List.countP_cons, List.countP_cons, h₁]
      simp [Op.inLeft]
    right := by
      rw [ops_cons, ops_cons, hu, List.countP_cons, List.countP_cons, h₂]
      simp [Op.inRight]
    connect := by
      rw [ops_cons, ops_cons, hu, List.countP_cons, List.countP_cons, h₃]
      simp [Op.inConnect]
    fits := by
      intro op hop
      simp only [ops_cons, List.mem_cons] at hop
      rcases hop with rfl | rfl | hop
      · exact hd
      · exact .inr (.inr hd)
      · exact i.fits op hop
    buffered := by
      intro op hop
      simp only [ops_cons, List.mem_cons] at hop
      rcases hop with rfl | rfl | hop
      · trivial
      · exact pending_receiving le_rfl
      · exact i.buffered op hop
    processing := fun _ => hd
    cmd := fun _ => hc
    reply := fun _ => hr
    refusal := fun h => absurd rfl h }
  exact (iu.sameChain rfl rfl rfl rfl (fun h => absurd rfl h) hd trivial).sameChain rfl rfl rfl rfl
    (fun h => absurd rfl h) (.inr (.inr hd)) (pending_receiving le_rfl)

end Reply

section Handshake

theorem opening (i : Inv cfg run s) (hd : s.status ≠ .data) : s.socks5State = .opening := by
  by_contra h
  exact hd (i.processing h)

-- Before the exchange is completed, a handler that runs leaves nothing but farewells outstanding.
theorem farewells (i : Inv cfg [op] s) (hd : s.status ≠ .data)
    (h : op.inLeft ∨ op.inRight ∨ op.inConnect) : ∀ op' ∈ ops [] s, op'.isFarewell := by
  have hs : s.socks5State ≠ .connected := by
    intro hs
    exact hd (i.processing (by simp [hs]))
  have ⟨h₁, h₂, h₃⟩ := i.alone hs h
  simp only [List.countP_eq_zero] at h₁ h₂ h₃
  intro op' hop
  have h₁ := h₁ op' hop
  have h₂ := h₂ op' hop
  have h₃ := h₃ op' hop
  have hf := i.fits op' (by simp [ops_cons, hop])
  cases op'
  case leftWrite next => cases next <;> simp [Op.inLeft, Op.inRight, Op.isFarewell] at *
  case timerWait      => exact absurd hf hd
  all_goals simp [Op.inLeft, Op.inRight, Op.inConnect] at *

theorem fits_of_farewell {status : Status} {keyed : Bool} (h : op.isFarewell) :
    op.Fits status keyed := by
  cases op
  case leftWrite next => cases next <;> simp [Op.isFarewell] at h; trivial
  all_goals cases h

theorem count_farewells {l : List Op} (h : ∀ op ∈ l, op.isFarewell) :
    l.countP Op.inLeft = 0 ∧ l.countP Op.inRight = 0 ∧ l.countP Op.inConnect = 0 := by
  simp only [List.countP_eq_zero]
  refine ⟨?_, ?_, ?_⟩ <;>
  · intro op hop
    have := h op hop
    cases op
    case leftWrite next =>
      cases next <;> simp_all [Op.isFarewell, Op.inLeft, Op.inRight, Op.inConnect]
    all_goals cases this

-- The status moves on, and perhaps the encryptor is set, while only farewells are outstanding.
theorem advance (i : Inv cfg [] s) (hf : ∀ op ∈ ops [] s, op.isFarewell) {status : Status}
    (ht : Server.trail status = Server.trail s.status ++ [status]) (hd : s.status ≠ .data)
    (hk : status = .data → s.aesEncryptor.isSome)
    (hk' : s.aesEncryptor.isSome → status = .auth ∨ status = .data) :
    Inv cfg [] (s.setStatus status) := { i with
  fits := fun op hop => fits_of_farewell (hf op hop)
  processing := fun h => absurd (i.processing h) hd
  keyed := hk
  unkeyed := hk'
  accepted := by
    intro hk
    have ⟨e, he, ha⟩ := i.accepted hk
    exact ⟨e, by simp [he], ha⟩
  trail := by simp [Event.status?, i.trail, ht]
  encryptor := by simpa using i.encryptor }

-- While only farewells are outstanding, a handler can be given a turn in the left chain.
theorem adopt (i : Inv cfg [] s) (hf : ∀ op ∈ ops [] s, op.isFarewell)
    (hs : s.socks5State = .opening) (hl : op.inLeft)
    (h : op.Fits s.status s.aesEncryptor.isSome) (hb : op.Buffered) : Inv cfg [op] s := by
  have ⟨h₁, h₂, h₃⟩ := count_farewells hf
  have ⟨hr, hc⟩ := op.inLeft_only hl
  exact { i with
    chain := fun _ => by simp [ops_cons, h₁, h₂, h₃, hl, hr, hc]
    left := by simp [ops_cons, h₁, hl]
    right := by simp [ops_cons, h₂, hr]
    connect := fun h => by simp [hs] at h
    fits := by simpa [ops_cons, h] using i.fits
    buffered := by simpa [ops_cons, hb] using i.buffered
    cmd := by
      rintro (h | h)
      · simp [hs] at h
      · simp only [ops_cons, List.countP_cons, h₃, hc] at h
        simp at h
    refusal := by
      intro _ h
      simp only [ops_cons, List.countP_cons, h₂, hr] at h
      simp at h }

theorem start_setStatus {status : Status} (i : Inv cfg run ((s.setStatus status).start op)) :
    Inv cfg run ((s.start op).setStatus status) := { i with
  accepted := by
    intro h
    have ⟨e, he, ha⟩ := i.accepted h
    exact ⟨e, by simpa [or_assoc, or_comm, or_left_comm] using he, ha⟩
  trail := by simpa [Event.status?, List.filterMap_cons] using i.trail
  encryptor := by simpa using i.encryptor }

-- The handshake goes on: the session reads the next packet in the next status.
theorem proceed (i : Inv cfg [] s) (hf : ∀ op ∈ ops [] s, op.isFarewell)
    (hs : s.socks5State = .opening) {status : Status}
    (ht : Server.trail status = Server.trail s.status ++ [status]) (hd : s.status ≠ .data)
    (hk : status = .data → s.aesEncryptor.isSome)
    (hk' : s.aesEncryptor.isSome → status = .auth ∨ status = .data)
    (h : (Op.leftRead (.receiving lengthHandshake) 0).Fits status s.aesEncryptor.isSome) :
    Inv cfg [] ((s.start (.leftRead (.receiving lengthHandshake) 0)).setStatus status) := by
  have hp : Pending (.receiving lengthHandshake) 0 := pending_receiving (by decide)
  have i := (i.advance hf ht hd hk hk').adopt hf hs rfl h hp
  exact (i.sameChain rfl rfl rfl rfl (fun _ => rfl) h hp).start_setStatus

-- An accepted exchange sets the encryptor.
theorem exchange (i : Inv cfg [op] s) (hl : op.inLeft) (ha : s.status = .auth) {plain : Data}
    (hp : (Event.exchangeDecrypted plain).Accepts cfg) (aes : Crypto.Aes) (reply : Packet) :
    Inv cfg [] ({ s.note (.exchangeDecrypted plain) with aesEncryptor := some aes }.start
      (.leftWrite reply .exchangeHandler)) := by
  have hf := i.farewells (by simp [ha]) (.inl hl)
  have hs := i.opening (by simp [ha])
  have j : Inv cfg [] { s.note (.exchangeDecrypted plain) with aesEncryptor := some aes } :=
    { i.drop.note (e := .exchangeDecrypted plain) (by rfl) with
      fits := fun op hop => fits_of_farewell (hf op hop)
      keyed := fun _ => rfl
      unkeyed := fun _ => .inl ha
      accepted := fun _ => ⟨_, List.mem_append_right _ (List.mem_singleton_self _), hp⟩ }
  have hfit : (Op.leftWrite reply .exchangeHandler).Fits s.status true := ⟨ha, rfl⟩
  exact (j.adopt hf hs (by rfl) hfit trivial).sameChain rfl rfl rfl rfl (fun _ => rfl) hfit trivial

end Handshake

theorem sendBad (i : Inv cfg run s) : Inv cfg run s.sendBad :=
  i.startOther _ rfl rfl rfl trivial trivial

theorem cancel (i : Inv cfg run s) : Inv cfg run s.cancel :=
  (i.abort _).note (by rfl)

theorem timerRestart (i : Inv cfg run s) (hd : s.status = .data) :
    Inv cfg run (s.timerRestart cfg) :=
  ((i.abort Op.isTimerWait).expiresAt (s.now + cfg.timeout)).startOther .timerWait rfl rfl rfl hd
    trivial

theorem requestProcessed (i : Inv cfg [op] s) (hl : op.inLeft) (hd : s.status = .data)
    (hs : s.socks5State ≠ .connected) (h : RequestProcessed cfg s t) : Inv cfg [] t := by
  have req {rq : Socks5.Req} {name : Data} {cmd : Cmd} {reply : Byte} :
      Inv cfg [op] (s.requested rq name cmd reply) := i.request hl hd hs
  cases h
  case connect =>
    exact (req.timerRestart hd).pass (.inr ⟨nofun, .inl hl⟩) hd trivial (fun _ => .inl rfl) nofun
  case udp => exact req.pass (.inr ⟨nofun, .inl hl⟩) hd trivial (fun _ => .inr rfl) nofun
  case refused hr _ => exact req.refuse (.inl hl) hd nofun hr _ _
  case accepted => exact req.accept (.inl hl) hd nofun rfl (.inr rfl) _ _
  case cancel => exact req.drop.cancel
  case bad => exact req.drop.sendBad

theorem leftReadDone (i : Inv cfg [op] s) {bt : Nat} {lss : Packet} (e : LeftEntry op o bt lss)
    (hh : Holds bt lss) (h : LeftReadDone cfg ch s bt lss t) : Inv cfg [] t := by
  have hl : op.inLeft := by cases e <;> rfl
  have hr : op.inRight = false := by cases e <;> rfl
  have hc : op.inConnect = false := by cases e <;> rfl
  cases h
  case cancel => exact i.drop.cancel
  case short => exact i.drop.sendBad
  case wrongPacketType => exact i.drop.sendBad
  case more h₁ h₂ =>
    refine i.sameChain hl.symm hr.symm hc rfl (fun _ => rfl) ?_ (trim_pending hh h₁ h₂)
    cases e
    case read lss rest _ => exact i.fits (.leftRead lss rest) (List.mem_cons_self ..)
    case written p d     =>
      exact .inr (.inr (i.fits (.rightWrite p d (.readHandler bt lss)) (List.mem_cons_self ..)))
  case hello h _ => exact i.sameChain hl.symm hr.symm hc rfl (fun _ => rfl) h trivial
  case undecryptable => exact (i.drop.note (by rfl)).cancel
  case shortPlain => exact ((i.drop.note (by rfl)).note (by rfl)).cancel
  case deny => exact (i.drop.note (by rfl)).startOther _ rfl rfl rfl trivial trivial
  case assertion => exact (i.drop.note (by rfl)).note (by rfl)
  case exchange h _ _ hk hp =>
    have ⟨_, he, he₁, hlen⟩ := packExchange_some hp
    subst he he₁
    exact i.exchange hl h ⟨by simp at hlen; omega, hk⟩ _ _
  case badRequest h hs _ _ =>
    exact ((i.drop.note (by rfl)).connecting h hs).sendBad
  case request h hs _ _ r => exact (i.note (by rfl)).requestProcessed hl h hs r
  case forward h hs _ _ hb =>
    refine (i.note (by rfl)).sameChain hl.symm hr.symm hc rfl (fun _ => rfl) h ?_
    rw [writeNext_eq hh hb]
    split
    case isTrue     => trivial
    case isFalse hb => exact holds_cutPacket hh (by omega)
  case address => exact (i.drop.note (by rfl)).cancel
  case unsupported => exact (i.drop.note (by rfl)).sendBad

theorem not_connected (i : Inv cfg [op] s) (hc : op.inConnect) : s.socks5State ≠ .connected := by
  intro hs
  simpa [ops_cons, hc] using i.connect hs

theorem timerCancelled (i : Inv cfg run s) (p : Proto) : Inv cfg run (s.timerCancelled p) := by
  cases p
  case tcp => exact i.abort _
  case udp => exact i

theorem connecting' (i : Inv cfg [op] s) (hc : op.inConnect) (hd : s.status = .data) (e : Endpoint)
    (rest : List Endpoint) (p : Proto) : Inv cfg [] (Session.connecting cfg s e rest p) := by
  have hcmd := i.cmd (.inr (by simp [ops_cons, hc]))
  have hs := i.not_connected hc
  cases p
  case tcp =>
    exact (i.timerRestart hd).pass (.inr ⟨hs, .inr (.inr hc)⟩) hd trivial (fun _ => hcmd) nofun
  case udp => exact i.pass (.inr ⟨hs, .inr (.inr hc)⟩) hd trivial (fun _ => hcmd) nofun

theorem respToLocal (i : Inv cfg [op] s) (hc : op.inConnect) (hd : s.status = .data)
    {u : Session × Option Exn} (h : RespToLocal cfg s u) : Inv cfg [] u.1 := by
  have hcmd := i.cmd (.inr (by simp [ops_cons, hc]))
  have hs := i.not_connected hc
  cases h
  case threw          => exact i.drop
  case refused hr _   => exact i.refuse (.inr hc) hd hs hr _ _
  case accepted hr _  => exact i.accept (.inr hc) hd hs hr hcmd _ _

theorem delivered (i : Inv cfg [op] s) (he : ∀ {bt lss}, LeftEntry op o bt lss → Holds bt lss)
    (h : Delivered cfg ch s op o t) : Inv cfg [] t := by
  have hf := i.fits op (List.mem_cons_self ..)
  cases h
  case left e h  => exact i.leftReadDone e (he e) h
  case cancelled => exact i.drop.cancel
  case farewell  => exact i.drop.cancel
  case hello =>
    have hs : s.status ≠ .data := by simp [show s.status = .hello from hf]
    have hk : s.aesEncryptor.isSome = false := by
      rw [Bool.eq_false_iff]
      intro h
      rcases i.unkeyed h with h | h <;> simp [show s.status = .hello from hf] at h
    exact i.drop.proceed (i.farewells hs (.inl rfl)) (i.opening hs)
      (by simp [show s.status = .hello from hf, Server.trail]) hs nofun (by simp [hk])
      (.inr (.inl ⟨rfl, by simp [hk]⟩))
  case exchange =>
    have ⟨hs, hk⟩ : s.status = .auth ∧ s.aesEncryptor.isSome := hf
    have hs' : s.status ≠ .data := by simp [hs]
    exact i.drop.proceed (i.farewells hs' (.inl rfl)) (i.opening hs')
      (by simp [hs, Server.trail]) hs' (fun _ => hk) (fun _ => .inr rfl) (.inr (.inr rfl))
  case refused   => exact i.drop.cancel
  case replied h hs =>
    exact i.sameChain rfl rfl rfl rfl (fun h => absurd hs h) hf trivial
  case address => exact i.drop
  case again h hs =>
    exact absurd ⟨hf, i.refusal hs (by simp [ops_cons, Op.inRight])⟩ h
  case written hc =>
    exact i.sameChain rfl rfl rfl rfl (fun _ => rfl) (.inr (.inr hf)) (pending_receiving le_rfl)
  case unsupported => exact i.drop.sendBad
  case broken => exact i.drop.sendBad
  case relayed =>
    exact (i.note (by rfl)).pass (.inl ⟨rfl, rfl, rfl⟩) hf trivial nofun
      fun _ hs => i.refusal hs (by simp [ops_cons, Op.inRight])
  case timerIdle => exact i.drop
  case timeout => exact i.drop.startOther _ rfl rfl rfl trivial trivial
  case resolved p _ _ _ _ =>
    exact (i.timerCancelled p).connecting' rfl ((timerCancelled_status p).trans hf) _ _ _
  case unresolved p _ _ _ _ h =>
    exact ((i.timerCancelled p).withReply rfl (s.timerCancelled p).destName 0x04).respToLocal rfl
      ((timerCancelled_status p).trans hf) h
  case connected p _ rest _ h =>
    cases p
    case tcp => exact ((i.timerCancelled .tcp).withReply rfl _ _).respToLocal rfl hf h
    case udp =>
      have i : Inv cfg _ (s.connectedTo ch rest .udp) := i.withReply rfl _ _
      exact i.respToLocal rfl hf h
  case endOfList => exact i.drop.note rfl
  case retried p _ _ _ _ =>
    exact ((i.timerCancelled p).abort _).connecting' rfl ((timerCancelled_status p).trans hf) _ _ _
  case unreachable p _ _ _ h =>
    exact ((i.timerCancelled p).withReply rfl (s.timerCancelled p).destName 0x03).respToLocal rfl
      ((timerCancelled_status p).trans hf) h

-- The same operations in another order, and with other completions queued.
theorem reorder (i : Inv cfg [] s) {io : List (Outstanding Op Outcome)}
    (hp : (ops run { s with io := io }).Perm (ops [] s))
    (hq : ∀ x ∈ io, ∀ o, x.outcome = some o → Completes x.op o) :
    Inv cfg run { s with io := io } := { i with
  chain := by simpa only [hp.countP_eq] using i.chain
  left := by simpa only [hp.countP_eq] using i.left
  right := by simpa only [hp.countP_eq] using i.right
  connect := by simpa only [hp.countP_eq] using i.connect
  fits := fun op h => i.fits op (hp.mem_iff.mp h)
  buffered := fun op h => i.buffered op (hp.mem_iff.mp h)
  queued := hq
  cmd := by simpa only [hp.countP_eq] using i.cmd
  refusal := by simpa only [hp.countP_eq] using i.refusal }

-- Takes an operation out of the queue in order to run its handler.
theorem dequeue {l r : List (Outstanding Op Outcome)} (i : Inv cfg [] s)
    (h : s.io = l ++ ⟨op, some o⟩ :: r) : Inv cfg [op] { s with io := l ++ r } := by
  refine i.reorder (ops_dequeue h) fun x hx => i.queued x ?_
  simp only [h, List.mem_append, List.mem_cons] at hx ⊢
  tauto

theorem complete {l r : List (Outstanding Op Outcome)} (i : Inv cfg [] s)
    (h : s.io = l ++ ⟨op, none⟩ :: r) (c : Completes op o) :
    Inv cfg [] { s with io := l ++ ⟨op, some o⟩ :: r } := by
  refine i.reorder (by simp [ops, h]) fun x hx o' ho => ?_
  simp only [List.mem_append, List.mem_cons] at hx
  rcases hx with hx | rfl | hx
  · exact i.queued x (by simp [h, hx]) o' ho
  · cases ho
    exact c
  · exact i.queued x (by simp [h, hx]) o' ho

theorem start (i : Inv cfg [] s) (hs : s.status = .notConnected) (remoteError : Bool) :
    Inv cfg [] (s.startSession remoteError) := by
  have hd : s.status ≠ .data := by simp [hs]
  have hk : s.aesEncryptor.isSome = false := by
    rw [Bool.eq_false_iff]
    intro h
    rcases i.unkeyed h with h | h <;> simp [hs] at h
  have hf : ∀ op ∈ ops [] s, op.isFarewell := by
    intro op hop
    have h := i.fits op hop
    rw [hs] at h
    cases op
    case leftWrite next => cases next <;> simp [Op.Fits, Op.isFarewell] at h ⊢
    all_goals simp [Op.Fits] at h
  cases remoteError
  case true  => exact i
  case false =>
    have j : Inv cfg [] (s.setStatus .connected) :=
      i.advance hf (by simp [hs, Server.trail]) hd nofun (by simp [hk])
    exact j.proceed hf (i.opening hd) rfl nofun nofun (by simp [hk]) (.inl rfl)

theorem holds (i : Inv cfg [op] s) (c : Completes op o) {bt : Nat} {lss : Packet}
    (e : LeftEntry op o bt lss) : Holds bt lss := by
  have hb := i.buffered op (List.mem_cons_self ..)
  cases e
  case read    => cases c with | leftRead _ le => exact entry_holds hb le
  case written => exact hb

theorem deliver (i : Inv cfg [op] s) (c : Completes op o) :
    Delivered cfg ch s op o (s.deliver cfg ch op o) := by
  refine deliver_delivered c (i.holds c) i.keyed fun h => ?_
  have hf := i.fits op (List.mem_cons_self ..)
  cases op
  case leftWrite next => cases next <;> simp [Op.afterAuth] at h; exact hf
  case leftRead       => cases h
  all_goals exact hf

-- What the handler of a queued completion does.
theorem deliver_queued {l r : List (Outstanding Op Outcome)} (i : Inv cfg [] s)
    (h : s.io = l ++ ⟨op, some o⟩ :: r) :
    Delivered cfg ch { s with io := l ++ r } op o ({ s with io := l ++ r }.deliver cfg ch op o) :=
  (i.dequeue h).deliver (i.queued ⟨op, some o⟩ (by simp [h]) o rfl)

end Inv

theorem inv_initial (h : s.Initial) : Inv cfg [] s where
  chain := by simp [ops, h.io]
  left := by simp [ops, h.io]
  right := by simp [ops, h.io]
  connect := by simp [ops, h.io]
  fits := by simp [ops, h.io]
  buffered := by simp [ops, h.io]
  queued := by simp [h.io]
  processing := fun hs => absurd h.socks5State hs
  keyed := by simp [h.status]
  unkeyed := by simp [h.aesEncryptor]
  cmd := by simp [ops, h.io, h.socks5State]
  reply := by simp [h.socks5State]
  refusal := by simp [ops, h.io]
  accepted := by simp [h.aesEncryptor]
  trail := by simp [h.log, h.status, Server.trail]
  encryptor := by simp [h.log]

theorem inv_step {lb : Label} (i : Inv cfg [] s) (e : Step cfg s lb t) : Inv cfg [] t := by
  cases e
  case start h        => exact i.start h _
  case complete h c _ => exact i.complete h c
  case tick           => exact { i with }
  case deliver op o ch h =>
    have c := i.queued ⟨op, some o⟩ (by simp [h]) o rfl
    have j := i.dequeue h
    exact j.delivered (j.holds c) (j.deliver c)

theorem inv_reachable (r : Reachable cfg s) : Inv cfg [] s :=
  Transition.Invariant.reachable ⟨inv_initial, inv_step⟩ r

end Session
end Lproxy.Server
