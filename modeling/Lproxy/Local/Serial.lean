import Lproxy.Local.Invariants
import Lproxy.Local.Schedule

-- The operations of a local session on its two sockets.
namespace Lproxy.Local

inductive Socket
  | left
  | right
  deriving DecidableEq

inductive Kind
  | read
  | write
  deriving DecidableEq

namespace Op

-- The socket that an operation reads from or writes to.
def on : Op → Option (Socket × Kind)
  | rightRead ..                    => some (.right, .read)
  | rightWrite ..                   => some (.right, .write)
  | leftRead _                      => some (.left, .read)
  | leftWrite ..                    => some (.left, .write)
  | resolve | connectAny .. | connect .. => none

-- The chain from the server to the client.
def inRight : Op → Bool
  | rightRead .. | leftWrite _ (.relay _) => true
  | _                                     => false

-- The chain from the client to the server, and what comes before the chains fork.
def inLeft (op : Op) : Bool :=
  !op.inRight

theorem inChain_eq (op : Op) :
    (if op.inLeft then 1 else 0) + (if op.inRight then 1 else 0) = 1 := by
  cases h : op.inRight <;> simp [inLeft, h]

-- The operations of the greeting, after which the chains fork.
def inGreeting : Op → Bool
  | leftRead next    => next = .leftReadSocks5Step1
  | leftWrite _ next => next = .leftWriteSocks5Step1Handler
  | _                => false

theorem length_eq (l : List Op) : l.length = l.countP inLeft + l.countP inRight := by
  induction l
  case nil           => rfl
  case cons op l ih  =>
    have := op.inChain_eq
    simp only [List.length_cons, List.countP_cons]
    omega

theorem inLeft_of_inGreeting {op : Op} (h : op.inGreeting) : op.inLeft := by
  cases op
  case leftRead       => rfl
  case leftWrite next => cases next <;> simp [inGreeting] at h ⊢; rfl
  all_goals cases h

end Op

def Event.started? : Event → Option Op
  | started op => some op
  | _          => none

-- The operation that has ended when a handler runs.
def Label.ended? : Label → Option Op
  | deliver op .. => some op
  | _             => none

namespace Session

variable {cfg : Config} {ch : Choice} {s t : Session} {op : Op} {o : Outcome} {run : List Op}

-- Each of the two chains has at most one operation, and until they fork there is at most one.
structure Serial (running : List Op) (s : Session) : Prop where
  left : (ops running s).countP Op.inLeft ≤ 1
  right : (ops running s).countP Op.inRight ≤ 1
  single : s.status ≠ .data ∨ 0 < (ops running s).countP Op.inGreeting →
    (ops running s).countP Op.inLeft + (ops running s).countP Op.inRight ≤ 1

namespace Serial

-- Sessions that differ in nothing but the fields that the chains do not depend on.
theorem of_ops (i : Serial run s) (ho : ops run t = ops run s)
    (hs : s.status = .data → t.status = .data) : Serial run t where
  left := ho ▸ i.left
  right := ho ▸ i.right
  single := by
    rw [ho]
    exact fun h => i.single (h.imp_left fun h hd => h (hs hd))

theorem drop (i : Serial (op :: run) s) : Serial run s where
  left := by
    have := i.left
    simp only [ops_cons, List.countP_cons] at this
    omega
  right := by
    have := i.right
    simp only [ops_cons, List.countP_cons] at this
    omega
  single := by
    intro h
    have := i.single (h.imp_right fun h => by simp only [ops_cons, List.countP_cons]; omega)
    simp only [ops_cons, List.countP_cons] at this
    omega

-- Before the chains fork, the operation whose handler runs is the only one.
theorem alone (i : Serial (op :: run) s) (h : s.status ≠ .data ∨ op.inGreeting) :
    (ops run s).countP Op.inLeft = 0 ∧ (ops run s).countP Op.inRight = 0 := by
  have hi := i.single (h.imp_right fun h => by simp [ops_cons, h])
  have := op.inChain_eq
  simp only [ops_cons, List.countP_cons] at hi
  omega

-- A handler passes its turn on to an operation of its chain, or to any operation before the fork.
theorem pass {op' : Op} (i : Serial (op :: run) s)
    (h : op'.inRight = op.inRight ∨ s.status ≠ .data ∨ op.inGreeting)
    (hg : op'.inGreeting → s.status ≠ .data ∨ op.inGreeting) : Serial run (s.start op') := by
  by_cases ha : s.status ≠ .data ∨ op.inGreeting
  case pos =>
    have ⟨hl, hr⟩ := i.alone ha
    constructor <;> simp [hl, hr, Op.inLeft] <;> cases op'.inRight <;> simp
  case neg =>
    have hr := h.resolve_right ha
    have hg : op'.inGreeting = false := by simpa using mt hg ha
    have hl : op'.inLeft = op.inLeft := by simp [Op.inLeft, hr]
    have hs : s.status = .data := by simpa using not_or.mp ha |>.1
    exact {
      left := by simpa [ops_cons, List.countP_cons, hl] using i.left
      right := by simpa [ops_cons, List.countP_cons, hr] using i.right
      single := by
        rintro (h | h)
        · exact absurd hs h
        · have hp : 0 < (ops run s).countP Op.inGreeting := by
            simpa only [ops_start, List.countP_append, List.countP_singleton, hg,
              Bool.false_eq_true, if_false, Nat.add_zero] using h
          have := i.single (.inr (by rw [ops_cons, List.countP_cons]; omega))
          simpa [ops_cons, List.countP_cons, hl, hr] using this }

-- The chains fork.
theorem fork {next next' : Op} (i : Serial (op :: run) s) (hop : op.inGreeting)
    (hd : s.status = .data) (hl : next.inRight = false) (hr : next'.inRight)
    (hg : next.inGreeting = false) (hg' : next'.inGreeting = false) :
    Serial run ((s.start next).start next') := by
  have ⟨h₁, h₂⟩ := i.alone (.inr hop)
  have hz : (ops run s).countP Op.inGreeting = 0 := by
    have hle : (ops run s).countP Op.inGreeting ≤ (ops run s).countP Op.inLeft :=
      List.countP_mono_left fun _ _ => Op.inLeft_of_inGreeting
    omega
  exact {
    left := by simp [h₁, Op.inLeft, hl, hr]
    right := by simp [h₂, hl, hr]
    single := by
      rintro (h | h)
      · exact absurd hd h
      · simp [hz, hg, hg'] at h }

theorem cancel (i : Serial run s) : Serial run s.cancel :=
  i.of_ops (by simp [ops]) id

-- A handler passes its turn on to an operation of its chain.
theorem sameChain {op' : Op} (i : Serial (op :: run) s) (h : op'.inRight = op.inRight)
    (hg : op'.inGreeting = false) : Serial run (s.start op') :=
  i.pass (.inl h) (by simp [hg])

theorem rightReadDone (i : Serial [op] s) {bt : Nat} {lss : Packet} (e : RightEntry op o bt lss)
    (h : RightReadDone cfg ch s bt lss t) : Serial [] t := by
  have hr : op.inRight := by cases e <;> rfl
  cases h
  case cancel        => exact i.drop.cancel
  case more          => exact i.sameChain hr.symm rfl
  case helloFault    => exact i.drop.cancel.of_ops rfl id
  case encryptFault  => exact i.drop.cancel.of_ops rfl id
  case encryptFailed => exact i.drop.cancel.of_ops rfl id
  case hello h _ _ hp =>
    have ⟨he, _⟩ := packExchange_ok hp
    subst he
    exact pass (i.of_ops rfl id) (.inr (.inl (by simp [h]))) nofun
  case exchangeFault => exact i.drop.cancel.of_ops rfl id
  case illegalServer => exact i.drop.cancel.of_ops rfl id
  case exchange key h _ _ _ =>
    have hs : s.status ≠ .data := by simp [h]
    have j : Serial [] ({ s with dataKey := some key }.start (.leftRead .leftReadSocks5Step1)) :=
      pass (i.of_ops rfl id) (.inr (.inl hs)) fun _ => .inl hs
    exact j.of_ops rfl fun _ => rfl
  case assertion     => exact i.drop.of_ops rfl id
  case relay         => exact sameChain (i.of_ops rfl id) hr.symm rfl

theorem delivered (i : Serial [op] s) (j : Inv cfg [op] s) (h : Delivered cfg ch s op o t) :
    Serial [] t := by
  have hf := j.fits op (List.mem_cons_self ..)
  cases h
  case right e h   => exact i.rightReadDone e h
  case cancelled   => exact i.drop.cancel
  case broken h    =>
    refine i.sameChain ?_ rfl
    cases op
    case leftWrite next => cases next <;> simp [Op.sendsBadOnError] at h; rfl
    case rightRead      => cases h
    all_goals rfl
  case farewell    => exact i.drop.cancel
  case unreachable => exact i.drop.cancel
  case resolved    => exact i.sameChain rfl rfl
  case connected h =>
    have hr : op.inRight = false := by rcases h with ⟨_, _, rfl⟩ | ⟨_, _, rfl⟩ <;> rfl
    have hs : s.status ≠ .data := by
      rcases h with ⟨_, _, rfl⟩ | ⟨_, _, rfl⟩ <;> simp [show s.status = .notConnected from hf]
    exact sameChain (i.of_ops rfl fun h => absurd h hs) hr.symm rfl
  case retried e rest h =>
    have hr : op.inRight = false := by cases h <;> rfl
    exact sameChain (i.of_ops (by simp [ops]) id) hr.symm rfl
  case hello =>
    have hs : s.status ≠ .data := by simp [show s.status = .connected from hf]
    exact (i.pass (.inr (.inl hs)) fun h => by cases h).of_ops rfl fun h => absurd h hs
  case exchange =>
    have hs : s.status ≠ .data := by simp [show s.status = .hello from hf]
    exact (i.pass (.inr (.inl hs)) fun h => by cases h).of_ops rfl fun h => absurd h hs
  case greeted     => exact i.pass (.inl rfl) fun _ => .inr rfl
  case badGreeting => exact i.sameChain rfl rfl
  case opened      => exact i.fork rfl hf rfl rfl rfl rfl
  case packed      => exact sameChain (i.of_ops rfl id) rfl rfl
  case assertion   => exact i.drop.of_ops rfl id
  case written     => exact i.sameChain rfl rfl
  case relayed     => exact i.sameChain rfl rfl

-- The same operations in another order.
theorem reorder (i : Serial [] s) {io : List (Outstanding Op Outcome)}
    (hp : (ops run { s with io := io }).Perm (ops [] s)) : Serial run { s with io := io } where
  left := by simpa only [hp.countP_eq] using i.left
  right := by simpa only [hp.countP_eq] using i.right
  single := by simpa only [hp.countP_eq] using i.single

end Serial

theorem serial_step {lb : Label} (r : Reachable cfg s) (i : Serial [] s) (e : Step cfg s lb t) :
    Serial [] t := by
  cases e
  case start remoteError h =>
    subst h
    cases remoteError
    case true  => exact i
    case false => constructor <;> simp [startSession, ops, initial, Op.inLeft, Op.inRight]
  case complete h _ => exact i.reorder (by rw [ops_complete h])
  case deliver h =>
    have j := inv_reachable r
    exact (i.reorder (ops_dequeue h)).delivered (j.dequeue h) (j.deliver_queued h)

theorem serial_reachable (r : Reachable cfg s) : Serial [] s := by
  induction r
  case init h      =>
    subst h
    constructor <;> simp [ops, initial]
  case step r e hi => exact serial_step r hi e

section Order

-- What a handler starts is both outstanding and in the log.
def Starts (s t : Session) : Prop :=
  ∃ new, ops [] t = ops [] s ++ new ∧
    t.log.filterMap Event.started? = s.log.filterMap Event.started? ++ new

namespace Starts

theorem refl (s : Session) : Starts s s :=
  ⟨[], by simp, by simp⟩

theorem start (h : Starts s t) (op : Op) : Starts s (t.start op) := by
  have ⟨new, ho, hl⟩ := h
  exact ⟨new ++ [op], by simp [ho], by simp [hl, Event.started?]⟩

theorem note (h : Starts s t) {e : Event} (he : e.started? = none) : Starts s (t.note e) := by
  have ⟨new, ho, hl⟩ := h
  exact ⟨new, ho, by simp [hl, he]⟩

theorem abort (h : Starts s t) (p : Op → Bool) : Starts s (t.abort p) := by
  have ⟨new, ho, hl⟩ := h
  exact ⟨new, by simp [ho], hl⟩

theorem cancel (h : Starts s t) : Starts s t.cancel :=
  (h.abort _).note rfl

theorem setStatus (h : Starts s t) (status : Status) : Starts s (t.setStatus status) := by
  have ⟨new, ho, hl⟩ := h
  exact ⟨new, ho, by simp [hl, Event.started?]⟩

end Starts

theorem rightReadDone_starts {bt : Nat} {lss : Packet} (h : RightReadDone cfg ch s bt lss t) :
    Starts s t := by
  have i := Starts.refl s
  cases h
  case cancel        => exact i.cancel
  case more          => exact i.start _
  case helloFault    => exact (i.note rfl).cancel
  case encryptFault  => exact (i.note rfl).cancel
  case encryptFailed => exact i.cancel
  case hello hp =>
    have ⟨he, _⟩ := packExchange_ok hp
    subst he
    exact i.start _
  case exchangeFault => exact (i.note rfl).cancel
  case illegalServer => exact i.cancel
  case exchange      => exact (i.start _).setStatus _
  case assertion     => exact i.note rfl
  case relay         => exact (i.note rfl).start _

theorem delivered_starts (h : Delivered cfg ch s op o t) : Starts s t := by
  have i := Starts.refl s
  cases h
  case right h     => exact rightReadDone_starts h
  case cancelled   => exact i.cancel
  case broken      => exact i.start _
  case farewell    => exact i.cancel
  case resolved    => exact i.start _
  case connected   => exact (i.setStatus _).start _
  case retried     => exact (i.abort _).start _
  case unreachable => exact i.cancel
  case hello       => exact (i.start _).setStatus _
  case exchange    => exact (i.start _).setStatus _
  case greeted     => exact i.start _
  case badGreeting => exact i.start _
  case opened      => exact (i.start _).start _
  case packed      => exact (i.note rfl).start _
  case assertion   => exact i.note rfl
  case written     => exact i.start _
  case relayed     => exact i.start _

variable (k : Socket × Kind)

-- The operations of a kind on a socket.
def only (l : List Op) : List Op :=
  l.filter fun op => op.on = some k

-- Those that are outstanding, those that a session has started, and those that have ended in a run.
def outstandingOn (s : Session) : List Op :=
  only k (ops [] s)

def startedOn (s : Session) : List Op :=
  only k (s.log.filterMap Event.started?)

def endedOn (tr : List (Session × Label)) : List Op :=
  only k (tr.filterMap fun p => p.2.ended?)

@[simp]
theorem only_append (l r : List Op) : only k (l ++ r) = only k l ++ only k r :=
  List.filter_append ..

theorem outstandingOn_le (i : Serial [] s) : (outstandingOn k s).length ≤ 1 := by
  have count {p : Op → Bool} (hp : ∀ op ∈ ops [] s, op.on = some k → p op) :
      (outstandingOn k s).length ≤ (ops [] s).countP p := by
    rw [outstandingOn, only, ← List.countP_eq_length_filter]
    exact List.countP_mono_left fun op hop h => hp op hop (of_decide_eq_true h)
  rcases k with ⟨_ | _, _ | _⟩
  case left.read   => exact (count fun op _ h => by cases op <;> cases h; rfl).trans i.left
  case right.read  => exact (count fun op _ h => by cases op <;> cases h; rfl).trans i.right
  case right.write => exact (count fun op _ h => by cases op <;> cases h; rfl).trans i.left
  case left.write  =>
    -- The answer to the greeting belongs to the one chain, and what is written later to the other.
    by_cases hg : 0 < (ops [] s).countP Op.inGreeting
    case pos =>
      have hs := i.single (.inr hg)
      rw [← Op.length_eq] at hs
      exact (List.length_filter_le ..).trans hs
    case neg =>
      have hz := List.countP_eq_zero.mp (Nat.eq_zero_of_not_pos hg)
      refine (count fun op hop h => ?_).trans i.right
      cases op
      case leftWrite next =>
        cases next
        case relay                      => rfl
        case leftWriteSocks5Step1Handler => exact absurd rfl (hz _ hop)
      all_goals cases h

theorem ordered_quiet {tr : List (Session × Label)} {lb : Label} (hs : Starts s t)
    (hb : lb.ended? = none) (ht : startedOn k s = endedOn k tr ++ outstandingOn k s) :
    startedOn k t = endedOn k (tr ++ [(s, lb)]) ++ outstandingOn k t := by
  have ⟨new, ho, hl⟩ := hs
  calc startedOn k t
    _ = startedOn k s ++ only k new := by rw [startedOn, hl, only_append]; rfl
    _ = endedOn k tr ++ outstandingOn k t := by
      rw [ht, List.append_assoc, outstandingOn, outstandingOn, ho, only_append]
    _ = _ := by simp [endedOn, hb]

theorem append_left_comm {a b c : List Op} (h : (a ++ (b ++ c)).length ≤ 1) :
    b ++ (a ++ c) = a ++ (b ++ c) := by
  cases a
  case nil => rfl
  case cons =>
    cases b
    case nil  => rfl
    case cons => simp at h

-- Only one operation of a kind is outstanding on a socket, so it is that one whose handler runs.
theorem ordered_deliver {l r : List (Outstanding Op Outcome)} {tr : List (Session × Label)}
    (i : Serial [] s) (h : s.io = l ++ ⟨op, some o⟩ :: r)
    (hs : Starts { s with io := l ++ r } t)
    (ht : startedOn k s = endedOn k tr ++ outstandingOn k s) :
    startedOn k t = endedOn k (tr ++ [(s, .deliver op o ch)]) ++ outstandingOn k t := by
  have ⟨new, ho, hl⟩ := hs
  have hle := outstandingOn_le k i
  have he : endedOn k (tr ++ [(s, .deliver op o ch)]) = endedOn k tr ++ only k [op] := by
    simp [endedOn, Label.ended?]
  have hn : outstandingOn k t = only k ((l ++ r).map (·.op)) ++ only k new := by
    rw [outstandingOn, ho, only_append]
    rfl
  have hm : only k [op] ++ only k ((l ++ r).map (·.op)) = outstandingOn k s := by
    have hi : outstandingOn k s =
        only k (l.map (·.op)) ++ (only k [op] ++ only k (r.map (·.op))) := by
      simp only [← only_append]
      simp [outstandingOn, ops, h]
    rw [hi] at hle ⊢
    simpa using append_left_comm hle
  calc startedOn k t
    _ = startedOn k s ++ only k new := by rw [startedOn, hl, only_append]; rfl
    _ = _ := by rw [ht, ← hm, he, hn]; simp only [List.append_assoc]

end Order

-- At most one read and at most one write are outstanding on each of the two sockets, in every state
-- of every run, and the operations of a kind on a socket end in the order in which they start.
theorem one_operation_each {tr : List (Session × Label)}
    (r : Transition.Run (Step cfg) initial tr s) (k : Socket × Kind) :
    (outstandingOn k s).length ≤ 1 ∧ startedOn k s = endedOn k tr ++ outstandingOn k s := by
  refine ⟨outstandingOn_le k (serial_reachable (r.reachable rfl)), ?_⟩
  induction r
  case nil => rfl
  case snoc s t tr lb r e ih =>
    have hr : Reachable cfg s := r.reachable rfl
    cases e
    case start remoteError h =>
      refine ordered_quiet k ?_ rfl ih
      cases remoteError
      case true  => exact .refl _
      case false => exact (Starts.refl _).start _
    case complete h _ => exact ordered_quiet k ⟨[], by simp [ops, h], by simp⟩ rfl ih
    case deliver h    =>
      exact ordered_deliver k (serial_reachable hr) h
        (delivered_starts ((inv_reachable hr).deliver_queued h)) ih

-- Both chains of a session that has answered the greeting are reading.
theorem one_operation_each_forked : ∃ (s : Session) (tr : List (Session × Label)),
    Transition.Run (Step sampleConfig) initial tr s ∧ s.status = .data ∧
      ∀ k, (outstandingOn k s).length ≤ 1 ∧
        startedOn k s = endedOn k tr ++ outstandingOn k s := by
  have ⟨s, r, h⟩ := exists_sampleRun (handshake ++ greeting)
    (fun s => s.status = .data ∧ s.io.length = 2) (by decide +kernel)
  have ⟨_, tr, hs, r⟩ := r.exists_run
  subst hs
  exact ⟨s, tr, r, (of_decide_eq_true h).1, one_operation_each r⟩

end Session
end Lproxy.Local
