import Lproxy.Local.Deliver

-- What holds in every reachable state of a local session.
namespace Lproxy.Local

namespace Op

-- A write after which the session cancels.
def isFarewell : Op → Bool
  | rightWrite _ next => next = .cancel
  | _                 => false

def inWork (op : Op) : Bool :=
  !op.isFarewell

-- The status that an operation is outstanding in.
def Fits (status : Status) : Op → Prop
  | resolve | connectAny .. | connect .. => status = .notConnected
  | rightWrite _ .helloHandler           => status = .connected
  | rightWrite _ .exchangeHandler        => status = .hello
  | rightWrite _ .cancel                 => True
  | rightRead ..                         => status = .hello ∨ status = .auth ∨ status = .data
  | _                                    => status = .data

-- The buffers of an operation.
def Buffered : Op → Prop
  | rightRead lss rest                           => Pending lss rest
  | leftWrite _ (.relay (.readHandler bt lss))   => Holds bt lss
  | _                                            => True

end Op

namespace Session

-- The operations that are outstanding, and those whose handlers are running.
def ops (running : List Op) (s : Session) : List Op :=
  running ++ s.io.map (·.op)

-- Until the exchange is completed a session has at most one operation besides farewells.
structure Inv (cfg : Config) (running : List Op) (s : Session) : Prop where
  chain : s.status ≠ .data → (ops running s).countP Op.inWork ≤ 1
  fits : ∀ op ∈ ops running s, op.Fits s.status
  buffered : ∀ op ∈ ops running s, op.Buffered
  queued : ∀ x ∈ s.io, ∀ o, x.outcome = some o → Completes x.op o
  keyed : s.status = .data → s.dataKey.isSome
  aes : ∀ aes, s.aesEncryptor = some aes →
    s.status = .data ∧ s.dataKey.map (Crypto.Aes.raw256 cfg.cpp) = some aes

variable {cfg : Config} {ch : Choice} {s t : Session} {op : Op} {o : Outcome} {run : List Op}

@[simp]
theorem ops_start (s : Session) (op : Op) : ops run (s.start op) = ops run s ++ [op] := by
  simp [ops]

@[simp]
theorem ops_abort (s : Session) (p : Op → Bool) : ops run (s.abort p) = ops run s := by
  simp [ops]

theorem ops_cons (s : Session) : ops (op :: run) s = op :: ops run s :=
  rfl

-- Taking an operation out of the queue only moves it.
theorem ops_dequeue {l r : List (Outstanding Op Outcome)} {x : Option Outcome}
    (h : s.io = l ++ ⟨op, x⟩ :: r) : (ops [op] { s with io := l ++ r }).Perm (ops [] s) := by
  simpa [ops, h] using List.perm_middle.symm

-- The completion of an operation leaves it outstanding.
theorem ops_complete {l r : List (Outstanding Op Outcome)} {x y : Option Outcome}
    (h : s.io = l ++ ⟨op, x⟩ :: r) : ops run { s with io := l ++ ⟨op, y⟩ :: r } = ops run s := by
  simp [ops, h]

namespace Inv

theorem note (i : Inv cfg run s) (e : Event) : Inv cfg run (s.note e) :=
  { i with }

theorem abort (i : Inv cfg run s) (p : Op → Bool) : Inv cfg run (s.abort p) := { i with
  chain := by simpa using i.chain
  fits := by simpa using i.fits
  buffered := by simpa using i.buffered
  queued := by
    intro x hx o ho
    have ⟨y, hy, hs⟩ := List.mem_map.mp hx
    subst hs
    rcases y.abort_outcome p (.error .operationAborted) with he | ⟨-, he⟩
    · simpa using i.queued y hy o (he ▸ ho)
    · rw [he] at ho
      cases ho
      exact .error }

theorem randomStr (i : Inv cfg run s) (r : Data) : Inv cfg run { s with randomStr := r } :=
  { i with }

theorem drop (i : Inv cfg (op :: run) s) : Inv cfg run s := { i with
  chain := by
    intro h
    have := i.chain h
    simp only [ops_cons, List.countP_cons] at this
    omega
  fits := fun op h => i.fits op (by simp [ops_cons, h])
  buffered := fun op h => i.buffered op (by simp [ops_cons, h]) }

theorem start_queued (i : Inv cfg run s) :
    ∀ x ∈ (s.start op).io, ∀ o, x.outcome = some o → Completes x.op o := by
  simpa [or_imp, forall_and] using i.queued

theorem startFarewell (i : Inv cfg run s) (lss : Packet) :
    Inv cfg run (s.start (.rightWrite lss .cancel)) := { i with
  chain := by simpa [Op.inWork, Op.isFarewell] using i.chain
  fits := by simpa [or_imp, forall_and, Op.Fits] using i.fits
  buffered := by simpa [or_imp, forall_and, Op.Buffered] using i.buffered
  queued := i.start_queued }

-- A handler passes its turn on.
theorem pass {op' : Op} (i : Inv cfg (op :: run) s) (hw : op.inWork) (hf : op'.Fits s.status)
    (hb : op'.Buffered) : Inv cfg run (s.start op') := { i.drop with
  chain := by
    intro h
    have hi := i.chain h
    simp only [ops_cons, List.countP_cons, hw, if_true] at hi
    simp only [ops_start, List.countP_append, List.countP_cons, List.countP_nil]
    split <;> omega
  fits := by simpa [or_imp, forall_and, hf] using i.drop.fits
  buffered := by simpa [or_imp, forall_and, hb] using i.drop.buffered
  queued := i.start_queued }

-- After the exchange any operation of the relay can be started.
theorem add {op' : Op} (i : Inv cfg run s) (hd : s.status = .data) (hf : op'.Fits .data)
    (hb : op'.Buffered) : Inv cfg run (s.start op') := { i with
  chain := fun h => absurd hd h
  fits := by simpa [or_imp, forall_and, hd ▸ hf] using i.fits
  buffered := by simpa [or_imp, forall_and, hb] using i.buffered
  queued := i.start_queued }

theorem sendBad (i : Inv cfg run s) : Inv cfg run s.sendBad :=
  i.startFarewell _

theorem cancel (i : Inv cfg run s) : Inv cfg run s.cancel :=
  (i.abort _).note _

section Handshake

-- Before the exchange is completed, a handler that runs leaves nothing but farewells outstanding.
theorem farewells (i : Inv cfg [op] s) (hd : s.status ≠ .data) (hw : op.inWork) :
    ∀ op' ∈ ops [] s, op'.isFarewell := by
  have hi := i.chain hd
  simp only [ops_cons, List.countP_cons, hw, if_true] at hi
  have hz : (ops [] s).countP Op.inWork = 0 := by omega
  intro op' hop
  simpa [Op.inWork] using List.countP_eq_zero.mp hz op' hop

theorem fits_of_farewell {status : Status} (h : op.isFarewell) : op.Fits status := by
  cases op
  case rightWrite next => cases next <;> simp [Op.isFarewell] at h; trivial
  all_goals cases h

-- The status moves on while only farewells are outstanding, besides the operation that runs next.
theorem advance {op' : Op} (i : Inv cfg [op] s) (hd : s.status ≠ .data) (hw : op.inWork)
    (hw' : op'.inWork) {status : Status} (hf : op'.Fits status) (hb : op'.Buffered)
    (hk : status = .data → s.dataKey.isSome) : Inv cfg [op'] (s.setStatus status) := by
  have hfw := i.farewells hd hw
  have hz : (ops [] s).countP Op.inWork = 0 := by
    rw [List.countP_eq_zero]
    intro op hop
    simp [Op.inWork, hfw op hop]
  have ha : s.aesEncryptor = none := by
    cases ha : s.aesEncryptor
    case none => rfl
    case some => exact absurd (i.aes _ ha).1 hd
  have ho : ops [op'] (s.setStatus status) = op' :: ops [] s := rfl
  exact { i with
    chain := fun _ => by simp [ho, hz, hw']
    fits := by
      rw [ho]
      simp only [List.mem_cons, forall_eq_or_imp]
      exact ⟨hf, fun op hop => fits_of_farewell (hfw op hop)⟩
    buffered := by
      rw [ho]
      simp only [List.mem_cons, forall_eq_or_imp]
      exact ⟨hb, i.drop.buffered⟩
    keyed := hk
    aes := by simp [ha] }

theorem start_setStatus {status : Status} (i : Inv cfg run ((s.setStatus status).start op)) :
    Inv cfg run ((s.start op).setStatus status) :=
  { i with }

-- The handshake goes on with `op'` in the next status.
theorem proceed {op' : Op} (i : Inv cfg [op] s) (hd : s.status ≠ .data) (hw : op.inWork)
    (hw' : op'.inWork) {status : Status} (hf : op'.Fits status) (hb : op'.Buffered)
    (hk : status = .data → s.dataKey.isSome) : Inv cfg [] ((s.start op').setStatus status) :=
  ((i.advance hd hw hw' hf hb hk).pass hw' hf hb).start_setStatus

theorem dataKey (i : Inv cfg run s) (hd : s.status ≠ .data) (key : Key) :
    Inv cfg run { s with dataKey := some key } := { i with
  keyed := fun _ => rfl
  aes := fun aes ha => absurd (i.aes aes ha).1 hd }

end Handshake

theorem getAes (i : Inv cfg run s) :
    s.getAes cfg = s.dataKey.map (Crypto.Aes.raw256 cfg.cpp) := by
  unfold Session.getAes
  cases ha : s.aesEncryptor
  case none => rfl
  case some => exact (i.aes _ ha).2.symm

theorem setAes (i : Inv cfg run s) (hd : s.status = .data) {aes : Crypto.Aes}
    (h : s.getAes cfg = some aes) : Inv cfg run { s with aesEncryptor := some aes } := { i with
  aes := by
    intro aes' ha
    cases ha
    exact ⟨hd, i.getAes ▸ h⟩ }

theorem rightReadDone (i : Inv cfg [op] s) {bt : Nat} {lss : Packet} (e : RightEntry op o bt lss)
    (hh : Holds bt lss) (h : RightReadDone cfg ch s bt lss t) : Inv cfg [] t := by
  have hw : op.inWork := by cases e <;> rfl
  cases h
  case cancel => exact i.drop.cancel
  case more h₁ h₂ =>
    refine i.pass hw ?_ (trim_pending hh h₁ h₂)
    cases e
    case read lss rest _ => exact i.fits (.rightRead lss rest) (List.mem_cons_self ..)
    case written d       =>
      exact .inr (.inr (i.fits (.leftWrite d (.relay (.readHandler bt lss)))
        (List.mem_cons_self ..)))
  case helloFault     => exact (i.drop.note _).cancel
  case encryptFault   => exact ((i.drop.randomStr _).note _).cancel
  case encryptFailed  => exact (i.drop.randomStr _).cancel
  case hello h _ _ hp =>
    have ⟨he, _⟩ := packExchange_ok hp
    subst he
    exact (i.randomStr _).pass hw h trivial
  case exchangeFault h _ _ => exact (i.drop.note _).cancel
  case illegalServer h _ _ _ => exact (i.drop.dataKey (by simp [h]) _).cancel
  case exchange h _ _ _ =>
    exact (i.dataKey (by simp [h]) _).proceed (by simp [h]) hw rfl rfl trivial fun _ => rfl
  case assertion => exact i.drop.note _
  case relay h _ hu hb =>
    refine ((i.setAes h hu.1).note _).pass hw h ?_
    rw [writeNext_eq hh hb]
    split
    case isTrue     => trivial
    case isFalse hb => exact holds_cutPacket hh (by omega)

theorem delivered (i : Inv cfg [op] s) (he : ∀ {bt lss}, RightEntry op o bt lss → Holds bt lss)
    (h : Delivered cfg ch s op o t) : Inv cfg [] t := by
  have hf := i.fits op (List.mem_cons_self ..)
  cases h
  case right e h   => exact i.rightReadDone e (he e) h
  case cancelled   => exact i.drop.cancel
  case broken      => exact i.drop.sendBad
  case farewell    => exact i.drop.cancel
  case unreachable => exact i.drop.cancel
  case resolved    => exact i.pass rfl hf trivial
  case connected h =>
    have hs : s.status ≠ .data := by
      rcases h with ⟨_, _, rfl⟩ | ⟨_, _, rfl⟩ <;> simp [show s.status = .notConnected from hf]
    have hw : op.inWork := by rcases h with ⟨_, _, rfl⟩ | ⟨_, _, rfl⟩ <;> rfl
    have hw' : (Op.rightWrite packHello .helloHandler).inWork := rfl
    exact (i.advance hs hw hw' rfl trivial nofun).pass hw' rfl trivial
  case retried h   =>
    refine (i.abort _).pass ?_ ?_ trivial
    · cases h <;> rfl
    · cases h <;> exact hf
  case hello =>
    have hs : s.status ≠ .data := by simp [show s.status = .connected from hf]
    exact i.proceed hs rfl rfl (.inl rfl) (pending_receiving (by decide)) nofun
  case exchange =>
    have hs : s.status ≠ .data := by simp [show s.status = .hello from hf]
    exact i.proceed hs rfl rfl (.inr (.inl rfl)) (pending_receiving (by decide)) nofun
  case greeted     => exact i.pass rfl hf trivial
  case badGreeting => exact i.drop.sendBad
  case opened =>
    have hp : Pending (.receiving lengthHandshake) 0 := pending_receiving (by decide)
    have hr : (Op.rightRead (.receiving lengthHandshake) 0).Fits .data := .inr (.inr rfl)
    have j : Inv cfg [] (s.start (.leftRead .leftReadHandler)) := i.pass rfl hf trivial
    exact j.add hf hr hp
  case packed h => exact ((i.setAes hf h).note _).pass rfl hf trivial
  case assertion => exact i.drop.note _
  case written => exact i.pass rfl hf trivial
  case relayed => exact i.pass rfl (.inr (.inr hf)) (pending_receiving le_rfl)

-- The same operations in another order, and with other completions queued.
theorem reorder (i : Inv cfg [] s) {io : List (Outstanding Op Outcome)}
    (hp : (ops run { s with io := io }).Perm (ops [] s))
    (hq : ∀ x ∈ io, ∀ o, x.outcome = some o → Completes x.op o) :
    Inv cfg run { s with io := io } := { i with
  chain := by simpa only [hp.countP_eq] using i.chain
  fits := fun op h => i.fits op (hp.mem_iff.mp h)
  buffered := fun op h => i.buffered op (hp.mem_iff.mp h)
  queued := hq }

-- Takes an operation out of the queue in order to run its handler.
theorem dequeue {l r : List (Outstanding Op Outcome)} (i : Inv cfg [] s)
    (h : s.io = l ++ ⟨op, some o⟩ :: r) : Inv cfg [op] { s with io := l ++ r } := by
  refine i.reorder (ops_dequeue h) fun x hx => i.queued x ?_
  simp only [h, List.mem_append, List.mem_cons] at hx ⊢
  tauto

theorem complete {l r : List (Outstanding Op Outcome)} (i : Inv cfg [] s)
    (h : s.io = l ++ ⟨op, none⟩ :: r) (c : Completes op o) :
    Inv cfg [] { s with io := l ++ ⟨op, some o⟩ :: r } := by
  refine i.reorder (by simp [ops, h]) fun x hx o' ho => ?_
  simp only [List.mem_append, List.mem_cons] at hx
  rcases hx with hx | rfl | hx
  · exact i.queued x (by simp [h, hx]) o' ho
  · cases ho
    exact c
  · exact i.queued x (by simp [h, hx]) o' ho

theorem holds (i : Inv cfg [op] s) (c : Completes op o) {bt : Nat} {lss : Packet}
    (e : RightEntry op o bt lss) : Holds bt lss := by
  have hb := i.buffered op (List.mem_cons_self ..)
  cases e
  case read    => cases c with | rightRead _ le => exact entry_holds hb le
  case written => exact hb

theorem deliver (i : Inv cfg [op] s) (c : Completes op o) :
    Delivered cfg ch s op o (s.deliver cfg ch op o) :=
  deliver_delivered c (i.holds c)

-- What the handler of a queued completion does.
theorem deliver_queued {l r : List (Outstanding Op Outcome)} (i : Inv cfg [] s)
    (h : s.io = l ++ ⟨op, some o⟩ :: r) :
    Delivered cfg ch { s with io := l ++ r } op o ({ s with io := l ++ r }.deliver cfg ch op o) :=
  (i.dequeue h).deliver (i.queued ⟨op, some o⟩ (by simp [h]) o rfl)

end Inv

theorem inv_initial : Inv cfg [] initial where
  chain := by simp [ops, initial]
  fits := by simp [ops, initial]
  buffered := by simp [ops, initial]
  queued := by simp [initial]
  keyed := by simp [initial]
  aes := by simp [initial]

theorem inv_step {lb : Label} (i : Inv cfg [] s) (e : Step cfg s lb t) : Inv cfg [] t := by
  cases e
  case start remoteError h =>
    subst h
    have j : Inv cfg [.resolve] initial := { inv_initial with
      chain := fun _ => by decide
      fits := by simp [ops, initial, Op.Fits]
      buffered := by simp [ops, initial, Op.Buffered] }
    cases remoteError
    case true  => exact i
    case false => exact j.pass rfl rfl trivial
  case complete h c => exact i.complete h c
  case deliver op o ch h =>
    have c := i.queued ⟨op, some o⟩ (by simp [h]) o rfl
    have j := i.dequeue h
    exact j.delivered (j.holds c) (j.deliver c)

theorem inv_reachable (r : Reachable cfg s) : Inv cfg [] s := by
  refine Transition.Invariant.reachable ⟨?_, inv_step⟩ r
  rintro _ rfl
  exact inv_initial

theorem rightReadDone_next {bt : Nat} {lss : Packet} (h : RightReadDone cfg ch s bt lss t) :
    t.status = s.status ∨ s.status.Next t.status := by
  cases h
  case hello hp =>
    have ⟨he, _⟩ := packExchange_ok hp
    subst he
    exact .inl rfl
  case exchange h _ _ _ =>
    right
    rw [h]
    exact .data
  all_goals exact .inl rfl

theorem delivered_next (i : Inv cfg [op] s) (d : Delivered cfg ch s op o t) :
    t.status = s.status ∨ s.status.Next t.status := by
  have hf := i.fits op (List.mem_cons_self ..)
  cases d
  case right h => exact rightReadDone_next h
  case connected h =>
    have hs : s.status = .notConnected := by rcases h with ⟨_, _, rfl⟩ | ⟨_, _, rfl⟩ <;> exact hf
    right
    rw [hs]
    exact .connected
  case hello =>
    right
    rw [show s.status = .connected from hf]
    exact .hello
  case exchange =>
    right
    rw [show s.status = .hello from hf]
    exact .auth
  all_goals exact .inl rfl

theorem delivered_data (i : Inv cfg [op] s) (d : Delivered cfg ch s op o t)
    (hs : s.status = .data) : t.status = .data := by
  cases delivered_next i d
  case inl h => exact h.trans hs
  case inr h =>
    rw [hs] at h
    cases h

end Session
end Lproxy.Local
