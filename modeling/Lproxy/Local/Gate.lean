import Lproxy.Local.Invariants
import Lproxy.Local.Schedule

-- The verification of the server: what a session does only after an exchange with a server that has
-- the authentication key.
namespace Lproxy.Local

-- The request whose answer verifies the server.
def Op.isExchange : Op → Bool
  | rightWrite _ next => next = .exchangeHandler
  | _                 => false

-- The events that the verification is a precondition of: reading from the client, the sending of a
-- frame with data, and writing to the client.
def Event.Gated : Event → Prop
  | started (.leftRead _) | started (.leftWrite ..) => True
  | started (.rightWrite lss _)                     => IsData lss
  | _                                               => False

-- A step in which `pack_exchange` generates a random string and makes a request with it.
def Offers (cfg : Config) (randomStr : Data) : Session × Label → Prop
  | (s, .deliver op o ch) => ∃ bt lss keysize publicKey request,
    Session.RightEntry op o bt lss ∧ s.status = .hello ∧ ReplyType.ofByte lss.type = .hello ∧
    (s.unpackReplyHello lss).2 = .ok (keysize, publicKey) ∧
    (s.packExchange cfg ch keysize publicKey).2 = .ok request ∧
    (s.packExchange cfg ch keysize publicKey).1.randomStr = randomStr
  | _                     => False

-- A step in which an exchange packet is received that decrypts to a key and a random string.
def Verifies (cfg : Config) (randomStr : Data) : Session × Label → Prop
  | (s, .deliver op o _) => ∃ bt lss,
    Session.RightEntry op o bt lss ∧ s.status = .auth ∧ ReplyType.ofByte lss.type = .exchange ∧
    32 ≤ (Session.exchangePlain cfg lss).length ∧
    (Session.exchangePlain cfg lss).drop 32 = randomStr
  | _                    => False

-- A run in which the server has been verified.
def Verified (cfg : Config) (tr : List (Session × Label)) : Prop :=
  ∃ randomStr tr₁ p tr₂ q tr₃, tr = tr₁ ++ p :: (tr₂ ++ q :: tr₃) ∧
    Offers cfg randomStr p ∧ Verifies cfg randomStr q

theorem Verified.snoc {cfg : Config} {tr : List (Session × Label)} (h : Verified cfg tr)
    (p : Session × Label) : Verified cfg (tr ++ [p]) := by
  have ⟨randomStr, tr₁, a, tr₂, b, tr₃, he, ha, hb⟩ := h
  exact ⟨randomStr, tr₁, a, tr₂, b, tr₃ ++ [p], by simp [he], ha, hb⟩

namespace Session

variable {cfg : Config} {ch : Choice} {s t : Session} {op : Op} {o : Outcome}

section Delivered

-- The request is outstanding, or its answer is awaited.
def Offered (running : List Op) (s : Session) : Prop :=
  s.status = .auth ∨ 0 < (ops running s).countP Op.isExchange

-- A session that has just read the greeting of the server has sent no request yet.
theorem not_offered (i : Inv cfg [op] s) (hw : op.inWork) (hs : s.status = .hello) :
    ¬Offered [] s := by
  have hf := i.farewells (by simp [hs]) hw
  rintro (h | h)
  · simp [hs] at h
  · have ⟨op', hop, he⟩ := List.countP_pos_iff.mp h
    have := hf op' hop
    cases op'
    case rightWrite next => cases next <;> simp [Op.isFarewell, Op.isExchange] at this he
    all_goals cases he

theorem Offered.of_count (h : Offered [] t)
    (hc : (ops [] t).countP Op.isExchange = (ops [] s).countP Op.isExchange)
    (hs : t.status = .auth → s.status = .auth) : Offered [] s :=
  h.imp hs fun h => hc ▸ h

theorem Offered.running (h : Offered [] s) : Offered [op] s := by
  refine h.imp_right fun h => ?_
  rw [ops_cons, List.countP_cons]
  omega

-- Where a session that awaits the answer to a request has its random string from.
theorem rightReadDone_offered (i : Inv cfg [op] s) {bt : Nat} {lss : Packet}
    (e : RightEntry op o bt lss) (h : RightReadDone cfg ch s bt lss t) (ht : Offered [] t) :
    Offers cfg t.randomStr (s, .deliver op o ch) ∨ t.randomStr = s.randomStr ∧ Offered [] s := by
  have hw : op.inWork := by cases e <;> rfl
  have keep (hr : t.randomStr = s.randomStr)
      (hc : (ops [] t).countP Op.isExchange = (ops [] s).countP Op.isExchange)
      (hs : t.status = .auth → s.status = .auth) :
      Offers cfg t.randomStr (s, .deliver op o ch) ∨ t.randomStr = s.randomStr ∧ Offered [] s :=
    .inr ⟨hr, ht.of_count hc hs⟩
  have fresh (hs : s.status = .hello) (ht' : t.status = s.status)
      (hc : (ops [] t).countP Op.isExchange = (ops [] s).countP Op.isExchange) : False :=
    not_offered i hw hs (ht.of_count hc fun h => ht' ▸ h)
  cases h
  case hello h hx hu hp =>
    obtain ⟨he, _⟩ := packExchange_ok hp
    subst he
    exact .inl ⟨bt, lss, _, _, _, e, h, hx, by rw [hu], by rw [hp], by rw [hp]; rfl⟩
  case encryptFault h  => exact (fresh h rfl (by simp [ops, Function.comp_def])).elim
  case encryptFailed h => exact (fresh h rfl (by simp [ops, Function.comp_def])).elim
  case more          => exact keep rfl (by simp [ops, Op.isExchange]) id
  case exchange      => exact keep rfl (by simp [ops, Op.isExchange]) (by simp)
  case assertion     => exact keep rfl rfl id
  case relay         => exact keep rfl (by simp [ops, Op.isExchange]) id
  all_goals exact keep rfl (by simp [ops, Function.comp_def]) id

theorem delivered_offered (i : Inv cfg [op] s) (d : Delivered cfg ch s op o t)
    (ht : Offered [] t) :
    Offers cfg t.randomStr (s, .deliver op o ch) ∨ t.randomStr = s.randomStr ∧ Offered [op] s := by
  have keep (hr : t.randomStr = s.randomStr)
      (hc : (ops [] t).countP Op.isExchange = (ops [] s).countP Op.isExchange)
      (hs : t.status = .auth → s.status = .auth) :
      Offers cfg t.randomStr (s, .deliver op o ch) ∨ t.randomStr = s.randomStr ∧ Offered [op] s :=
    .inr ⟨hr, (ht.of_count hc hs).running⟩
  cases d
  case right e h => exact (rightReadDone_offered i e h ht).imp_right fun h => ⟨h.1, h.2.running⟩
  case exchange  => exact .inr ⟨rfl, .inr (by simp [ops_cons, Op.isExchange])⟩
  case connected => exact keep rfl (by simp [ops, Op.isExchange]) (by simp)
  case hello     => exact keep rfl (by simp [ops, Op.isExchange]) (by simp)
  case assertion => exact keep rfl rfl id
  all_goals exact keep rfl (by simp [ops, Op.isExchange, Function.comp_def]) id

-- How a session gets to the last status.
theorem delivered_verifies (d : Delivered cfg ch s op o t) (ht : t.status = .data) :
    s.status = .data ∨ s.status = .auth ∧ Verifies cfg s.randomStr (s, .deliver op o ch) := by
  cases d
  case right bt lss e h =>
    cases h
    case hello hp =>
      have ⟨he, _⟩ := packExchange_ok hp
      subst he
      exact .inl ht
    case exchange key h hx hk hr =>
      have hl : 32 ≤ (exchangePlain cfg lss).length := by
        have := congrArg List.length hk
        simp only [key.property, List.length_take] at this
        omega
      exact .inr ⟨h, bt, lss, e, h, hx, hl, hr⟩
    all_goals exact .inl ht
  case connected => cases ht
  case hello     => cases ht
  case exchange  => cases ht
  all_goals exact .inl ht

-- What a delivery adds to the log is gated only if the server has been verified.
def Guards (s t : Session) : Prop :=
  ∃ es, t.log = s.log ++ es ∧ ((∃ e ∈ es, e.Gated) → t.status = .data)

theorem rightReadDone_guards {bt : Nat} {lss : Packet} (h : RightReadDone cfg ch s bt lss t) :
    Guards s t := by
  cases h
  case hello hp =>
    have ⟨he, _, _, _, _, hr⟩ := packExchange_ok hp
    subst he hr
    simp [Guards, Event.Gated, IsData, pack, RequestType.toByte, ReplyType.toByte]
  case relay h _ _ _ => simp [Guards, h]
  all_goals simp [Guards, Event.Gated]

theorem delivered_guards (i : Inv cfg [op] s) (d : Delivered cfg ch s op o t) : Guards s t := by
  have hf := i.fits op (List.mem_cons_self ..)
  have bad : ¬IsData packBad := by decide
  have hello : ¬IsData packHello := by decide
  have data {es : List Event} (hl : t.log = s.log ++ es) (ht : t.status = .data) : Guards s t :=
    ⟨es, hl, fun _ => ht⟩
  cases d
  case right h     => exact rightReadDone_guards h
  case greeted     => exact data rfl hf
  case opened      => exact data (List.append_assoc ..) hf
  case packed      => exact data (List.append_assoc ..) hf
  case written     => exact data rfl hf
  all_goals simp [Guards, Event.Gated, bad, hello]

end Delivered

theorem packExchange_randomStr {keysize : UInt16} {publicKey : Data} :
    (s.packExchange cfg ch keysize publicKey).1.randomStr = ch.randomStr := by
  unfold packExchange
  simp only
  split
  case h_1 => rfl
  case h_2 => split <;> rfl

section Io

variable {io : List (Outstanding Op Outcome)} {randomStr : Data}

theorem packExchange_io {keysize : UInt16} {publicKey : Data} :
    ({ s with io := io }.packExchange cfg ch keysize publicKey).2 =
      (s.packExchange cfg ch keysize publicKey).2 := by
  unfold packExchange
  simp only
  split
  case h_1 => rfl
  case h_2 => split <;> rfl

theorem unpackReplyHello_io {lss : Packet} :
    ({ s with io := io }.unpackReplyHello lss).2 = (s.unpackReplyHello lss).2 := by
  unfold unpackReplyHello
  split <;> rfl

theorem offers_of_io (h : Offers cfg randomStr ({ s with io := io }, .deliver op o ch)) :
    Offers cfg randomStr (s, .deliver op o ch) := by
  have ⟨bt, lss, keysize, publicKey, request, e, hs, ht, hu, hp, hr⟩ := h
  rw [unpackReplyHello_io] at hu
  rw [packExchange_io] at hp
  rw [packExchange_randomStr] at hr
  exact ⟨bt, lss, keysize, publicKey, request, e, hs, ht, hu, hp, packExchange_randomStr.trans hr⟩

end Io

-- Where a session stands in a run.
structure Passed (cfg : Config) (tr : List (Session × Label)) (s : Session) : Prop where
  offered : Offered [] s → ∃ p ∈ tr, Offers cfg s.randomStr p
  verified : s.status = .data → Verified cfg tr
  gated : (∃ e ∈ s.log, e.Gated) → s.status = .data

theorem Passed.deliver {tr : List (Session × Label)} {l r : List (Outstanding Op Outcome)}
    (p : Passed cfg tr s) (i : Inv cfg [] s) (h : s.io = l ++ ⟨op, some o⟩ :: r)
    (d : Delivered cfg ch { s with io := l ++ r } op o t) :
    Passed cfg (tr ++ [(s, .deliver op o ch)]) t where
  offered := by
    intro ht
    cases delivered_offered (i.dequeue h) d ht
    case inl ho => exact ⟨_, List.mem_append_right _ (List.mem_singleton_self _), offers_of_io ho⟩
    case inr ho =>
      have ⟨hr, ho⟩ := ho
      have ho : Offered [] s := ho.imp_right fun h' => (ops_dequeue h).countP_eq _ ▸ h'
      have ⟨a, ha, hoff⟩ := p.offered ho
      exact ⟨a, List.mem_append_left _ ha, hr ▸ hoff⟩
  verified := by
    intro ht
    cases delivered_verifies d ht
    case inl hs => exact (p.verified hs).snoc _
    case inr hv =>
      have ⟨hs, hv⟩ : s.status = .auth ∧ Verifies cfg s.randomStr (s, .deliver op o ch) := hv
      have ⟨a, ha, hoff⟩ := p.offered (.inl hs)
      have ⟨tr₁, tr₂, he⟩ := List.append_of_mem ha
      exact ⟨s.randomStr, tr₁, a, tr₂, (s, .deliver op o ch), [], by simp [he], hoff, hv⟩
  gated := by
    rintro ⟨e, he, hg⟩
    have ⟨es, hl, hd⟩ := delivered_guards (i.dequeue h) d
    rw [hl] at he
    cases List.mem_append.mp he
    case inl he => exact delivered_data (i.dequeue h) d (p.gated ⟨e, he, hg⟩)
    case inr he => exact hd ⟨e, he, hg⟩

theorem passed_run {tr : List (Session × Label)} (r : Transition.Run (Step cfg) initial tr s) :
    Passed cfg tr s := by
  induction r
  case nil => constructor <;> simp [Offered, ops, initial]
  case snoc s t tr lb r e p =>
    have i : Inv cfg [] s := inv_reachable (r.reachable rfl)
    cases e
    case start remoteError h =>
      subst h
      cases remoteError <;> constructor <;>
        simp [Offered, startSession, ops, initial, Op.isExchange, Event.Gated]
    case complete h _ =>
      refine ⟨fun ht => ?_, fun ht => (p.verified ht).snoc _, p.gated⟩
      obtain ⟨a, ha, hoff⟩ := p.offered (ht.of_count (by rw [ops_complete h]) id)
      exact ⟨a, List.mem_append_left _ ha, hoff⟩
    case deliver h    => exact p.deliver i h (i.deliver_queued h)

-- A session moves through its statuses in their order, and what it does for a client comes after an
-- exchange with a server that has sent back the random string of this session.
theorem verification_gate {tr : List (Session × Label)}
    (r : Transition.Run (Step cfg) initial tr s) :
    (∀ {lb t}, Step cfg s lb t → t.status = s.status ∨ s.status.Next t.status) ∧
      ((∃ e ∈ s.log, e.Gated) → Verified cfg tr) := by
  have i : Inv cfg [] s := inv_reachable (r.reachable rfl)
  have p := passed_run r
  refine ⟨fun {lb t} e => ?_, fun h => p.verified (p.gated h)⟩
  cases e
  case start remoteError _ => cases remoteError <;> exact .inl rfl
  case complete            => exact .inl rfl
  case deliver op o ch h   =>
    have d : Delivered cfg ch _ op o _ := i.deliver_queued h
    have hn := delivered_next (i.dequeue h) d
    exact hn

-- A session that has answered the greeting of its client.
theorem verification_gate_greeted : ∃ (s : Session) (tr : List (Session × Label)),
    Transition.Run (Step sampleConfig) initial tr s ∧
      .started (.leftRead .leftReadHandler) ∈ s.log ∧ Verified sampleConfig tr := by
  have ⟨s, r, h⟩ := exists_sampleRun (handshake ++ greeting)
    (fun s => .started (.leftRead .leftReadHandler) ∈ s.log) (by decide +kernel)
  have ⟨_, tr, hs, r⟩ := r.exists_run
  subst hs
  have h := of_decide_eq_true h
  exact ⟨s, tr, r, h, (verification_gate r).2 ⟨_, h, trivial⟩⟩

end Session
end Lproxy.Local
