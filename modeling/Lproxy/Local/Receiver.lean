import Lproxy.Local.Link

-- How a session receives the frames of its server.
namespace Lproxy.Local

open List (filterMap_cons)

namespace Session

variable {cfg : Config} {ch : Choice} {s t : Session} {op op' : Op} {o : Outcome} {c c' : Wire}
  {new : List Op} {f : Packet} {fs : List Packet} {bt : Nat} {lss : Packet}

-- The session has unpacked what the frames with data among `fs` carry.
def Noted (cfg : Config) (s : Session) (fs : List Packet) : Prop :=
  Accounts cfg.cpp (s.cipher cfg) s.unpacked fs

def Receives (cfg : Config) (s : Session) (c : Wire) : Prop :=
  reader.Receives (Noted cfg s) s.reads c s.io

theorem cipher_of_not_data (h : s.status ≠ .data) : s.cipher cfg = none :=
  if_neg h

theorem cipher_of_data (h : s.status = .data) : s.cipher cfg = s.getAes cfg :=
  if_pos h

theorem reads_of_looks (h : op.looks) : s.reads op := by
  have hr : op.inRight := by
    cases op
    case rightRead      => rfl
    case leftWrite next =>
      cases next
      case leftWriteSocks5Step1Handler => cases h
      case relay                       => rfl
    all_goals cases h
  simp [reads, hr]

theorem looks_of_entry (e : RightEntry op o bt lss) : op.looks := by
  cases e <;> rfl

-- A session that has completed the handshake stays so.
theorem data_step {lb : Label} (r : Reachable cfg s) (e : Step cfg s lb t) (h : s.status = .data) :
    t.status = .data := by
  have i := inv_reachable r
  cases e
  case complete              => exact h
  case deliver hio           => exact delivered_data (i.dequeue hio) (i.deliver_queued hio) h
  case start remoteError hn  =>
    subst hn
    cases h

theorem reads_mono (i : Inv cfg [op] s) (d : Delivered cfg ch s op o t) (h : t.reads op') :
    s.reads op' := by
  by_cases hs : s.status = .data
  case neg => simp [reads, hs]
  case pos => simpa [reads, hs, delivered_data i d hs] using h

-- A handler that looks at no packet unpacks none, and the encryptor stays what it is.
theorem delivered_cipher (i : Inv cfg [op] s) (d : Delivered cfg ch s op o t)
    (hn : ∀ {bt lss}, ¬RightEntry op o bt lss) :
    t.unpacked = s.unpacked ∧ t.cipher cfg = s.cipher cfg := by
  have hf := i.fits op (List.mem_cons_self ..)
  have early {status : Status} (hs : s.status ≠ .data) (ht : t.status ≠ .data) :
      t.cipher cfg = s.cipher cfg :=
    (cipher_of_not_data ht).trans (cipher_of_not_data hs).symm
  cases d
  case right e _ => exact absurd e hn
  case connected hop =>
    have hs : s.status = .notConnected := by
      rcases hop with ⟨_, _, rfl⟩ | ⟨_, _, rfl⟩ <;> exact hf
    exact ⟨by simp [unpacked, filterMap_cons, Event.unpacked?], by simp [cipher, hs]⟩
  case hello =>
    have hs : s.status = .connected := hf
    exact ⟨by simp [unpacked, filterMap_cons, Event.unpacked?], by simp [cipher, hs]⟩
  case exchange =>
    have hs : s.status = .hello := hf
    exact ⟨by simp [unpacked, filterMap_cons, Event.unpacked?], by simp [cipher, hs]⟩
  case packed ha =>
    refine ⟨by simp [unpacked, filterMap_cons, Event.unpacked?], ?_⟩
    simp only [cipher, ha]
    rfl
  all_goals exact ⟨by simp [unpacked, filterMap_cons, Event.unpacked?], rfl⟩

theorem noted_of_delivered (i : Inv cfg [op] s) (d : Delivered cfg ch s op o t)
    (hl : ∀ {bt lss}, ¬RightEntry op o bt lss) (h : Noted cfg s fs) : Noted cfg t fs := by
  have ⟨hu, ha⟩ := delivered_cipher i d hl
  rwa [Noted, hu, ha]

theorem rightReadDone_noted (i : Inv cfg [op] s) (hs : IsData f → s.status = .data)
    (hf : f.Framed) (hl : lss.StartsWith f) (hb : bt = 4 + lss.dataLen.toNat)
    (ha : Noted cfg s fs) (r : RightReadDone cfg ch s bt lss t) : Noted cfg t (fs ++ [f]) := by
  have hd : IsData lss ↔ IsData f := by rw [IsData, hl.header.1, IsData]
  have skip {t : Session} (hn : ¬IsData f) (hu : t.unpacked = s.unpacked)
      (hk : t.cipher cfg = s.cipher cfg) : Noted cfg t (fs ++ [f]) := by
    rw [Noted, hu, hk]
    exact ha.skip hn
  have early {status : Status} (h : s.status = status) (hn : status ≠ .data) : ¬IsData f :=
    fun hd => hn (h.symm.trans (hs hd))
  cases r
  case more          => omega
  case cancel h      =>
    exact skip (fun hn => h hb.ge (hs hn) (hd.mpr hn)) (by simp [unpacked, Event.unpacked?]) rfl
  case helloFault h    =>
    exact skip (early h (by simp)) (by simp [unpacked, filterMap_cons, Event.unpacked?]) rfl
  case encryptFault h  =>
    exact skip (early h (by simp)) (by simp [unpacked, filterMap_cons, Event.unpacked?]) rfl
  case encryptFailed h =>
    exact skip (early h (by simp)) (by simp [unpacked, Event.unpacked?]) rfl
  case hello h _ _ hp  =>
    obtain ⟨hu, _⟩ := packExchange_ok hp
    subst hu
    exact skip (early h (by simp)) (by simp [unpacked, Event.unpacked?]) rfl
  case exchangeFault h _ _ =>
    exact skip (early h (by simp)) (by simp [unpacked, filterMap_cons, Event.unpacked?]) rfl
  case illegalServer h _ _ _ =>
    exact skip (early h (by simp)) (by simp [unpacked, Event.unpacked?]) (by simp [cipher, h])
  case exchange h _ _ _ =>
    rw [Noted, cipher_of_not_data (by simp [h])] at ha
    simpa [Noted, unpacked, filterMap_cons, Event.unpacked?] using
      (ha.skip (early h (by simp))).adopt
  case assertion h hg  =>
    have hk := i.keyed h
    rw [i.getAes, Option.map_eq_none_iff] at hg
    simp [hg] at hk
  case relay aes plain h ht hu _ =>
    obtain ⟨hg, he⟩ := hu
    rw [hl.payload hf] at he
    rw [Noted, cipher_of_data h, hg] at ha
    have hk := ha.unpack (hd.mp ht)
    rw [← he] at hk
    simpa [Noted, unpacked, filterMap_cons, Event.unpacked?, cipher, h, Session.getAes] using hk

-- A packet of which a part is missing is read on.
theorem begun {acc : List Packet → Prop} (hh : Holds bt lss) (hb : Begun c acc bt lss) :
    caught bt lss (s.rightReadTry cfg ch bt lss) =
      s.start (.rightRead (trim bt lss) (4 + lss.dataLen.toNat - bt)) := by
  have h₁ : ¬bt < 4 := by
    have := hb.header
    omega
  have hl : ((4 + lss.dataLen.toNat - bt : Nat) : Int) > 0 := by
    have := hb.missing
    omega
  simp only [rightReadTry, lssPackIntegrityCheck_eq hh, h₁, if_false, hb.missing, if_true, caught,
    rightReadCatch, hl, Int.toNat_natCast]

-- What a handler does with what has been read: it deals with a packet that has been read as a
-- whole, if it looks at one, or it reads on.
inductive Handled (cfg : Config) (ch : Choice) (c : Wire) (s : Session) (op : Op) (o : Outcome)
    (t : Session) : Prop
  | turn {new : List Op} (i : Turn cfg ch s op o new t)
    (h : ∀ {bt lss}, RightEntry op o bt lss → ∃ f, Received c (Noted cfg s) bt lss f)
  | more {bt : Nat} {lss : Packet} (hop : op.looks) (hh : Holds bt lss)
    (hb : Begun c (Noted cfg s) bt lss)
    (ht : t = s.start (.rightRead (trim bt lss) (4 + lss.dataLen.toNat - bt)))

theorem handled (j : Inv cfg [op] s) (hc : Completes op o)
    (h : s.reads op → reader.Ready (Noted cfg s) c op (some o)) (hf : ∀ f ∈ c.sent, f.Framed) :
    Handled cfg ch c s op o (s.deliver cfg ch op o) := by
  have d : Delivered cfg ch s op o _ := j.deliver hc
  by_cases he : ∃ bt lss, RightEntry op o bt lss
  case neg =>
    have he {bt lss} (e : RightEntry op o bt lss) : False := he ⟨bt, lss, e⟩
    have ⟨_, i⟩ := delivered_turn j hc (fun e => (he e).elim) d
    exact .turn i fun e => (he e).elim
  case pos =>
    have ⟨_, _, e⟩ := he
    have hr := h (reads_of_looks (looks_of_entry e))
    cases e
    case written =>
      cases hr
      case between hl => cases hl
      all_goals cases ‹reader.before _ = some _›
    case read lss rest d' =>
      have hh := j.holds hc .read
      have hp : Pending lss rest := j.buffered _ (List.mem_cons_self ..)
      have hd : d'.length ≤ offered lss rest := by
        cases hc with | rightRead _ le => exact le
      have entry {bt lss'} (e : RightEntry (.rightRead lss rest) (.bytes d') bt lss') :
          bt = (entry lss rest d').1 ∧ lss' = (entry lss rest d').2 := by
        cases e
        exact ⟨rfl, rfl⟩
      cases hr
      case between hl => cases hl
      case failed ho  => cases ho
      case read hb hx ho =>
        cases hb
        cases ho
        cases received_or_begun hf hp hd hx
        case inr hb => exact .more rfl hh hb (begun hh hb)
        case inl hr =>
          have ⟨f, hr⟩ := hr
          have ⟨_, i⟩ := delivered_turn j hc
            (fun e => by rw [(entry e).1, (entry e).2]; exact hr.size) d
          exact .turn i fun e => ⟨f, (entry e).1 ▸ (entry e).2 ▸ hr⟩

-- What a handler that has looked at no packet, or at a whole one, starts to read upon.
theorem Turn.ready (i : Turn cfg ch s op o new t) (hp : c.part = []) (ha : Noted cfg t c.done) :
    ∀ op' ∈ new, t.reads op' → reader.Ready (Noted cfg t) c op' .none := by
  intro op' hm _
  have st := i.begins op' hm
  cases st
  case rightRead n => exact .waiting (b := []) rfl (.waiting hp ha)
  all_goals exact .between hp ha rfl

-- The handler of another operation starts none upon which the session reads.
theorem Turn.quiet (i : Turn cfg ch s op o new t) (hr : s.reads op = false)
    (hs : s.status = .data → t.status = .data) : ∀ op' ∈ new, t.reads op' = false := by
  have ⟨⟨hr, hg⟩, hd⟩ : (op.inRight = false ∧ op.inGreeting = false) ∧ s.status = .data := by
    simpa [reads] using hr
  have ht := hs hd
  intro op' hm
  have st := i.begins op' hm
  cases st
  case answer h    => simp [hg] at h
  case rightRead h => simp [reads, hr, hg, hd] at h
  case relay h     => simp [hr] at h
  case leftRead    => simp [reads, ht, Op.inRight, Op.inGreeting]
  case request     => simp [reads, ht, Op.inRight, Op.inGreeting]
  case farewell    => simp [reads, ht, Op.inRight, Op.inGreeting]
  all_goals contradiction

theorem receives_deliver {l r : List (Outstanding Op Outcome)} (h : Receives cfg s c)
    (i : Inv cfg [] s) (k : Serial [] s) (hio : s.io = l ++ ⟨op, some o⟩ :: r)
    (hf : ∀ f ∈ c.sent, f.Framed) (hs : op.looks → ∀ f ∈ c.sent, IsData f → s.status = .data) :
    Receives cfg ({ s with io := l ++ r }.deliver cfg ch op o) c := by
  have hm : ⟨op, some o⟩ ∈ s.io := by simp [hio]
  have hc := i.queued _ hm o rfl
  have j := i.dequeue hio
  have d : Delivered cfg ch _ op o _ := j.deliver hc
  have hh : Handled cfg ch c _ op o _ := handled j hc (fun hr => h.ready _ hm hr) hf
  have hz := Outstanding.alone k.reading hio
  -- The other operations, of which the session that goes on reads upon none either.
  have others (hop : s.reads op) : ∀ x ∈ l ++ r,
      Session.reads ({ s with io := l ++ r }.deliver cfg ch op o) x.op = false := by
    intro x hx
    by_contra hn
    have hn : s.reads x.op := (reads_mono j d (by simpa using hn) :)
    simp [hz hop x hx] at hn
  cases hh
  case more bt lss hop hh hb ht =>
    have others := others (reads_of_looks hop)
    rw [ht] at others ⊢
    have keep {fs} (hn : Noted cfg s fs) (op : Op) :
        Noted cfg ({ s with io := l ++ r }.start op) fs := by
      have hu : ({ s with io := l ++ r }.start op).unpacked = s.unpacked := by
        simp [unpacked, Event.unpacked?]
      rw [Noted, hu]
      exact hn
    have hm := hb.missing
    refine FrameReader.Receives.pass (R := reader) ((Outstanding.Continues.refl _).start _) others
      (keep hb.acc _) ?_
    intro op' hop' _
    cases List.mem_singleton.mp hop'
    refine .waiting rfl (.waiting ?_ (keep hb.acc _))
    rw [hb.part, heldBefore, if_neg (by omega), toData_trim hh hb.header]
  case turn new i' hr =>
    by_cases he : ∃ bt lss, RightEntry op o bt lss
    case pos =>
      obtain ⟨bt, lss, e⟩ := he
      obtain ⟨f, hr⟩ := hr e
      obtain ⟨fs, hfs, ha⟩ := hr.acc
      have hl := looks_of_entry e
      have hn := rightReadDone_noted j (hs hl f hr.mem) (hf f hr.mem) hr.startsWith hr.size ha
        (rightReadDone_of_entry e d)
      rw [← hfs] at hn
      exact FrameReader.Receives.pass i'.io (others (reads_of_looks hl)) hn (i'.ready hr.part hn)
    case neg =>
      have keep {fs} (hn : Noted cfg s fs) := noted_of_delivered j d (fun e => he ⟨_, _, e⟩) hn
      have h' : reader.Receives (Noted cfg s) s.reads c (l ++ ⟨op, some o⟩ :: r) := hio ▸ h
      by_cases hop : s.reads op
      case neg =>
        have hl : op.looks = false := by simpa using mt (reads_of_looks (s := s)) hop
        have hop : s.reads op = false := by simpa using hop
        have hq := i'.quiet hop (delivered_data j d)
        exact (h'.dequeue hl).quiet i'.io keep (fun _ hr => (reads_mono j d hr :)) hq
      case pos =>
        have hop' : reader.Ready (Noted cfg s) c op (some o) := h.ready _ hm hop
        cases hop'
        case between hp ha _ =>
          exact FrameReader.Receives.pass i'.io (others hop) (keep ha) (i'.ready hp (keep ha))
        case read hb hx ho   =>
          obtain ⟨_, _, hop⟩ := reader_before hb
          have ho := reader_bytes ho
          subst hop ho
          exact absurd ⟨_, _, .read⟩ he
        case failed hb ho    =>
          have ha := keep (h'.noted_of_failed (hz hop) reads_of_looks ho)
          obtain ⟨lss, rest, hop⟩ := reader_before hb
          subst hop
          cases hc with | error => ?_ | rightRead => cases ho
          exact FrameReader.Receives.pass ((Outstanding.Continues.refl _).abort Op.isCancellable)
            (others hop) ha (by simp)

-- Before its first operation the session has read nothing.
def Unread (s : Session) (c : Wire) : Prop :=
  s.log.filterMap Event.started? = [] → s.io = [] ∧ c.done = [] ∧ c.part = []

theorem unread_step {lb : Label} (r : Reachable cfg s) (e : Step cfg s lb t) (h : Unread s c)
    (ht : lb.Takes c c') : Unread t c' := by
  intro hn
  cases e
  case start remoteError _ =>
    cases show c' = c from ht
    cases remoteError
    case true  => exact h hn
    case false => simp [startSession, Event.started?] at hn
  case complete hio _ =>
    obtain ⟨hi, _⟩ := h hn
    simp [hi] at hio
  case deliver ch hio =>
    have d : Delivered cfg ch _ _ _ _ := (inv_reachable r).deliver_queued hio
    obtain ⟨new, _, hl⟩ := delivered_starts d
    obtain ⟨hi, _⟩ := h (List.append_eq_nil_iff.mp (hl.symm.trans hn)).1
    simp [hi] at hio

theorem receives_step {lb : Label} (r : Reachable cfg s) (e : Step cfg s lb t) (hu : Unread s c)
    (h : Receives cfg s c) (ht : lb.Takes c c') (hf : ∀ f ∈ c.sent, f.Framed)
    (hs : ∀ {op o ch}, lb = .deliver op o ch → op.looks →
      ∀ f ∈ c.sent, IsData f → s.status = .data) : Receives cfg t c' := by
  have i := serial_reachable r
  cases e
  case complete hio _ =>
    have hz := Outstanding.alone i.reading hio
    rw [Receives, hio] at h
    exact h.complete hz reads_of_looks (Label.takes_complete ht)
  case deliver hio =>
    exact (show c' = c from ht) ▸ receives_deliver h (inv_reachable r) i hio hf (hs rfl)
  case start remoteError hn =>
    cases show c' = c from ht
    subst hn
    cases remoteError
    case true  => exact h
    case false =>
      have ⟨_, hd, hp⟩ := hu rfl
      have ha : Noted cfg (initial.startSession false) c.done := hd ▸ .nil
      have i : Outstanding.Continues (.error .operationAborted) initial.io _ _ :=
        (Outstanding.Continues.refl initial.io).start .resolve
      refine FrameReader.Receives.pass (R := reader) i nofun ha ?_
      intro op' hm _
      cases List.mem_singleton.mp hm
      exact .between hp ha rfl

theorem receives_initial : Receives cfg .initial .empty ∧ Unread .initial .empty :=
  ⟨⟨nofun, .inl .nil⟩, fun _ => ⟨rfl, rfl, rfl⟩⟩

section Learnt

-- The key of a session that has completed the handshake is one that an exchange packet has brought.
def Learnt (cfg : Config) (s : Session) (c : Wire) : Prop :=
  s.status = .data → ∃ f ∈ c.sent, ReplyType.ofByte f.type = .exchange ∧ ∃ key lss,
    lss.StartsWith f ∧ s.dataKey = some key ∧ key.val = (exchangePlain cfg lss).take 32

-- A session that has completed the handshake keeps its key.
theorem delivered_dataKey (d : Delivered cfg ch s op o t) (h : s.status = .data) :
    t.dataKey = s.dataKey := by
  cases d
  case right r =>
    cases r
    case hello hn _ _ _         => simp [hn] at h
    case illegalServer hn _ _ _ => simp [hn] at h
    case exchange hn _ _ _      => simp [hn] at h
    all_goals rfl
  all_goals rfl

theorem Learnt.send (h : Learnt cfg s c) (f : Option Packet) : Learnt cfg s (c.send f) := by
  intro hs
  have ⟨g, hg, hl⟩ := h hs
  exact ⟨g, by simp [hg], hl⟩

theorem Learnt.handled (h : Learnt cfg s c) (d : Delivered cfg ch s op o t)
    (hh : Handled cfg ch c s op o t) : Learnt cfg t c := by
  by_cases hs : s.status = .data
  case pos =>
    intro _
    rw [delivered_dataKey d hs]
    exact h hs
  case neg =>
    intro ht
    have hr {bt lss} : RightEntry op o bt lss → ∃ f, Received c (Noted cfg s) bt lss f := by
      cases hh
      case turn hr => exact hr
      case more hm => exact absurd (by simpa [hm] using ht) hs
    cases d
    case right e r =>
      have ⟨f, hr⟩ := hr e
      cases r
      case exchange hx hk _ =>
        exact ⟨f, hr.mem, hr.startsWith.header.1 ▸ hx, _, _, hr.startsWith, rfl, hk⟩
      case hello hp =>
        have ⟨hu, _⟩ := packExchange_ok hp
        subst hu
        exact absurd ht hs
      all_goals exact absurd ht hs
    case connected => cases ht
    case hello     => cases ht
    case exchange  => cases ht
    all_goals exact absurd ht hs

theorem learnt_step {lb : Label} (r : Reachable cfg s) (e : Step cfg s lb t) (h : Learnt cfg s c)
    (hr : Receives cfg s c) (ht : lb.Takes c c') (hf : ∀ f ∈ c.sent, f.Framed) :
    Learnt cfg t c' := by
  have i := inv_reachable r
  cases e
  case start remoteError _ =>
    cases show c' = c from ht
    cases remoteError <;> exact h
  case complete =>
    rw [Learnt, Label.takes_sent ht]
    exact h
  case deliver l r' op o ch hio =>
    cases show c' = c from ht
    have hm : ⟨op, some o⟩ ∈ s.io := by simp [hio]
    have j := i.dequeue hio
    have hc := i.queued _ hm o rfl
    have h' : Learnt cfg { s with io := l ++ r' } c := h
    exact h'.handled (j.deliver hc) (handled j hc (fun hop => hr.ready _ hm hop) hf)

end Learnt

end Session
end Lproxy.Local
