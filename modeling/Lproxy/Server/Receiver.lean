import Lproxy.Server.Link

-- How a session receives the frames of its local.
namespace Lproxy.Server

open List (filterMap_cons)

namespace Session

variable {cfg : Config} {ch : Choice} {s t u : Session} {op op' : Op} {o : Outcome} {c c' : Wire}
  {encryptor : Option Crypto.Aes} {new run : List Op} {f : Packet} {fs : List Packet}
  {x : Outstanding Op Outcome} {bt : Nat} {lss : Packet}

-- The session has unpacked what the frames with data among `fs` carry.
def Noted (cfg : Config) (s : Session) (fs : List Packet) : Prop :=
  Accounts cfg.cpp s.aesEncryptor s.unpacked fs

def Receives (cfg : Config) (s : Session) (c : Wire) : Prop :=
  reader.Receives (Noted cfg s) Op.inReading c s.io

theorem inReading_of_looks (h : op.looks) : op.inReading := by
  cases op
  case leftRead   => rfl
  case rightWrite => rfl
  all_goals cases h

theorem looks_of_entry (e : LeftEntry op o bt lss) : op.looks := by
  cases e <;> rfl

-- A handler that looks at no packet takes notice of none.
theorem noted_of_delivered (d : Delivered cfg ch s op o t) (hl : ∀ {bt lss}, ¬LeftEntry op o bt lss)
    (h : Noted cfg s fs) : Noted cfg t fs := by
  have ⟨hu, ha⟩ := delivered_unpacked d hl
  rwa [Noted, hu, ha]

theorem leftReadDone_noted (i : Inv cfg [op] s) (e : LeftEntry op o bt lss)
    (hs : IsData f → s.status = .data) (hf : f.Framed) (hl : lss.StartsWith f)
    (hb : bt = 4 + lss.dataLen.toNat) (ha : Noted cfg s fs) (r : LeftReadDone cfg ch s bt lss t) :
    Noted cfg t (fs ++ [f]) := by
  have hd : IsData lss ↔ IsData f := by rw [IsData, hl.header.1, IsData]
  have skip {t : Session} (hn : ¬IsData f) (hu : t.unpacked = s.unpacked)
      (hk : t.aesEncryptor = s.aesEncryptor) : Noted cfg t (fs ++ [f]) := by
    rw [Noted, hu, hk]
    exact ha.skip hn
  have unpack {t : Session} {plain : Data} (ht : IsData lss) (hp : Unpacks cfg s lss plain)
      (hu : t.unpacked = s.unpacked ++ [plain]) (hk : t.aesEncryptor = s.aesEncryptor) :
      Noted cfg t (fs ++ [f]) := by
    obtain ⟨aes, hs, he⟩ := hp
    rw [hl.payload hf] at he
    rw [Noted, hs] at ha
    rw [Noted, hu, hk, hs, he]
    exact ha.unpack (hd.mp ht)
  have early (h : s.status ≠ .data) : ¬IsData f := fun hn => h (hs hn)
  cases r
  case short                 => omega
  case more                  => omega
  case cancel h              =>
    exact skip (fun hn => h (hs hn) (hd.mpr hn)) (by simp [unpacked, Event.unpacked?]) rfl
  case badRequest ht hu      =>
    exact unpack ht hu (by simp [unpacked, filterMap_cons, Event.unpacked?]) rfl
  case request ht hu r       =>
    obtain ⟨h₁, h₂, _⟩ := requestProcessed_unpacked r
    exact unpack ht hu (by simpa [unpacked, Event.unpacked?] using h₁) h₂
  case forward ht hu _       =>
    exact unpack ht hu (by simp [unpacked, filterMap_cons, Event.unpacked?]) rfl
  case address ht hu         =>
    exact unpack ht hu (by simp [unpacked, filterMap_cons, Event.unpacked?]) rfl
  case unsupported hc ht hu  =>
    exact unpack ht hu (by simp [unpacked, filterMap_cons, Event.unpacked?]) rfl
  case exchange h _ _ _ hp   =>
    obtain ⟨_, hu, _⟩ := packExchange_some hp
    rw [Noted, i.not_keyed e h] at ha
    subst hu
    simpa [Noted, unpacked, filterMap_cons, Event.unpacked?] using
      (ha.skip (early (by simp [h]))).adopt
  all_goals
    exact skip (early (by simp_all)) (by simp [unpacked, filterMap_cons, Event.unpacked?]) rfl

-- A packet of which a part is missing is read on.
theorem begun (hh : Holds bt lss) {acc : List Packet → Prop} (hb : Begun c acc bt lss) :
    caught bt lss (s.leftReadTry cfg ch bt lss) =
      s.start (.leftRead (trim bt lss) (4 + lss.dataLen.toNat - bt)) := by
  have h₁ : ¬bt < 4 := by
    have := hb.header
    omega
  have hl : ((4 + lss.dataLen.toNat - bt : Nat) : Int) > 0 := by
    have := hb.missing
    omega
  simp only [leftReadTry, lssPackIntegrityCheck_eq hh, h₁, if_false, hb.missing, if_true, caught,
    leftReadCatch, hl, Int.toNat_natCast]

-- What a handler does with what has been read: it deals with a packet that has been read as a
-- whole, if it looks at one, or it reads on.
inductive Handled (cfg : Config) (ch : Choice) (c : Wire) (s : Session) (op : Op) (o : Outcome)
    (t : Session) : Prop
  | turn {new : List Op} (i : Turn cfg ch s op o t.aesEncryptor new t)
    (h : ∀ {bt lss}, LeftEntry op o bt lss → ∃ f, Received c (Noted cfg s) bt lss f)
  | more {bt : Nat} {lss : Packet} (hop : op.looks) (hh : Holds bt lss)
    (hb : Begun c (Noted cfg s) bt lss)
    (ht : t = s.start (.leftRead (trim bt lss) (4 + lss.dataLen.toNat - bt)))

theorem handled (j : Inv cfg [op] s) (hc : Completes op o)
    (h : op.inReading → reader.Ready (Noted cfg s) c op (some o)) (hf : ∀ f ∈ c.sent, f.Framed) :
    Handled cfg ch c s op o (s.deliver cfg ch op o) := by
  have d : Delivered cfg ch s op o _ := j.deliver hc
  by_cases he : ∃ bt lss, LeftEntry op o bt lss
  case neg =>
    have he {bt lss} (e : LeftEntry op o bt lss) : False := he ⟨bt, lss, e⟩
    have ⟨_, i⟩ := delivered_turn j hc (fun e => (he e).elim) d
    exact .turn i fun e => (he e).elim
  case pos =>
    have ⟨_, _, e⟩ := he
    have hr := h (inReading_of_looks (looks_of_entry e))
    cases e
    case written       =>
      cases hr
      case between hl => cases hl
      all_goals cases ‹reader.before _ = some _›
    case read lss rest d' =>
      have hh := j.holds hc .read
      have hp : Pending lss rest := j.buffered _ (List.mem_cons_self ..)
      have hd : d'.length ≤ offered lss rest := by
        cases hc with | leftRead _ le => exact le
      have entry {bt lss'} (e : LeftEntry (.leftRead lss rest) (.bytes d') bt lss') :
          bt = (entry lss rest d').1 ∧ lss' = (entry lss rest d').2 := by
        cases e
        exact ⟨rfl, rfl⟩
      cases hr
      case between hl => cases hl
      case failed ho  => cases ho
      case read hb hx ho =>
        cases hb
        cases ho
        cases received_or_begun hf hp hd hx
        case inr hb => exact .more rfl hh hb (begun hh hb)
        case inl hr =>
          have ⟨f, hr⟩ := hr
          have ⟨_, i⟩ := delivered_turn j hc
            (fun e => by rw [(entry e).1, (entry e).2]; exact hr.size) d
          exact .turn i fun e => ⟨f, (entry e).1 ▸ (entry e).2 ▸ hr⟩

-- What a handler that has looked at no packet, or at a whole one, starts to read upon.
theorem Turn.ready (i : Turn cfg ch s op o encryptor new t) (hp : c.part = [])
    (ha : Noted cfg t c.done) :
    ∀ op' ∈ new, op'.inReading → reader.Ready (Noted cfg t) c op' none := by
  intro op' hm hr
  have st := i.begins op' hm
  cases st
  case leftRead n => exact .waiting (b := []) rfl (.waiting hp ha)
  all_goals exact .between hp ha rfl

-- The handler of another operation starts none upon which the session reads.
theorem Turn.quiet (i : Turn cfg ch s op o encryptor new t) (hr : op.inReading = false) :
    ∀ op' ∈ new, op'.inReading = false := by
  intro op' hm
  have st := i.begins op' hm
  cases st
  case leftRead h => simp [h] at hr
  case connect h  => simp [Op.inReading_of_inConnect h] at hr
  case reply      => rfl
  case farewell   => rfl
  case rightRead  => rfl
  case timerWait  => rfl
  all_goals simp [Op.inReading_of_inLeft ‹op.inLeft›] at hr

theorem receives_deliver {l r : List (Outstanding Op Outcome)} (h : Receives cfg s c)
    (i : Inv cfg [] s) (hio : s.io = l ++ ⟨op, some o⟩ :: r) (hf : ∀ f ∈ c.sent, f.Framed)
    (hs : op.looks → ∀ f ∈ c.sent, IsData f → s.status = .data) :
    Receives cfg ({ s with io := l ++ r }.deliver cfg ch op o) c := by
  have hm : ⟨op, some o⟩ ∈ s.io := by simp [hio]
  have hc := i.queued _ hm o rfl
  have j := i.dequeue hio
  have d : Delivered cfg ch _ op o _ := j.deliver hc
  have hh : Handled cfg ch c _ op o _ := handled j hc (fun hr => h.ready _ hm hr) hf
  have hz := Outstanding.alone i.reading hio
  cases hh
  case more bt lss hop hh hb ht =>
    rw [ht]
    have keep {fs} (hn : Noted cfg s fs) (op : Op) :
        Noted cfg ({ s with io := l ++ r }.start op) fs := by
      simpa [Noted, unpacked, filterMap_cons, Event.unpacked?] using hn
    have hm := hb.missing
    refine FrameReader.Receives.pass (R := reader) ((Outstanding.Continues.refl _).start _)
      (hz (inReading_of_looks hop)) (keep hb.acc _) ?_
    intro op' hop' _
    cases List.mem_singleton.mp hop'
    refine .waiting rfl (.waiting ?_ (keep hb.acc _))
    rw [hb.part, heldBefore, if_neg (by omega), toData_trim hh hb.header]
  case turn new i' hr =>
    by_cases he : ∃ bt lss, LeftEntry op o bt lss
    case pos =>
      obtain ⟨bt, lss, e⟩ := he
      obtain ⟨f, hr⟩ := hr e
      obtain ⟨fs, hfs, ha⟩ := hr.acc
      have hl := looks_of_entry e
      have hn := leftReadDone_noted j e (hs hl f hr.mem) (hf f hr.mem) hr.startsWith hr.size ha
        (leftReadDone_of_entry e d)
      rw [← hfs] at hn
      exact FrameReader.Receives.pass i'.io (hz (inReading_of_looks hl)) hn (i'.ready hr.part hn)
    case neg =>
      have keep {fs} (hn : Noted cfg s fs) := noted_of_delivered d (fun e => he ⟨_, _, e⟩) hn
      have h' : reader.Receives (Noted cfg s) Op.inReading c (l ++ ⟨op, some o⟩ :: r) := hio ▸ h
      by_cases hop : op.inReading
      case neg =>
        have hl : op.looks = false := by simpa using mt inReading_of_looks hop
        exact (h'.dequeue hl).quiet i'.io keep (fun _ => id) (i'.quiet (by simpa using hop))
      case pos =>
        have hop' : reader.Ready (Noted cfg s) c op (some o) := h.ready _ hm hop
        cases hop'
        case between hp ha _ =>
          exact FrameReader.Receives.pass i'.io (hz hop) (keep ha) (i'.ready hp (keep ha))
        case read hb hx ho   =>
          obtain ⟨_, _, hop⟩ := reader_before hb
          have ho := reader_bytes ho
          subst hop ho
          exact absurd ⟨_, _, .read⟩ he
        case failed hb ho    =>
          have ha := keep (h'.noted_of_failed (hz hop) inReading_of_looks ho)
          obtain ⟨lss, rest, hop⟩ := reader_before hb
          subst hop
          cases hc with | error => ?_ | leftRead => cases ho
          exact FrameReader.Receives.pass ((Outstanding.Continues.refl _).abort Op.isCancellable)
            (hz rfl) ha (by simp)

-- Nothing has been read before the session starts.
def Unread (s : Session) (c : Wire) : Prop :=
  s.status = .notConnected → c.done = [] ∧ c.part = []

theorem unread_step {lb : Label} (r : Reachable cfg s) (e : Step cfg s lb t) (h : Unread s c)
    (ht : lb.Takes c c') : Unread t c' := by
  intro hn
  have hs : s.status = .notConnected := by
    have ⟨_, hl, _⟩ := step_logs r e
    exact status_of_log (inv_reachable r) (inv_reachable (.step r e)) hl hn
  have ⟨hio, _⟩ := (fresh_reachable r).unstarted hs
  cases e
  case start         => exact (show c' = c from ht) ▸ h hs
  case tick          => exact (show c' = c from ht) ▸ h hs
  case complete hm _ _ => simp [hio] at hm
  case deliver hm      => simp [hio] at hm

theorem receives_step {lb : Label} (r : Reachable cfg s) (e : Step cfg s lb t) (hu : Unread s c)
    (h : Receives cfg s c) (ht : lb.Takes c c') (hf : ∀ f ∈ c.sent, f.Framed)
    (hs : ∀ {op o ch}, lb = .deliver op o ch → op.looks →
      ∀ f ∈ c.sent, IsData f → s.status = .data) : Receives cfg t c' := by
  have i := inv_reachable r
  cases e
  case complete op o hio hc _ =>
    have hz := Outstanding.alone i.reading hio
    rw [Receives, hio] at h
    exact h.complete hz inReading_of_looks (Label.takes_complete ht)
  case deliver hio => exact (show c' = c from ht) ▸ receives_deliver h i hio hf (hs rfl)
  case tick        => exact (show c' = c from ht) ▸ h
  case start remoteError hn =>
    cases show c' = c from ht
    cases remoteError
    case true  => exact h
    case false =>
      have ⟨hio, hl⟩ := (fresh_reachable r).unstarted hn
      have ⟨hd, hp⟩ := hu hn
      have ha : Noted cfg (s.startSession false) c.done := by
        simp [Noted, startSession, unpacked, filterMap_cons, Event.unpacked?, hl, hd, Accounts.nil]
      have i : Outstanding.Continues (.error .operationAborted) s.io _ _ :=
        (Outstanding.Continues.refl s.io).start (.leftRead (.receiving lengthHandshake) 0)
      refine FrameReader.Receives.pass (R := reader) i (by simp [hio]) ha ?_
      intro op' hm _
      cases List.mem_singleton.mp hm
      exact .waiting (b := []) rfl (.waiting hp ha)

theorem receives_initial (h : s.Initial) : Receives cfg s .empty ∧ Unread s .empty := by
  refine ⟨⟨?_, .inl ?_⟩, fun _ => ⟨rfl, rfl⟩⟩
  · simp [h.io]
  · simp [Noted, unpacked, h.log, Channel.empty, Accounts.nil]

end Session
end Lproxy.Server
