import Lproxy.Lib.Arrivals
import Lproxy.Local.Link

-- What passes through a session: the reads from its client become frames, and the frames of the
-- server become writes to its client, whatever fails in the meantime.
namespace Lproxy.Local

open List (filterMap_cons)

-- What a read from the client returns, once the greeting has been answered.
def read? : Op → Outcome → Option Data
  | .leftRead .leftReadHandler, .bytes d => some d
  | _, _                                 => none

def Label.read? : Label → Option Data
  | complete op o => Local.read? op o
  | _             => none

def Event.relayed? : Event → Option Data
  | started (.leftWrite d (.relay _)) => some d
  | _                                 => none

theorem inLeft_of_read (op : Op) (o : Outcome) (d : Data) (h : read? op o = some d) :
    op.inLeft := by
  unfold read? at h
  split at h
  case h_1 => rfl
  case h_2 => cases h

@[simp]
theorem read?_error (op : Op) (code : ErrorCode) : read? op (.error code) = none := by
  unfold read?
  split
  case h_1 he => cases he
  case h_2    => rfl

@[simp]
theorem arrivals_abort (p : Op → Bool) (io : List (Outstanding Op Outcome)) :
    Outstanding.arrivals read? (io.map (Outstanding.abort p (.error .operationAborted))) =
      Outstanding.arrivals read? io :=
  Outstanding.arrivals_abort (read?_error · _) p io

namespace Session

variable {cfg : Config} {ch : Choice} {s t : Session} {op : Op} {o : Outcome} {chunks : List Data}

-- What has been read from the client, while the handler is queued.
def arrived (s : Session) : List Data :=
  Outstanding.arrivals read? s.io

-- What has been sent to the client as the payload of a frame.
def relayed (s : Session) : List Data :=
  s.log.filterMap Event.relayed?

-- `chunks` are what has been read from the client.
structure Forwards (chunks : List Data) (s : Session) : Prop where
  packed : s.packed ++ s.arrived = chunks
  relayed : s.relayed = s.unpacked

theorem forwards_initial : Forwards [] .initial :=
  ⟨rfl, rfl⟩

theorem rightReadDone_passes {bt : Nat} {lss : Packet} (r : RightReadDone cfg ch s bt lss t) :
    t.packed = s.packed ∧ t.arrived = s.arrived ∧
      (s.relayed = s.unpacked → t.relayed = t.unpacked) := by
  cases r
  case hello hp =>
    have ⟨hu, _⟩ := packExchange_ok hp
    subst hu
    simp [packed, arrived, relayed, unpacked, filterMap_cons, Event.packed?, Event.relayed?,
      Event.unpacked?]
  all_goals
    simp +contextual [packed, arrived, relayed, unpacked, filterMap_cons, Event.packed?,
      Event.relayed?, Event.unpacked?]

-- A handler packs what has been read, and sends what it has unpacked.
theorem delivered_passes (i : Inv cfg [op] s) (d : Delivered cfg ch s op o t) :
    t.packed = s.packed ++ (read? op o).toList ∧ t.arrived = s.arrived ∧
      (s.relayed = s.unpacked → t.relayed = t.unpacked) := by
  cases d
  case right e r =>
    have h := rightReadDone_passes r
    cases e <;> simpa [read?] using h
  case assertion h =>
    have hd : s.status = .data := i.fits _ (List.mem_cons_self ..)
    have ⟨key, hk⟩ := Option.isSome_iff_exists.mp (i.keyed hd)
    simp [i.getAes, hk] at h
  case packed =>
    simp [packed, arrived, relayed, unpacked, read?, filterMap_cons, Event.packed?, Event.relayed?,
      Event.unpacked?]
  case opened =>
    refine ⟨?_, (Outstanding.arrivals_start ..).trans (Outstanding.arrivals_start ..), ?_⟩
    · simp [packed, read?, filterMap_cons, Event.packed?]
    · simp [relayed, unpacked, filterMap_cons, Event.relayed?, Event.unpacked?]
  case retried h =>
    have hn : read? op o = none := by cases h <;> rfl
    simp [packed, arrived, relayed, unpacked, hn, filterMap_cons, Event.packed?,
      Event.relayed?, Event.unpacked?]
  case unreachable h =>
    have hn : read? op o = none := by cases h <;> rfl
    simp [packed, arrived, relayed, unpacked, hn, filterMap_cons, Event.packed?,
      Event.relayed?, Event.unpacked?]
  all_goals
    simp [packed, arrived, relayed, unpacked, read?, filterMap_cons, Event.packed?,
      Event.relayed?, Event.unpacked?]

theorem forwards_step {lb : Label} (r : Reachable cfg s) (e : Step cfg s lb t)
    (h : s.Forwards chunks) : t.Forwards (chunks ++ lb.read?.toList) := by
  have k := serial_reachable r
  cases e
  case start remoteError hs =>
    subst hs
    have hc : [] = chunks := h.packed
    subst hc
    cases remoteError <;> exact ⟨rfl, rfl⟩
  case complete hio c =>
    refine ⟨?_, h.relayed⟩
    rw [arrived, Outstanding.arrivals_complete inLeft_of_read k.left hio, ← List.append_assoc]
    exact congrArg (· ++ _) h.packed
  case deliver op o ch hio =>
    have i := inv_reachable r
    have d : Delivered cfg ch _ op o _ := i.deliver_queued hio
    have ⟨hp, ha, hr⟩ := delivered_passes (i.dequeue hio) d
    refine ⟨?_, hr h.relayed⟩
    have hq := Outstanding.arrivals_dequeue inLeft_of_read k.left hio
    rw [hp, ha, List.append_assoc]
    exact (congrArg (s.packed ++ ·) hq.symm).trans (h.packed.trans (List.append_nil _).symm)

end Session
end Lproxy.Local
