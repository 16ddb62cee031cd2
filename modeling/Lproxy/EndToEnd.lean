import Lproxy.Agreement
import Lproxy.Local.Passage
import Lproxy.Server.Passage

-- What gets through a tunnel from end to end, in every run of it.
namespace Lproxy.Tunnel

-- What a step reads from the client after the greeting, and what it reads from the remote.
def Label.fromClient? : Label → Option Data
  | atLocal lb  => lb.read?
  | atServer _ => none

def Label.fromRemote? : Label → Option Data
  | atLocal _   => none
  | atServer lb => lb.read?

-- The reads of a run, in the order in which they have returned.
def clientReads (tr : List (Tunnel × Label)) : List Data :=
  tr.filterMap fun x => x.2.fromClient?

def remoteReads (tr : List (Tunnel × Label)) : List Data :=
  tr.filterMap fun x => x.2.fromRemote?

variable {l : Local.Config} {s : Server.Config} {p q : Tunnel} {tr : List (Tunnel × Label)}

theorem forwards_run (hp : p.Initial) (r : Transition.Run (Step l s) p tr q) :
    q.atLocal.Forwards (clientReads tr) ∧ q.atServer.Forwards (remoteReads tr) ∧
      Local.Reachable l q.atLocal ∧ Server.Reachable s q.atServer := by
  induction r
  case nil        =>
    rw [hp.atLocal]
    exact ⟨Local.Session.forwards_initial, Server.Session.forwards_initial hp.atServer, .init rfl,
      .init hp.atServer⟩
  case snoc e ih =>
    have ⟨hl, hs, rl, rs⟩ := ih
    rw [clientReads, remoteReads, Outstanding.filterMap_snoc, Outstanding.filterMap_snoc]
    cases e
    case atLocal e _ _ =>
      exact ⟨Local.Session.forwards_step rl e hl, (List.append_nil _).symm ▸ hs, rl.step e, rs⟩
    case atServer e _  =>
      exact ⟨(List.append_nil _).symm ▸ hl, Server.Session.forwards_step rs e hs, rl, rs.step e⟩

-- What one side has unpacked is a part of what the other has packed.
theorem Transfers.isPrefix {packed unpacked : List Data} {c : Wire} {inHand : Prop}
    (h : Transfers packed unpacked c inHand) : unpacked <+: packed := by
  rcases h with h | ⟨_, _, _, _, h⟩ <;> rw [h] <;> exact List.take_prefix ..

theorem isPrefix_tail {α : Type*} {l₁ l₂ : List α} (h : l₁ <+: l₂) : l₁.tail <+: l₂.tail := by
  obtain ⟨r, rfl⟩ := h
  cases l₁
  case nil  => exact List.nil_prefix
  case cons => exact ⟨r, rfl⟩

-- Whatever fails, the remote gets the reads from the client, but for the first one, which is the
-- request, and the client gets, after one payload that is the reply to it, the reads from the
-- remote: each as one write, in the order in which they have been made, up to some point.
theorem end_to_end (h : Honest l s) (hp : p.Initial) (r : Transition.Run (Step l s) p tr q) :
    q.atServer.forwarded <+: (clientReads tr).tail ∧
      q.atLocal.relayed.tail <+: remoteReads tr := by
  have ⟨_, hup, hdown⟩ := handshake_agreement h (r.reachable hp)
  have ⟨hl, hs, _⟩ := forwards_run hp r
  constructor
  case left  =>
    have hu : q.atServer.unpacked <+: clientReads tr :=
      (Transfers.isPrefix hup).trans ⟨_, hl.packed⟩
    exact hs.carried.forwarded.trans (isPrefix_tail hu)
  case right =>
    rw [hl.relayed]
    exact (isPrefix_tail (Transfers.isPrefix hdown)).trans ⟨_, hs.packed⟩

section Sample

-- The server connects and replies, and the client and the remote send two bytes each.
def exchangeData : List Act :=
  (Server.Act.run 1 (.endpoints ⟨[49], 80⟩ []) ++ Server.Act.run 2 .done ++
      Server.Act.run 2 .done ++ Server.Act.run 3 (.bytes [7, 8]) ++
      Server.Act.run 3 .done).map .atServer ++
    (Local.Act.run 1 (.bytes [1, 2]) ++ Local.Act.run 1 .done ++
      Local.Act.run 0 (.bytes (Server.pack .data [5, 0, 0, 1, 127, 127, 127, 127, 4, 56]).toData) ++
      Local.Act.run 1 .done ++
      Local.Act.run 1 (.bytes (Server.pack .data [7, 8]).toData)).map .atLocal ++
    (Server.Act.run 2 (.bytes (Server.frame .data [1, 2]))).map .atServer

theorem end_to_end_sample : ∃ (p q : Tunnel) (tr : List (Tunnel × Label)),
    Transition.Run (Step Local.sampleConfig Server.sampleConfig) p tr q ∧
      [[1, 2]] <+: (clientReads tr).tail ∧ [[7, 8]] <+: remoteReads tr := by
  have ⟨q, r, hq⟩ := exists_sampleRun (handshake ++ request ++ exchangeData)
    (fun t => t.atServer.forwarded = [[1, 2]] ∧ t.atLocal.relayed.tail = [[7, 8]])
    (by decide +kernel)
  have ⟨hf, hr⟩ := of_decide_eq_true hq
  have ⟨p, tr, hp, run⟩ := r.exists_run
  have h := end_to_end sample_honest hp run
  rw [hf, hr] at h
  exact ⟨p, q, tr, run, h⟩

end Sample

end Lproxy.Tunnel
