import Lproxy.Local.Link
import Lproxy.Local.Schedule
import Lproxy.Server.Link
import Lproxy.Server.Schedule

-- A local session and a server session that are connected with each other.
namespace Lproxy

structure Tunnel where
  atLocal : Local.Session
  atServer : Server.Session
  up : Wire
  down : Wire

-- `generate_number` returns ten digits.
def Local.Label.Generates : Local.Label → Prop
  | deliver _ _ ch => ch.randomStr.length = 10
  | _              => True

namespace Tunnel

inductive Label
  | atLocal (lb : Local.Label)
  | atServer (lb : Server.Label)

inductive Step (l : Local.Config) (s : Server.Config) (p : Tunnel) : Label → Tunnel → Prop
  | atLocal {lb : Local.Label} {t : Local.Session} {down : Wire} (e : Local.Step l p.atLocal lb t)
    (hr : lb.Generates) (ht : lb.Takes p.down down) :
    Step l s p (.atLocal lb) ⟨t, p.atServer, p.up.send lb.sent, down⟩
  | atServer {lb : Server.Label} {t : Server.Session} {up : Wire}
    (e : Server.Step s p.atServer lb t) (ht : lb.Takes p.up up) :
    Step l s p (.atServer lb) ⟨p.atLocal, t, up, p.down.send lb.sent⟩

structure Initial (p : Tunnel) : Prop where
  atLocal : p.atLocal = .initial
  atServer : p.atServer.Initial
  up : p.up = .empty
  down : p.down = .empty

abbrev Reachable (l : Local.Config) (s : Server.Config) : Tunnel → Prop :=
  Transition.Reachable Initial (Step l s)

-- An entry of a schedule.
inductive Act
  | atLocal (a : Local.Act)
  | atServer (a : Server.Act)

end Tunnel

section Decide

-- Decide `Generates` and `Takes`.
def Local.Label.generates : Local.Label → Bool
  | deliver _ _ ch => ch.randomStr.length = 10
  | _              => true

def Local.Label.take? : Local.Label → Wire → Option Wire
  | complete (.rightRead lss rest) (.bytes d), c => c.read? Packet.toData (offered lss rest) d
  | _, c                                         => some c

def Server.Label.take? : Server.Label → Wire → Option Wire
  | complete (.leftRead lss rest) (.bytes d), c => c.read? Packet.toData (offered lss rest) d
  | _, c                                        => some c

variable {c c' : Wire}

theorem Local.Label.generates_iff {lb : Local.Label} : lb.generates ↔ lb.Generates := by
  cases lb <;> simp [generates, Generates]

theorem Local.Label.takes_of_take? {lb : Local.Label} (h : lb.take? c = some c') :
    lb.Takes c c' := by
  have same (h : some c = some c') : c' = c := (Option.some.inj h).symm
  cases lb
  case complete op o =>
    cases op
    case rightRead =>
      cases o
      case bytes => exact .of_read? h
      all_goals exact same h
    all_goals exact same h
  all_goals exact same h

theorem Server.Label.takes_of_take? {lb : Server.Label} (h : lb.take? c = some c') :
    lb.Takes c c' := by
  have same (h : some c = some c') : c' = c := (Option.some.inj h).symm
  cases lb
  case complete op o =>
    cases op
    case leftRead =>
      cases o
      case bytes => exact .of_read? h
      all_goals exact same h
    all_goals exact same h
  all_goals exact same h

end Decide

namespace Tunnel

def act (l : Local.Config) (s : Server.Config) (p : Tunnel) : Act → Option (Label × Tunnel)
  | .atLocal a  =>
    match p.atLocal.act l a with
    | none         => none
    | some (lb, t) =>
      match lb.take? p.down with
      | none      => none
      | some down =>
        if lb.generates then some (.atLocal lb, ⟨t, p.atServer, p.up.send lb.sent, down⟩) else none
  | .atServer a =>
    match p.atServer.act s a with
    | none         => none
    | some (lb, t) =>
      match lb.take? p.up with
      | none    => none
      | some up => some (.atServer lb, ⟨p.atLocal, t, up, p.down.send lb.sent⟩)

variable {l : Local.Config} {s : Server.Config}

theorem act_sound : Schedule.Sound (act l s) (Step l s) := by
  intro p a lb q h
  cases a
  case atLocal =>
    simp only [act] at h
    split at h
    case h_1 => cases h
    case h_2 he =>
      split at h
      case h_1 => cases h
      case h_2 ht =>
        split at h <;> cases h
        case isTrue hg =>
          exact .atLocal (Local.Session.act_sound he) (Local.Label.generates_iff.mp hg)
            (Local.Label.takes_of_take? ht)
  case atServer =>
    simp only [act] at h
    split at h
    case h_1 => cases h
    case h_2 he =>
      split at h <;> cases h
      case h_2 ht =>
        exact .atServer (Server.Session.act_sound he) (Server.Label.takes_of_take? ht)

-- A run that is computed.
section Sample

def new : Tunnel :=
  ⟨.initial, Server.newSession, .empty, .empty⟩

theorem new_initial : new.Initial :=
  ⟨rfl, Server.newSession_initial, rfl, rfl⟩

abbrev sampleRun (acts : List Act) : Option Tunnel :=
  Schedule.exec (act Local.sampleConfig Server.sampleConfig) (fun _ _ => true) new acts

theorem exists_sampleRun (acts : List Act) (p : Tunnel → Bool) (h : (sampleRun acts).any p) :
    ∃ t, Reachable Local.sampleConfig Server.sampleConfig t ∧ p t :=
  Schedule.exists_reachable act_sound new_initial acts p h

-- The local says hello, and gets the key of the server; it sends its exchange packet, and gets the
-- one of the server.
def handshake : List Act :=
  let cipher := ((⟨[], [], 512, false⟩ : Crypto.Rsa).encrypt Crypto.transparent 0
    (List.replicate 32 65 ++ Local.sampleChoice.randomStr)).toOption.getD []
  (Local.handshake.take 7).map .atLocal ++ (Server.handshake.take 5).map .atServer ++
    ((Local.handshake.drop 7).take 4).map .atLocal ++
    (Server.Act.run 0 (.bytes (Server.frame .exchange cipher)) ++ Server.Act.run 0 .done).map
      .atServer ++
    (Local.handshake.drop 11).map .atLocal

-- A client sends its greeting, and then a request that the server looks at.
def request : List Act :=
  let rq := [5, 1, 0, 1, 127, 0, 0, 1, 0, 80]
  (Local.greeting ++ Local.Act.run 0 (.bytes rq) ++ Local.Act.run 1 .done).map .atLocal ++
    (Server.Act.run 0 (.bytes (Server.frame .data rq))).map .atServer

end Sample

end Tunnel

end Lproxy
