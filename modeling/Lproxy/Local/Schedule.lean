import Lproxy.Local.Step
import Lproxy.Lib.Schedule

-- Runs of a local session that are computed.
namespace Lproxy.Local

-- Decides `Completes`.
def completes : Op → Outcome → Bool
  | _, .error _                              => true
  | .resolve, .endpoints ..                  => true
  | .connectAny .., .done                    => true
  | .connectAny _ rest, .unconnected _ rest' => rest' <:+ rest
  | .connect .., .done                       => true
  | .rightRead lss rest, .bytes d            => d ≠ [] ∧ d.length ≤ offered lss rest
  | .rightWrite .., .done                    => true
  | .leftRead _, .bytes d                    => d ≠ [] ∧ d.length ≤ maxLength
  | .leftWrite .., .done                     => true
  | _, _                                     => false

theorem completes_iff {op : Op} {o : Outcome} : completes op o ↔ Completes op o := by
  constructor
  case mp =>
    intro h
    unfold completes at h
    split at h
    case h_1  => exact .error
    case h_2  => exact .resolve
    case h_3  => exact .connectAny
    case h_4  => exact .unconnected (of_decide_eq_true h)
    case h_5  => exact .connect
    case h_6  => exact .rightRead (of_decide_eq_true h).1 (of_decide_eq_true h).2
    case h_7  => exact .rightWrite
    case h_8  => exact .leftRead (of_decide_eq_true h).1 (of_decide_eq_true h).2
    case h_9  => exact .leftWrite
    case h_10 => cases h
  case mpr =>
    intro h
    cases h
    case error           => cases op <;> rfl
    case unconnected h   => exact decide_eq_true h
    case rightRead ne le => exact decide_eq_true ⟨ne, le⟩
    case leftRead ne le  => exact decide_eq_true ⟨ne, le⟩
    all_goals rfl

-- An entry of a schedule: the session starts, the operation at a position completes, or the handler
-- of the operation at a position runs.
inductive Act
  | start (remoteError : Bool)
  | complete (i : Nat) (o : Outcome)
  | deliver (i : Nat) (ch : Choice)

namespace Session

def act (cfg : Config) (s : Session) : Act → Option (Label × Session)
  | .start remoteError =>
    if s = initial then some (.start remoteError, s.startSession remoteError) else none
  | .complete i o      =>
    match s.io[i]? with
    | some ⟨op, none⟩ =>
      if completes op o then some (.complete op o, { s with io := s.io.set i ⟨op, some o⟩ })
      else none
    | _               => none
  | .deliver i ch      =>
    match s.io[i]? with
    | some ⟨op, some o⟩ =>
      some (.deliver op o ch, { s with io := s.io.eraseIdx i }.deliver cfg ch op o)
    | _                 => none

variable {cfg : Config}

theorem act_sound : Schedule.Sound (act cfg) (Step cfg) := by
  intro s a lb t h
  cases a
  case start =>
    simp only [act] at h
    split at h <;> cases h
    exact .start ‹_›
  case complete i o =>
    simp only [act] at h
    split at h
    case h_2 => cases h
    case h_1 op hi =>
      split at h <;> cases h
      case isTrue hc =>
        rw [Outstanding.set_eq_append hi]
        exact .complete (Outstanding.eq_append_of_getElem? hi) (completes_iff.mp hc)
  case deliver i ch =>
    simp only [act] at h
    split at h
    case h_2 => cases h
    case h_1 op o hi =>
      cases h
      rw [List.eraseIdx_eq_take_drop_succ]
      exact .deliver (Outstanding.eq_append_of_getElem? hi)

end Session

-- A configuration for runs that are computed.
section Sample

def sampleConfig : Config where
  cpp := Crypto.transparent
  authKey := ⟨List.replicate 32 65, rfl⟩
  zipOn := false

def sampleChoice : Choice where
  randomStr := [48, 49, 50, 51, 52, 53, 54, 55, 56, 57]
  rng := 0

abbrev sampleRun (acts : List Act) : Option Session :=
  Schedule.exec (Session.act sampleConfig) (fun _ _ => true) .initial acts

theorem exists_sampleRun (acts : List Act) (p : Session → Bool) (h : (sampleRun acts).any p) :
    ∃ s, Reachable sampleConfig s ∧ p s :=
  Schedule.exists_reachable Session.act_sound (by rfl) acts p h

-- The operation at a position completes, and its handler runs at once.
def Act.run (i : Nat) (o : Outcome) : List Act :=
  [.complete i o, .deliver i sampleChoice]

-- What a server writes.
def frame (type : ReplyType) (d : Data) : Data :=
  (Packet.make 0x00 type.toByte (.ofNat d.length) d).toData

-- The session connects to a server, which accepts it.
def handshake : List Act :=
  let cipher := (Crypto.Aes.raw256 Crypto.transparent sampleConfig.authKey).encrypt
    Crypto.transparent (List.replicate 32 66 ++ sampleChoice.randomStr)
  .start false :: Act.run 0 (.endpoints ⟨[49], 80⟩ []) ++ Act.run 0 .done ++ Act.run 0 .done ++
    Act.run 0 (.bytes (frame .hello [2, 0, 70, 70])) ++ Act.run 0 .done ++
    Act.run 0 (.bytes (frame .exchange cipher))

-- A client sends its greeting, and the answer is written.
def greeting : List Act :=
  Act.run 0 (.bytes [5, 1, 0]) ++ Act.run 0 .done

end Sample
end Lproxy.Local
