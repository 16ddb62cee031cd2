import Lproxy.Server.Step
import Lproxy.Lib.Schedule

-- Runs of a server session that are computed.
namespace Lproxy.Server

-- Decides `Completes`.
def completes : Op → Outcome → Bool
  | _, .error _                          => true
  | .leftRead lss rest, .bytes d         => d ≠ [] ∧ d.length ≤ offered lss rest
  | .leftWrite .., .done                 => true
  | .rightRead p, .bytes d               => (p = .tcp → d ≠ []) ∧ d.length ≤ maxLength
  | .rightWrite .., .done                => true
  | .resolve .., .endpoints ..           => true
  | .connect .., .done                   => true
  | .timerWait, .done                    => true
  | _, _                                 => false

theorem completes_iff {op : Op} {o : Outcome} : completes op o ↔ Completes op o := by
  constructor
  case mp =>
    intro h
    unfold completes at h
    split at h
    case h_1 => exact .error
    case h_2 => exact .leftRead (of_decide_eq_true h).1 (of_decide_eq_true h).2
    case h_3 => exact .leftWrite
    case h_4 => exact .rightRead (of_decide_eq_true h).1 (of_decide_eq_true h).2
    case h_5 => exact .rightWrite
    case h_6 => exact .resolve
    case h_7 => exact .connect
    case h_8 => exact .timerWait
    case h_9 => cases h
  case mpr =>
    intro h
    cases h
    case error              => cases op <;> rfl
    case leftRead ne le     => exact decide_eq_true ⟨ne, le⟩
    case rightRead ne le    => exact decide_eq_true ⟨ne, le⟩
    all_goals rfl

-- An entry of a schedule: the session starts, the operation at a position completes, the handler of
-- the operation at a position runs, or time passes.
inductive Act
  | start (remoteError : Bool)
  | complete (i : Nat) (o : Outcome)
  | deliver (i : Nat) (ch : Choice)
  | tick (duration : Nat)

namespace Session

def act (cfg : Config) (s : Session) : Act → Option (Label × Session)
  | .start remoteError =>
    if s.status = .notConnected then some (.start remoteError, s.startSession remoteError) else none
  | .complete i o      =>
    match s.io[i]? with
    | some ⟨op, none⟩ =>
      if completes op o ∧ (op = .timerWait → o = .done → s.expiresAt ≤ s.now) then
        some (.complete op o, { s with io := s.io.set i ⟨op, some o⟩ })
      else none
    | _               => none
  | .deliver i ch      =>
    match s.io[i]? with
    | some ⟨op, some o⟩ =>
      some (.deliver op o ch, { s with io := s.io.eraseIdx i }.deliver cfg ch op o)
    | _                 => none
  | .tick d            => some (.tick d, { s with now := s.now + d })

variable {cfg : Config}

theorem act_sound : Schedule.Sound (act cfg) (Step cfg) := by
  intro s a lb t h
  cases a
  case start =>
    simp only [act] at h
    split at h <;> cases h
    exact .start ‹_›
  case tick =>
    cases h
    exact .tick
  case complete i o =>
    simp only [act] at h
    split at h
    case h_2 => cases h
    case h_1 op hi =>
      split at h <;> cases h
      case isTrue hc =>
        rw [Outstanding.set_eq_append hi]
        exact .complete (Outstanding.eq_append_of_getElem? hi) (completes_iff.mp hc.1) hc.2
  case deliver i ch =>
    simp only [act] at h
    split at h
    case h_2 => cases h
    case h_1 op o hi =>
      cases h
      rw [List.eraseIdx_eq_take_drop_succ]
      exact .deliver (Outstanding.eq_append_of_getElem? hi)

end Session

-- A configuration for runs that are computed.
section Sample

def sampleConfig : Config where
  cpp := Crypto.transparent
  boost := ⟨Vector.toList, Vector.toList, fun _ => true⟩
  rsaKeysize := 512
  rsaPublickeyHex := [70, 70]
  rsakey := ⟨[], 512⟩
  zipOn := false
  cipherAuthKeySet := [⟨List.replicate 32 65, by decide⟩]
  bindAddrSocks5 := some (.ofFn fun _ => 127)
  bindPortSocks5 := 1080
  timeout := 10

def sampleChoice : Choice where
  dataKey := ⟨List.replicate 32 66, rfl⟩
  beyond _ := 0
  udpOpened := true

def newSession : Session where
  status := .notConnected
  socks5State := .opening
  socks5Cmd := .unsupport
  destName := []
  destPort := 0
  socks5RespReply := 0
  aesEncryptor := none
  expiresAt := 0
  now := 0
  io := []
  log := []

theorem newSession_initial : newSession.Initial :=
  ⟨rfl, rfl, rfl, rfl, rfl⟩

-- What a schedule leads to from there.
abbrev sampleRun (acts : List Act) : Option Session :=
  Schedule.exec (Session.act sampleConfig) (fun _ _ => true) newSession acts

theorem exists_sampleRun (acts : List Act) (p : Session → Bool) (h : (sampleRun acts).any p) :
    ∃ s, Reachable sampleConfig s ∧ p s :=
  Schedule.exists_reachable Session.act_sound newSession_initial acts p h

-- What a local writes.
def frame (type : RequestType) (d : Data) : Data :=
  (Packet.make 0x00 type.toByte (.ofNat d.length) d).toData

-- The operation at a position completes, and its handler runs at once.
def Act.run (i : Nat) (o : Outcome) : List Act :=
  [.complete i o, .deliver i sampleChoice]

-- A local authenticates itself.
def handshake : List Act :=
  let cipher := ((⟨[], [], 512, false⟩ : Crypto.Rsa).encrypt Crypto.transparent 0
    (List.replicate 32 65)).toOption.getD []
  .start false :: Act.run 0 (.bytes (frame .hello [])) ++ Act.run 0 .done ++
    Act.run 0 (.bytes (frame .exchange cipher)) ++ Act.run 0 .done

-- It requests a connection, the name is resolved, and the attempt to connect starts.
def connectRequest : List Act :=
  Act.run 0 (.bytes (frame .data [5, 1, 0, 1, 127, 0, 0, 1, 0, 80])) ++
    Act.run 1 (.endpoints ⟨[49], 80⟩ [])

-- The attempt succeeds, and the reply is written.
def connection : List Act :=
  Act.run 2 .done ++ Act.run 2 .done

end Sample
end Lproxy.Server
