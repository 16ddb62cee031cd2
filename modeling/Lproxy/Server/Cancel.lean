import Lproxy.Server.Log
import Lproxy.Server.Schedule

-- What can still happen after `session::cancel` has run.
namespace Lproxy.Server

-- The events that carry the relay on: a write of decrypted payload to the remote, a write of a data
-- frame to the local, and an attempt to connect.
def Event.isActive : Event → Bool
  | started (.rightWrite ..) | started (.connect ..) => true
  | started (.leftWrite lss _)                       => IsData lss
  | _                                                => false

-- The completions whose handlers carry the relay on: those of a read or write of the relay that has
-- succeeded, and all of a resolver or of an attempt to connect, as their handlers take
-- `operation_aborted` for a failure to reach the remote.
inductive Resumes (status : Status) : Op → Outcome → Prop
  | leftRead {lss : Packet} {rest : Nat} {d : Data} (h : status = .data) :
    Resumes status (.leftRead lss rest) (.bytes d)
  | rightWrite {p : Proto} {d : Data} {bt : Nat} {lss : Packet} :
    Resumes status (.rightWrite p d (.readHandler bt lss)) .done
  | rightRead {p : Proto} {d : Data} : Resumes status (.rightRead p) (.bytes d)
  | resolve {p : Proto} {name : Data} {port : UInt16} {o : Outcome} :
    Resumes status (.resolve p name port) o
  | connect {p : Proto} {e : Endpoint} {rest : List Endpoint} {o : Outcome} :
    Resumes status (.connect p e rest) o

namespace Session

variable {cfg : Config} {ch : Choice} {s t : Session} {op : Op} {o : Outcome}

-- No handler that is run after `session::cancel` is one of a completion that carries the relay on.
def Calm (s : Session) : Label → Prop
  | .deliver op o _ => .cancelled ∈ s.log → ¬Resumes s.status op o
  | _               => True

theorem LeftEntry.resumes {bt : Nat} {lss : Packet} (e : LeftEntry op o bt lss)
    (h : s.status = .data) : Resumes s.status op o := by
  cases e
  case read    => exact .leftRead h
  case written => exact .rightWrite

theorem Replies.resumes (h : Replies s op o) : Resumes s.status op o := by
  cases h
  case request h => cases h with | intro e h _ => exact e.resumes h
  case unresolved  => exact .resolve
  case connected   => exact .connect
  case unreachable => exact .connect

theorem not_isData_timeout : ¬IsData packTimeout :=
  not_isData_pack ⟨nofun, nofun⟩

theorem resumes_of_active {lb : Label} {e : Event} (h : LoggedBy s lb e) (ha : e.isActive) :
    ∃ op o ch, lb = .deliver op o ch ∧ Resumes s.status op o := by
  cases lb
  case deliver op o ch =>
    refine ⟨op, o, ch, rfl, ?_⟩
    cases h
    case leftWrite hd _ _  => exact absurd (of_decide_eq_true ha) hd
    case timeout           =>
      exact absurd (of_decide_eq_true (p := IsData packTimeout) ha) not_isData_timeout
    case rightWrite e h _  => exact e.resumes h
    case data h _ =>
      rcases h with h | ⟨p, d, rfl, rfl⟩
      · exact h.resumes
      · exact .rightRead
    case connect h =>
      cases h
      case resolved => exact .resolve
      case retried  => exact .connect
    all_goals cases ha
  case start => rcases h with ⟨_, rfl⟩ | ⟨_, rfl⟩ <;> cases ha
  all_goals cases h

theorem noneAfter_step {lb : Label} (r : Reachable cfg s) (e : Step cfg s lb t) (hc : Calm s lb)
    (h : Trace.NoneAfter (· = .cancelled) (·.isActive) s.log) :
    Trace.NoneAfter (· = .cancelled) (·.isActive) t.log := by
  have ⟨es, he, hlast, hl⟩ := step_logs r e
  rw [he]
  refine h.append (.of_last hlast) ?_
  rintro ⟨_, hm, rfl⟩ e he ha
  have ⟨op, o, ch, hs, hr⟩ := resumes_of_active (hl e he) ha
  subst hs
  exact hc hm hr

-- In a run in which no such handler is run after a cancel, cancelling is terminal.
theorem cancel_terminal (r : Transition.Reachable Session.Initial
    (Transition.Guarded (Step cfg) Calm) s) :
    Trace.NoneAfter (· = .cancelled) (·.isActive) s.log := by
  induction r
  case init h      => exact h.log ▸ .nil
  case step r e hi => exact noneAfter_step r.of_guarded e.step e.cond hi

-- Deliveries of which a run may be made up so as to be calm.
def isCalm (s : Session) : Label → Bool
  | .deliver op o _ => .cancelled ∉ s.log || !op.inConnect && o.failed
  | _               => true

theorem calm_of_isCalm {lb : Label} (h : s.isCalm lb) : Calm s lb := by
  cases lb
  case deliver =>
    intro hm hr
    cases hr <;> simp [isCalm, hm, Op.inConnect, Outcome.failed] at h
  all_goals trivial

-- A session that is cancelled as the local has gone, with a read from the remote under way.
theorem cancel_terminal_gone : ∃ s : Session,
    s.log.drop 21 = [.cancelled, .started (.leftWrite packBad .cancel)] ∧
    Trace.NoneAfter (· = .cancelled) (·.isActive) s.log := by
  have ⟨s, r, h⟩ := Schedule.exists_guarded act_sound calm_of_isCalm newSession_initial
    (handshake ++ connectRequest ++ connection ++ Act.run 2 (.error .other) ++
      [.deliver 2 sampleChoice])
    (fun s => s.log.drop 21 = [.cancelled, .started (.leftWrite packBad .cancel)])
    (show (Schedule.exec (act sampleConfig) isCalm newSession _).any _ by decide +kernel)
  exact ⟨s, of_decide_eq_true h, cancel_terminal r⟩

-- A read from the remote that has completed before the cancel is relayed after it.
theorem cancel_not_terminal : ¬∀ {cfg : Config} {s : Session}, Reachable cfg s →
    Trace.NoneAfter (· = .cancelled) (·.isActive) s.log := by
  intro hall
  have ⟨s, r, h⟩ := exists_sampleRun
    (handshake ++ connectRequest ++ connection ++
      [.complete 3 (.bytes [1]), .complete 2 (.error .other), .deliver 2 sampleChoice,
        .deliver 2 sampleChoice])
    (fun s => ¬Trace.NoneAfter (· = .cancelled) (·.isActive) s.log) (by decide +kernel)
  exact of_decide_eq_true h (hall r)

end Session
end Lproxy.Server
