import Lproxy.Server.Log
import Lproxy.Server.Schedule

-- The authentication gate: what a session does only after an exchange that it has accepted.
namespace Lproxy.Server

-- The events that the exchange is a precondition of: the processing of a request, and the writing
-- of decrypted payload to a remote.
def Event.Gated : Event → Prop
  | socks5RequestProcessing _ | started (.rightWrite ..) => True
  | _                                                    => False

namespace Session

variable {cfg : Config} {s t : Session}

theorem status_of_gated {lb : Label} {e : Event} (h : LoggedBy s lb e) (hg : e.Gated) :
    s.status = .data := by
  cases lb
  case deliver =>
    cases h
    case request h      => cases h with | intro _ h _ => exact h
    case rightWrite h _ => exact h
    all_goals cases hg
  case start => rcases h with ⟨_, rfl⟩ | ⟨_, rfl⟩ <;> cases hg
  all_goals cases h

theorem preceded_step {lb : Label} (r : Reachable cfg s) (e : Step cfg s lb t)
    (h : Trace.Preceded (Event.Accepts cfg) Event.Gated s.log) :
    Trace.Preceded (Event.Accepts cfg) Event.Gated t.log := by
  have i := inv_reachable r
  have ⟨es, he, _, hl⟩ := step_logs r e
  rw [he]
  exact h.append fun e hm hg => i.accepted (i.keyed (status_of_gated (hl e hm) hg))

theorem preceded_reachable (r : Reachable cfg s) :
    Trace.Preceded (Event.Accepts cfg) Event.Gated s.log := by
  induction r
  case init h      => exact h.log ▸ .nil
  case step r e hi => exact preceded_step r e hi

-- A session moves through its statuses in their order, what it does for a peer comes after an
-- exchange packet of that peer that was accepted, and no packet is encrypted or decrypted before
-- there is a key.
theorem authentication_gate (r : Reachable cfg s) :
    s.log.filterMap Event.status? = trail s.status ∧
    Trace.Preceded (Event.Accepts cfg) Event.Gated s.log ∧
    .encryptorNotInitialized ∉ s.log := by
  have i := inv_reachable r
  exact ⟨i.trail, preceded_reachable r, i.encryptor⟩

-- The gate at a session that has relayed data of an authenticated local to a remote.
theorem authentication_gate_relayed : ∃ s : Session,
    .started (.rightWrite .tcp [1] .writeHandler) ∈ s.log ∧
    s.log.filterMap Event.status? = trail s.status ∧
    Trace.Preceded (Event.Accepts sampleConfig) Event.Gated s.log ∧
    .encryptorNotInitialized ∉ s.log := by
  have ⟨s, r, h⟩ := exists_sampleRun
    (handshake ++ connectRequest ++ connection ++ Act.run 2 (.bytes (frame .data [1])))
    (fun s => .started (.rightWrite .tcp [1] .writeHandler) ∈ s.log) (by decide +kernel)
  exact ⟨s, of_decide_eq_true h, authentication_gate r⟩

end Session
end Lproxy.Server
