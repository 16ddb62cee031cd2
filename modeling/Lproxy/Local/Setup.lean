import Lproxy.Local.Pump

-- How a session gets from the greeting of its client to relaying.
namespace Lproxy.Local

-- How far the session has got.
inductive Welcome
  | waiting
  | greeted
  | answering
  | answered

namespace Welcome

def price : Welcome → Nat
  | waiting   => 4
  | greeted   => 3
  | answering => 2
  | answered  => 1

-- What has not been read of the greeting.
def unread (greeting : Data) : Welcome → Data
  | waiting => greeting
  | _       => []

end Welcome

def welcomeOp (greeting : Data) : Welcome → Outstanding Op Outcome
  | .waiting   => ⟨.leftRead .leftReadSocks5Step1, none⟩
  | .greeted   => ⟨.leftRead .leftReadSocks5Step1, some (.bytes greeting)⟩
  | .answering => ⟨.leftWrite [0x05, 0x00] .leftWriteSocks5Step1Handler, none⟩
  | .answered  => ⟨.leftWrite [0x05, 0x00] .leftWriteSocks5Step1Handler, some .done⟩

namespace Session

structure Welcomes (cfg : Config) (aes : Crypto.Aes) (log : List Event) (greeting : Data)
    (k : Welcome) (s : Session) : Prop extends Relaying cfg aes s where
  io : s.io = [welcomeOp greeting k]
  log : Relayed Event.toClient Event.ends log [] s.log

namespace Welcomes

variable {cfg : Config} {aes : Crypto.Aes} {log : List Event} {greeting : Data} {k : Welcome}
  {s t : Session} {lb : Label}

-- What a step does. In the end, the session relays.
def Advance (cfg : Config) (aes : Crypto.Aes) (log : List Event) (greeting : Data) (k : Welcome)
    (lb : Label) (t : Session) : Prop :=
  lb.fromServer = [] ∧ lb.sent = none ∧
    ((∃ k' : Welcome, t.Welcomes cfg aes log greeting k' ∧ k'.price < k.price ∧
        k.unread greeting = lb.fromClient ++ k'.unread greeting) ∨
      k.unread greeting = [] ∧ lb.fromClient = [] ∧
        t.Pumps cfg aes log (.reading none) ⟨.reading (.receiving lengthHandshake) 0 none, [], []⟩)

-- A step of the session is one of its only operation.
theorem advance (p : s.Welcomes cfg aes log greeting k)
    (ha : ∀ u : Session, u.Answers greeting 0x00) (e : Step cfg s lb t) (hc : lb.Calm)
    (hw : lb.fromClient ≠ [] → k.unread greeting ≠ [] → lb.fromClient = greeting)
    (ne : greeting ≠ []) : Advance cfg aes log greeting k lb t := by
  have hp : s.io.Perm [welcomeOp greeting k] := p.io ▸ .refl _
  cases concerns hp p.status e
  case inr h =>
    obtain ⟨_, hy, _⟩ := h
    cases hy
  case inl c =>
    cases c with
    | complete hx c io =>
      have io := List.perm_singleton.mp io
      cases k
      case greeted  => cases hx
      case answered => cases hx
      case waiting =>
        cases hx
        cases c with
        | error              => cases hc
        | @leftRead _ d hd _ =>
          cases show d = greeting from hw hd ne
          refine ⟨rfl, rfl, .inl ⟨.greeted, { p with io := io }, by decide, ?_⟩⟩
          simp [Welcome.unread, Label.fromClient]
      case answering =>
        cases hx
        cases c
        case error     => cases hc
        case leftWrite => exact ⟨rfl, rfl, .inl ⟨.answered, { p with io := io }, by decide, rfl⟩⟩
    | @deliver op o ch l hx io =>
      have io := List.perm_nil.mp io
      subst io
      cases k
      case waiting   => cases hx
      case answering => cases hx
      case greeted =>
        cases hx
        have heq : (asynchronous cfg).handle ch { s with io := [] }
          (.leftRead .leftReadSocks5Step1) (.bytes greeting) = { s with io := [] }.start _ := ha _
        rw [heq]
        refine ⟨rfl, rfl, .inl ⟨.answering, ?_, by decide, rfl⟩⟩
        exact { p with io := rfl, log := p.log.quiet rfl rfl }
      case answered =>
        cases hx
        refine ⟨rfl, rfl, .inr ⟨rfl, rfl, { p with io := .refl _, log := ?_ }⟩⟩
        exact (p.log.quiet rfl rfl).quiet rfl rfl

-- The session can go on.
theorem moves (p : s.Welcomes cfg aes log greeting k) (ne : greeting ≠ [])
    (le : greeting.length ≤ maxLength) : ∃ lb t, Step cfg s lb t ∧ lb.Calm ∧
      lb.fromClient = k.unread greeting ∧ lb.fromServer = [] ∧ ∀ fs x, Aligned fs x lb := by
  have hio : s.io = [] ++ welcomeOp greeting k :: [] := p.io
  cases k
  case waiting   => exact ⟨_, _, .complete hio (.leftRead ne le), rfl, rfl, rfl, fun _ _ => trivial⟩
  case answering => exact ⟨_, _, .complete hio .leftWrite, rfl, rfl, rfl, fun _ _ => trivial⟩
  all_goals
    exact ⟨.deliver _ _ sampleChoice, _, .deliver hio, trivial, rfl, rfl, fun _ _ => trivial⟩

end Welcomes
end Session
end Lproxy.Local
