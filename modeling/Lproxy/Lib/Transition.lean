import Mathlib.Logic.Relation

namespace Transition

variable {σ ℓ : Type*}

-- The states of a system that starts in a state of `init` and moves by `step`. The label of a step
-- says which of the things that can happen has happened.
inductive Reachable (init : σ → Prop) (step : σ → ℓ → σ → Prop) : σ → Prop
  | init {s : σ} (h : init s) : Reachable init step s
  | step {s t : σ} {l : ℓ} (r : Reachable init step s) (e : step s l t) : Reachable init step t

-- The steps of `step` that are taken from a state, and with a label, that meet `cond`.
structure Guarded (step : σ → ℓ → σ → Prop) (cond : σ → ℓ → Prop) (s : σ) (l : ℓ) (t : σ) :
    Prop where
  step : step s l t
  cond : cond s l

variable {init : σ → Prop} {step : σ → ℓ → σ → Prop}

theorem Reachable.mono {step' : σ → ℓ → σ → Prop} (h : ∀ {s l t}, step s l t → step' s l t)
    (r : Reachable init step s) : Reachable init step' s := by
  induction r
  case init h'      => exact .init h'
  case step e hi    => exact .step hi (h e)

theorem Reachable.of_guarded {cond : σ → ℓ → Prop} (r : Reachable init (Guarded step cond) s) :
    Reachable init step s :=
  r.mono Guarded.step

theorem Reachable.refl (s : σ) : Reachable (· = s) step s :=
  .init rfl

theorem Reachable.trans (r : Reachable init step t) (r' : Reachable (· = t) step u) :
    Reachable init step u := by
  induction r'
  case init h    => exact h ▸ r
  case step e hi => exact .step hi e

-- A system that simulates another one, of which every state is final or has less and less left to
-- do, can reach a final state.
theorem Reachable.exists_final {α : Type*} (sim : α → σ → Prop) (final : α → Prop) (work : α → Nat)
    (h : ∀ {a s}, sim a s → final a ∨ ∃ b l t, step s l t ∧ sim b t ∧ work b < work a)
    {a : α} (ha : sim a s) : ∃ b t, Reachable (· = s) step t ∧ sim b t ∧ final b := by
  induction hw : work a using Nat.strongRecOn generalizing a s
  case ind n ih =>
    cases h ha
    case inl hf => exact ⟨a, s, .refl s, ha, hf⟩
    case inr hn =>
      have ⟨b, l, t, e, hb, hlt⟩ := hn
      have ⟨c, u, r, hc, hf⟩ := ih (work b) (hw ▸ hlt) hb rfl
      exact ⟨c, u, (Reachable.step (.refl s) e).trans r, hc, hf⟩

structure Invariant (init : σ → Prop) (step : σ → ℓ → σ → Prop) (P : σ → Prop) : Prop where
  init : ∀ {s}, init s → P s
  step : ∀ {s l t}, P s → step s l t → P t

namespace Invariant

variable {P Q : σ → Prop}

theorem reachable (i : Invariant init step P) (r : Reachable init step s) : P s := by
  induction r
  case init h    => exact i.init h
  case step e hi => exact i.step hi e

end Invariant

-- A run, with the state before each of its steps and the label of that step.
inductive Run (step : σ → ℓ → σ → Prop) : σ → List (σ × ℓ) → σ → Prop
  | nil {s : σ} : Run step s [] s
  | snoc {s t u : σ} {tr : List (σ × ℓ)} {l : ℓ} (r : Run step s tr t) (e : step t l u) :
    Run step s (tr ++ [(t, l)]) u

namespace Run

theorem of_snoc {tr : List (σ × ℓ)} {l : ℓ} (r : Run step s (tr ++ [(t, l)]) u) :
    Run step s tr t ∧ step t l u := by
  generalize h : tr ++ [(t, l)] = tr' at r
  cases r
  case nil      => simp at h
  case snoc r e =>
    have ⟨hr, hl⟩ := List.append_inj' h rfl
    cases hr
    cases hl
    exact ⟨r, e⟩

theorem reachable_of {tr : List (σ × ℓ)} (r : Run step s tr t) (h : Reachable init step s) :
    Reachable init step t := by
  induction r
  case nil       => exact h
  case snoc e hi => exact .step hi e

theorem reachable {tr : List (σ × ℓ)} (r : Run step s tr t) (h : init s) :
    Reachable init step t :=
  r.reachable_of (.init h)

-- In a system that simulates another one, of which there is less to be done after every step that
-- is not quiet, what there is to be done in the beginning bounds the number of these steps.
theorem countP_le {α : Type*} (sim : α → σ → Prop) (work : α → Nat) (quiet : ℓ → Bool)
    (h : ∀ {a s l t}, sim a s → step s l t →
      ∃ b, sim b t ∧ (work b < work a ∨ quiet l ∧ work b ≤ work a))
    {a : α} (ha : sim a s) {tr : List (σ × ℓ)} (r : Run step s tr t) :
    ∃ b, sim b t ∧ (tr.countP fun e => !quiet e.2) + work b ≤ work a := by
  induction r
  case nil            => exact ⟨a, ha, by simp⟩
  case snoc tr l r e hi =>
    have ⟨b, hb, hle⟩ := hi
    have ⟨c, hc, hw⟩ := h hb e
    refine ⟨c, hc, ?_⟩
    rw [List.countP_append, List.countP_singleton]
    rcases hw with hlt | ⟨hq, hlt⟩
    case inl => split <;> omega
    case inr =>
      simp [hq]
      omega

end Run

-- Such a system can come to a state in which every step that is possible is quiet.
theorem Reachable.exists_quiet {α : Type*} (sim : α → σ → Prop) (work : α → Nat) (quiet : ℓ → Bool)
    (h : ∀ {a s l t}, sim a s → step s l t →
      ∃ b, sim b t ∧ (work b < work a ∨ quiet l ∧ work b ≤ work a))
    {a : α} (ha : sim a s) :
    ∃ b t, Reachable (· = s) step t ∧ sim b t ∧ ¬∃ l u, step t l u ∧ quiet l = false := by
  induction hw : work a using Nat.strongRecOn generalizing a s
  case ind n ih =>
    by_cases hm : ∃ l u, step s l u ∧ quiet l = false
    case neg => exact ⟨a, s, .refl s, ha, hm⟩
    case pos =>
      have ⟨l, t, e, hq⟩ := hm
      have ⟨b, hb, hlt⟩ := h ha e
      simp only [hq, Bool.false_eq_true, false_and, or_false] at hlt
      have ⟨c, u, r, hc, hf⟩ := ih (work b) (hw ▸ hlt) hb rfl
      exact ⟨c, u, (Reachable.step (.refl s) e).trans r, hc, hf⟩

theorem Reachable.exists_run (r : Reachable init step s) :
    ∃ s₀ tr, init s₀ ∧ Run step s₀ tr s := by
  induction r
  case init h    => exact ⟨_, [], h, .nil⟩
  case step e hi =>
    have ⟨s₀, tr, h, r⟩ := hi
    exact ⟨s₀, _, h, r.snoc e⟩

end Transition
