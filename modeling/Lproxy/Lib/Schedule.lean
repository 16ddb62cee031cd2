import Lproxy.Lib.Transition

-- Runs that are computed from a schedule. `act` is a function that takes the steps of a system.
namespace Schedule

variable {σ ℓ α : Type*} {act : σ → α → Option (ℓ × σ)} {cond : σ → ℓ → Bool}

-- Runs a schedule, as long as each of its steps is possible and meets a condition.
def exec (act : σ → α → Option (ℓ × σ)) (cond : σ → ℓ → Bool) : σ → List α → Option σ
  | s, []        => some s
  | s, a :: acts =>
    match act s a with
    | some (l, t) => if cond s l then exec act cond t acts else none
    | none        => none

-- Every step that `act` takes is one of the system.
def Sound (act : σ → α → Option (ℓ × σ)) (step : σ → ℓ → σ → Prop) : Prop :=
  ∀ ⦃s a l t⦄, act s a = some (l, t) → step s l t

variable {init : σ → Prop} {step : σ → ℓ → σ → Prop} {P : σ → ℓ → Prop} {s t : σ} {acts : List α}

-- A schedule leads to states that are reachable by steps that meet its condition.
theorem exec_guarded (ha : Sound act step) (hp : ∀ {s l}, cond s l → P s l)
    (h : exec act cond s acts = some t)
    (r : Transition.Reachable init (Transition.Guarded step P) s) :
    Transition.Reachable init (Transition.Guarded step P) t := by
  induction acts generalizing s
  case nil =>
    cases h
    exact r
  case cons a acts ih =>
    simp only [exec] at h
    split at h
    case h_2 => cases h
    case h_1 l u he =>
      split at h
      case isFalse   => cases h
      case isTrue hc => exact ih h (r.step ⟨ha he, hp hc⟩)

theorem exists_guarded (ha : Sound act step) (hp : ∀ {s l}, cond s l → P s l) (hs : init s)
    (acts : List α) (p : σ → Bool) (h : (exec act cond s acts).any p) :
    ∃ t, Transition.Reachable init (Transition.Guarded step P) t ∧ p t := by
  have ⟨t, ht, hpt⟩ := (Option.any_eq_true ..).mp h
  exact ⟨t, exec_guarded ha hp ht (.init hs), hpt⟩

theorem exists_reachable (ha : Sound act step) (hs : init s) (acts : List α) (p : σ → Bool)
    (h : (exec act (fun _ _ => true) s acts).any p) :
    ∃ t, Transition.Reachable init step t ∧ p t := by
  have ⟨t, r, ht⟩ := exists_guarded (P := fun _ _ => True) ha (fun _ => trivial) hs acts p h
  exact ⟨t, r.of_guarded, ht⟩

end Schedule
