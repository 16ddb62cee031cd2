import Mathlib.Data.List.Basic

-- Facts about logs: finite lists of events, the oldest event first.
namespace Trace

variable {α : Type*} {p q : α → Prop} {l es : List α}

-- Every event that satisfies `q` comes after one that satisfies `p`.
def Preceded (p q : α → Prop) (l : List α) : Prop :=
  ∀ ⦃l₁ a l₂⦄, l = l₁ ++ a :: l₂ → q a → ∃ b ∈ l₁, p b

-- No event that satisfies `q` comes after one that satisfies `p`.
def NoneAfter (p q : α → Prop) (l : List α) : Prop :=
  ∀ ⦃l₁ a l₂⦄, l = l₁ ++ a :: l₂ → p a → ∀ b ∈ l₂, ¬q b

-- None of the events `bad` has occurred.
def Avoids (bad l : List α) : Prop :=
  ∀ e ∈ bad, e ∉ l

theorem Avoids.append {bad : List α} (h : Avoids bad l) (he : ∀ e ∈ bad, e ∉ es) :
    Avoids bad (l ++ es) := by
  intro e hb hm
  rcases List.mem_append.mp hm with hm | hm
  · exact h e hb hm
  · exact he e hb hm

theorem append_eq_split {l es l₁ l₂ : List α} {a : α} (h : l ++ es = l₁ ++ a :: l₂) :
    (∃ r, l = l₁ ++ a :: r ∧ l₂ = r ++ es) ∨ (∃ r, l₁ = l ++ r ∧ es = r ++ a :: l₂) := by
  rcases List.append_eq_append_iff.mp h with ⟨r, h₁, h₂⟩ | ⟨r, h₁, h₂⟩
  · exact .inr ⟨r, h₁, h₂⟩
  · cases r
    case nil       => exact .inr ⟨[], by simpa using h₁.symm, by simpa using h₂.symm⟩
    case cons b r  =>
      have ⟨hs, he₁⟩ : a = b ∧ l₂ = r ++ es := by simpa using h₂
      subst hs he₁
      exact .inl ⟨r, h₁, rfl⟩

namespace Preceded

theorem nil : Preceded p q ([] : List α) := by
  intro _ _ _ h
  simp at h

theorem append (h : Preceded p q l) (he : ∀ e ∈ es, q e → ∃ b ∈ l, p b) :
    Preceded p q (l ++ es) := by
  intro l₁ a l₂ heq ha
  rcases append_eq_split heq with ⟨r, h₁, -⟩ | ⟨r, rfl, rfl⟩
  · exact h h₁ ha
  · have ⟨b, hb, hp⟩ := he a (by simp) ha
    exact ⟨b, by simp [hb], hp⟩

end Preceded

theorem preceded_snoc_iff {a : α} :
    Preceded p q (l ++ [a]) ↔ Preceded p q l ∧ (q a → ∃ b ∈ l, p b) := by
  constructor
  case mp =>
    intro h
    exact ⟨fun l₁ b l₂ he => @h l₁ b (l₂ ++ [a]) (by simp [he]), @h l a [] rfl⟩
  case mpr =>
    intro ⟨h, ha⟩
    exact h.append (by simpa using ha)

namespace NoneAfter

theorem nil : NoneAfter p q ([] : List α) := by
  intro _ _ _ h
  simp at h

theorem cons_iff {a : α} :
    NoneAfter p q (a :: l) ↔ (p a → ∀ b ∈ l, ¬q b) ∧ NoneAfter p q l := by
  constructor
  case mp =>
    intro h
    exact ⟨@h [] a l rfl, fun l₁ b l₂ he => @h (a :: l₁) b l₂ (by rw [he, List.cons_append])⟩
  case mpr =>
    rintro ⟨ha, h⟩ l₁ b l₂ he hb
    cases l₁
    case nil =>
      cases he
      exact ha hb
    case cons =>
      cases he
      exact h rfl hb

instance decidable [DecidablePred p] [DecidablePred q] :
    (l : List α) → Decidable (NoneAfter p q l)
  | []     => .isTrue nil
  | _ :: l => let _ := decidable l; decidable_of_iff _ cons_iff.symm

theorem append (h : NoneAfter p q l) (he : NoneAfter p q es)
    (hle : (∃ a ∈ l, p a) → ∀ b ∈ es, ¬q b) : NoneAfter p q (l ++ es) := by
  intro l₁ a l₂ heq ha b hb
  rcases append_eq_split heq with ⟨r, h₁, rfl⟩ | ⟨r, rfl, h₂⟩
  · rcases List.mem_append.mp hb with hb | hb
    · exact h h₁ ha b hb
    · exact hle ⟨a, by simp [h₁], ha⟩ b hb
  · exact he h₂ ha b hb

theorem of_last {a : α} (h : a ∉ l.dropLast) : NoneAfter (· = a) q l := by
  rintro l₁ _ l₂ rfl rfl b hb
  have hne : l₂ ≠ [] := List.ne_nil_of_mem hb
  rw [List.dropLast_append_of_ne_nil (by simp), List.dropLast_cons_of_ne_nil hne] at h
  simp at h

end NoneAfter
end Trace
