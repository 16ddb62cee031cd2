import Mathlib.Data.List.Basic

-- A search through a list for the first of its elements upon which an attempt succeeds. One attempt
-- is made at a time.
inductive Search (α : Type*)
  | trying (failed : List α) (a : α) (rest : List α)
  | found (failed : List α) (a : α) (rest : List α)
  | exhausted (failed : List α)

namespace Search

variable {α : Type*} {a : α} {failed rest : List α}

-- How the search goes on with the rest of the list.
def next (failed : List α) : List α → Search α
  | []        => exhausted failed
  | a :: rest => trying failed a rest

-- The list that is searched.
def all : Search α → List α
  | trying failed a rest | found failed a rest => failed ++ a :: rest
  | exhausted failed                           => failed

-- The attempts that have been made, and those that have ended, with their success.
def attempts : Search α → List α
  | trying failed a _ | found failed a _ => failed ++ [a]
  | exhausted failed                     => failed

def results : Search α → List (α × Bool)
  | trying failed _ _ | exhausted failed => failed.map (·, false)
  | found failed a _                     => failed.map (·, false) ++ [(a, true)]

@[simp]
theorem all_trying : (trying failed a rest).all = failed ++ a :: rest :=
  rfl

@[simp]
theorem attempts_trying : (trying failed a rest).attempts = failed ++ [a] :=
  rfl

@[simp]
theorem results_trying : (trying failed a rest).results = failed.map (·, false) :=
  rfl

@[simp]
theorem results_found : (found failed a rest).results = failed.map (·, false) ++ [(a, true)] :=
  rfl

@[simp]
theorem all_next (l : List α) : (next failed l).all = failed ++ l := by
  cases l <;> simp [next, all]

@[simp]
theorem attempts_next (l : List α) : (next failed l).attempts = failed ++ l.head?.toList := by
  cases l <;> simp [next, attempts]

@[simp]
theorem results_next (l : List α) : (next failed l).results = failed.map (·, false) := by
  cases l <;> rfl

-- A search is known by the list that is searched and the attempts that have ended.
theorem eq_of_results {x y : Search α} (ha : x.all = y.all) (hr : x.results = y.results) :
    x = y := by
  have inj {l l' : List α} (h : l.map (·, false) = l'.map (·, false)) : l = l' :=
    List.map_injective_iff.mpr (fun a b h => (Prod.mk.inj h).1) h
  have found_ne {failed failed' : List α} {a : α} :
      failed.map (·, false) ++ [(a, true)] ≠ failed'.map (·, false) := by
    intro h
    have hm := h ▸ List.mem_append_right _ (List.mem_singleton_self (a, true))
    simp at hm
  cases x <;> cases y
  case trying.trying         =>
    cases inj hr
    cases List.append_cancel_left ha
    rfl
  case trying.found          => exact absurd hr.symm found_ne
  case trying.exhausted      =>
    cases inj hr
    simp [all] at ha
  case found.trying          => exact absurd hr found_ne
  case found.found           =>
    have ⟨hf, he⟩ := List.append_inj' hr rfl
    cases inj hf
    cases List.append_cancel_left ha
    rfl
  case found.exhausted       => exact absurd hr found_ne
  case exhausted.trying      =>
    cases inj hr
    simp [all] at ha
  case exhausted.found       => exact absurd hr.symm found_ne
  case exhausted.exhausted   =>
    cases inj hr
    rfl

end Search
