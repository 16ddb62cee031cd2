import Mathlib.Data.List.Basic

-- The words that a shell finds in a text: it is split at the separators outside of quotes, and the
-- quotes are removed.
namespace Words

variable {α : Type*} [DecidableEq α] (space quote : α)

-- `word` is the word that has been begun, and `quoted` says whether a quote is open.
def split (quoted : Bool) (word : Option (List α)) : List α → List (List α)
  | []      => word.toList
  | c :: cs =>
    if c = quote then split (!quoted) (some (word.getD [])) cs
    else if c = space ∧ quoted = false then word.toList ++ split false none cs
    else split quoted (some (word.getD [] ++ [c])) cs

-- A word that a shell leaves as it is.
structure Plain (w : List α) : Prop where
  nonempty : w ≠ []
  space : space ∉ w
  quote : quote ∉ w

variable {space quote} {q : Bool} {word : Option (List α)} {w cs : List α} {ws : List (List α)}

instance : Decidable (Plain space quote w) :=
  decidable_of_iff (w ≠ [] ∧ space ∉ w ∧ quote ∉ w)
    ⟨fun ⟨h₁, h₂, h₃⟩ => ⟨h₁, h₂, h₃⟩, fun h => ⟨h.nonempty, h.space, h.quote⟩⟩

@[simp]
theorem split_nil : split space quote q word [] = word.toList :=
  rfl

theorem split_space (h : space ≠ quote) :
    split space quote false word (space :: cs) =
      word.toList ++ split space quote false none cs := by
  rw [split, if_neg h, if_pos ⟨rfl, rfl⟩]

theorem split_plain (h : Plain space quote w) :
    split space quote false word (w ++ cs) =
      split space quote false (some (word.getD [] ++ w)) cs := by
  have ⟨hne, hs, hq⟩ := h
  clear h
  induction w generalizing word
  case nil          => exact absurd rfl hne
  case cons c w hi =>
    have ⟨hcs, hs⟩ := not_or.mp (List.mem_cons.not.mp hs)
    have ⟨hcq, hq⟩ := not_or.mp (List.mem_cons.not.mp hq)
    rw [List.cons_append, split, if_neg (Ne.symm hcq), if_neg (fun h => hcs h.1.symm)]
    cases w
    case nil  => rfl
    case cons => rw [hi nofun hs hq]; simp

-- Inside of quotes everything is taken as it is.
theorem split_open (h : quote ∉ w) :
    split space quote true word (w ++ quote :: cs) =
      split space quote false (some (word.getD [] ++ w)) cs := by
  induction w generalizing word
  case nil         => simp [split]
  case cons c w hi =>
    have ⟨hc, h⟩ := not_or.mp (List.mem_cons.not.mp h)
    rw [List.cons_append, split, if_neg (Ne.symm hc), if_neg (by simp), hi h]
    simp

theorem split_quoted (h : quote ∉ w) :
    split space quote false none (quote :: (w ++ quote :: cs)) =
      split space quote false (some w) cs := by
  rw [split, if_pos rfl]
  exact split_open h

-- A separator outside of quotes ends a word.
theorem split_append_space (hsq : space ≠ quote) (hw : quote ∉ w) :
    split space quote false word (w ++ space :: cs) =
      split space quote false word w ++ split space quote false none cs := by
  induction w generalizing word
  case nil         => exact split_space hsq
  case cons c w hi =>
    have ⟨hc, hw⟩ := not_or.mp (List.mem_cons.not.mp hw)
    rw [List.cons_append, split, split, if_neg (Ne.symm hc), if_neg (Ne.symm hc)]
    split
    case isTrue  => rw [hi hw, List.append_assoc]
    case isFalse => rw [hi hw]

-- Words without quotes that are joined with separators before them, or with separators after them.
theorem split_append_flatMap (hsq : space ≠ quote) (hw : quote ∉ w) (h : ∀ w ∈ ws, quote ∉ w) :
    split space quote false word (w ++ ws.flatMap (space :: ·)) =
      split space quote false word w ++ ws.flatMap (split space quote false none) := by
  induction ws generalizing w word
  case nil          => simp
  case cons v ws hi =>
    have ⟨hv, h⟩ := List.forall_mem_cons.mp h
    rw [List.flatMap_cons, List.cons_append, split_append_space hsq hw, hi hv h, List.flatMap_cons]

theorem split_flatMap (hsq : space ≠ quote) (h : ∀ w ∈ ws, quote ∉ w) :
    split space quote false none (ws.flatMap (· ++ [space])) =
      ws.flatMap (split space quote false none) := by
  induction ws
  case nil          => rfl
  case cons v ws hi =>
    have ⟨hv, h⟩ := List.forall_mem_cons.mp h
    rw [List.flatMap_cons, List.append_assoc, List.singleton_append, split_append_space hsq hv,
      hi h, List.flatMap_cons]

-- The words that are found in a text without quotes are plain.
theorem plain_of_mem_split (hc : quote ∉ cs)
    (hw : ∀ w ∈ word, Plain space quote w) (h : w ∈ split space quote false word cs) :
    Plain space quote w := by
  induction cs generalizing word
  case nil          => exact hw w (by simpa using h)
  case cons c cs hi =>
    have ⟨hne, hc⟩ := not_or.mp (List.mem_cons.not.mp hc)
    rw [split, if_neg (Ne.symm hne)] at h
    split at h
    case isTrue =>
      cases List.mem_append.mp h
      case inl h => exact hw w (by simpa using h)
      case inr h => exact hi hc (by simp) h
    case isFalse hs =>
      refine hi hc ?_ h
      intro v hv
      cases hv
      have hs : space ≠ c := fun he => hs ⟨he.symm, rfl⟩
      cases word
      case none   => exact ⟨nofun, by simpa using hs, by simpa using hne⟩
      case some v =>
        have hv := hw v rfl
        exact ⟨by simp, by simpa using ⟨hv.space, hs⟩, by simpa using ⟨hv.quote, hne⟩⟩

theorem split_eq_singleton (h : Plain space quote w) : split space quote false none w = [w] := by
  have hs : split space quote false none (w ++ []) = _ := split_plain h
  simpa using hs

-- Some words survive the split if and only if all of them are plain.
theorem flatMap_split_eq_iff (h : ∀ w ∈ ws, quote ∉ w) :
    ws.flatMap (split space quote false none) = ws ↔ ∀ w ∈ ws, Plain space quote w := by
  constructor
  case mp =>
    intro he w hw
    rw [← he] at hw
    have ⟨v, hv, hm⟩ := List.mem_flatMap.mp hw
    exact plain_of_mem_split (h v hv) (by simp) hm
  case mpr =>
    intro hp
    have he : ∀ w ∈ ws, split space quote false none w = [w] :=
      fun w hw => split_eq_singleton (hp w hw)
    rw [List.flatMap_congr he, List.flatMap_singleton']

-- What has been split once is not split again.
theorem flatMap_split_split (h : ∀ w ∈ ws, quote ∉ w) :
    (ws.flatMap (split space quote false none)).flatMap (split space quote false none) =
      ws.flatMap (split space quote false none) := by
  have hp : ∀ w ∈ ws.flatMap (split space quote false none), Plain space quote w := by
    intro w hw
    have ⟨v, hv, hm⟩ := List.mem_flatMap.mp hw
    exact plain_of_mem_split (h v hv) (by simp) hm
  exact (flatMap_split_eq_iff fun w hw => (hp w hw).quote).mpr hp

end Words
