import Mathlib.Data.List.Basic

-- Lists that are cut into chunks of one size.
namespace Chunks

variable {α β : Type*} {l : List α} {m : Nat}

-- Chunk `i` of a list that is cut into chunks of `m` elements. The last chunk may be shorter.
def chunk (m i : Nat) (l : List α) : List α :=
  (l.drop (i * m)).take m

theorem flatten_chunks (n : Nat) :
    ((List.range n).map fun i => chunk m i l).flatten = l.take (n * m) := by
  induction n
  case zero     => simp
  case succ n h =>
    rw [List.range_succ, List.map_append, List.flatten_append, h, Nat.succ_mul, List.take_add]
    simp [chunk]

theorem length_flatten {ls : List (List α)} (h : ∀ x ∈ ls, x.length = m) :
    ls.flatten.length = ls.length * m := by
  induction ls
  case nil          => simp
  case cons x ls ih =>
    simp only [List.mem_cons, forall_eq_or_imp] at h
    rw [List.flatten_cons, List.length_append, h.1, ih h.2, List.length_cons, Nat.succ_mul]
    omega

theorem chunk_flatten {ls : List (List α)} (h : ∀ x ∈ ls, x.length = m) {i : Nat}
    (hi : i < ls.length) : chunk m i ls.flatten = ls[i] := by
  induction ls generalizing i
  case nil          => simp at hi
  case cons x ls ih =>
    simp only [List.mem_cons, forall_eq_or_imp] at h
    cases i
    case zero   => simp [chunk, ← h.1]
    case succ i =>
      have hi : i < ls.length := by simpa using hi
      rw [List.getElem_cons_succ, ← ih h.2 hi, chunk, chunk, List.flatten_cons, Nat.succ_mul,
        Nat.add_comm, ← List.drop_drop, ← h.1, List.drop_left]

-- A loop that fails if one of its rounds fails.
theorem mapM_eq_some_iff {f : α → Option β} {bs : List β} :
    l.mapM f = some bs ↔ l.map f = bs.map some := by
  induction l generalizing bs
  case nil         => cases bs <;> simp
  case cons a l ih =>
    cases bs
    case nil  => simp [List.mapM_cons, Option.bind_eq_some_iff]
    case cons b bs =>
      simp only [List.mapM_cons, Option.bind_eq_bind, Option.bind_eq_some_iff, Option.pure_def,
        Option.some.injEq, List.cons.injEq, List.map_cons]
      constructor
      · rintro ⟨_, hb, _, hbs, rfl, rfl⟩
        exact ⟨hb, ih.mp hbs⟩
      · rintro ⟨hb, hbs⟩
        exact ⟨b, hb, bs, ih.mpr hbs, rfl, rfl⟩

end Chunks
