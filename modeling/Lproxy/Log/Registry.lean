import Lproxy.Log.Level
import Lproxy.Lib.Trace
import Mathlib.Data.List.Induction

-- The registry of the levels, over the definitions and lookups of a process.
namespace Lproxy.Log

-- What a process has registered, and whether the `default_log_level` of `get_level` has been
-- constructed.
structure LogLevelManage where
  levels : LogLevels
  constructed : Bool

namespace LogLevelManage

def initial : LogLevelManage where
  levels := ⟨[], .nil⟩
  constructed := false

section

variable (shared : Bool)

-- The definitions of a constructor. What has been registered when one of them fails stays there.
def addAll (m : LogLevels) : List LogLevelBase → LogLevels × Option Failure
  | []          => (m, none)
  | llb :: llbs =>
    match m.add shared llb with
    | .ok m    => addAll m llbs
    | .error e => (m, some e)

variable (m : LogLevelManage)

-- The `default_log_level`, which is constructed at the first call, and if that throws, at the next
-- call again.
def construct : LogLevelManage × Option Failure :=
  if m.constructed then (m, none)
  else
    match addAll shared m.levels LogLevels.default.levels with
    | (levels, none)   => ({ levels := levels, constructed := true }, none)
    | (levels, some e) => ({ levels := levels, constructed := false }, some e)

-- `makelevel`
def getLevel (level : String) : LogLevelManage × Except Failure LogLevelBase :=
  match m.construct shared with
  | (m, some e) => (m, .error e)
  | (m, none)   => (m, m.levels.getLevel shared level)

-- `MAKE_LOGLEVEL`
def define (llb : LogLevelBase) : LogLevelManage × Except Failure LogLevelBase :=
  match m.levels.add shared llb with
  | .ok levels => ({ m with levels := levels }, .ok llb)
  | .error e   => (m, .error e)

end

end LogLevelManage

inductive Use
  | define (llb : LogLevelBase)
  | lookup (level : String)
  deriving DecidableEq

namespace Use

def IsLookup (u : Use) : Prop :=
  ∃ level, u = .lookup level

-- The definition of a name that is always there.
def IsBuiltIn (u : Use) : Prop :=
  ∃ llb, u = .define llb ∧ llb.name ∈ LogLevels.default.levels.map LogLevelBase.name

end Use

namespace LogLevelManage

variable (shared : Bool)

def act (m : LogLevelManage) : Use → LogLevelManage × Except Failure LogLevelBase
  | .define llb   => m.define shared llb
  | .lookup level => m.getLevel shared level

def run (us : List Use) : LogLevelManage :=
  us.foldl (fun m u => (m.act shared u).1) initial

-- What `u` gives after `us`.
def resultAfter (us : List Use) (u : Use) : Except Failure LogLevelBase :=
  ((run shared us).act shared u).2

end LogLevelManage

open LogLevelManage

-- A level that is always there, or that has been defined with success.
def Known (shared : Bool) (us : List Use) (llb : LogLevelBase) : Prop :=
  llb ∈ LogLevels.default.levels ∨ ∃ before after, us = before ++ .define llb :: after ∧
    resultAfter shared before (.define llb) = .ok llb

-- What is known is found, and a definition that throws has no effect on what is looked up later.
structure Survives (shared : Bool) (us : List Use) : Prop where
  found : ∀ llb, Known shared us llb → resultAfter shared us (.lookup llb.name) = .ok llb
  rejected : ∀ llb e, resultAfter shared us (.define llb) = .error (.exception e) → ∀ us' level,
    resultAfter shared (us ++ .define llb :: us') (.lookup level) =
      resultAfter shared (us ++ us') (.lookup level)

section

variable {shared : Bool} {m : LogLevels} {llb : LogLevelBase} {llbs : List LogLevelBase}
  {us : List Use} {u : Use}

namespace LogLevels

theorem not_dangles : ¬m.Dangles true := by
  simp [Dangles]

theorem getLevel_eq_ok (h : llb ∈ m.levels) : m.getLevel true llb.name = .ok llb := by
  have ⟨llb', he⟩ : ∃ llb', m.levels.find? (·.name == llb.name) = some llb' := by
    simpa [← Option.isSome_iff_exists] using ⟨llb, h, rfl⟩
  have hn : llb'.name = llb.name := by
    simpa using List.find?_some he
  have hl : llb' = llb :=
    List.inj_on_of_nodup_map m.distinct (List.mem_of_find?_eq_some he) h hn
  rw [getLevel, if_neg not_dangles, he, hl]

theorem add_eq_ok_iff :
    (∃ m', m.add true llb = .ok m') ↔ llb.name ∉ m.levels.map LogLevelBase.name := by
  rw [add, if_neg not_dangles]
  split <;> simp [*]

theorem levels_of_add {m' : LogLevels} (h : m.add shared llb = .ok m') :
    m'.levels = llb :: m.levels := by
  rw [add] at h
  split at h
  case isTrue  => cases h
  case isFalse =>
    split at h <;> cases h
    rfl

end LogLevels

namespace LogLevelManage

theorem subset_addAll (m : LogLevels) (llbs : List LogLevelBase) :
    m.levels ⊆ (addAll shared m llbs).1.levels := by
  induction llbs generalizing m
  case nil             => exact List.Subset.refl _
  case cons llb llbs hi =>
    rw [addAll]
    split
    case h_2   => exact List.Subset.refl _
    case h_1 h =>
      have hs := LogLevels.levels_of_add h
      exact List.Subset.trans (List.subset_cons_self ..) (hs ▸ hi _)

-- The constructor throws if and only if one of its names is taken.
theorem addAll_eq_none_iff (hn : (llbs.map LogLevelBase.name).Nodup) :
    (addAll true m llbs).2 = none ↔ ∀ llb ∈ llbs, llb.name ∉ m.levels.map LogLevelBase.name := by
  induction llbs generalizing m
  case nil             => simp [addAll]
  case cons llb llbs hi =>
    have ⟨hne, hn⟩ := List.nodup_cons.mp hn
    rw [addAll, List.forall_mem_cons, ← LogLevels.add_eq_ok_iff]
    split
    case h_2 h => simp [h]
    case h_1 m' h =>
      have hs : ∀ llb' ∈ llbs, llb'.name ∉ m'.levels.map LogLevelBase.name ↔
          llb'.name ∉ m.levels.map LogLevelBase.name := by
        intro llb' hm
        have hne : llb'.name ≠ llb.name := fun he => hne (he ▸ List.mem_map_of_mem hm)
        simp [LogLevels.levels_of_add h, hne]
      rw [hi hn, forall₂_congr hs]
      simp [h]

theorem mem_addAll (h : (addAll shared m llbs).2 = none) :
    llbs ⊆ (addAll shared m llbs).1.levels := by
  induction llbs generalizing m
  case nil             => exact List.nil_subset _
  case cons llb llbs hi =>
    rw [addAll] at h ⊢
    split at h
    case h_2 => cases h
    case h_1 m' ha =>
      have hm : llb ∈ m'.levels := LogLevels.levels_of_add ha ▸ List.mem_cons_self ..
      exact List.cons_subset.mpr ⟨subset_addAll _ _ hm, hi h⟩

-- No definition has taken a name that is always there before it is there.
structure Ready (m : LogLevelManage) : Prop where
  taken : m.constructed = true → LogLevels.default.levels ⊆ m.levels.levels
  free : m.constructed = false →
    ∀ llb ∈ LogLevels.default.levels, llb.name ∉ m.levels.levels.map LogLevelBase.name

-- The constructor will throw whenever it is called.
def Poisoned (m : LogLevelManage) : Prop :=
  m.constructed = false ∧
    ∃ llb ∈ LogLevels.default.levels, llb.name ∈ m.levels.levels.map LogLevelBase.name

section

variable {m : LogLevelManage} {llb' : LogLevelBase} {level : String} {e : Failure}

theorem default_nodup : (LogLevels.default.levels.map LogLevelBase.name).Nodup :=
  LogLevels.default.distinct

-- What the initialisation of `default_log_level` does.
inductive Constructed (m : LogLevelManage) : LogLevelManage × Option Failure → Prop
  | already (h : m.constructed = true) : Constructed m (m, none)
  | done {levels : LogLevels} (h : m.constructed = false)
    (hs : LogLevels.default.levels ⊆ levels.levels) (hm : m.levels.levels ⊆ levels.levels)
    (hf : ∀ llb ∈ LogLevels.default.levels, llb.name ∉ m.levels.levels.map LogLevelBase.name) :
    Constructed m ({ levels := levels, constructed := true }, none)
  | threw {levels : LogLevels} {e : Failure} (h : m.constructed = false)
    (hm : m.levels.levels ⊆ levels.levels)
    (hf : ¬∀ llb ∈ LogLevels.default.levels, llb.name ∉ m.levels.levels.map LogLevelBase.name) :
    Constructed m ({ levels := levels, constructed := false }, some e)

theorem construct_constructed : Constructed m (m.construct true) := by
  rw [construct]
  split
  case isTrue h  => exact .already h
  case isFalse h =>
    have hm := @subset_addAll true m.levels LogLevels.default.levels
    have hi := addAll_eq_none_iff (m := m.levels) default_nodup
    have hs : (addAll true m.levels LogLevels.default.levels).2 = none → _ := mem_addAll
    generalize addAll true m.levels LogLevels.default.levels = r at hm hi hs
    have ⟨levels, e⟩ := r
    cases e
    case none   => exact .done (by simpa using h) (hs rfl) hm (hi.mp rfl)
    case some e => exact .threw (by simpa using h) hm (hi.not.mp nofun)

theorem getLevel_fst : (m.getLevel shared level).1 = (m.construct shared).1 := by
  rw [getLevel]
  split
  case h_1 h => rw [h]
  case h_2 h => rw [h]

theorem subset_act : m.levels.levels ⊆ (m.act true u).1.levels.levels := by
  cases u
  case define llb =>
    rw [act, define]
    split
    case h_1 h => exact LogLevels.levels_of_add h ▸ List.subset_cons_self ..
    case h_2   => exact List.Subset.refl _
  case lookup level =>
    rw [act, getLevel_fst]
    have h := m.construct_constructed
    generalize m.construct true = r at h
    cases h
    case already    => exact List.Subset.refl _
    case done hm _  => exact hm
    case threw hm _ => exact hm

theorem constructed_define : (m.define shared llb).1.constructed = m.constructed := by
  rw [define]
  split <;> rfl

-- A definition that throws leaves everything as it was.
theorem define_error (h : (m.define shared llb).2 = .error e) : (m.define shared llb).1 = m := by
  rw [define] at h ⊢
  split at h
  case h_1 => cases h
  case h_2 => rfl

theorem mem_of_define (h : (m.define shared llb).2 = .ok llb') : llb = llb' ∧
    llb ∈ (m.define shared llb).1.levels.levels := by
  rw [define] at h ⊢
  split at h
  case h_2    => cases h
  case h_1 ha =>
    cases h
    exact ⟨rfl, LogLevels.levels_of_add ha ▸ List.mem_cons_self ..⟩

namespace Ready

-- A lookup has everything there, and finds what is registered.
theorem lookup (i : m.Ready) (level : String) : (m.getLevel true level).1.Ready ∧
    (m.getLevel true level).1.constructed = true := by
  rw [getLevel_fst]
  have h := m.construct_constructed
  generalize m.construct true = r at h
  cases h
  case already h    => exact ⟨i, h⟩
  case done hs _ _  => exact ⟨⟨fun _ => hs, nofun⟩, rfl⟩
  case threw h _ hf => exact absurd (i.free h) hf

theorem getLevel_eq (i : m.Ready) (h : llb ∈ LogLevels.default.levels ∨ llb ∈ m.levels.levels) :
    (m.getLevel true llb.name).2 = .ok llb := by
  rw [getLevel]
  have hc := m.construct_constructed
  generalize m.construct true = r at hc
  cases hc
  case threw h _ hf => exact absurd (i.free h) hf
  case already hc   =>
    have hm : llb ∈ m.levels.levels := h.elim (fun h => i.taken hc h) id
    exact LogLevels.getLevel_eq_ok hm
  case done hs hm _ =>
    have hm := h.elim (fun h => hs h) (fun h => hm h)
    exact LogLevels.getLevel_eq_ok hm

theorem define (i : m.Ready)
    (h : llb.name ∈ LogLevels.default.levels.map LogLevelBase.name → m.constructed = true) :
    (m.define true llb).1.Ready := by
  constructor
  case taken =>
    intro hc
    exact List.Subset.trans (i.taken (constructed_define ▸ hc)) (subset_act (u := .define llb))
  case free =>
    intro hc
    rw [constructed_define] at hc
    rw [LogLevelManage.define]
    split
    case h_2    => exact i.free hc
    case h_1 ha =>
      intro llb' hm
      have hne : llb'.name ≠ llb.name := by
        intro he
        have := h (he ▸ List.mem_map_of_mem hm)
        simp [hc] at this
      have := i.free hc llb' hm
      simpa [LogLevels.levels_of_add ha, hne] using this

-- A name that is taken too early.
theorem poisoned (i : m.Ready) (hc : m.constructed = false)
    (h : llb.name ∈ LogLevels.default.levels.map LogLevelBase.name) :
    (m.define true llb).1.Poisoned := by
  have ⟨llb', hm, he⟩ := List.mem_map.mp h
  have ⟨levels, ha⟩ := LogLevels.add_eq_ok_iff.mpr (he ▸ i.free hc llb' hm)
  refine ⟨constructed_define.trans hc, llb', hm, ?_⟩
  simp [LogLevelManage.define, ha, LogLevels.levels_of_add ha, he]

end Ready

namespace Poisoned

theorem getLevel_error (i : m.Poisoned) (level : String) :
    ∃ e, (m.getLevel true level).2 = .error e := by
  have ⟨hc, llb, hm, ht⟩ := i
  rw [getLevel]
  have h := m.construct_constructed
  generalize m.construct true = r at h
  cases h
  case already h   => simp [hc] at h
  case done hf     => exact absurd ht (hf llb hm)
  case threw       => exact ⟨_, rfl⟩

theorem act (i : m.Poisoned) : (m.act true u).1.Poisoned := by
  have ⟨hc, llb, hm, ht⟩ := i
  refine ⟨?_, llb, hm, List.map_subset _ subset_act ht⟩
  cases u
  case define       => exact constructed_define.trans hc
  case lookup level =>
    rw [LogLevelManage.act, getLevel_fst]
    have h := m.construct_constructed
    generalize m.construct true = r at h
    cases h
    case already h => simp [hc] at h
    case done hf   => exact absurd ht (hf llb hm)
    case threw     => rfl

end Poisoned

-- The second of the levels that are always there is compared with a key that is gone.
theorem construct_dangling (hc : m.constructed = false) :
    (m.construct false).2 = some .undefined ∧ (m.construct false).1.constructed = false := by
  have hu : (addAll false m.levels LogLevels.default.levels).2 = some .undefined := by
    rw [LogLevels.default, addAll]
    split
    case h_2 e ha =>
      rw [LogLevels.add] at ha
      split at ha
      case isTrue h  =>
        cases ha
        rfl
      case isFalse h =>
        have hn : m.levels.levels = [] := by simpa [LogLevels.Dangles] using h
        simp [hn] at ha
    case h_1 m' ha =>
      have hd : m'.Dangles false := ⟨rfl, by simp [LogLevels.levels_of_add ha]⟩
      rw [addAll, LogLevels.add, if_pos hd]
  rw [construct]
  simp only [hc, Bool.false_eq_true, if_false]
  generalize addAll false m.levels LogLevels.default.levels = r at hu
  have ⟨levels, e⟩ := r
  cases hu
  exact ⟨rfl, rfl⟩

theorem initial_ready : initial.Ready :=
  ⟨nofun, fun _ _ _ => List.not_mem_nil⟩

@[simp]
theorem run_snoc : run shared (us ++ [u]) = ((run shared us).act shared u).1 := by
  simp [run]

theorem run_append (us vs : List Use) :
    run shared (us ++ vs) = vs.foldl (fun m u => (m.act shared u).1) (run shared us) :=
  List.foldl_append

theorem subset_run (us vs : List Use) :
    (run true us).levels.levels ⊆ (run true (us ++ vs)).levels.levels := by
  induction vs using List.reverseRecOn
  case nil               => simp
  case append_singleton hi =>
    rw [← List.append_assoc, run_snoc]
    exact List.Subset.trans hi subset_act

-- What has been defined with success is registered.
theorem mem_run_of_known (h : Known true us llb) :
    llb ∈ LogLevels.default.levels ∨ llb ∈ (run true us).levels.levels := by
  cases h
  case inl h => exact .inl h
  case inr h =>
    have ⟨before, after, he, hr⟩ := h
    have hm := (mem_of_define hr).2
    have hs := subset_run (before ++ [.define llb]) after
    rw [List.append_assoc, List.singleton_append, ← he, run_snoc] at hs
    exact .inr (hs hm)

open Trace (Preceded)

-- The state after definitions and lookups of which the definitions of the names that are always
-- there come after a lookup.
theorem run_ready (h : Preceded Use.IsLookup Use.IsBuiltIn us) : (run true us).Ready ∧
    ((run true us).constructed = true ↔ ∃ u ∈ us, u.IsLookup) := by
  induction us using List.reverseRecOn
  case nil                      => exact ⟨initial_ready, by simp [run, initial]⟩
  case append_singleton us u hi =>
    have ⟨h, hu⟩ := Trace.preceded_snoc_iff.mp h
    have ⟨i, hc⟩ := hi h
    rw [run_snoc]
    cases u
    case define llb =>
      refine ⟨i.define fun hb => hc.mpr (hu ⟨llb, rfl, hb⟩), ?_⟩
      rw [act, constructed_define, hc]
      simp [Use.IsLookup]
    case lookup level =>
      have ⟨i, hc⟩ := i.lookup level
      exact ⟨i, iff_of_true hc ⟨_, by simp, level, rfl⟩⟩

theorem run_poisoned (h : ¬Preceded Use.IsLookup Use.IsBuiltIn us) : (run true us).Poisoned := by
  induction us using List.reverseRecOn
  case nil                      => exact absurd .nil h
  case append_singleton us u hi =>
    rw [run_snoc]
    by_cases hp : Preceded Use.IsLookup Use.IsBuiltIn us
    case neg => exact (hi hp).act
    case pos =>
      have hn : ¬(Use.IsBuiltIn u → ∃ b ∈ us, b.IsLookup) :=
        fun hu => h (Trace.preceded_snoc_iff.mpr ⟨hp, hu⟩)
      have ⟨⟨llb, hu, hb⟩, hl⟩ := Classical.not_imp.mp hn
      have ⟨i, hc⟩ := run_ready hp
      subst hu
      exact i.poisoned (by simpa using hc.not.mpr hl) hb

-- Where the keys dangle, no initialisation comes to its end.
theorem run_dangling (us : List Use) : (run false us).constructed = false := by
  induction us using List.reverseRecOn
  case nil                      => rfl
  case append_singleton us u hi =>
    rw [run_snoc]
    cases u
    case define llb   => exact constructed_define.trans hi
    case lookup level =>
      rw [act, getLevel_fst]
      exact (construct_dangling hi).2

theorem resultAfter_dangling (us : List Use) (level : String) :
    resultAfter false us (.lookup level) = .error .undefined := by
  have h := (construct_dangling (run_dangling us)).1
  rw [resultAfter, act, getLevel]
  generalize (run false us).construct false = r at h
  have ⟨m, e⟩ := r
  cases h
  rfl

theorem resultAfter_rejected (h : resultAfter shared us (.define llb) = .error e)
    (us' : List Use) (level : String) :
    resultAfter shared (us ++ .define llb :: us') (.lookup level) =
      resultAfter shared (us ++ us') (.lookup level) := by
  have he : ((run shared us).act shared (.define llb)).1 = run shared us := define_error h
  have hr : run shared (us ++ .define llb :: us') = run shared (us ++ us') := by
    rw [run_append, List.foldl_cons, he, ← run_append]
  rw [resultAfter, resultAfter, hr]

end
end LogLevelManage

-- The registry works if and only if copies of a string share its text, and no name that is always
-- there is defined before the first lookup.
theorem survives_iff_preceded : Survives shared us ↔
    shared = true ∧ Trace.Preceded Use.IsLookup Use.IsBuiltIn us := by
  constructor
  case mp =>
    intro h
    have hf := h.found ⟨"TRACE", 0⟩ (.inl (by decide))
    cases shared
    case false =>
      rw [resultAfter_dangling] at hf
      cases hf
    case true  =>
      refine ⟨rfl, ?_⟩
      by_contra hp
      have ⟨e, he⟩ := (run_poisoned hp).getLevel_error "TRACE"
      cases hf.symm.trans he
  case mpr =>
    rintro ⟨rfl, h⟩
    exact ⟨fun llb hk => (run_ready h).1.getLevel_eq (mem_run_of_known hk),
      fun llb e he => resultAfter_rejected he⟩

-- Nothing is found where the keys dangle, whether or not anything has been defined; and elsewhere,
-- nothing after the first of the definitions with which the levels are introduced.
theorem not_survives_trace : ¬Survives false [] ∧ ¬Survives true [.define ⟨"TRACE", 0⟩] := by
  constructor
  case left =>
    intro h
    have hf := h.found ⟨"TRACE", 0⟩ (.inl (by decide))
    rw [resultAfter_dangling] at hf
    cases hf
  case right =>
    intro h
    have i : (run true [.define ⟨"TRACE", 0⟩]).Poisoned := initial_ready.poisoned rfl (by decide)
    have ⟨e, he⟩ := i.getLevel_error "TRACE"
    have hf := h.found ⟨"TRACE", 0⟩ (.inl (by decide))
    cases hf.symm.trans he

end
end Lproxy.Log
