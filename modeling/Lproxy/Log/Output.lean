import Lproxy.Log.Level
import Lproxy.Log.PriorityQueue

namespace Lproxy.Log

structure LogVal where
  now : Nat
  logType : LogType
  msg : String
  tid : Nat
  funcName : String
  fileName : String
  lineNum : Nat
  -- What the additional data are formatted to.
  extra : String

abbrev LevelSet :=
  OrderedSet LogType (· < ·)

-- `os_property`. The lock of the stream has no part in what is written.
structure OsProperty where
  loglevelSet : LevelSet
  format : LogVal → String

-- The map of a `LogOutput2` from the addresses of the streams to their properties.
structure LogOutput2 where
  outstream : List (Nat × OsProperty)
  distinct : (outstream.map Prod.fst).Nodup

namespace LogOutput2

def empty : LogOutput2 where
  outstream := []
  distinct := .nil

variable (o : LogOutput2) (os : Nat)

-- The result says whether the stream has been bound; a stream that is bound keeps its properties.
def bind (loglevelSet : LevelSet) (format : LogVal → String) : LogOutput2 × Bool :=
  if h : os ∈ o.outstream.map Prod.fst then (o, false)
  else
    ({ outstream := (os, ⟨loglevelSet, format⟩) :: o.outstream
       distinct := List.nodup_cons.mpr ⟨h, o.distinct⟩ }, true)

-- The look-up of the lock inserts the stream if it is not bound, so that the result is always
-- `true`.
def unbind : LogOutput2 × Bool :=
  ({ outstream := o.outstream.filter (·.1 ≠ os)
     distinct := o.distinct.sublist (List.filter_sublist.map Prod.fst) }, true)

-- `operator()`, for the record that has been taken from the store: what each stream is given.
def output (val : LogVal) : List (Nat × String) :=
  o.outstream.filterMap fun p =>
    if (p.2.loglevelSet.find? val.logType).isSome then some (p.1, p.2.format val) else none

-- A call of `bind` or `unbind`, and the stream that it is about.
inductive Step : LogOutput2 → Nat → LogOutput2 → Prop
  | bind {o : LogOutput2} {os : Nat} (loglevelSet : LevelSet) (format : LogVal → String) :
    Step o os (o.bind os loglevelSet format).1
  | unbind {o : LogOutput2} {os : Nat} : Step o os (o.unbind os).1

-- The stream gets the record.
def Receives (o : LogOutput2) (os : Nat) (val : LogVal) : Prop :=
  ∃ text, (os, text) ∈ o.output val

end LogOutput2

-- `priority_queue::settings`; `none` models the failed assertion.
def PriorityQueue.settings {α κ : Type*} (lt : κ → κ → Prop) [DecidableRel lt]
    [IsStrictWeakOrder κ lt] (valueMp : α → κ) (vfactor : List κ) : Option (Settings α κ) :=
  if vfactor.length = (OrderedSet.ofList lt vfactor).size then some ⟨valueMp, vfactor⟩ else none

-- The sets of levels that are made of a list of registered levels take them for the levels that
-- they are. The calls that concern other streams do not matter.
structure Respected (m : LogLevels) (levels : List LogType) : Prop where
  receives : ∀ o os format o' val, (LogOutput2.bind o os (.ofList (· < ·) levels) format).2 = true →
    Transition.Reachable (· = (LogOutput2.bind o os (.ofList (· < ·) levels) format).1)
      (Transition.Guarded LogOutput2.Step fun _ os' => os' ≠ os) o' →
    val.logType.logLevel ∈ m.levels → (o'.Receives os val ↔ ∃ l ∈ levels, val.logType == l)
  accepts : (PriorityQueue.settings (· < ·) LogVal.logType levels).isSome ↔
    levels.Pairwise fun l r => (l == r) = false

-- No level outside of the list has the rank of a member, and if the members have different names,
-- they have different ranks.
structure Separated (m : LogLevels) (levels : List LogType) : Prop where
  outside : ∀ b ∈ m.levels, ∀ l ∈ levels, b.rank = l.logLevel.rank → ∃ l' ∈ levels, l'.logLevel = b
  inside : (levels.Pairwise fun l r => l.logLevel.name ≠ r.logLevel.name) →
    levels.Pairwise fun l r => l.logLevel.rank ≠ r.logLevel.rank

namespace LogOutput2

variable {o o' : LogOutput2} {os os' : Nat} {p : OsProperty} {val : LogVal} {levels : List LogType}
  {format : LogVal → String}

-- A stream stays bound as it is while other streams are bound and unbound.
theorem Step.mem (e : Step o os' o') (hne : os' ≠ os) (h : (os, p) ∈ o.outstream) :
    (os, p) ∈ o'.outstream := by
  cases e
  case bind =>
    rw [LogOutput2.bind]
    split
    case isTrue  => exact h
    case isFalse => exact List.mem_cons_of_mem _ h
  case unbind => exact List.mem_filter.mpr ⟨h, by simpa using hne.symm⟩

theorem mem_of_reachable (r : Transition.Reachable (· = o)
    (Transition.Guarded Step fun _ os' => os' ≠ os) o') (h : (os, p) ∈ o.outstream) :
    (os, p) ∈ o'.outstream := by
  induction r
  case init ho   => exact ho ▸ h
  case step e hi => exact e.step.mem e.cond hi

theorem mem_bind {loglevelSet : LevelSet} (h : (o.bind os loglevelSet format).2 = true) :
    (os, ⟨loglevelSet, format⟩) ∈ (o.bind os loglevelSet format).1.outstream := by
  rw [bind] at h ⊢
  split
  case isTrue hm => simp [hm] at h
  case isFalse   => exact List.mem_cons_self ..

-- Of a bound stream, only the set that it is bound with decides.
theorem receives_iff (h : (os, p) ∈ o.outstream) :
    o.Receives os val ↔ p.loglevelSet.Has val.logType := by
  rw [← OrderedSet.find?_isSome_iff]
  constructor
  case mp =>
    intro ⟨text, ht⟩
    have ⟨⟨os', p'⟩, hm, hf⟩ := List.mem_filterMap.mp ht
    split at hf
    case isFalse => cases hf
    case isTrue hs =>
      cases hf
      have he := List.inj_on_of_nodup_map o.distinct hm h rfl
      cases he
      exact hs
  case mpr =>
    intro hs
    exact ⟨p.format val, List.mem_filterMap.mpr ⟨_, h, by simp [hs]⟩⟩

-- What a stream that is bound to a list receives is decided by the ranks in the list.
theorem receives_bind_iff (hb : (o.bind os (.ofList (· < ·) levels) format).2 = true)
    (r : Transition.Reachable (· = (o.bind os (.ofList (· < ·) levels) format).1)
      (Transition.Guarded Step fun _ os' => os' ≠ os) o') :
    o'.Receives os val ↔ ∃ l ∈ levels, val.logType.logLevel.rank = l.logLevel.rank := by
  rw [receives_iff (mem_of_reachable r (mem_bind hb)), OrderedSet.has_ofList_iff]
  simp only [LogType.tied_iff]

end LogOutput2

variable {m : LogLevels} {levels : List LogType}

-- The assertion compares the ranks.
theorem PriorityQueue.settings_isSome_iff {α : Type*} (valueMp : α → LogType) :
    (settings (· < ·) valueMp levels).isSome ↔
      levels.Pairwise fun l r => l.logLevel.rank ≠ r.logLevel.rank := by
  have h : (OrderedSet.ofList (· < ·) levels).size = levels.length ↔ _ :=
    OrderedSet.size_ofList_eq_iff
  simp only [LogType.tied_iff] at h
  rw [settings, ← h]
  split
  case isTrue he  => simp [he]
  case isFalse he => simp [Ne.symm he]

theorem pairwise_name_iff : (levels.Pairwise fun l r => (l == r) = false) ↔
    levels.Pairwise fun l r => l.logLevel.name ≠ r.logLevel.name := by
  have h (l r : LogType) : (l == r) = false ↔ l.logLevel.name ≠ r.logLevel.name := by
    rw [Ne, ← LogType.beq_iff, Bool.not_eq_true]
  simp only [h]

-- A record at the level `b`.
def recordAt (b : LogLevelBase) : LogVal where
  now := 0
  logType := ⟨b⟩
  msg := ""
  tid := 0
  funcName := ""
  fileName := ""
  lineNum := 0
  extra := ""

theorem respected_iff (hl : ∀ l ∈ levels, l.logLevel ∈ m.levels) :
    Respected m levels ↔ Separated m levels := by
  constructor
  case mp =>
    intro h
    constructor
    case outside =>
      intro b hb l hl' he
      have hr := h.receives .empty 0 (fun _ => "") _ (recordAt b) rfl (.refl _) hb
      have ⟨l', hm, he'⟩ := hr.mp ((LogOutput2.receives_bind_iff rfl (.refl _)).mpr ⟨l, hl', he⟩)
      exact ⟨l', hm, (LogLevels.eq_of_beq hb (hl l' hm) he').symm⟩
    case inside =>
      intro hn
      exact (PriorityQueue.settings_isSome_iff _).mp (h.accepts.mpr (pairwise_name_iff.mpr hn))
  case mpr =>
    intro h
    constructor
    case receives =>
      intro o os format o' val hb r hv
      rw [LogOutput2.receives_bind_iff hb r]
      constructor
      case mp =>
        intro ⟨l, hm, he⟩
        have ⟨l', hm', he'⟩ := h.outside _ hv l hm he
        exact ⟨l', hm', LogType.beq_iff.mpr (by rw [he'])⟩
      case mpr =>
        intro ⟨l, hm, he⟩
        exact ⟨l, hm, by rw [LogLevels.eq_of_beq hv (hl l hm) he]⟩
    case accepts =>
      rw [PriorityQueue.settings_isSome_iff, pairwise_name_iff]
      constructor
      case mpr => exact h.inside
      case mp  =>
        intro hp
        apply hp.imp_of_mem
        intro l r hml hmr hne hn
        have he := LogLevels.eq_of_beq (hl l hml) (hl r hmr) (LogType.beq_iff.mpr hn)
        exact hne (by rw [he])

-- The levels that are always there have different ranks.
theorem respected_iff_default : Respected .default [⟨⟨"FATAL", 50⟩⟩, ⟨⟨"ERROR", 40⟩⟩] :=
  (respected_iff (by decide)).mpr ⟨by decide, fun _ => by decide⟩

-- Two further levels of one rank.
def sampleLevels : LogLevels where
  levels := [⟨"MyLevel1", 100⟩, ⟨"MyLevel2", 100⟩] ++ LogLevels.default.levels
  distinct := by decide

-- A stream for the second level receives the records of the first one.
theorem not_respected_same_rank : ¬∀ (m : LogLevels) (levels : List LogType),
    (∀ l ∈ levels, l.logLevel ∈ m.levels) → Respected m levels := by
  intro h
  have h := h sampleLevels [⟨⟨"MyLevel2", 100⟩⟩] (by decide)
  have h := h.receives .empty 0 (fun _ => "") _ (recordAt ⟨"MyLevel1", 100⟩)
    rfl (.refl _) (by decide)
  have ⟨l, hm, he⟩ := h.mp ⟨"", by decide⟩
  cases List.mem_singleton.mp hm
  revert he
  decide

end Lproxy.Log
