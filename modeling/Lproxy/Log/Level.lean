import Lproxy.Lib.OrderedSet
import Mathlib.Data.List.Nodup

namespace Lproxy.Log

-- A `Log_LevelBase`.
structure LogLevelBase where
  name : String
  rank : Int
  deriving DecidableEq, Repr

-- A `LogType`: a pointer to a level, which never changes.
structure LogType where
  logLevel : LogLevelBase

namespace LogType

-- `==` compares the names, and `<` the ranks.
instance : BEq LogType where
  beq l r := l.logLevel.name == r.logLevel.name

instance : LT LogType where
  lt l r := l.logLevel.rank < r.logLevel.rank

instance : DecidableRel (α := LogType) (· < ·) := fun l r =>
  inferInstanceAs (Decidable (l.logLevel.rank < r.logLevel.rank))

theorem beq_iff {l r : LogType} : l == r ↔ l.logLevel.name = r.logLevel.name := by
  have h : (l == r) = (l.logLevel.name == r.logLevel.name) := rfl
  rw [h, beq_iff_eq]

theorem lt_iff {l r : LogType} : l < r ↔ l.logLevel.rank < r.logLevel.rank :=
  .rfl

theorem tied_iff {l r : LogType} : Tied (· < ·) l r ↔ l.logLevel.rank = r.logLevel.rank := by
  simp only [Tied, lt_iff]
  omega

instance : EquivBEq LogType where
  rfl         := beq_iff.mpr rfl
  symm h      := beq_iff.mpr (beq_iff.mp h).symm
  trans h h'  := beq_iff.mpr ((beq_iff.mp h).trans (beq_iff.mp h'))

instance : IsStrictWeakOrder LogType (· < ·) where
  irrefl _ h            := by
    rw [lt_iff] at h
    omega
  trans _ _ _ h h'      := by
    rw [lt_iff] at h h' ⊢
    omega
  incomp_trans a b c h h' := by
    have h := tied_iff.mp h
    have h' := tied_iff.mp h'
    exact tied_iff.mpr (h.trans h')

end LogType

-- What `LogLevelManage` has registered: a level for each of some names.
structure LogLevels where
  levels : List LogLevelBase
  distinct : (levels.map LogLevelBase.name).Nodup

-- The places that the texts of the exceptions name are left out.
inductive LogException
  -- "Attempts to re-define an existing global constant"
  | redefined (level : String)
  -- "Attempts to reference a non-existent global constant"
  | nonexistent (level : String)
  deriving DecidableEq, Repr

-- Why a definition or a lookup gives no level.
inductive Failure
  | exception (e : LogException)
  -- A key is read whose text is gone, which is undefined.
  | undefined
  deriving DecidableEq, Repr

namespace LogLevels

-- A key points to the text of the level that `MAKE_LOGLEVEL` makes for the time of the definition.
-- After that it is good only if the copy of the level which is in the map has the same text, and
-- not one of its own; `shared` says whether a copy of a string shares the text of the string.
def Dangles (shared : Bool) (m : LogLevels) : Prop :=
  shared = false ∧ m.levels ≠ []

instance {shared : Bool} {m : LogLevels} : Decidable (m.Dangles shared) :=
  inferInstanceAs (Decidable (_ ∧ _))

-- `LogLevelManage::add`
def add (shared : Bool) (m : LogLevels) (llb : LogLevelBase) : Except Failure LogLevels :=
  if m.Dangles shared then .error .undefined
  else if h : llb.name ∈ m.levels.map LogLevelBase.name then
    .error (.exception (.redefined llb.name))
  else .ok { levels := llb :: m.levels, distinct := List.nodup_cons.mpr ⟨h, m.distinct⟩ }

-- `LogLevelManage::get_level`
def getLevel (shared : Bool) (m : LogLevels) (level : String) : Except Failure LogLevelBase :=
  if m.Dangles shared then .error .undefined
  else
    match m.levels.find? (·.name == level) with
    | some llb => .ok llb
    | none     => .error (.exception (.nonexistent level))

-- The levels that are always there.
def default : LogLevels where
  levels := [⟨"TRACE", 0⟩, ⟨"DEBUG", 10⟩, ⟨"INFO", 20⟩, ⟨"WARN", 30⟩, ⟨"ERROR", 40⟩, ⟨"FATAL", 50⟩]
  distinct := by decide

variable {m : LogLevels} {l r : LogType}

-- Registered levels that are equal are one level.
theorem eq_of_beq (hl : l.logLevel ∈ m.levels) (hr : r.logLevel ∈ m.levels) (h : l == r) :
    l.logLevel = r.logLevel :=
  List.inj_on_of_nodup_map m.distinct hl hr (LogType.beq_iff.mp h)

end LogLevels
end Lproxy.Log
