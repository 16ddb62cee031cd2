import Lproxy.Log.Output
import Lproxy.Log.Registry
import Mathlib.Data.List.AList
import Mathlib.Data.Set.Card

-- The streams that the log is put out to. `LogOutput` and `LogOutput2` differ in how they filter
-- the records, and have the same code for everything else.
namespace Lproxy.Log

-- A mutex: that of the console, or one that `new_lock` has made.
inductive Lock
  | print
  | own (n : Nat)
  deriving DecidableEq, Repr

-- `os_property`; `filter` is the `min_loglevel` or the `loglevel_set`.
structure Binding (φ : Type*) where
  plock : Option Lock
  filter : φ
  format : LogVal → String

-- A subclass of `LogOutput_if`. The keys of `outstream` are the addresses of the streams, and
-- `locks` is the number of the mutexes that have been made.
structure LogOutputIf (φ : Type*) where
  outstream : AList fun _ : Nat => Binding φ
  locks : Nat

namespace LogOutputIf

variable {φ : Type*}

def empty : LogOutputIf φ where
  outstream := ∅
  locks := 0

variable (o : LogOutputIf φ) (os : Nat)

-- `new_lock`; `std` is what `is_std_outerr` says of the stream.
def newLock (std : Bool) : LogOutputIf φ × Lock :=
  if std then (o, .print) else ({ o with locks := o.locks + 1 }, .own o.locks)

-- `insert` of `std::map`.
def insert (b : Binding φ) : LogOutputIf φ × Bool :=
  if os ∈ o.outstream then (o, false) else ({ o with outstream := o.outstream.insert os b }, true)

-- The index operator of `std::map`, which inserts a binding of the default constructor. It fails if
-- the constructor throws.
def index (default : Option (Binding φ)) : LogOutputIf φ × Option (Binding φ) :=
  match o.outstream.lookup os with
  | some b => (o, some b)
  | none   =>
    match default with
    | some b => ({ o with outstream := o.outstream.insert os b }, some b)
    | none   => (o, none)

-- `erase` of `std::map`, with the number of elements that it has erased.
def erase : LogOutputIf φ × Nat :=
  ({ o with outstream := o.outstream.erase os }, if os ∈ o.outstream then 1 else 0)

def bind (std : Bool) (filter : φ) (format : LogVal → String) : LogOutputIf φ × Bool :=
  let (o, lock) := o.newLock std
  o.insert os { plock := some lock, filter := filter, format := format }

-- `none` models an exception. No later call looks at the mutex that is released.
def unbind (default : Option (Binding φ)) : LogOutputIf φ × Option Bool :=
  match o.index os default with
  | (o, none)   => (o, none)
  | (o, some _) =>
    let (o, ret) := o.erase os
    (o, some (ret = 1))

def getLock : Option Lock :=
  (o.outstream.lookup os).bind Binding.plock

def ostreamCount : Nat :=
  o.outstream.keys.length

end LogOutputIf

-- `default_format`. The width applies to the name of the level.
def defaultFormat (time2string : Nat → String) (val : LogVal) : String :=
  let name := val.logType.logLevel.name
  time2string val.now ++ " [" ++ "".pushn ' ' (5 - name.length) ++ name ++ "] " ++ val.msg ++
    "\t[tid:" ++ toString val.tid ++ "] " ++ val.fileName ++ ":" ++ toString val.lineNum ++ " " ++
    val.funcName ++ val.extra ++ "\n"

-- The default constructors of `os_property`. That of `LogOutput` looks a level up, and makes
-- nothing if the lookup throws or reads a key that is gone.
def LogOutput.osProperty (time2string : Nat → String) (shared : Bool) (levels : LogLevelManage) :
    Option (Binding LogType) :=
  match (levels.getLevel shared "TRACE").2 with
  | .ok llb  => some { plock := none, filter := ⟨llb⟩, format := defaultFormat time2string }
  | .error _ => none

def LogOutput2.osProperty (time2string : Nat → String) : Option (Binding LevelSet) :=
  some { plock := none, filter := .ofList (· < ·) [], format := defaultFormat time2string }

-- The calls. `default` is what the default constructor of `os_property` makes at the time of the
-- call.
inductive Call (φ : Type*)
  | bind (os : Nat) (std : Bool) (filter : φ) (format : LogVal → String)
  | unbind (os : Nat) (default : Option (Binding φ))
  | getLock (os : Nat)
  | ostreamCount

-- `unbind` of the two classes.
def LogOutput.unbindCall (time2string : Nat → String) (shared : Bool) (levels : LogLevelManage)
    (os : Nat) : Call LogType :=
  .unbind os (osProperty time2string shared levels)

def LogOutput2.unbindCall (time2string : Nat → String) (os : Nat) : Call LevelSet :=
  .unbind os (osProperty time2string)

inductive Answer
  | bool (b : Bool)
  | lock (l : Option Lock)
  | size (n : Nat)
  | exception
  deriving DecidableEq, Repr

namespace LogOutputIf

variable {φ : Type*}

def act (o : LogOutputIf φ) : Call φ → LogOutputIf φ × Answer
  | .bind os std filter format =>
    let (o, b) := o.bind os std filter format
    (o, .bool b)
  | .unbind os default         =>
    let (o, b) := o.unbind os default
    (o, b.elim .exception .bool)
  | .getLock os                => (o, .lock (o.getLock os))
  | .ostreamCount              => (o, .size o.ostreamCount)

def run (cs : List (Call φ)) : LogOutputIf φ :=
  cs.foldl (fun o c => (o.act c).1) empty

-- The partial map that the bindings are.
def bindings (o : LogOutputIf φ) : Nat → Option (Binding φ) :=
  fun os => o.outstream.lookup os

end LogOutputIf

open Function (update)

-- The calls upon a partial map.
inductive Specified {φ : Type*} (m : Nat → Option (Binding φ)) :
    Call φ → Answer → (Nat → Option (Binding φ)) → Prop
  | bind {os : Nat} {std : Bool} {filter : φ} {format : LogVal → String} {lock : Lock}
    (h : m os = none) : Specified m (.bind os std filter format) (.bool true)
      (update m os (some { plock := some lock, filter := filter, format := format }))
  | rebind {os : Nat} {std : Bool} {filter : φ} {format : LogVal → String} (h : m os ≠ none) :
    Specified m (.bind os std filter format) (.bool false) m
  | unbind {os : Nat} {default : Option (Binding φ)} (h : m os ≠ none) :
    Specified m (.unbind os default) (.bool true) (update m os none)
  | unbound {os : Nat} {default : Option (Binding φ)} (h : m os = none) :
    Specified m (.unbind os default) (.bool false) m
  | getLock {os : Nat} {l : Option Lock} (h : l ≠ none ↔ m os ≠ none) :
    Specified m (.getLock os) (.lock l) m
  | ostreamCount : Specified m .ostreamCount (.size {os | m os ≠ none}.ncard) m

-- Every call is answered like the same call upon the partial map.
def Behaves {φ : Type*} (cs : List (Call φ)) : Prop :=
  ∀ before c after, cs = before ++ c :: after →
    Specified (LogOutputIf.run before).bindings c ((LogOutputIf.run before).act c).2
      (LogOutputIf.run (before ++ [c])).bindings

-- The stream has been bound, and not been unbound since.
def IsBound {φ : Type*} (cs : List (Call φ)) (os : Nat) : Prop :=
  ∃ before std filter format after, cs = before ++ .bind os std filter format :: after ∧
    ∀ default, .unbind os default ∉ after

-- Only streams that are bound are unbound.
def Balanced {φ : Type*} (cs : List (Call φ)) : Prop :=
  ∀ before os default after, cs = before ++ .unbind os default :: after → IsBound before os

section

variable {φ : Type*} {o : LogOutputIf φ} {os : Nat} {b : Binding φ} {c : Call φ}
  {cs : List (Call φ)} {default : Option (Binding φ)}

theorem Specified.answer_of_none {m m' : Nat → Option (Binding φ)} {a : Answer}
    (hs : Specified m (.unbind os default) a m') (h : m os = none) : a = .bool false := by
  cases hs
  case unbind hn => exact absurd h hn
  case unbound   => rfl

namespace LogOutputIf

theorem mem_iff : os ∈ o.outstream ↔ o.bindings os ≠ none := by
  rw [bindings, ← Option.isSome_iff_ne_none, AList.lookup_isSome]

theorem bindings_insert (b : Binding φ) :
    (fun os' => (o.outstream.insert os b).lookup os') = update o.bindings os (some b) := by
  funext os'
  by_cases he : os' = os
  case pos => rw [he, AList.lookup_insert, Function.update_self]
  case neg => rw [AList.lookup_insert_ne he, Function.update_of_ne he, bindings]

theorem bindings_erase :
    (fun os' => (o.outstream.erase os).lookup os') = update o.bindings os none := by
  funext os'
  by_cases he : os' = os
  case pos => rw [he, AList.lookup_erase, Function.update_self]
  case neg => rw [AList.lookup_erase_ne he, Function.update_of_ne he, bindings]

theorem newLock_outstream {std : Bool} : (o.newLock std).1.outstream = o.outstream := by
  rw [newLock]
  split <;> rfl

theorem bind_of_none (std : Bool) (filter : φ) (format : LogVal → String)
    (h : o.bindings os = none) : ∃ lock,
    (o.bind os std filter format).2 = true ∧ (o.bind os std filter format).1.bindings =
      update o.bindings os (some { plock := some lock, filter := filter, format := format }) := by
  have hm : os ∉ (o.newLock std).1.outstream := by
    rw [newLock_outstream, mem_iff]
    simpa using h
  refine ⟨(o.newLock std).2, ?_, ?_⟩ <;> simp only [bind, insert, hm, if_false]
  rw [newLock_outstream, ← bindings_insert]
  rfl

theorem bind_of_ne_none (std : Bool) (filter : φ) (format : LogVal → String)
    (h : o.bindings os ≠ none) :
    (o.bind os std filter format).2 = false ∧
      (o.bind os std filter format).1.bindings = o.bindings := by
  have hm : os ∈ (o.newLock std).1.outstream := by
    rwa [newLock_outstream, mem_iff]
  constructor <;> simp only [bind, insert, hm, if_true]
  funext os'
  rw [bindings, newLock_outstream, bindings]

theorem unbind_of_ne_none (default : Option (Binding φ)) (h : o.bindings os ≠ none) :
    (o.unbind os default).2 = some true ∧
      (o.unbind os default).1.bindings = update o.bindings os none := by
  have ⟨b, hb⟩ := Option.ne_none_iff_exists'.mp h
  have hb : o.outstream.lookup os = some b := hb
  constructor <;> simp only [unbind, index, hb, erase]
  case left  => simp [mem_iff.mpr h]
  case right => exact bindings_erase

-- The stream is inserted, and erased again.
theorem unbind_of_none (default : Option (Binding φ)) (h : o.bindings os = none) :
    (o.unbind os default).2 = default.map (fun _ => true) ∧
      (o.unbind os default).1.bindings = o.bindings := by
  have hb : o.outstream.lookup os = none := h
  simp only [unbind, index, hb]
  cases default
  case none   => exact ⟨rfl, rfl⟩
  case some b =>
    constructor
    case left  => simp [erase]
    case right =>
      funext os'
      simp only [bindings, erase]
      by_cases he : os' = os
      case pos => rw [he, AList.lookup_erase, hb]
      case neg => rw [AList.lookup_erase_ne he, AList.lookup_insert_ne he]

theorem ostreamCount_eq : o.ostreamCount = {os | o.bindings os ≠ none}.ncard := by
  have h : {os | o.bindings os ≠ none} = (o.outstream.keys.toFinset : Set Nat) := by
    ext os
    rw [List.coe_toFinset, Set.mem_ofPred_eq, Set.mem_ofPred_eq, ← mem_iff, AList.mem_keys]
  rw [h, Set.ncard_coe_finset, List.toFinset_card_of_nodup o.outstream.keys_nodup, ostreamCount]

-- Every stream that is bound has its lock.
def Locked (o : LogOutputIf φ) : Prop :=
  ∀ os b, o.bindings os = some b → b.plock ≠ none

theorem getLock_ne_none_iff (i : o.Locked) : o.getLock os ≠ none ↔ o.bindings os ≠ none := by
  rw [getLock]
  cases h : o.outstream.lookup os
  case none   => simp [bindings, h]
  case some b => simpa [bindings, h] using i os b h

-- A call goes wrong if and only if it unbinds a stream that is not bound.
theorem act_specified_iff (i : o.Locked) :
    Specified o.bindings c (o.act c).2 (o.act c).1.bindings ↔
      ∀ os default, c = .unbind os default → o.bindings os ≠ none := by
  cases c
  case getLock os =>
    exact iff_of_true (.getLock (getLock_ne_none_iff i)) nofun
  case ostreamCount =>
    refine iff_of_true ?_ nofun
    simp only [act, ostreamCount_eq]
    exact .ostreamCount
  case bind os std filter format =>
    refine iff_of_true ?_ nofun
    by_cases h : o.bindings os = none
    case pos =>
      have ⟨lock, hr, hb⟩ := bind_of_none std filter format h
      simp only [act, hr, hb]
      exact .bind h
    case neg =>
      have ⟨hr, hb⟩ := bind_of_ne_none std filter format h
      simp only [act, hr, hb]
      exact .rebind h
  case unbind os default =>
    by_cases h : o.bindings os = none
    case pos =>
      refine iff_of_false ?_ fun hf => hf os default rfl h
      have hr := (unbind_of_none default h).1
      intro hs
      simp only [act, hr] at hs
      have ha := hs.answer_of_none h
      cases default <;> cases ha
    case neg =>
      refine iff_of_true ?_ fun os' default' he => by cases he; exact h
      have ⟨hr, hb⟩ := unbind_of_ne_none default h
      simp only [act, hr, hb]
      exact .unbind h

-- A binding that is put there comes with its lock.
theorem Locked.of_update {o' : LogOutputIf φ} {x : Option (Binding φ)} (i : o.Locked)
    (hb : o'.bindings = update o.bindings os x) (h : ∀ b, x = some b → b.plock ≠ none) :
    o'.Locked := by
  intro os' b hb'
  rw [hb] at hb'
  by_cases he : os' = os
  case pos =>
    rw [he, Function.update_self] at hb'
    exact h b hb'
  case neg =>
    rw [Function.update_of_ne he] at hb'
    exact i os' b hb'

theorem act_locked (i : o.Locked) : (o.act c).1.Locked := by
  cases c
  case getLock      => exact i
  case ostreamCount => exact i
  case bind os std filter format =>
    by_cases h : o.bindings os = none
    case neg =>
      have hb := (bind_of_ne_none std filter format h).2
      simpa only [act, Locked, hb] using i
    case pos =>
      have ⟨lock, _, hb⟩ := bind_of_none std filter format h
      exact i.of_update hb fun b he => by cases he; nofun
  case unbind os default =>
    by_cases h : o.bindings os = none
    case pos =>
      have hb := (unbind_of_none default h).2
      simpa only [act, Locked, hb] using i
    case neg =>
      have hb := (unbind_of_ne_none default h).2
      exact i.of_update hb nofun

@[simp]
theorem run_snoc : run (cs ++ [c]) = ((run cs).act c).1 := by
  simp [run]

theorem run_locked (cs : List (Call φ)) : (run cs).Locked := by
  induction cs using List.reverseRecOn
  case nil                 => exact nofun
  case append_singleton hi =>
    rw [run_snoc]
    exact act_locked hi

end LogOutputIf

theorem isBound_snoc_iff : IsBound (cs ++ [c]) os ↔
    (∃ std filter format, c = .bind os std filter format) ∨
      IsBound cs os ∧ ∀ default, c ≠ .unbind os default := by
  constructor
  case mp =>
    intro ⟨before, std, filter, format, after, he, ha⟩
    cases Trace.append_eq_split he
    case inl h =>
      have ⟨r, hc, hr⟩ := h
      rw [hr] at ha
      simp only [List.mem_append, List.mem_singleton, not_or] at ha
      exact .inr ⟨⟨before, std, filter, format, r, hc, fun d => (ha d).1⟩,
        fun d => ((ha d).2 ·.symm)⟩
    case inr h =>
      have ⟨r, _, hc⟩ := h
      cases r
      case nil  => exact .inl ⟨std, filter, format, (List.cons.inj hc).1⟩
      case cons => simp at hc
  case mpr =>
    intro h
    cases h
    case inl h =>
      have ⟨std, filter, format, h⟩ := h
      exact ⟨cs, std, filter, format, [], by rw [h], fun _ => List.not_mem_nil⟩
    case inr h =>
      have ⟨⟨before, std, filter, format, after, he, ha⟩, hc⟩ := h
      refine ⟨before, std, filter, format, after ++ [c], by simp [he], fun default hm => ?_⟩
      cases List.mem_append.mp hm
      case inl hm => exact ha default hm
      case inr hm => exact hc default (List.mem_singleton.mp hm).symm

theorem LogOutputIf.bindings_act_ne_none_iff : (o.act c).1.bindings os ≠ none ↔
    (∃ std filter format, c = .bind os std filter format) ∨
      o.bindings os ≠ none ∧ ∀ default, c ≠ .unbind os default := by
  cases c
  case getLock      => simp [act]
  case ostreamCount => simp [act]
  case bind os' std filter format =>
    have hn : ∀ default, Call.bind os' std filter format ≠ .unbind os default := nofun
    by_cases h : o.bindings os' = none
    case neg =>
      have hb := (bind_of_ne_none std filter format h).2
      simp only [act, hb]
      by_cases he : os = os'
      case pos => simp [he, h]
      case neg => simp [Ne.symm he, hn]
    case pos =>
      have ⟨lock, _, hb⟩ := bind_of_none std filter format h
      simp only [act, hb]
      by_cases he : os = os'
      case pos => simp [he]
      case neg => simp [he, Ne.symm he, hn]
  case unbind os' default =>
    by_cases h : o.bindings os' = none
    case pos =>
      have hb := (unbind_of_none default h).2
      simp only [act, hb]
      by_cases he : os = os'
      case pos => simp [he, h]
      case neg => simp [Ne.symm he]
    case neg =>
      have hb := (unbind_of_ne_none default h).2
      simp only [act, hb]
      by_cases he : os = os'
      case pos => simp [he]
      case neg => simp [he, Ne.symm he]

-- A stream is bound if and only if it has a binding.
theorem isBound_iff : IsBound cs os ↔ (LogOutputIf.run cs).bindings os ≠ none := by
  induction cs using List.reverseRecOn
  case nil                      =>
    refine iff_of_false ?_ fun h => h rfl
    intro ⟨before, _, _, _, _, he, _⟩
    simp at he
  case append_singleton cs c hi =>
    rw [isBound_snoc_iff, LogOutputIf.run_snoc, LogOutputIf.bindings_act_ne_none_iff, hi]

theorem behaves_iff : Behaves cs ↔ Balanced cs := by
  have h (before : List (Call φ)) (c : Call φ) :
      Specified (LogOutputIf.run before).bindings c ((LogOutputIf.run before).act c).2
        (LogOutputIf.run (before ++ [c])).bindings ↔
      ∀ os default, c = .unbind os default → IsBound before os := by
    simp only [isBound_iff, LogOutputIf.run_snoc]
    exact LogOutputIf.act_specified_iff (LogOutputIf.run_locked before)
  constructor
  case mp =>
    intro hb before os default after he
    exact (h before _).mp (hb before _ after he) os default rfl
  case mpr =>
    intro hb before c after he
    refine (h before c).mpr fun os default hc => ?_
    exact hb before os default after (hc ▸ he)

end

-- Both classes behave like partial maps if and only if only streams that are bound are unbound.
theorem both_behave_iff (cs₁ : List (Call LogType)) (cs₂ : List (Call LevelSet)) :
    (Behaves cs₁ ↔ Balanced cs₁) ∧ (Behaves cs₂ ↔ Balanced cs₂) :=
  ⟨behaves_iff, behaves_iff⟩

-- A stream that has never been bound is unbound, and the answer is `true`.
theorem not_behaves_unbound :
    (¬∀ cs : List (Call LogType), Behaves cs) ∧ ¬∀ cs : List (Call LevelSet), Behaves cs := by
  have h {φ : Type} (default : Option (Binding φ)) : ¬Balanced [Call.unbind 0 default] := by
    intro h
    have ⟨before, _, _, _, _, he, _⟩ := h [] 0 default [] rfl
    simp at he
  constructor
  case left =>
    intro hb
    exact h _ (behaves_iff.mp (hb [LogOutput.unbindCall (fun _ => "") true .initial 0]))
  case right =>
    intro hb
    exact h _ (behaves_iff.mp (hb [LogOutput2.unbindCall (fun _ => "") 0]))

section

variable {o : LogOutputIf LevelSet} {os : Nat} {filter : LevelSet} {format : LogVal → String}

-- A `LogOutput2` without its locks.
def LogOutputIf.forget (o : LogOutputIf LevelSet) : LogOutput2 where
  outstream := o.outstream.entries.map fun e =>
    (e.1, { loglevelSet := e.2.filter, format := e.2.format })
  distinct := by
    rw [List.map_map]
    exact o.outstream.keys_nodup

namespace LogOutputIf

theorem mem_forget : os ∈ o.forget.outstream.map Prod.fst ↔ os ∈ o.outstream := by
  rw [forget, List.map_map]
  exact .rfl

theorem bind_forget {std : Bool} : ((o.bind os std filter format).1.forget,
    (o.bind os std filter format).2) = o.forget.bind os filter format := by
  by_cases hm : os ∈ o.outstream
  case pos =>
    have hm' : os ∈ (o.newLock std).1.outstream := by rwa [newLock_outstream]
    simp only [LogOutput2.bind, mem_forget.mpr hm, dif_pos, bind, insert, hm', if_true]
    simp only [forget, newLock_outstream]
  case neg =>
    have hm' : os ∉ (o.newLock std).1.outstream := by rwa [newLock_outstream]
    simp only [LogOutput2.bind, mem_forget.not.mpr hm, dif_neg, not_false_eq_true, bind, insert,
      hm', if_false]
    simp [forget, newLock_outstream, List.kerase_of_notMem_keys hm]

theorem entries_erase (l : AList fun _ : Nat => Binding LevelSet) :
    (l.erase os).entries = l.entries.kerase os :=
  rfl

theorem unbind_outstream (b : Binding LevelSet) :
    (o.unbind os (some b)).2 = some true ∧
      (o.unbind os (some b)).1.outstream = o.outstream.erase os := by
  cases h : o.outstream.lookup os
  case some =>
    have hb : o.bindings os ≠ none := by simp [bindings, h]
    exact ⟨(unbind_of_ne_none _ hb).1, by simp only [unbind, index, h, erase]⟩
  case none =>
    refine ⟨(unbind_of_none _ h).1, ?_⟩
    simp only [unbind, index, h, erase]
    apply AList.ext
    simp [entries_erase]

theorem kerase_eq_filter {l : List (Sigma fun _ : Nat => Binding LevelSet)} (h : l.NodupKeys) :
    l.kerase os = l.filter (·.1 ≠ os) := by
  induction l
  case nil         => rfl
  case cons e l hi =>
    have ⟨hn, h⟩ := List.nodupKeys_cons.mp h
    by_cases he : os = e.1
    case pos =>
      rw [List.kerase_cons_eq he, List.filter_cons_of_neg (by simp [he]), List.filter_eq_self.mpr]
      intro e' hm
      have hne : e'.1 ≠ e.1 := fun h => hn (h ▸ List.mem_keys_of_mem hm)
      simpa [he] using hne
    case neg =>
      rw [List.kerase_cons_ne he, List.filter_cons_of_pos (by simpa using Ne.symm he), hi h]

theorem unbind_forget {b : Binding LevelSet} :
    ((o.unbind os (some b)).1.forget, (o.unbind os (some b)).2) =
      ((o.forget.unbind os).1, some (o.forget.unbind os).2) := by
  have ⟨hr, ho⟩ : _ ∧ (o.unbind os (some b)).1.outstream = o.outstream.erase os :=
    unbind_outstream b
  simp only [hr, LogOutput2.unbind, forget, ho, entries_erase,
    kerase_eq_filter o.outstream.nodupKeys, List.filter_map]
  rfl

end LogOutputIf
end
end Lproxy.Log
