import Lproxy.ProgramOptions

-- The program `lkeep`, which runs a command in a loop.
namespace Lproxy.Keep

open ProgramOptions (ParameterError)

-- `arg_t`
structure Arg where
  commandLine : String
  interval : Int
  maxCycles : Int
  deriving DecidableEq, Repr

def badNumber (option : String) : Exit where
  code := -1
  message := "[FATAL] bad number. Specified parameter \"" ++ option ++ "\".\n"

-- The options of `lkeep`.
def options : ProgramOptions where
  usage := "lkeep.exe [option]"
  helpmessage := [
    ("-h, --help", "Show this message."),
    ("-r, --run      <command ...>",
      "Run a command line.\nthe function finds command interpreter:\ne.g.\n * linux: '/bin/sh'\n" ++
        " * Windows/DOS: 'COMMAND.COM'\n * Windows NT: 'CMD.EXE'"),
    ("-i, --interval <milliseconds>", "Milliseconds to wait between two sessions."),
    ("-m, --max      <times>",
      "Maximum number of cycles. the default value is\ninfinite.")]
  examples := ["lkeep.exe --help", "lkeep.exe --run echo hello world",
    "lkeep.exe -i 1000 -r echo hello world", "lkeep.exe -i 1000 -m 5 -r echo hello world"]
  argv := []

-- The loop that collects the command line; `posFlag` says that the option has been passed.
def collect (posFlag : Bool) (commandLine : String) : List String → String
  | []      => commandLine
  | v :: vs =>
    collect (posFlag || v = "-r" || v = "--run")
      (if posFlag then commandLine ++ (v ++ " ") else commandLine) vs

section

-- `boost::lexical_cast<int>`, or `none` if it throws.
variable (lexicalCast : String → Option Int) (po : ProgramOptions)

-- The parameter of an option that is there.
def number (option : String) : Except Exit Int :=
  match po.get option with
  | .error e => .error e.fatal
  | .ok v    =>
    match lexicalCast v with
    | none   => .error (badNumber option)
    | some n => if n < 0 then .error (badNumber option) else .ok n

-- The parameter of an option that has two names.
def numberOf (short long : String) : Except Exit Int :=
  if po.count short then number lexicalCast po short
  else if po.count long then number lexicalCast po long
  else .ok (-1)

def processProgramOptions : Except Exit Arg :=
  if po.empty || po.count "-h" || po.count "--help" then
    .error { code := 0, message := po.showHelp "Execute a command in a loop." ++ "\n" }
  else do
    let interval ← numberOf lexicalCast po "-i" "--interval"
    let maxCycles ← numberOf lexicalCast po "-m" "--max"
    if po.count "-r" || po.count "--run" then
      let _ ← (po.get "-r").mapError ParameterError.fatal
      let _ ← (po.get "--run").mapError ParameterError.fatal
      .ok ⟨collect false "" po.argv, interval, maxCycles⟩
    else .error { code := -1, message := "[FATAL] Unsupported options\n" }

end

-- `option`, for the arguments of `main`.
def option (lexicalCast : String → Option Int) (argv : List String) : Except Exit Arg :=
  processProgramOptions lexicalCast (options.store argv)

-- The commands that the first rounds of `do_loop` pass to `::system`.
def doLoop (arg : Arg) : (rounds loop : Nat) → List String
  | 0, _             => []
  | rounds + 1, loop =>
    arg.commandLine ::
      if arg.maxCycles > 0 then
        if (loop + 1 : Nat) ≥ arg.maxCycles then [] else doLoop arg rounds (loop + 1)
      else doLoop arg rounds loop

-- The names of the options.
def names : List String :=
  ["-h", "--help", "-r", "--run", "-i", "--interval", "-m", "--max"]

-- No name of an option is a number.
def Rejects (lexicalCast : String → Option Int) : Prop :=
  ∀ w ∈ names, lexicalCast w = none

instance (lexicalCast : String → Option Int) : Decidable (Rejects lexicalCast) :=
  inferInstanceAs (Decidable (∀ w ∈ names, lexicalCast w = none))

-- An option with a valid number.
structure Setting (lexicalCast : String → Option Int) where
  name : String
  value : String
  number : Int
  isName : name ∈ ["-i", "--interval", "-m", "--max"]
  cast : lexicalCast value = some number
  nonneg : 0 ≤ number

-- A call of `lkeep` with some options and a command.
structure Invocation (lexicalCast : String → Option Int) where
  lkeep : String
  opts : List (Setting lexicalCast)
  run : String
  cmd : List String
  isRun : run = "-r" ∨ run = "--run"
  nonempty : cmd ≠ []
  noRun : ∀ w ∈ cmd, w ≠ "-r" ∧ w ≠ "--run"

-- Words, each followed by a space.
def spaced : List String → String
  | []      => ""
  | w :: ws => w ++ " " ++ spaced ws

section

variable {lexicalCast : String → Option Int}

def words (opts : List (Setting lexicalCast)) : List String :=
  opts.flatMap fun s => [s.name, s.value]

-- What some options ask for under one of two names.
def asked (short long : String) (opts : List (Setting lexicalCast)) : Int :=
  match opts.find? (·.name = short) with
  | some s => s.number
  | none   => (opts.find? (·.name = long)).elim (-1) (·.number)

namespace Invocation

variable (v : Invocation lexicalCast)

def argv : List String :=
  v.lkeep :: (words v.opts ++ v.run :: v.cmd)

-- `lkeep` takes the options for its own and the command for the command.
def Separated : Prop :=
  option lexicalCast v.argv = .ok {
    commandLine := spaced v.cmd
    interval := asked "-i" "--interval" v.opts
    maxCycles := asked "-m" "--max" v.opts }

-- The words outside of the options have no influence on a number.
def Untouched (short long : String) : Prop :=
  v.lkeep ≠ short ∧ ((∃ s ∈ v.opts, s.name = short) ∨
    if short ∈ v.cmd then
      ∃ s, v.opts.find? (·.name = long) = some s ∧
        (ProgramOptions.wordAfter short v.cmd).bind lexicalCast = some s.number
    else v.lkeep ≠ long ∧ (long ∈ v.cmd → ∃ s ∈ v.opts, s.name = long))

-- The words outside of the options are none of the names of the options, or do no harm as such.
structure Harmless : Prop where
  lkeep : v.lkeep ∉ ["-h", "--help", "-r", "--run"]
  help : "-h" ∉ v.cmd ∧ "--help" ∉ v.cmd
  interval : v.Untouched "-i" "--interval"
  max : v.Untouched "-m" "--max"

end Invocation

-- What is read of the parameter of an option.
theorem number_eq_ok_iff {po : ProgramOptions} {o : String} {n : Int} :
    number lexicalCast po o = .ok n ↔
      ∃ w, po.get o = .ok w ∧ lexicalCast w = some n ∧ 0 ≤ n := by
  rw [number]
  split
  case h_1 h => simp [h]
  case h_2 w h =>
    simp only [h, Except.ok.injEq, exists_eq_left']
    split
    case h_1 h   => simp [h]
    case h_2 m h =>
      rw [h, Option.some.injEq]
      split
      case isTrue hm  => exact iff_of_false nofun fun ⟨he, hn⟩ => by omega
      case isFalse hm =>
        rw [Except.ok.injEq]
        exact ⟨fun he => ⟨he, by omega⟩, And.left⟩

namespace Setting

variable (hc : Rejects lexicalCast) (s : Setting lexicalCast)

theorem name_mem : s.name ∈ names :=
  List.mem_of_mem_drop (i := 4) s.isName

include hc in
theorem value_notMem : s.value ∉ names := by
  intro hm
  cases s.cast.symm.trans (hc _ hm)

end Setting

section Words

variable {opts : List (Setting lexicalCast)} {o : String} {rest : List String}

theorem words_cons {s : Setting lexicalCast} :
    words (s :: opts) = s.name :: s.value :: words opts :=
  rfl

theorem mem_words_iff (hc : Rejects lexicalCast) (ho : o ∈ names) :
    o ∈ words opts ↔ ∃ s ∈ opts, s.name = o := by
  induction opts
  case nil            => simp [words]
  case cons s opts hi =>
    have hv : o ≠ s.value := fun he => s.value_notMem hc (he ▸ ho)
    simp [words_cons, hv, hi, eq_comm]

-- The first setting of an option decides.
theorem getLoop_words (hc : Rejects lexicalCast) (ho : o ∈ names) :
    ProgramOptions.getLoop o (words opts ++ rest) =
      match opts.find? (·.name = o) with
      | some s => .ok s.value
      | none   => ProgramOptions.getLoop o rest := by
  induction opts
  case nil            => rfl
  case cons s opts hi =>
    have hv : o ≠ s.value := fun he => s.value_notMem hc (he ▸ ho)
    rw [words_cons, List.cons_append, List.cons_append]
    by_cases he : s.name = o
    case pos => simp [he]
    case neg =>
      rw [ProgramOptions.getLoop_of_ne (Ne.symm he), ProgramOptions.getLoop_of_ne hv, hi]
      simp [he]

-- What comes after the name of the program is the name of an option.
theorem words_head (opts : List (Setting lexicalCast)) (rest : List String) {run : String}
    (hr : run ∈ names) :
    ∃ w ws, words opts ++ run :: rest = w :: ws ∧ w ∈ names := by
  cases opts
  case nil       => exact ⟨run, rest, rfl, hr⟩
  case cons s os => exact ⟨s.name, _, rfl, s.name_mem⟩

end Words

namespace Invocation

variable {v : Invocation lexicalCast} {o short long : String} {n : Int}
  {s : Setting lexicalCast}

theorem run_mem : v.run ∈ names := by
  cases v.isRun <;> simp [*, names]

theorem number_lkeep (hc : Rejects lexicalCast) (h : v.lkeep = o) :
    number lexicalCast (options.store v.argv) o ≠ .ok n := by
  have ⟨w, ws, he, hw⟩ := words_head v.opts v.cmd v.run_mem
  intro hn
  have ⟨w', hg, hcast, _⟩ := number_eq_ok_iff.mp hn
  have hg : ProgramOptions.getLoop o v.argv = .ok w' := hg
  rw [argv, h, he, ProgramOptions.getLoop_self] at hg
  cases hg
  cases hcast.symm.trans (hc w hw)

theorem get_opts (hc : Rejects lexicalCast) (ho : o ∈ names) (h : v.lkeep ≠ o)
    (hs : v.opts.find? (·.name = o) = some s) :
    (options.store v.argv).get o = .ok s.value := by
  show ProgramOptions.getLoop o v.argv = _
  rw [argv, ProgramOptions.getLoop_of_ne h.symm, getLoop_words hc ho, hs]

theorem get_cmd (hc : Rejects lexicalCast) (ho : o ∈ names) (h : v.lkeep ≠ o) (hr : v.run ≠ o)
    (hs : v.opts.find? (·.name = o) = none) :
    (options.store v.argv).get o = ProgramOptions.getLoop o v.cmd := by
  show ProgramOptions.getLoop o v.argv = _
  rw [argv, ProgramOptions.getLoop_of_ne h.symm, getLoop_words hc ho, hs]
  exact ProgramOptions.getLoop_of_ne hr.symm

theorem count_iff (hc : Rejects lexicalCast) (ho : o ∈ names) :
    (options.store v.argv).count o ↔
      v.lkeep = o ∨ (∃ s ∈ v.opts, s.name = o) ∨ v.run = o ∨ o ∈ v.cmd := by
  have hm : (options.store v.argv).count o ↔ o ∈ v.argv := decide_eq_true_iff
  rw [hm, argv, List.mem_cons, List.mem_append, List.mem_cons, mem_words_iff hc ho,
    eq_comm (b := o), eq_comm (b := o)]

theorem find?_eq_none_iff :
    v.opts.find? (·.name = o) = none ↔ ¬∃ s ∈ v.opts, s.name = o := by
  simp

-- An option that is not given is looked for in the command.
theorem number_cmd (hc : Rejects lexicalCast) (ho : o ∈ names) (h : v.lkeep ≠ o) (hr : v.run ≠ o)
    (hs : v.opts.find? (·.name = o) = none) (hm : o ∈ v.cmd) :
    number lexicalCast (options.store v.argv) o = .ok n ↔
      (ProgramOptions.wordAfter o v.cmd).bind lexicalCast = some n ∧ 0 ≤ n := by
  rw [number_eq_ok_iff, get_cmd hc ho h hr hs, ProgramOptions.getLoop_of_mem hm]
  cases ProgramOptions.wordAfter o v.cmd <;> simp

theorem number_opts (hc : Rejects lexicalCast) (ho : o ∈ names) (h : v.lkeep ≠ o)
    (hs : v.opts.find? (·.name = o) = some s) :
    number lexicalCast (options.store v.argv) o = .ok s.number :=
  number_eq_ok_iff.mpr ⟨_, get_opts hc ho h hs, s.cast, s.nonneg⟩

-- The long name counts if the short one is not there.
theorem numberOf_long (hc : Rejects lexicalCast) (hl : long ∈ names) (hr : v.run ≠ long)
    (hs : v.opts.find? (·.name = short) = none)
    (hn : (options.store v.argv).count short = false) :
    numberOf lexicalCast (options.store v.argv) short long = .ok (asked short long v.opts) ↔
      v.lkeep ≠ long ∧ (long ∈ v.cmd → ∃ s ∈ v.opts, s.name = long) := by
  rw [numberOf, if_neg (by simp [hn]), asked, hs]
  by_cases hk : v.lkeep = long
  case pos =>
    rw [if_pos ((count_iff hc hl).mpr (.inl hk))]
    exact iff_of_false (number_lkeep hc hk) fun h => h.1 hk
  case neg =>
    cases hf : v.opts.find? (·.name = long)
    case some s =>
      have hm : ∃ s ∈ v.opts, s.name = long :=
        ⟨s, List.mem_of_find?_eq_some hf, by simpa using List.find?_some hf⟩
      rw [if_pos ((count_iff hc hl).mpr (.inr (.inl hm))), number_opts hc hl hk hf]
      simp [hk, hm]
    case none =>
      have hm := find?_eq_none_iff.mp hf
      have hcount := count_iff (v := v) hc hl
      simp only [hk, hm, hr, false_or] at hcount
      by_cases hcmd : long ∈ v.cmd
      case pos =>
        rw [if_pos (hcount.mpr hcmd), number_cmd hc hl hk hr hf hcmd]
        exact iff_of_false (fun h => absurd h.2 (by simp)) fun h => hm (h.2 hcmd)
      case neg =>
        rw [if_neg (hcount.not.mpr hcmd)]
        exact iff_of_true rfl ⟨hk, fun h => absurd h hcmd⟩

theorem numberOf_eq_ok_iff (hc : Rejects lexicalCast) (hs : short ∈ names) (hl : long ∈ names)
    (hrs : v.run ≠ short) (hrl : v.run ≠ long) :
    numberOf lexicalCast (options.store v.argv) short long = .ok (asked short long v.opts) ↔
      v.Untouched short long := by
  have hcount := count_iff (v := v) hc hs
  by_cases hk : v.lkeep = short
  case pos =>
    rw [numberOf, if_pos (hcount.mpr (.inl hk))]
    exact iff_of_false (number_lkeep hc hk) fun h => h.1 hk
  case neg =>
    cases hf : v.opts.find? (·.name = short)
    case some s =>
      have hm : ∃ s ∈ v.opts, s.name = short :=
        ⟨s, List.mem_of_find?_eq_some hf, by simpa using List.find?_some hf⟩
      rw [numberOf, if_pos (hcount.mpr (.inr (.inl hm))), number_opts hc hs hk hf, asked, hf]
      exact iff_of_true rfl ⟨hk, .inl hm⟩
    case none =>
      have hm := find?_eq_none_iff.mp hf
      simp only [hk, hm, hrs, false_or] at hcount
      simp only [Untouched, hm, false_or, ne_eq, hk, not_false_eq_true, true_and]
      by_cases hcmd : short ∈ v.cmd
      case neg =>
        rw [if_neg hcmd]
        exact numberOf_long hc hl hrl hf (by simpa using hcount.not.mpr hcmd)
      case pos =>
        rw [if_pos hcmd, numberOf, if_pos (hcount.mpr hcmd), number_cmd hc hs hk hrs hf hcmd,
          asked, hf]
        cases hfl : v.opts.find? (·.name = long)
        case none   => simp
        case some s => simp [s.nonneg]

end Invocation

-- What it takes for `lkeep` to get to its loop.
structure Accepts (lexicalCast : String → Option Int) (argv : List String) (arg : Arg) : Prop where
  length : argv.length ≠ 1
  help : "-h" ∉ argv ∧ "--help" ∉ argv
  interval : numberOf lexicalCast (options.store argv) "-i" "--interval" = .ok arg.interval
  max : numberOf lexicalCast (options.store argv) "-m" "--max" = .ok arg.maxCycles
  run : "-r" ∈ argv ∨ "--run" ∈ argv
  short : ∃ w, ProgramOptions.getLoop "-r" argv = .ok w
  long : ∃ w, ProgramOptions.getLoop "--run" argv = .ok w
  commandLine : arg.commandLine = collect false "" argv

theorem bind_eq_ok_iff {ε : Type*} {α β : Type} {x : Except ε α} {f : α → Except ε β} {b : β} :
    x >>= f = .ok b ↔ ∃ a, x = .ok a ∧ f a = .ok b := by
  cases x <;> simp [bind, Except.bind]

theorem mapError_eq_ok_iff {ε ε' α : Type*} {x : Except ε α} {f : ε → ε'} {a : α} :
    x.mapError f = .ok a ↔ x = .ok a := by
  cases x <;> simp [Except.mapError]

theorem option_eq_ok_iff {argv : List String} {arg : Arg} :
    option lexicalCast argv = .ok arg ↔ Accepts lexicalCast argv arg := by
  have count (o : String) : (options.store argv).count o = decide (o ∈ argv) := rfl
  have get (o : String) : (options.store argv).get o = ProgramOptions.getLoop o argv := rfl
  have empty : (options.store argv).empty = decide (argv.length = 1) := rfl
  have hargv : (options.store argv).argv = argv := rfl
  rw [option, processProgramOptions, count, count, count, count, empty, get, get, hargv]
  split
  case isTrue h =>
    refine iff_of_false nofun fun a => ?_
    simp [a.length, a.help.1, a.help.2] at h
  case isFalse h =>
    simp only [Bool.or_eq_true, decide_eq_true_eq, not_or] at h
    simp only [bind_eq_ok_iff]
    constructor
    case mp =>
      intro ⟨interval, hi, max, hm, he⟩
      split at he
      case isFalse    => cases he
      case isTrue hr =>
        simp only [bind_eq_ok_iff, mapError_eq_ok_iff] at he
        have ⟨_, hs, _, hl, he⟩ := he
        cases he
        exact ⟨h.1.1, ⟨h.1.2, h.2⟩, hi, hm, by simpa using hr, ⟨_, hs⟩, ⟨_, hl⟩, rfl⟩
    case mpr =>
      intro a
      refine ⟨_, a.interval, _, a.max, ?_⟩
      rw [if_pos (by simpa using a.run)]
      simp only [bind_eq_ok_iff, mapError_eq_ok_iff]
      have ⟨_, hs⟩ := a.short
      have ⟨_, hl⟩ := a.long
      exact ⟨_, hs, _, hl, by rw [← a.commandLine]⟩

theorem collect_true {line : String} {vs : List String} :
    collect true line vs = line ++ spaced vs := by
  induction vs generalizing line
  case nil          => simp [collect, spaced]
  case cons v vs hi => simp [collect, spaced, hi, String.append_assoc]

theorem collect_append {ws vs : List String} (h : ∀ w ∈ ws, w ≠ "-r" ∧ w ≠ "--run") :
    collect false "" (ws ++ vs) = collect false "" vs := by
  induction ws
  case nil          => rfl
  case cons w ws hi =>
    have ⟨hw, h⟩ := List.forall_mem_cons.mp h
    simp [collect, hw.1, hw.2, hi h]

theorem spaced_append (vs ws : List String) : spaced (vs ++ ws) = spaced vs ++ spaced ws := by
  induction vs
  case nil          => simp [spaced]
  case cons v vs hi => simp [spaced, hi, String.append_assoc]

namespace Invocation

variable {v : Invocation lexicalCast}

theorem mem_argv_iff (hc : Rejects lexicalCast) {o : String} (ho : o ∈ names) :
    o ∈ v.argv ↔ v.lkeep = o ∨ (∃ s ∈ v.opts, s.name = o) ∨ v.run = o ∨ o ∈ v.cmd :=
  decide_eq_true_iff.symm.trans (count_iff hc ho)

theorem name_ne {o : String} (ho : o ∈ ["-h", "--help", "-r", "--run"]) :
    ¬∃ s ∈ v.opts, s.name = o := by
  intro ⟨s, _, he⟩
  have h : ∀ o ∈ ["-h", "--help", "-r", "--run"], o ∉ ["-i", "--interval", "-m", "--max"] := by
    decide
  exact h o ho (he ▸ s.isName)

theorem notMem_argv_iff (hc : Rejects lexicalCast) {o : String} (ho : o ∈ ["-h", "--help"]) :
    o ∉ v.argv ↔ v.lkeep ≠ o ∧ o ∉ v.cmd := by
  have hr : v.run ≠ o := by
    intro he
    subst he
    cases v.isRun <;> simp [*] at ho
  rw [mem_argv_iff hc (List.mem_of_mem_take (i := 2) ho)]
  simp [name_ne (List.mem_of_mem_take (i := 2) ho), hr]

-- The words before the command do not start it, unless the program is named so.
theorem collect_argv_iff (hc : Rejects lexicalCast) :
    collect false "" v.argv = spaced v.cmd ↔ v.lkeep ∉ ["-r", "--run"] := by
  have hr : v.run = "-r" || v.run = "--run" := by
    simpa using v.isRun
  by_cases hk : v.lkeep ∈ ["-r", "--run"]
  case pos =>
    refine iff_of_false (fun he => ?_) (not_not.mpr hk)
    have hk : v.lkeep = "-r" || v.lkeep = "--run" := by simpa using hk
    have hl := congrArg String.length he
    have h₁ : " ".length = 1 := rfl
    simp [argv, collect, hk, collect_true, spaced_append, spaced] at hl
    omega
  case neg =>
    refine iff_of_true ?_ hk
    have hw : ∀ w ∈ v.lkeep :: words v.opts, w ≠ "-r" ∧ w ≠ "--run" := by
      intro w hm
      cases hm
      case head    => simpa using hk
      case tail hm =>
        constructor <;> intro he <;> subst he
        · exact name_ne (by simp) ((mem_words_iff hc (by simp [names])).mp hm)
        · exact name_ne (by simp) ((mem_words_iff hc (by simp [names])).mp hm)
    rw [argv, ← List.cons_append, collect_append hw, collect]
    simp [hr, collect_true]

-- There is a word after the option that starts the command.
theorem get_run (hc : Rejects lexicalCast) {o : String} (ho : o ∈ ["-r", "--run"]) :
    ∃ w, ProgramOptions.getLoop o v.argv = .ok w := by
  have ho' : o ∈ ["-h", "--help", "-r", "--run"] := List.mem_of_mem_drop (i := 2) ho
  have hn : o ∈ names := List.mem_of_mem_take (i := 4) ho'
  by_cases hk : v.lkeep = o
  case pos =>
    have ⟨w, ws, he, _⟩ := words_head v.opts v.cmd v.run_mem
    exact ⟨w, by rw [argv, he, hk, ProgramOptions.getLoop_self]⟩
  case neg =>
    have hf := find?_eq_none_iff.mpr (v.name_ne ho')
    rw [argv, ProgramOptions.getLoop_of_ne (Ne.symm hk), getLoop_words hc hn, hf]
    by_cases hr : v.run = o
    case pos =>
      have ⟨w, ws, he⟩ := List.exists_cons_of_ne_nil v.nonempty
      exact ⟨w, by rw [he, hr, ProgramOptions.getLoop_self]⟩
    case neg =>
      have hm : o ∉ v.run :: v.cmd := by
        intro hm
        cases List.mem_cons.mp hm
        case inl he => exact hr he.symm
        case inr hm =>
          have h := v.noRun o hm
          simp [h.1, h.2] at ho
      exact ⟨"", ProgramOptions.getLoop_of_notMem hm⟩

-- `lkeep` separates its options from the command if and only if the other words do no harm.
theorem separated_iff (hc : Rejects lexicalCast) : v.Separated ↔ v.Harmless := by
  have hi : numberOf lexicalCast (options.store v.argv) "-i" "--interval" = _ ↔ _ :=
    numberOf_eq_ok_iff hc (by simp [names]) (by simp [names])
      (by cases v.isRun <;> simp [*]) (by cases v.isRun <;> simp [*])
  have hm : numberOf lexicalCast (options.store v.argv) "-m" "--max" = _ ↔ _ :=
    numberOf_eq_ok_iff hc (by simp [names]) (by simp [names])
      (by cases v.isRun <;> simp [*]) (by cases v.isRun <;> simp [*])
  have hh := notMem_argv_iff (v := v) hc (o := "-h") (by simp)
  have hhelp := notMem_argv_iff (v := v) hc (o := "--help") (by simp)
  rw [Separated, option_eq_ok_iff]
  constructor
  case mp =>
    intro a
    have hk := (collect_argv_iff hc).mp a.commandLine.symm
    have h₁ := hh.mp a.help.1
    have h₂ := hhelp.mp a.help.2
    refine ⟨?_, ⟨h₁.2, h₂.2⟩, hi.mp a.interval, hm.mp a.max⟩
    simp only [List.mem_cons, List.not_mem_nil, or_false, not_or] at hk ⊢
    exact ⟨h₁.1, h₂.1, hk⟩
  case mpr =>
    intro h
    have hk := h.lkeep
    simp only [List.mem_cons, List.not_mem_nil, or_false, not_or] at hk
    constructor
    case length      => simp [argv]
    case help        => exact ⟨hh.mpr ⟨hk.1, h.help.1⟩, hhelp.mpr ⟨hk.2.1, h.help.2⟩⟩
    case interval    => exact hi.mpr h.interval
    case max         => exact hm.mpr h.max
    case run         => cases v.isRun <;> simp [argv, *]
    case short       => exact get_run hc (by simp)
    case long        => exact get_run hc (by simp)
    case commandLine => exact ((collect_argv_iff hc).mpr (by simpa using hk.2.2)).symm

end Invocation
end

-- What `boost::lexical_cast<int>` makes of decimal numbers.
def digits (cs : List Char) : Option Int :=
  if cs ≠ [] ∧ cs.all Char.isDigit then some (Nat.ofDigitChars 10 cs 0) else none

def decimal (w : String) : Option Int :=
  Option.filter (fun n => -2147483648 ≤ n ∧ n < 2147483648) <|
    match w.toList with
    | '-' :: cs => (digits cs).map (-·)
    | '+' :: cs => digits cs
    | cs        => digits cs

theorem decimal_rejects : Rejects decimal := by
  decide

def sampleSetting : Setting decimal where
  name := "-i"
  value := "1000"
  number := 1000
  isName := by decide
  cast := by decide
  nonneg := by decide

def sampleInvocation (opts : List (Setting decimal)) : Invocation decimal where
  lkeep := "lkeep.exe"
  opts := opts
  run := "-r"
  cmd := ["grep", "-i", "error", "a.log"]
  isRun := .inl rfl
  nonempty := nofun
  noRun := by decide

theorem separated_iff_sample : (sampleInvocation [sampleSetting]).Separated ↔
    (sampleInvocation [sampleSetting]).Harmless :=
  Invocation.separated_iff decimal_rejects

-- Without an interval of its own, `lkeep` takes that of `grep`.
theorem not_separated_grep : ¬∀ lexicalCast, Rejects lexicalCast →
    ∃ interval maxCycles : List (Setting lexicalCast) → Int, ∀ v : Invocation lexicalCast,
      option lexicalCast v.argv = .ok ⟨spaced v.cmd, interval v.opts, maxCycles v.opts⟩ := by
  intro h
  have ⟨_, _, h⟩ := h decimal decimal_rejects
  have a := option_eq_ok_iff.mp (h (sampleInvocation []))
  have he : numberOf decimal (options.store (sampleInvocation []).argv) "-i" "--interval" =
      .error (badNumber "-i") := by
    decide
  cases he.symm.trans a.interval

end Lproxy.Keep
