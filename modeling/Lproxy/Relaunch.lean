import Lproxy.Keep
import Lproxy.Lib.Words

-- How `lsslocal` and `lssserver` have themselves kept running by `lkeep`.
namespace Lproxy.Relaunch

-- The parts of the file system library whose results the programs use.
structure Filesystem where
  -- `path::remove_filename`
  removeFilename : String → String
  fileExists : String → Bool

-- The operator `/` of paths. A separator is added if there is none.
def slash (p q : String) : String :=
  if q = "" then p
  else if p = "" ∨ p.toList.getLast? = some '/' ∨ q.toList.head? = some '/' then p ++ q
  else p ++ "/" ++ q

def adornAppname (appname : String) : String :=
  "\"" ++ appname ++ "\""

def keepExePath (fs : Filesystem) (argv0 : String) : String :=
  let thisAppPath := fs.removeFilename argv0
  if thisAppPath = "" then "lkeep.exe" else slash (slash thisAppPath "/") "lkeep.exe"

def getKeepExePath (fs : Filesystem) (argv0 : String) : String × Bool :=
  (adornAppname (keepExePath fs argv0), fs.fileExists (keepExePath fs argv0))

-- In what the two programs differ.
structure Program where
  options : ProgramOptions
  title : String
  configFile : String

def helpmessage (exe configFile : String) : List (String × String) := [
  ("-h, --help", "Show this message."),
  ("-v, --version", "Show current version."),
  ("-c, --config <profile>", "Specify which configuration file " ++ exe ++ " should\n" ++
    "use instead of the default.\nIf not specified, the default configuration file is\n" ++
    "'" ++ configFile ++ "' in the current working directory."),
  ("-k, --keep-running", "Keep this program running. Restart immediately after\n" ++
    "the program quit unexpectedly.")]

def lsslocal : Program where
  options := {
    usage := "lsslocal.exe [option]"
    helpmessage := helpmessage "lsslocal.exe" "local-config.json"
    examples := ["lsslocal.exe", "lsslocal.exe -c /path/to/local-config.json",
      "lsslocal.exe -c /path/to/local-config.json -k"]
    argv := [] }
  title := "\"local\" side of \"lproxy service\""
  configFile := "local-config.json"

def lssserver : Program where
  options := {
    usage := "lssserver.exe [option]"
    helpmessage := helpmessage "lssserver.exe" "server-config.json"
    examples := ["lssserver.exe", "lssserver.exe -c /path/to/server-config.json",
      "lssserver.exe -c /path/to/server-config.json -k"]
    argv := [] }
  title := "\"server\" side of \"lproxy service\""
  configFile := "server-config.json"

-- What becomes of a program: it goes on with a configuration file, it exits, or it exits with what
-- `::system` returns for a command line.
inductive Outcome
  | configure (file : String)
  | exit (e : Exit)
  | system (cmdLine : String)
  deriving DecidableEq, Repr

def isKeep (w : String) : Bool :=
  w = "-k" || w = "--keep-running"

-- The command line for `lkeep`.
def cmdLine (keepExe : String) (argv : List String) : String :=
  argv.tail.foldl (fun line w => if isKeep w then line else line ++ (" " ++ w))
    (keepExe ++ " --run " ++ adornAppname (argv.headD ""))

def config (po : ProgramOptions) (option : String) : Outcome :=
  match po.get option with
  | .ok value => .configure value
  | .error e  => .exit e.fatal

section

-- `version` is `__LSS_VERSION__`.
variable (fs : Filesystem) (version : String) (p : Program)

def processProgramOptions (po : ProgramOptions) : Outcome :=
  if po.empty then .configure p.configFile
  else if po.count "-h" || po.count "--help" then
    .exit { code := 0, message := po.showHelp p.title }
  else if po.count "-v" || po.count "--version" then
    .exit { code := 0, message := version ++ "\n" }
  else if po.count "-k" || po.count "--keep-running" then
    let (keepExe, ret) := getKeepExePath fs (po.argv.headD "")
    if ret = false then
      .exit { code := -1, message := "[FATAL] " ++ keepExe ++
        " not exists! (Specified parameter \"-k\" or \"--keep-running\")\n" }
    else .system (cmdLine keepExe po.argv)
  else if po.count "-c" then config po "-c"
  else if po.count "--config" then config po "--config"
  else .exit { code := 1, message := "[FATAL] Unsupported options\n" }

-- `option`, for the arguments of `main`.
def option (argv : List String) : Outcome :=
  processProgramOptions fs version p (p.options.store argv)

end

-- What `::system` makes of a command line.
def shellWords (line : String) : List String :=
  (Words.split ' ' '"' false none line.toList).map String.ofList

-- The arguments without the ones that ask for `lkeep`.
def kept (argv : List String) : List String :=
  argv.filter (!isKeep ·)

section

variable (fs : Filesystem) (version : String) (lexicalCast : String → Option Int) (p : Program)
  (argv : List String)

-- The program has `lkeep` started, which passes `line` to `::system`.
def Runs (line : String) : Prop :=
  ∃ cmdLine arg rounds, option fs version p argv = .system cmdLine ∧
    Keep.option lexicalCast (shellWords cmdLine) = .ok arg ∧ line ∈ Keep.doLoop arg rounds 0

-- The program is started again with the same arguments.
def Preserves : Prop :=
  (∃ line, Runs fs version lexicalCast p argv line) ∧
    ∀ line, Runs fs version lexicalCast p argv line → shellWords line = kept argv

-- The calls that ask for `lkeep`. Their arguments have no quotes in them.
structure Asks : Prop where
  nonempty : argv ≠ []
  keep : "-k" ∈ argv ∨ "--keep-running" ∈ argv
  help : "-h" ∉ argv ∧ "--help" ∉ argv
  version : "-v" ∉ argv ∧ "--version" ∉ argv
  quote : ∀ w ∈ argv, '"' ∉ w.toList

-- Without a file name, a path has no characters that it has not with it; and `lkeep` is there.
structure Filesystem.Provides : Prop where
  removeFilename : ∀ path, ∀ c ∈ (fs.removeFilename path).toList, c ∈ path.toList
  fileExists : ∀ argv0, fs.fileExists (keepExePath fs argv0)

-- An option of `lkeep` is followed by a valid number.
def Numbered (o : String) (ws : List String) : Prop :=
  ∃ n, (ProgramOptions.wordAfter o ws).bind lexicalCast = some n ∧ 0 ≤ n

-- The arguments have no option of `lkeep` in them, or it is followed by a valid number. The long
-- name does not matter if the short one is there.
def Tolerated (short long : String) (ws : List String) : Prop :=
  if short ∈ ws then Numbered lexicalCast short ws else long ∈ ws → Numbered lexicalCast long ws

-- The arguments are the same after two shells and `lkeep`.
structure Robust : Prop where
  program : ¬isKeep (argv.headD "")
  plain : ∀ w ∈ kept argv, w ≠ "" ∧ ' ' ∉ w.toList
  interval : Tolerated lexicalCast "-i" "--interval" (kept argv)
  max : Tolerated lexicalCast "-m" "--max" (kept argv)
  run : "-r" ∈ kept argv → ProgramOptions.wordAfter "-r" (kept argv) ≠ none

end

section Shell

variable {w line : String} {ws : List String}

-- A word that a shell leaves as it is.
def Plain (w : String) : Prop :=
  Words.Plain ' ' '"' w.toList

theorem plain_iff (h : '"' ∉ w.toList) : Plain w ↔ w ≠ "" ∧ ' ' ∉ w.toList := by
  have hn : w.toList ≠ [] ↔ w ≠ "" := by simp
  exact ⟨fun p => ⟨hn.mp p.nonempty, p.space⟩, fun p => ⟨hn.mpr p.1, p.2, h⟩⟩

@[simp]
theorem map_toList_shellWords :
    (shellWords line).map String.toList = Words.split ' ' '"' false none line.toList := by
  simp [shellWords, Function.comp_def]

theorem map_toList_flatMap :
    (ws.flatMap shellWords).map String.toList =
      (ws.map String.toList).flatMap (Words.split ' ' '"' false none) := by
  simp [List.map_flatMap, List.flatMap_map]

theorem map_toList_inj {vs : List String} :
    ws.map String.toList = vs.map String.toList ↔ ws = vs :=
  List.map_inj_right fun _ _ => String.toList_inj.mp

theorem forall_map_toList (h : ∀ w ∈ ws, '"' ∉ w.toList) : ∀ w ∈ ws.map String.toList, '"' ∉ w := by
  simpa using h

theorem toList_spaced (ws : List String) :
    (Keep.spaced ws).toList = (ws.map String.toList).flatMap (· ++ [' ']) := by
  induction ws
  case nil          => rfl
  case cons w ws hi => simp [Keep.spaced, hi]

theorem shellWords_spaced (h : ∀ w ∈ ws, '"' ∉ w.toList) :
    shellWords (Keep.spaced ws) = ws.flatMap shellWords := by
  rw [← map_toList_inj, map_toList_shellWords, map_toList_flatMap, toList_spaced,
    Words.split_flatMap (by decide) (forall_map_toList h)]

theorem flatMap_shellWords_eq_iff (h : ∀ w ∈ ws, '"' ∉ w.toList) :
    ws.flatMap shellWords = ws ↔ ∀ w ∈ ws, Plain w := by
  rw [← map_toList_inj, map_toList_flatMap, Words.flatMap_split_eq_iff (forall_map_toList h)]
  simp [Plain]

theorem flatMap_shellWords_twice (h : ∀ w ∈ ws, '"' ∉ w.toList) :
    (ws.flatMap shellWords).flatMap shellWords = ws.flatMap shellWords := by
  rw [← map_toList_inj, map_toList_flatMap, map_toList_flatMap,
    Words.flatMap_split_split (forall_map_toList h)]

theorem plain_of_mem_shellWords (h : ∀ w ∈ ws, '"' ∉ w.toList) (hw : w ∈ ws.flatMap shellWords) :
    Plain w := by
  have hq : ∀ w ∈ ws.flatMap shellWords, '"' ∉ w.toList := by
    intro w hw
    have ⟨v, hv, hm⟩ := List.mem_flatMap.mp hw
    have hm := List.mem_map_of_mem (f := String.toList) hm
    rw [map_toList_shellWords] at hm
    exact (Words.plain_of_mem_split (h v hv) (by simp) hm).quote
  exact (flatMap_shellWords_eq_iff hq).mp (flatMap_shellWords_twice h) w hw

end Shell

section

variable {argv vs : List String} {keepExe a : String}

theorem kept_cons : kept (a :: vs) = if isKeep a then kept vs else a :: kept vs := by
  cases h : isKeep a <;> simp [kept, h]

theorem foldl_toList {line : String} :
    (vs.foldl (fun line w => if isKeep w then line else line ++ (" " ++ w)) line).toList =
      line.toList ++ ((kept vs).map String.toList).flatMap (' ' :: ·) := by
  induction vs generalizing line
  case nil          => simp [kept]
  case cons v vs hi =>
    rw [List.foldl_cons, hi, kept_cons]
    split <;> simp

-- What the first shell makes of the command line.
theorem shellWords_cmdLine (hk : '"' ∉ keepExe.toList) (ha : '"' ∉ a.toList)
    (h : ∀ w ∈ kept vs, '"' ∉ w.toList) :
    shellWords (cmdLine (adornAppname keepExe) (a :: vs)) =
      keepExe :: "--run" :: a :: (kept vs).flatMap shellWords := by
  have hl : (cmdLine (adornAppname keepExe) (a :: vs)).toList =
      '"' :: (keepExe.toList ++ '"' :: ' ' :: ("--run".toList ++ ' ' :: '"' :: (a.toList ++ '"' ::
        ((kept vs).map String.toList).flatMap (' ' :: ·)))) := by
    rw [cmdLine, List.tail_cons, foldl_toList]
    simp [adornAppname]
  have hr : Words.Plain ' ' '"' "--run".toList := by decide
  rw [← map_toList_inj, map_toList_shellWords, hl, Words.split_quoted hk,
    Words.split_space (by decide), Words.split_append_space (by decide) (by decide),
    Words.split_eq_singleton hr, Words.split_quoted ha]
  have hf : Words.split ' ' '"' false (some a.toList) ([] ++ _) = _ :=
    Words.split_append_flatMap (by decide) List.not_mem_nil (forall_map_toList h)
  rw [List.nil_append] at hf
  simp [hf, ← map_toList_flatMap]

end

section Accepts

variable {lexicalCast : String → Option Int} {ws : List String} {keepExe o short long : String}

theorem mem_keep_iff (hk : keepExe ∉ Keep.names) (ho : o ∈ Keep.names) (hr : o ≠ "--run") :
    o ∈ keepExe :: "--run" :: ws ↔ o ∈ ws := by
  have hne : o ≠ keepExe := fun he => hk (he ▸ ho)
  simp [hne, hr]

theorem getLoop_keep (hk : keepExe ∉ Keep.names) (ho : o ∈ Keep.names) (hr : o ≠ "--run") :
    ProgramOptions.getLoop o (keepExe :: "--run" :: ws) = ProgramOptions.getLoop o ws := by
  have hne : o ≠ keepExe := fun he => hk (he ▸ ho)
  rw [ProgramOptions.getLoop_of_ne hne, ProgramOptions.getLoop_of_ne hr]

theorem number_keep_iff (hk : keepExe ∉ Keep.names) (ho : o ∈ Keep.names) (hr : o ≠ "--run")
    (hm : o ∈ ws) :
    (∃ n, Keep.number lexicalCast (Keep.options.store (keepExe :: "--run" :: ws)) o = .ok n) ↔
      Numbered lexicalCast o ws := by
  have hg : (Keep.options.store (keepExe :: "--run" :: ws)).get o = _ :=
    getLoop_keep hk ho hr
  simp only [Keep.number_eq_ok_iff, hg, ProgramOptions.getLoop_of_mem hm, Numbered]
  cases ProgramOptions.wordAfter o ws <;> simp

theorem numberOf_keep_iff (hk : keepExe ∉ Keep.names) (hs : short ∈ Keep.names)
    (hl : long ∈ Keep.names) (hrs : short ≠ "--run") (hrl : long ≠ "--run") :
    (∃ n, Keep.numberOf lexicalCast (Keep.options.store (keepExe :: "--run" :: ws)) short long =
      .ok n) ↔ Tolerated lexicalCast short long ws := by
  have count {o : String} (ho : o ∈ Keep.names) (hr : o ≠ "--run") :
      (Keep.options.store (keepExe :: "--run" :: ws)).count o ↔ o ∈ ws :=
    decide_eq_true_iff.trans (mem_keep_iff hk ho hr)
  by_cases hm : short ∈ ws
  case pos =>
    rw [Tolerated, if_pos hm, Keep.numberOf, if_pos ((count hs hrs).mpr hm)]
    exact number_keep_iff hk hs hrs hm
  case neg =>
    rw [Tolerated, if_neg hm, Keep.numberOf, if_neg ((count hs hrs).not.mpr hm)]
    by_cases hm : long ∈ ws
    case pos =>
      rw [if_pos ((count hl hrl).mpr hm), number_keep_iff hk hl hrl hm]
      exact ⟨fun h _ => h, fun h => h hm⟩
    case neg =>
      rw [if_neg ((count hl hrl).not.mpr hm)]
      exact iff_of_true ⟨_, rfl⟩ fun h => absurd h hm

-- What it takes for `lkeep` to run a command line of which it is the first word.
theorem keep_option_iff (hk : keepExe ∉ Keep.names) (hne : ws ≠ []) {line : String} :
    (∃ arg, Keep.option lexicalCast (keepExe :: "--run" :: ws) = .ok arg ∧
      arg.commandLine = line) ↔
    line = Keep.spaced ws ∧ ("-h" ∉ ws ∧ "--help" ∉ ws) ∧
      Tolerated lexicalCast "-i" "--interval" ws ∧ Tolerated lexicalCast "-m" "--max" ws ∧
        ("-r" ∈ ws → ProgramOptions.wordAfter "-r" ws ≠ none) := by
  have hr : "-r" ∈ Keep.names := by simp [Keep.names]
  have hh : "-h" ∈ Keep.names := by simp [Keep.names]
  have hhelp : "--help" ∈ Keep.names := by simp [Keep.names]
  have hi : _ ↔ Tolerated lexicalCast "-i" "--interval" ws :=
    numberOf_keep_iff hk (by simp [Keep.names]) (by simp [Keep.names]) (by decide) (by decide)
  have hm : _ ↔ Tolerated lexicalCast "-m" "--max" ws :=
    numberOf_keep_iff hk (by simp [Keep.names]) (by simp [Keep.names]) (by decide) (by decide)
  have hline : Keep.collect false "" (keepExe :: "--run" :: ws) = Keep.spaced ws := by
    have h₁ : keepExe ≠ "-r" := fun he => hk (he ▸ hr)
    have h₂ : keepExe ≠ "--run" := fun he => hk (he ▸ by simp [Keep.names])
    simp [Keep.collect, h₁, h₂, Keep.collect_true]
  have hshort : (∃ w, ProgramOptions.getLoop "-r" (keepExe :: "--run" :: ws) = .ok w) ↔
      ("-r" ∈ ws → ProgramOptions.wordAfter "-r" ws ≠ none) := by
    rw [getLoop_keep hk hr (by decide)]
    by_cases hm : "-r" ∈ ws
    case pos =>
      rw [ProgramOptions.getLoop_of_mem hm]
      cases ProgramOptions.wordAfter "-r" ws <;> simp [hm]
    case neg => simp [ProgramOptions.getLoop_of_notMem hm, hm]
  constructor
  case mp =>
    rintro ⟨arg, ha, he⟩
    have a := Keep.option_eq_ok_iff.mp ha
    refine ⟨by rw [← he, a.commandLine, hline], ⟨?_, ?_⟩, hi.mp ⟨_, a.interval⟩,
      hm.mp ⟨_, a.max⟩, hshort.mp a.short⟩
    · exact (mem_keep_iff hk hh (by decide)).not.mp a.help.1
    · exact (mem_keep_iff hk hhelp (by decide)).not.mp a.help.2
  case mpr =>
    rintro ⟨he, ⟨h₁, h₂⟩, hti, htm, htr⟩
    obtain ⟨interval, hi⟩ := hi.mpr hti
    obtain ⟨maxCycles, hm⟩ := hm.mpr htm
    refine ⟨⟨line, interval, maxCycles⟩, Keep.option_eq_ok_iff.mpr ?_, rfl⟩
    obtain ⟨w, ws', hw⟩ := List.exists_cons_of_ne_nil hne
    constructor
    case length      => simp
    case help        =>
      exact ⟨(mem_keep_iff hk hh (by decide)).not.mpr h₁,
        (mem_keep_iff hk hhelp (by decide)).not.mpr h₂⟩
    case interval    => exact hi
    case max         => exact hm
    case run         => simp
    case short       => exact hshort.mpr htr
    case long        =>
      have hne : "--run" ≠ keepExe := fun he => hk (he ▸ by simp [Keep.names])
      exact ⟨w, by rw [ProgramOptions.getLoop_of_ne hne, hw, ProgramOptions.getLoop_self]⟩
    case commandLine => rw [he, hline]

end Accepts

section

variable {fs : Filesystem} {version : String} {lexicalCast : String → Option Int} {p : Program}
  {argv : List String} {line : String}

theorem keepExePath_eq (fs : Filesystem) (argv0 : String) :
    ∃ dir, keepExePath fs argv0 = dir ++ "lkeep.exe" ∧
      (dir = "" ∨ dir = fs.removeFilename argv0 ++ "/") := by
  rw [keepExePath]
  by_cases h : fs.removeFilename argv0 = ""
  case pos => exact ⟨"", by simp [h], .inl rfl⟩
  case neg =>
    refine ⟨fs.removeFilename argv0 ++ "/", ?_, .inr rfl⟩
    simp [slash, h]

theorem keepExePath_notMem (argv0 : String) : keepExePath fs argv0 ∉ Keep.names := by
  intro hm
  have ⟨dir, he, _⟩ := keepExePath_eq fs argv0
  have h : ∀ o ∈ Keep.names, o.toList.getLast? ≠ some 'e' := by decide
  exact h _ hm (by simp [he])

theorem keepExePath_quote (h : fs.Provides) {argv0 : String} (hq : '"' ∉ argv0.toList) :
    '"' ∉ (keepExePath fs argv0).toList := by
  have ⟨dir, he, hd⟩ := keepExePath_eq fs argv0
  have hr : '"' ∉ (fs.removeFilename argv0).toList := fun hm => hq (h.removeFilename _ _ hm)
  have hl : '"' ∉ "lkeep.exe".toList := by decide
  cases hd <;> subst dir <;> simp_all

theorem doLoop_eq {arg : Keep.Arg} {rounds loop : Nat} (h : line ∈ Keep.doLoop arg rounds loop) :
    line = arg.commandLine := by
  induction rounds generalizing loop
  case zero           => cases h
  case succ rounds hi =>
    rw [Keep.doLoop] at h
    cases List.mem_cons.mp h
    case inl he => exact he
    case inr h  =>
      split at h
      case isFalse => exact hi h
      case isTrue  =>
        split at h
        case isTrue  => cases h
        case isFalse => exact hi h

-- The arguments as they get to `lkeep`, after its option.
def received (a : String) (vs : List String) : List String :=
  a :: (kept vs).flatMap shellWords

theorem option_eq (h : Asks argv) (hp : fs.Provides) (hl : argv.length ≠ 1) :
    option fs version p argv =
      .system (cmdLine (adornAppname (keepExePath fs (argv.headD ""))) argv) := by
  have count (o : String) : (p.options.store argv).count o = decide (o ∈ argv) := rfl
  have empty : (p.options.store argv).empty = decide (argv.length = 1) := rfl
  have hargv : (p.options.store argv).argv = argv := rfl
  have hk : ("-k" ∈ argv || "--keep-running" ∈ argv) = true := by simpa using h.keep
  rw [option, processProgramOptions, count, count, count, count, count, count, empty, hargv]
  simp only [hl, h.help.1, h.help.2, h.version.1, h.version.2, decide_false, Bool.or_self,
    Bool.false_eq_true, if_false]
  simp only [hk, if_true, getKeepExePath, hp.fileExists, Bool.true_eq_false, if_false]

theorem quote_kept (h : ∀ w ∈ argv, '"' ∉ w.toList) : ∀ w ∈ kept argv, '"' ∉ w.toList :=
  fun w hw => h w (List.mem_of_mem_filter hw)

variable {a : String} {vs : List String}

theorem runs_iff (h : Asks (a :: vs)) (hp : fs.Provides) (hl : vs ≠ []) :
    Runs fs version lexicalCast p (a :: vs) line ↔
      line = Keep.spaced (received a vs) ∧ ("-h" ∉ received a vs ∧ "--help" ∉ received a vs) ∧
        Tolerated lexicalCast "-i" "--interval" (received a vs) ∧
        Tolerated lexicalCast "-m" "--max" (received a vs) ∧
        ("-r" ∈ received a vs → ProgramOptions.wordAfter "-r" (received a vs) ≠ none) := by
  have ⟨ha, hq⟩ := List.forall_mem_cons.mp h.quote
  have he : option fs version p (a :: vs) =
      .system (cmdLine (adornAppname (keepExePath fs a)) (a :: vs)) :=
    option_eq h hp (by simpa using hl)
  have hw : shellWords (cmdLine (adornAppname (keepExePath fs a)) (a :: vs)) =
      keepExePath fs a :: "--run" :: received a vs :=
    shellWords_cmdLine (keepExePath_quote hp ha) ha (quote_kept hq)
  have hne : received a vs ≠ [] := List.cons_ne_nil _ _
  rw [← keep_option_iff (keepExePath_notMem a) hne]
  constructor
  case mp =>
    intro ⟨cmdLine, arg, rounds, ho, hk, hm⟩
    cases he.symm.trans ho
    exact ⟨arg, hw ▸ hk, (doLoop_eq hm).symm⟩
  case mpr =>
    intro ⟨arg, hk, hc⟩
    exact ⟨_, arg, 1, he, hw.symm ▸ hk, hc ▸ List.mem_cons_self ..⟩

-- The words of the second command line are those of the first.
theorem shellWords_received (h : ∀ w ∈ a :: vs, '"' ∉ w.toList) :
    shellWords (Keep.spaced (received a vs)) = shellWords a ++ (kept vs).flatMap shellWords := by
  have ⟨ha, hq⟩ := List.forall_mem_cons.mp h
  have hk := quote_kept hq
  have hr : ∀ w ∈ received a vs, '"' ∉ w.toList :=
    List.forall_mem_cons.mpr ⟨ha, fun w hw => (plain_of_mem_shellWords hk hw).quote⟩
  rw [shellWords_spaced hr, received, List.flatMap_cons, flatMap_shellWords_twice hk]

theorem isKeep_iff : isKeep a ↔ a = "-k" ∨ a = "--keep-running" := by
  simp [isKeep]

theorem received_eq (hk : ¬isKeep a) (h : ∀ w ∈ a :: vs, '"' ∉ w.toList)
    (hp : ∀ w ∈ kept (a :: vs), Plain w) : received a vs = kept (a :: vs) := by
  rw [kept_cons, if_neg hk] at hp ⊢
  have ⟨_, hv⟩ := List.forall_mem_cons.mp hp
  have hq := quote_kept (List.forall_mem_cons.mp h).2
  rw [received, (flatMap_shellWords_eq_iff hq).mpr hv]

-- If the words are the original ones, then no shell has changed anything.
theorem plain_of_shellWords_eq (h : ∀ w ∈ a :: vs, '"' ∉ w.toList)
    (he : shellWords a ++ (kept vs).flatMap shellWords = kept (a :: vs)) :
    ¬isKeep a ∧ ∀ w ∈ kept (a :: vs), Plain w := by
  have hq := quote_kept (List.forall_mem_cons.mp h).2
  have hf : (a :: kept vs).flatMap shellWords = kept (a :: vs) := he
  have hqa : ∀ w ∈ a :: kept vs, '"' ∉ w.toList :=
    List.forall_mem_cons.mpr ⟨(List.forall_mem_cons.mp h).1, hq⟩
  have hp : ∀ w ∈ kept (a :: vs), Plain w := fun w hw => plain_of_mem_shellWords hqa (hf ▸ hw)
  refine ⟨fun hk => ?_, hp⟩
  have hpa : Plain a := by
    cases isKeep_iff.mp hk
    case inl hk => exact hk ▸ (by decide : Words.Plain ' ' '"' "-k".toList)
    case inr hk => exact hk ▸ (by decide : Words.Plain ' ' '"' "--keep-running".toList)
  rw [kept_cons, if_pos hk] at hp he
  rw [(flatMap_shellWords_eq_iff hq).mpr hp] at he
  have hl := congrArg List.length he
  have ha : (shellWords a).length = 1 := by
    rw [← List.length_map (f := String.toList), map_toList_shellWords, Words.split_eq_singleton hpa]
    rfl
  rw [List.length_append] at hl
  omega

theorem robust_of_preserves (h : Asks (a :: vs)) (hp : fs.Provides) (hl : vs ≠ [])
    (hr : Preserves fs version lexicalCast p (a :: vs)) : Robust lexicalCast (a :: vs) := by
  have ⟨⟨line, hr⟩, hall⟩ := hr
  have he := hall line hr
  have ⟨hline, _, hi, hm, hrun⟩ := (runs_iff h hp hl).mp hr
  rw [hline, shellWords_received h.quote] at he
  have ⟨hk, hpl⟩ := plain_of_shellWords_eq h.quote he
  rw [received_eq hk h.quote hpl] at hi hm hrun
  refine ⟨hk, fun w hw => ?_, hi, hm, hrun⟩
  exact (plain_iff (hpl w hw).quote).mp (hpl w hw)

theorem preserves_of_robust (h : Asks (a :: vs)) (hp : fs.Provides) (hl : vs ≠ [])
    (r : Robust lexicalCast (a :: vs)) : Preserves fs version lexicalCast p (a :: vs) := by
  have hk : ¬isKeep a := r.program
  have hpl : ∀ w ∈ kept (a :: vs), Plain w :=
    fun w hw => (plain_iff (quote_kept h.quote w hw)).mpr (r.plain w hw)
  have hn {o : String} (ho : o ∉ a :: vs) : o ∉ kept (a :: vs) :=
    fun hm => ho (List.mem_of_mem_filter hm)
  have hruns (line : String) : Runs fs version lexicalCast p (a :: vs) line ↔
      line = Keep.spaced (received a vs) := by
    rw [runs_iff h hp hl, received_eq hk h.quote hpl]
    exact and_iff_left ⟨⟨hn h.help.1, hn h.help.2⟩, r.interval, r.max, r.run⟩
  refine ⟨⟨_, (hruns _).mpr rfl⟩, fun line hr => ?_⟩
  have hs : shellWords line = (a :: kept vs).flatMap shellWords := by
    rw [(hruns line).mp hr, shellWords_received h.quote, List.flatMap_cons]
  have hc : kept (a :: vs) = a :: kept vs := kept_cons.trans (if_neg hk)
  rw [hs, hc]
  exact (flatMap_shellWords_eq_iff (hc ▸ quote_kept h.quote)).mpr (hc ▸ hpl)

-- Programs are started again with their arguments if and only if these survive being joined and
-- split twice, and `lkeep` can take them for its own.
theorem preserves_iff (h : Asks argv) (hp : fs.Provides) :
    Preserves fs version lexicalCast p argv ↔ Robust lexicalCast argv := by
  have ⟨a, vs, he⟩ := List.exists_cons_of_ne_nil h.nonempty
  subst he
  by_cases hl : vs = []
  case neg => exact ⟨robust_of_preserves h hp hl, preserves_of_robust h hp hl⟩
  case pos =>
    -- Without further arguments, the program runs with the default configuration file.
    subst vs
    have hk : isKeep a := isKeep_iff.mpr (by simpa [eq_comm] using h.keep)
    refine iff_of_false (fun ⟨⟨_, _, _, _, ho, _⟩, _⟩ => ?_) (fun r => r.program hk)
    cases ho

end

def sampleFilesystem : Filesystem where
  removeFilename path :=
    String.ofList (path.toList.reverse.dropWhile (· ≠ '/')).tail.reverse
  fileExists _ := true

theorem sampleFilesystem_provides : sampleFilesystem.Provides where
  fileExists _ := rfl
  removeFilename path c hc := by
    rw [sampleFilesystem, String.toList_ofList, List.mem_reverse] at hc
    exact List.mem_reverse.mp ((List.dropWhile_suffix _).mem (List.mem_of_mem_tail hc))

theorem sample_asks : Asks ["bin/lsslocal.exe", "-c", "local.json", "-k"] := by
  constructor <;> decide

theorem preserves_iff_sample :
    Preserves sampleFilesystem "1.0.0" Keep.decimal lsslocal
        ["bin/lsslocal.exe", "-c", "local.json", "-k"] ↔
      Robust Keep.decimal ["bin/lsslocal.exe", "-c", "local.json", "-k"] :=
  preserves_iff sample_asks sampleFilesystem_provides

-- The quotes around the path of the program do not get past the first shell.
theorem not_preserves_space : ¬∀ fs version lexicalCast argv, fs.Provides → Asks argv →
    ∀ p ∈ [lsslocal, lssserver], Preserves fs version lexicalCast p argv := by
  intro h
  have ha : Asks ["/my dir/lsslocal.exe", "-k"] := by constructor <;> decide
  have hr := h sampleFilesystem "1.0.0" Keep.decimal _ sampleFilesystem_provides ha
    lsslocal (List.mem_cons_self ..)
  have r := robust_of_preserves ha sampleFilesystem_provides (by decide) hr
  exact (r.plain "/my dir/lsslocal.exe" (by decide)).2 (by decide)

end Lproxy.Relaunch
