import Mathlib.Data.List.Basic

namespace Lproxy

-- The exit of a program, with what it has printed last.
structure Exit where
  code : Int
  message : String
  deriving DecidableEq, Repr

structure ProgramOptions where
  usage : String
  helpmessage : List (String × String)
  examples : List String
  argv : List String
  deriving DecidableEq, Repr

namespace ProgramOptions

-- `parameter_error`, with the option that has no parameter.
structure ParameterError where
  option : String
  deriving DecidableEq, Repr

def ParameterError.what (e : ParameterError) : String :=
  "Exception: program_options::parameter_error: " ++ e.option

-- What the programs do when they catch it.
def ParameterError.fatal (e : ParameterError) : Exit where
  code := -1
  message := "[FATAL] " ++ e.what ++ "\n"

-- The lines that `getline` gives.
def lines (help : String) : List String :=
  let ls := help.splitOn "\n"
  if ls.getLast? = some "" then ls.dropLast else ls

variable (po : ProgramOptions)

def maxOptionsStrLength : Nat :=
  po.helpmessage.foldl (fun n v => max n v.1.length) 0

def column (s : String) : String :=
  s ++ "".pushn ' ' (po.maxOptionsStrLength - s.length)

def showOption (v : String × String) : String :=
  match lines v.2 with
  | []         => ""
  | help :: ls =>
    "  " ++ po.column v.1 ++ "  " ++ help ++ "\n" ++
      String.join (ls.map fun l => "  " ++ po.column " " ++ "  " ++ l ++ "\n")

def showHelp (title : String) : String :=
  (if title ≠ "" then title ++ "\n\n" else "") ++ "Usage: " ++ po.usage ++ "\n\n" ++
    "Options: \n" ++ String.join (po.helpmessage.map po.showOption) ++
    if po.examples ≠ [] then
      "\nExamples:\n" ++ String.join (po.examples.map fun v => "  " ++ v ++ "\n")
    else ""

-- The vector is not empty: the first of its words is the name of the program.
def store (argv : List String) : ProgramOptions :=
  { po with argv := argv }

def count (option : String) : Bool :=
  option ∈ po.argv

def empty : Bool :=
  po.argv.length = 1

-- The loop of `get`, over what is left of the vector.
def getLoop (option : String) : List String → Except ParameterError String
  | []      => .ok ""
  | v :: vs =>
    if option = v then
      match vs.head? with
      | some w => .ok w
      | none   => .error ⟨option⟩
    else getLoop option vs

def get (option : String) : Except ParameterError String :=
  getLoop option po.argv

-- The word after the first occurrence of an option.
def wordAfter (option : String) (vs : List String) : Option String :=
  (vs.dropWhile (option ≠ ·)).tail.head?

variable {option v w : String} {vs ws : List String}

theorem getLoop_of_notMem (h : option ∉ vs) : getLoop option vs = .ok "" := by
  induction vs
  case nil          => rfl
  case cons v vs hi =>
    have ⟨hne, h⟩ := not_or.mp (List.mem_cons.not.mp h)
    rw [getLoop, if_neg hne, hi h]

theorem getLoop_of_mem (h : option ∈ vs) :
    getLoop option vs = (wordAfter option vs).elim (.error ⟨option⟩) .ok := by
  induction vs
  case nil          => cases h
  case cons v vs hi =>
    rw [getLoop]
    by_cases he : option = v
    case pos => cases vs <;> simp [wordAfter, he]
    case neg =>
      have hm : option ∈ vs := by simpa [he] using h
      simpa [wordAfter, he] using hi hm

@[simp]
theorem getLoop_self : getLoop option (option :: w :: ws) = .ok w := by
  rw [getLoop, if_pos rfl, List.head?_cons]

theorem getLoop_of_ne (h : option ≠ v) : getLoop option (v :: vs) = getLoop option vs := by
  rw [getLoop, if_neg h]

end ProgramOptions
end Lproxy
