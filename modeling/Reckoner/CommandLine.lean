import Reckoner.Console.Plain

/-!
# The command line

The program takes the path of the history, a switch for plain input, and the usual two questions for
help and for the version. Arguments are read from left to right and the first mistake ends it. An
option waits for its value until the next argument that is no option; whether it has one is settled
when the next option that is known comes, or at the end. So an argument that is not known is the
mistake that is reported, even if a value is missing before it.
-/

namespace Reckoner.CommandLine

open Files

/-! ### What arguments ask for -/

/-- What the program is asked to do. -/
inductive Request where
  /-- Calculate with the history at a path, with plain input if `plain`. -/
  | calculate (history : Path) (plain : Bool)
  /-- Explain the arguments. -/
  | help
  | version
deriving DecidableEq, Repr

/-- What can be wrong with the arguments. -/
inductive Mistake where
  /-- The argument means nothing. -/
  | unexpected (argument : List Char)
  /-- An option comes without a value. -/
  | missingValue
  /-- A switch comes with a value. -/
  | surplusValue (value switch : List Char)
  /-- An option or switch comes twice. -/
  | repeated (usage : String)
deriving DecidableEq, Repr

/-- How the history option is shown. -/
def historyUsage : String := "--history <HISTORY>"

/-- The line that reports a mistake. -/
def Mistake.message : Mistake → String
  | unexpected cs => "error: unexpected argument '" ++ String.ofList cs ++ "' found"
  | missingValue =>
    "error: a value is required for '" ++ historyUsage ++ "' but none was supplied"
  | surplusValue value switch =>
    "error: unexpected value '" ++ String.ofList value ++ "' for '" ++ String.ofList switch ++
      "' found; no more were expected"
  | repeated usage => "error: the argument '" ++ usage ++ "' cannot be used multiple times"

/-! ### Reading arguments -/

/-- A history option that is not settled yet. -/
inductive Waiting where
  /-- There is none. -/
  | nothing
  /-- Its value is still to come. -/
  | value
  /-- It has this value. -/
  | given (value : List Char)
deriving DecidableEq, Repr

/-- How far the arguments have been read. -/
structure Progress where
  /-- The path that was settled on. -/
  history : Option Path
  /-- Whether plain input was asked for. -/
  plain : Bool
  /-- The history option that is not settled yet. -/
  waiting : Waiting
deriving DecidableEq, Repr

/-- Settle the history option, if one waits. -/
def Progress.settle (p : Progress) : Except Mistake Progress :=
  match p.waiting with
  | .nothing => .ok p
  | .value => .error .missingValue
  | .given cs =>
    if p.history.isSome then .error (.repeated historyUsage)
    else if cs = [] then .error .missingValue
    else .ok ⟨some (.ofChars cs), p.plain, .nothing⟩

/-- A long argument cut at its first equals sign. -/
def cutValue (cs : List Char) : List Char × Option (List Char) :=
  let name := cs.takeWhile (· != '=')
  (name, (cs.drop name.length).tail?)

/-- What an argument is. -/
inductive Argument where
  /-- The history option, with a value if one is attached. -/
  | history (value : Option (List Char))
  /-- The switch for plain input. -/
  | plain
  /-- A question; it ends the reading. -/
  | question (request : Request)
  /-- The mark behind which there are no options. -/
  | endOfOptions
  /-- A switch with a value, which is one too many. -/
  | surplus (value switch : List Char)
  /-- An option that is not known, as it is reported. -/
  | unknown (argument : List Char)
  /-- Anything else. -/
  | bare (cs : List Char)
deriving DecidableEq, Repr

/-- An argument that is a switch if nothing is attached to it. -/
def switch (name : List Char) (value : Option (List Char)) (meaning : Argument) : Argument :=
  match value with
  | none => meaning
  | some v => .surplus v ('-' :: '-' :: name)

/-- What an argument is. -/
def Argument.of : List Char → Argument
  | ['-', '-'] => .endOfOptions
  | '-' :: '-' :: cs =>
    let cut := cutValue cs
    if cut.1 = "history".toList then .history cut.2
    else if cut.1 = "plain".toList then switch cut.1 cut.2 .plain
    else if cut.1 = "help".toList then switch cut.1 cut.2 (.question .help)
    else if cut.1 = "version".toList then switch cut.1 cut.2 (.question .version)
    else .unknown ('-' :: '-' :: cut.1)
  | '-' :: c :: _ =>
    if c = 'h' then .question .help
    else if c = 'V' then .question .version
    else .unknown ['-', c]
  | cs => .bare cs

/-- The request when all arguments have been read. -/
def Progress.request (p : Progress) : Except Mistake Request := do
  let p ← p.settle
  .ok (.calculate (p.history.getD History.defaultPath) p.plain)

/-- Read the arguments that follow. -/
def Progress.read (p : Progress) : List (List Char) → Except Mistake Request
  | [] => p.request
  | cs :: rest =>
    match Argument.of cs with
    | .history none => do
      let p ← p.settle
      Progress.read { p with waiting := .value } rest
    | .history (some v) => do
      let p ← p.settle
      let p ← Progress.settle { p with waiting := .given v }
      p.read rest
    | .plain => do
      let p ← p.settle
      if p.plain then .error (.repeated "--plain")
      else Progress.read { p with plain := true } rest
    | .question request => do
      let _ ← p.settle
      .ok request
    | .endOfOptions =>
      match rest with
      | [] => p.request
      | cs :: _ => .error (.unexpected cs)
    | .surplus value switch => .error (.surplusValue value switch)
    | .unknown cs => .error (.unexpected cs)
    | .bare cs =>
      match p.waiting with
      | .value => Progress.read { p with waiting := .given cs } rest
      | _ => .error (.unexpected cs)

/-- What the arguments ask for. -/
def parse (arguments : List String) : Except Mistake Request :=
  Progress.read ⟨none, false, .nothing⟩ (arguments.map String.toList)

/-! ### Answers -/

/-- The answer to the question for help. -/
def helpText : String :=
  "Arithmetic calculator that keeps a history of its results\n\n" ++
  "Usage: histcalc [OPTIONS]\n\n" ++
  "Options:\n" ++
  "      --history <HISTORY>  History file loaded at start and written on save/quit " ++
  "[default: calculator_history.log]\n" ++
  "      --plain              Read plain lines from stdin instead of the interactive " ++
  "terminal view\n" ++
  "  -h, --help               Print help\n" ++
  "  -V, --version            Print version\n"

/-- The answer to the question for the version. -/
def versionText : String := "histcalc 0.1.0\n"

/-- What a run of the program leaves behind. -/
structure Result where
  code : Nat
  /-- What was written to the output. -/
  output : List UInt8
  /-- What was written to the error output. -/
  errors : String
  tree : Tree

/-- The report of a breakdown, with its cause below it. -/
def breakdownReport (b : Breakdown) : String :=
  match b.during with
  | none => "Error: " ++ b.cause ++ "\n"
  | some activity => "Error: " ++ activity ++ "\n\nCaused by:\n    " ++ b.cause ++ "\n"

/-- Run the program with plain input. -/
def runPlain (history cwd : Path) (input : List UInt8) (t : Tree) : Result :=
  let loading := History.load t history
  let warning := match loading.complaint with
    | none => ""
    | some e => History.warning history e ++ "\n"
  let dialogue := Plain.console.run (Session.new loading.history cwd) t (.start input none)
  let report := (dialogue.breakdown.map breakdownReport).getD ""
  { code := if dialogue.breakdown.isSome then 1 else 0
    output := dialogue.console.output.written.toList
    errors := warning ++ report
    tree := dialogue.tree }

/-- Run the program where its input is not a terminal. -/
def run (arguments : List String) (cwd : Path) (input : List UInt8) (t : Tree) : Result :=
  match parse arguments with
  | .error mistake => ⟨2, [], mistake.message ++ "\n", t⟩
  | .ok .help => ⟨0, Text.Utf8.bytesOf helpText, "", t⟩
  | .ok .version => ⟨0, Text.Utf8.bytesOf versionText, "", t⟩
  | .ok (.calculate history _) => runPlain history cwd input t

end Reckoner.CommandLine
