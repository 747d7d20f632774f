import FilterLang.CommandLine.Config
import FilterLang.Composition.Batch
import FilterLang.Json.Reader
/-!
What a command line does.

The files that a command reads are known before it runs, so running is a function
from the contents of files to a report: the text for either output and the exit
code.
-/

namespace FilterLang.CommandLine

/-- The contents of files: for a path the text, or why it cannot be read. -/
abbrev Files := String → Except String String

/-- What a program leaves behind. -/
structure Report where
  code : Nat
  stdout : String := ""
  stderr : String := ""

/-- Why a command failed. -/
inductive Failure where
  | unreadable (path reason : String)
  | badConfig (path : String)
  | badJson (path : String)
  | notObject (path : String)
  | notArray (path : String)
  | badBatch (path : String)
  | tokenize (e : TokenizeError)
  | evaluation (e : EvalError)

def Failure.message : Failure → String
  | unreadable path reason => "could not read '" ++ path ++ "': " ++ reason
  | badConfig path => "could not parse '" ++ path ++ "': not a configuration"
  | badJson path => "invalid JSON in '" ++ path ++ "': not a document"
  | notObject path => "'" ++ path ++ "' must contain a JSON object"
  | notArray path => "'" ++ path ++ "' must contain a JSON array of fragments"
  | badBatch path => "invalid composition source '" ++ path ++ "': not a batch"
  | tokenize e => e.message
  | evaluation e => e.message

def Request.paths : Request → List String
  | .run options command =>
    options.config.toList ++
      match command with
      | .eval _ context => context.toList
      | .compose _ fragments context => context.toList ++ [fragments]
      | .batch source => [source]
      | .tokens _ | .parse _ => []
  | _ => []

def readText (files : Files) (path : String) : Except Failure String :=
  (files path).mapError (.unreadable path)

def readJson (files : Files) (path : String) : Except Failure Json := do
  match Json.read? (← readText files path) with
  | some j => return j
  | none => throw (.badJson path)

def readObject (files : Files) (path : String) : Except Failure (Table Json) := do
  match ← readJson files path with
  | .object members => return members
  | _ => throw (.notObject path)

def readFragments (files : Files) (path : String) : Except Failure (List Json) := do
  match ← readJson files path with
  | .array items => return items
  | _ => throw (.notArray path)

def readBatch (files : Files) (path : String) : Except Failure Batch := do
  match Batch.ofJson? (← readJson files path) with
  | some b => return b
  | none => throw (.badBatch path)

def readConfig (files : Files) : Option String → Except Failure Config
  | none => .ok {}
  | some path => do
    match Config.read? (← readText files path) with
    | some config => return config
    | none => throw (.badConfig path)

/-- The names of a configuration with those of a context file on top. -/
def baseContext (files : Files) (config : Config) : Option String → Except Failure (Table Json)
  | none => .ok config.context
  | some path => do return Table.overlay config.context (← readObject files path)

/-- An outcome of an evaluation as one of a command. -/
def evaluated {α : Type} (r : Outcome α) : Except Failure α :=
  r.mapError .evaluation

def composition (host : Host) (files : Files) (config : Config) (kind : FragmentKind)
    (fragments : String) (context : Option String) : Except Failure Json := do
  let base ← baseContext files config context
  let fragments ← readFragments files fragments
  evaluated (Composition.evaluate host kind fragments base)

def batchComposition (host : Host) (files : Files) (config : Config) (source : String) :
    Except Failure Json := do
  let batch := (← readBatch files source).onTopOf config.context
  evaluated (batch.evaluate host)

/-- A document under a name, spread over lines. -/
def labelled (name : String) (j : Json) : String :=
  (Json.object [(name, j)]).pretty

def resultText (format : Format) (j : Json) : String :=
  match format with
  | .text => j.compact
  | .json => labelled "result" j

def output (host : Host) (files : Files) (config : Config) (format : Format) :
    Command → Except Failure (List String)
  | .eval expr context => do
    let c := Context.seeded host (.root 0) (← baseContext files config context)
    return [resultText format (← evaluated (evalText host c (.root 1) expr))]
  | .compose kind fragments context => do
    return [resultText format (← composition host files config kind fragments context)]
  | .batch source => do
    return [resultText format (← batchComposition host files config source)]
  | .tokens expr => do
    let texts := (← (tokenize expr).mapError Failure.tokenize).map Token.display
    match format with
    | .text => return texts
    | .json => return [labelled "tokens" (.array (texts.map .str))]
  | .parse expr => do
    let text := (← evaluated (compile expr)).display
    match format with
    | .text => return [text]
    | .json => return [labelled "tree" (.str text)]

def lines (ls : List String) : String :=
  String.join (ls.map (· ++ "\n"))

def failed (format : Format) (quiet : Bool) (f : Failure) : Report :=
  let line := match format with
    | .text => f.message
    | .json => (Json.object [("error", .str f.message)]).compact
  { code := 1, stderr := if quiet then "" else lines [line] }

def runCommand (host : Host) (files : Files) (options : Options) (command : Command) : Report :=
  match readConfig files options.config with
  | .error f => failed (options.output.getD .text) options.quiet f
  | .ok config =>
    let format := (options.output.or config.output).getD .text
    match output host files config format command with
    | .ok ls => { code := 0, stdout := lines ls }
    | .error f => failed format options.quiet f

def versionText : String := "quill 0.1.0"

def usage : List String :=
  ["Usage: quill [--output text|json] [--quiet] [--config FILE] COMMAND",
    "Commands:",
    "  eval EXPR [--context FILE]",
    "  compose KIND FRAGMENTS [--context FILE]",
    "  batch SOURCE",
    "  tokens EXPR",
    "  parse EXPR"]

def Request.report (host : Host) (files : Files) : Request → Report
  | .run options command => runCommand host files options command
  | .version => { code := 0, stdout := lines [versionText] }
  | .help => { code := 0, stdout := lines usage }
  | .misuse => { code := 2, stderr := lines usage }

end FilterLang.CommandLine
