import FilterLang.Composition.Fragment
/-!
The words of a command line.

A command line is a command with its operands and options. Three options belong to
every command and may stand before or after its name; where such an option is given
at both places the later one counts, but none may be given twice at one place. After
`--` every word is an operand.

The words are read from left to right and the first that makes no sense ends the
reading, as does one that asks for help. Only the value of an option right before
the name of the command is judged last, after the words of the command.
-/

namespace FilterLang.CommandLine

/-- How results and errors are written. -/
inductive Format where
  | text | json
deriving DecidableEq

def Format.ofName? : String → Option Format
  | "text" => some .text
  | "json" => some .json
  | _ => none

/-- The options of every command. -/
structure Options where
  output : Option Format := none
  quiet : Bool := false
  /-- The path of a configuration file. -/
  config : Option String := none

/-- What is to be done. Files are given by their paths. -/
inductive Command where
  /-- Evaluate an expression. -/
  | eval (expr : String) (context : Option String)
  /-- Compose the fragments of a file. -/
  | compose (kind : FragmentKind) (fragments : String) (context : Option String)
  /-- Compose the batch of a file. -/
  | batch (source : String)
  /-- Show the tokens of an expression. -/
  | tokens (expr : String)
  /-- Show the tree of an expression. -/
  | parse (expr : String)

/-- What a command line asks for. -/
inductive Request where
  | run (options : Options) (command : Command)
  | version
  | help
  /-- The words make no sense. -/
  | misuse

inductive CommandName where
  | eval | compose | batch | tokens | parse
deriving DecidableEq

namespace CommandName

def ofName? : String → Option CommandName
  | "eval" => some .eval
  | "compose" => some .compose
  | "batch" => some .batch
  | "tokens" => some .tokens
  | "parse" => some .parse
  | _ => none

/-- Whether a command takes the path of a context file. -/
def takesContext : CommandName → Bool
  | eval | compose => true
  | _ => false

/-- Whether a word can be the operand of a command at a position. -/
def accepts (c : CommandName) (position : Nat) (word : String) : Bool :=
  match c, position with
  | eval, 0 | tokens, 0 | parse, 0 => true
  | compose, 0 => (FragmentKind.ofName? word).isSome
  | compose, 1 | batch, 0 => !word.isEmpty
  | _, _ => false

/-- The command with its operands, unless some are missing. -/
def command? (c : CommandName) (operands : List String) (context : Option String) :
    Option Command :=
  match c, operands with
  | eval, [expr] => some (.eval expr context)
  | compose, [kind, fragments] => (FragmentKind.ofName? kind).map (.compose · fragments context)
  | batch, [source] => some (.batch source)
  | tokens, [expr] => some (.tokens expr)
  | parse, [expr] => some (.parse expr)
  | _, _ => none

end CommandName

/-- A command line of which a part has been read. -/
structure Draft where
  /-- The options before the name of the command. -/
  outer : Options := {}
  name : Option CommandName := none
  /-- The options at the present place. -/
  options : Options := {}
  context : Option String := none
  operands : List String := []
  /-- Whether the option right before the name of the command has a value that it
  cannot have. -/
  faulty : Bool := false

namespace Draft

/-- The options of both places together. -/
def merged (d : Draft) : Options :=
  { output := d.options.output.or d.outer.output
    quiet := d.options.quiet || d.outer.quiet
    config := d.options.config.or d.outer.config }

/-- What a command line that has been read to its end asks for. -/
def finish (d : Draft) : Request :=
  match d.name.bind fun c => c.command? d.operands d.context with
  | some command => if d.faulty then .misuse else .run d.merged command
  | none => .misuse

/-- Whether an option takes a value at the present place. -/
def takesValue (d : Draft) (option : String) : Bool :=
  option == "--output" || option == "--config" ||
    (option == "--context" && (d.name.map CommandName.takesContext).getD false)

def setValue (d : Draft) (option value : String) : Option Draft :=
  if option = "--output" then
    if d.options.output.isSome then none
    else (Format.ofName? value).map fun f =>
      { d with options := { d.options with output := some f } }
  else if value.isEmpty then none
  else if option = "--config" then
    if d.options.config.isSome then none
    else some { d with options := { d.options with config := some value } }
  else if d.context.isSome then none
  else some { d with context := some value }

/-- Takes a word that is no option: the name of the command, or an operand. -/
def take (d : Draft) (word : String) : Option Draft :=
  match d.name with
  | none =>
    (CommandName.ofName? word).map fun c =>
      { d with outer := d.options, name := some c, options := {} }
  | some c =>
    if c.accepts d.operands.length word then some { d with operands := d.operands ++ [word] }
    else none

def takeAll (d : Draft) : List String → Option Draft
  | [] => some d
  | word :: rest => if d.name.isNone then none else (d.take word).bind fun d => takeAll d rest

end Draft

/-- An option and the value written together with it. -/
def splitOption (word : String) : String × Option String :=
  let chars := word.toList
  match chars.dropWhile (· != '=') with
  | [] => (word, none)
  | _ :: value => (String.ofList (chars.takeWhile (· != '=')), some (String.ofList value))

/-- Whether a word is an option. A hyphen alone is none. -/
def isOption (word : String) : Bool :=
  word.startsWith "-" && word != "-"

/-- Whether a word asks for help in one letter, the first of several counting. -/
def asksShort (letter : Char) (word : String) : Bool :=
  match word.toList with
  | '-' :: c :: _ => c == letter
  | _ => false

/-- Whether a word names a command that help can be asked about. -/
def isTopic (word : String) : Bool :=
  word = "help" || (CommandName.ofName? word).isSome

/-- What a request for help in words asks for: help in general, or on one
command. -/
def helpOn : List String → Request
  | [] => .help
  | [topic] => if isTopic topic then .help else .misuse
  | _ => .misuse

/-- A command line whose last option has a value that it cannot have, if the name
of a command follows. -/
def Draft.postpone (d : Draft) (rest : List String) : Option Draft :=
  if d.name.isNone && (rest.head?.map isTopic).getD false then some { d with faulty := true }
  else none

def read (d : Draft) : List String → Request
  | [] => d.finish
  | word :: rest =>
    if word = "--" then
      match d.takeAll rest with
      | some d => d.finish
      | none => .misuse
    else if isOption word then
      let (option, value) := splitOption word
      if d.takesValue option then
        match value, rest with
        | some value, rest =>
          match d.setValue option value with
          | some d => read d rest
          | none => .misuse
        | none, value :: rest =>
          if isOption value then .misuse
          else
            match (d.setValue option value).or (d.postpone rest) with
            | some d => read d rest
            | none => .misuse
        | none, [] => .misuse
      else if word = "--quiet" then
        if d.options.quiet then .misuse
        else read { d with options := { d.options with quiet := true } } rest
      else if word = "--help" || asksShort 'h' word then .help
      else if d.name.isNone && (word = "--version" || asksShort 'V' word) then .version
      else .misuse
    else if d.name.isNone && word = "help" then helpOn rest
    else
      match d.take word with
      | some d => read d rest
      | none => .misuse

def request (words : List String) : Request :=
  read {} words

end FilterLang.CommandLine
