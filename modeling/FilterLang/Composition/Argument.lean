import FilterLang.Composition.Basic
/-!
Arguments of a call that may still have to be evaluated.

An argument that refers to a domain or a context stands for what that composes to;
every other argument stands for itself.
-/

namespace FilterLang.Composition

def evalArgument (host : Host) (arg : Json) : Outcome Json :=
  match Reference.text? arg with
  | none => .ok arg
  | some text =>
    match Reference.ofName? text with
    | some r => evaluate host r.kind [arg] []
    | none => .error (.value (.unknownReference text))

structure Arguments where
  positional : List Json
  named : Table Json

/-- Evaluates documents one after the other up to the first that fails, which is
left as it is, as are those after it. -/
def evalEach (host : Host) : List Json → List Json × Option EvalError
  | [] => ([], none)
  | arg :: rest =>
    match evalArgument host arg with
    | .error e => (arg :: rest, some e)
    | .ok value =>
      let (values, failure) := evalEach host rest
      (value :: values, failure)

namespace Arguments

/-- Evaluates the arguments of a call, the positional ones first, up to the first
that fails. -/
def evaluate (host : Host) (args : Arguments) : Arguments × Option EvalError :=
  match evalEach host args.positional with
  | (positional, some e) => ({ args with positional }, some e)
  | (positional, none) =>
    let (values, failure) := evalEach host (args.named.map (·.2))
    ({ positional, named := (Table.names args.named).zip values }, failure)

end Arguments

end FilterLang.Composition
