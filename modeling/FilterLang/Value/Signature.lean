import FilterLang.Error
import FilterLang.Value.Basic
/-!
Parameters, and the binding of arguments to them.

Positional arguments fill the parameters from the left, up to those that can only
be given by name. A keyword fills the parameter of its name, which must still be
free. What is left over goes to the collecting parameters, where there are any.
-/

namespace FilterLang

/-- A parameter with its default. -/
structure Param where
  name : String
  default : Option Value

/-- The parameters of something that can be called. -/
structure Signature where
  params : List Param := []
  /-- How many parameters can be given by position. -/
  positional : Nat := 0
  /-- Whether parameters declared from now on can only be given by name. -/
  named : Bool := false
  /-- The parameter that collects further positional arguments. -/
  rest : Option String := none
  /-- The parameter that collects further keyword arguments. -/
  keywords : Option String := none

namespace Signature

/-- Declares one more parameter. -/
def push (s : Signature) (p : Param) : Signature :=
  { s with
    params := s.params ++ [p]
    positional := if s.named then s.positional else s.params.length + 1 }

/-- Declares a parameter that has to be given. -/
def required (s : Signature) (name : String) : Signature :=
  s.push { name, default := none }

def optional (s : Signature) (name : String) (default : Value) : Signature :=
  s.push { name, default := some default }

/-- Parameters declared after this can only be given by name. -/
def keywordOnly (s : Signature) : Signature :=
  { s with named := true }

/-- Declares the parameter that collects further positional arguments. -/
def varargs (s : Signature) (name : String) : Signature :=
  { s with rest := some name }

/-- Declares the parameter that collects further keyword arguments. -/
def varkw (s : Signature) (name : String) : Signature :=
  { s with keywords := some name }

/-- Parameters that all have to be given. -/
def ofNames (names : List String) : Signature :=
  names.foldl required {}

def indexOf? (s : Signature) (name : String) : Option Nat :=
  s.params.findIdx? (·.name == name)

end Signature

structure Bound where
  signature : Signature
  /-- The value of each parameter, in the order of declaration. -/
  values : List Value
  /-- The positional arguments beyond the parameters. -/
  rest : List Value
  /-- The keyword arguments that no parameter has the name of. -/
  keywords : List (String × Value)

namespace Bound

/-- The value of a parameter. A name that is not declared reads as `None`. -/
def get (b : Bound) (name : String) : Value :=
  match b.signature.indexOf? name with
  | some i => b.values.getD i .null
  | none => .null

/-- Whether a parameter has a value other than `None`. -/
def isSet (b : Bound) (name : String) : Bool :=
  !(b.get name).isNone

def named (b : Bound) : List (String × Value) :=
  (b.signature.params.map (·.name)).zip b.values

end Bound

namespace Signature

/-- Puts the keyword arguments into the slots of the parameters with their names;
the ones without such a parameter are returned. -/
def place (s : Signature) (callee : String) :
    List (Option Value) → List (String × Value) →
      Outcome (List (Option Value) × List (String × Value))
  | slots, [] => .ok (slots, [])
  | slots, (name, value) :: rest =>
    match s.indexOf? name with
    | some i =>
      match slots[i]? with
      | some (some _) => .error (.type (.multipleValues callee name))
      | _ => place s callee (slots.set i (some value)) rest
    | none => do
      let (slots, extra) ← place s callee slots rest
      return (slots, (name, value) :: extra)

/-- The values of the slots, the defaults standing in for what is missing. -/
def fill (callee : String) : List Param → List (Option Value) → Outcome (List Value)
  | p :: ps, slots => do
    let value ← match slots.head?.join.or p.default with
      | some value => pure value
      | none => throw (.type (.missingArgument callee p.name))
    return value :: (← fill callee ps slots.tail)
  | [], _ => .ok []

/-- Binds the arguments of a call. Of several faults the first in this order is
reported: a parameter given twice, a parameter not given, too many positional
arguments, a keyword without a parameter. -/
def bind (s : Signature) (callee : String) (args : List Value) (keywords : List (String × Value)) :
    Outcome Bound := do
  let given := (args.take s.positional).map some
  let slots := given ++ List.replicate (s.params.length - given.length) none
  let rest := args.drop s.positional
  let (slots, extra) ← s.place callee slots keywords
  let values ← fill callee s.params slots
  if !rest.isEmpty && s.rest.isNone then
    throw (.type (.tooManyArguments callee s.positional args.length))
  match extra.head?, s.keywords with
  | some (name, _), none => throw (.type (.unexpectedKeyword callee name))
  | _, _ => return { signature := s, values, rest, keywords := extra }

end Signature

end FilterLang
