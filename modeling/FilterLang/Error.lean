import FilterLang.Calendar.Error
import FilterLang.Expr.Basic
import FilterLang.Expr.Escape
import FilterLang.Expr.Parser
import FilterLang.Token.Lexer
/-!
Everything that can go wrong in an evaluation, by cause.

A failure is a cause with what it is about; its kind and its wording are functions
of it. Types are given by the names of their classes.
-/

namespace FilterLang

/-- Values of the wrong type. -/
inductive TypeFault where
  | operands (op left right : String)
  | repeatCount (type : String)
  | unaryOperand (op type : String)
  | nonzeroResult (type : String)
  | lenResult
  | noLength (type : String)
  | textMember (type : String)
  | notContainer (type : String)
  | notIterable (type : String)
  | notSubscriptable (type : String)
  | indexKind (sequence index : String)
  | cannotCreate (cls : String)
  | notCallable (type : String)
  | unhashable (type : String)
  | strResult (type : String)
  | reprResult (type : String)
  | multipleValues (callee name : String)
  | missingArgument (callee name : String)
  | tooManyArguments (callee : String) (limit given : Nat)
  | unexpectedKeyword (callee name : String)
  | notAClass
  | classInfo (callee : String)
  | roundDigits
  | notANumber (callee type : String)
  | receiver (wanted found : String)
  | offsetReceiver
  | notText (what type : String)
  | joinItem (index : Nat) (type : String)
  | integerArgument (name type : String)
  | durationPart (name type : String)
  | combineDate
  | combineTime
  | keyKind (text : String)
  | noNativeForm (type : String)
  | contextFragment (kind : String)
  | domainFragment (kind : String)
  | fragmentList (member kind : String)
deriving DecidableEq

def TypeFault.message : TypeFault → String
  | operands op left right =>
    "unsupported operand type(s) for " ++ op ++ ": '" ++ left ++ "' and '" ++ right ++ "'"
  | repeatCount type => "can't multiply sequence by non-int of type '" ++ type ++ "'"
  | unaryOperand op type => "bad operand type for unary " ++ op ++ ": '" ++ type ++ "'"
  | nonzeroResult type => "__nonzero__ should return bool, returned " ++ type
  | lenResult => "__len__ should return a non-negative integer"
  | noLength type => "object of type '" ++ type ++ "' has no len()"
  | textMember type => "'in <string>' requires string as left operand, not " ++ type
  | notContainer type => "argument of type '" ++ type ++ "' is not iterable"
  | notIterable type => "'" ++ type ++ "' object is not iterable"
  | notSubscriptable type => "'" ++ type ++ "' object is not subscriptable"
  | indexKind sequence index => sequence ++ " indices must be integers, not " ++ index
  | cannotCreate cls => "cannot create '" ++ cls ++ "' instances"
  | notCallable type => "'" ++ type ++ "' object is not callable"
  | unhashable type => "unhashable type: '" ++ type ++ "'"
  | strResult type => "__str__ returned non-string (type " ++ type ++ ")"
  | reprResult type => "__repr__ returned non-string (type " ++ type ++ ")"
  | multipleValues callee name =>
    callee ++ "() got multiple values for keyword argument '" ++ name ++ "'"
  | missingArgument callee name => callee ++ "() missing required argument '" ++ name ++ "'"
  | tooManyArguments callee limit given =>
    callee ++ "() takes at most " ++ toString limit ++ " positional arguments (" ++
      toString given ++ " given)"
  | unexpectedKeyword callee name =>
    callee ++ "() got an unexpected keyword argument '" ++ name ++ "'"
  | notAClass => "issubclass() arg 1 must be a class"
  | classInfo callee => callee ++ "() arg 2 must be a class, type, or tuple of classes and types"
  | roundDigits => "round() ndigits must be an integer"
  | notANumber callee type => callee ++ "() argument must be a number, not '" ++ type ++ "'"
  | receiver wanted found =>
    "descriptor requires a '" ++ wanted ++ "' object but received a '" ++ found ++ "'"
  | offsetReceiver => "descriptor requires a 'relativedelta' object"
  | notText what type => what ++ " must be str, not " ++ type
  | joinItem index type =>
    "sequence item " ++ toString index ++ ": expected string, " ++ type ++ " found"
  | integerArgument name type => "integer argument expected for '" ++ name ++ "', got " ++ type
  | durationPart name type => "unsupported type for " ++ name ++ " component: " ++ type
  | combineDate => "combine() argument 1 must be datetime.date"
  | combineTime => "combine() argument 2 must be datetime.time"
  | keyKind text => "keys must be str, float, bool or None, not " ++ text
  | noNativeForm type => "Object of type '" ++ type ++ "' has no native form"
  | contextFragment kind => "context fragment must evaluate to a dict, not " ++ kind
  | domainFragment kind => "domain fragment must evaluate to a list, not " ++ kind
  | fragmentList member kind => member ++ " must be a list, not " ++ kind

/-- Values of the right type that are not allowed. -/
inductive ValueFault where
  | shiftCount
  | fractionalPower
  | emptySeparator
  | intLiteral (text : String)
  | floatLiteral (text : String)
  | emptySequence (callee : String)
  | pairLength (index length : Nat)
  | notInSequence (type : String)
  /-- A number without a native form, as it is written. -/
  | floatRange (text : String)
  | calendar (e : CalendarError)
  | unknownKind (name : String)
  | missingSource (reference : String)
  /-- A group-by entry that is no name and no list, as it is written. -/
  | groupBy (text : String)
  | unknownReference (reference : String)
deriving DecidableEq

def ValueFault.message : ValueFault → String
  | shiftCount => "negative shift count"
  | fractionalPower => "negative number cannot be raised to a fractional power"
  | emptySeparator => "empty separator"
  | intLiteral text => "invalid literal for int() with base 10: '" ++ text ++ "'"
  | floatLiteral text => "could not convert string to float: '" ++ text ++ "'"
  | emptySequence callee => callee ++ "() arg is an empty sequence"
  | pairLength index length =>
    "dictionary update sequence element #" ++ toString index ++ " has length " ++
      toString length ++ "; 2 is required"
  | notInSequence type => type ++ ".index(x): x not in " ++ type
  | floatRange text => "out of range float value: " ++ text
  | calendar e => e.message
  | unknownKind name => "Unknown evaluation type " ++ name
  | missingSource reference => reference ++ " fragment without __debug source"
  | groupBy text => "Got invalid groupby " ++ text
  | unknownReference reference => "Unknown nonliteral type " ++ reference

inductive DivisionFault where
  | quotient
  | floorQuotient
  | modulo
  | power
  | duration
deriving DecidableEq

def DivisionFault.message : DivisionFault → String
  | quotient => "float division by zero"
  | floorQuotient => "float divmod()"
  | modulo => "float modulo"
  | power => "0.0 cannot be raised to a negative power"
  | duration => "integer division or modulo by zero"

inductive EvalError where
  | tokenize (e : TokenizeError)
  | parse (e : ParseError)
  | escape (e : EscapeError)
  | keywordOutsideCall (name : String)
  | notRelation (op : CompareOp)
  | unbound (name : String)
  | type (fault : TypeFault)
  | attribute (type name : String)
  /-- A key that a dict does not have, as it is written. -/
  | key (text : String)
  | index (type : String)
  | value (fault : ValueFault)
  | division (fault : DivisionFault)
  /-- Calls nested too deep. -/
  | tooDeep
  /-- An integer that does not fit into the bits of the machine. -/
  | overflow
deriving DecidableEq

namespace EvalError

def kind : EvalError → String
  | tokenize _ | parse _ | keywordOutsideCall _ | notRelation _ => "SyntaxError"
  | escape .invalidHex => "ValueError"
  | escape _ => "SyntaxError"
  | unbound _ => "NameError"
  | type _ => "TypeError"
  | .attribute .. => "AttributeError"
  | key _ => "KeyError"
  | index _ => "IndexError"
  | value _ => "ValueError"
  | division _ => "ZeroDivisionError"
  | tooDeep => "RuntimeError"
  | overflow => "OverflowError"

/-- The wording of a failure without its kind. -/
def detail : EvalError → String
  | tokenize e => e.message
  | parse e => e.message
  | escape e => e.message
  | keywordOutsideCall name => "keyword argument '" ++ name ++ "' outside of a call"
  | notRelation op => "'" ++ op.text ++ "' is not a rich comparison"
  | unbound name => "name '" ++ name ++ "' is not defined"
  | type fault => fault.message
  | .attribute t name => "'" ++ t ++ "' object has no attribute '" ++ name ++ "'"
  | key text => text
  | index t => t ++ " index out of range"
  | value fault => fault.message
  | division fault => fault.message
  | tooDeep => "maximum recursion depth exceeded"
  | overflow => CalendarError.overflow.message

def message (e : EvalError) : String :=
  e.kind ++ ": " ++ e.detail

/-- A calendar value that does not exist, as a failure. -/
def ofCalendar : CalendarError → EvalError
  | .overflow => .overflow
  | e => .value (.calendar e)

theorem kind_ofCalendar {e : CalendarError} (h : e ≠ .overflow) :
    (ofCalendar e).kind = "ValueError" := by
  cases e with
  | overflow => exact absurd rfl h
  | _ => rfl

end EvalError

/-- The outcome of an evaluation. -/
abbrev Outcome (α : Type) := Except EvalError α

def Outcome.ofCalendar {α : Type} (r : Except CalendarError α) : Outcome α :=
  r.mapError EvalError.ofCalendar

end FilterLang
