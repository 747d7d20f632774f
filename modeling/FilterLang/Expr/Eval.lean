import FilterLang.Context
/-!
Evaluation of expressions.

`Expr.evalWith` evaluates an expression given a way to call values. It follows the
expression, so it always ends. Calling a lambda evaluates another expression; the
number of such calls inside each other is bounded, and `Expr.eval` ties the two
together under that bound.

The parts of an expression are evaluated from left to right, each once at most.
A chain of comparisons has the places of the conjunction of its links.
-/

namespace FilterLang

def builtin? : String → Option Value
  | "None" => some .null
  | "True" => some (.bool true)
  | "False" => some (.bool false)
  | "NotImplemented" => some .notImplemented
  | "type" => some (.cls .type)
  | "object" => some (.cls .object)
  | "bool" => some (.cls .bool)
  | "float" => some (.cls .float)
  | "str" => some (.cls .str)
  | "unicode" => some (.cls .str)
  | "tuple" => some (.cls .tuple)
  | "list" => some (.cls .list)
  | "dict" => some (.cls .dict)
  | "abs" => some (.function .abs)
  | "len" => some (.function .len)
  | "isinstance" => some (.function .isinstance)
  | "issubclass" => some (.function .issubclass)
  | "round" => some (.function .round)
  | "int" => some (.function .int)
  | "min" => some (.function .min)
  | "max" => some (.function .max)
  | _ => none

/-- The value of a name: that of the context, or else the builtin one. -/
def Context.lookup (c : Context) (name : String) : Outcome Value :=
  match (Table.get? c name).or (builtin? name) with
  | some v => .ok v
  | none => .error (.unbound name)

def Constant.value : Constant → Value
  | none => .null
  | true => .bool Bool.true
  | false => .bool Bool.false

def CompareOp.holds (host : Host) (site : Identity) (op : CompareOp) (left right : Value) :
    Outcome Bool :=
  match op with
  | same => .ok (left.identical right)
  | notSame => .ok (!left.identical right)
  | isIn => right.contains host site left
  | notIn => do return !(← right.contains host site left)
  | op => do (← left.compareBy host site op right).isTruthy host site

/-- The place of the first of the links that a chain at a place is left with, told by the links
after it. With links after it, it is the left operand of a conjunction. -/
def Identity.link (site : Identity) : (later : List (CompareOp × Expr)) → Identity
  | [] => site
  | _ :: _ => site.operand 0

namespace Expr

/-- A way to call a value at a place with positional and keyword arguments. -/
abbrev Caller :=
  Identity → (callee : Value) → (args : List Value) → (keywords : List (String × Value)) →
    Outcome Value

mutual

/-- The value of an expression. A lambda keeps the context in which it was written. -/
def evalWith (host : Host) (call : Caller) (c : Context) (site : Identity) : Expr → Outcome Value
  | name n => c.lookup n
  | number x => .ok (.number x)
  | str raw unicode =>
    match decodeLiteral raw unicode with
    | .ok s => .ok (.str s)
    | .error e => .error (.escape e)
  | const k => .ok k.value
  | unary op operand => do
    (← evalWith host call c (site.operand 0) operand).unary host site op
  | not operand => do
    return .bool (!(← (← evalWith host call c (site.operand 0) operand).isTruthy host site))
  | binary op left right => do
    let a ← evalWith host call c (site.operand 0) left
    let b ← evalWith host call c (site.operand 1) right
    a.binary host site op b
  | and left right => do
    let first ← evalWith host call c (site.operand 0) left
    if ← first.isTruthy host site then evalWith host call c (site.operand 1) right
    else return first
  | or left right => do
    let first ← evalWith host call c (site.operand 0) left
    if ← first.isTruthy host site then return first
    else evalWith host call c (site.operand 1) right
  | compare first links => do
    let left ← evalWith host call c ((site.link links.tail).operand 0) first
    return .bool (← evalLinks host call c site left links)
  | .call callee args => do
    let f ← evalWith host call c (site.operand 0) callee
    let (positional, keywords) ← evalArgs host call c site 1 args
    call site f positional keywords
  | keyword n _ => .error (.keywordOutsideCall n)
  | attr object n => do
    (← evalWith host call c (site.operand 0) object).getAttr host site n
  | subscript object index => do
    let o ← evalWith host call c (site.operand 0) object
    let i ← evalWith host call c (site.operand 1) index
    o.getItem host site i
  | tuple items => do return .tuple site (← evalItems host call c site 0 items)
  | list items => do return .list site (← evalItems host call c site 0 items)
  | dict entries => do return .dict site (← evalEntries host call c site 0 [] entries)
  | conditional body test orelse => do
    if ← (← evalWith host call c (site.operand 0) test).isTruthy host site then
      evalWith host call c (site.operand 1) body
    else evalWith host call c (site.operand 2) orelse
  | lambda params body => .ok (.lambda site params body c)

/-- The values of several expressions; `i` counts the parts of the whole. -/
def evalItems (host : Host) (call : Caller) (c : Context) (site : Identity) (i : Nat) :
    List Expr → Outcome (List Value)
  | [] => .ok []
  | e :: rest => do
    let v ← evalWith host call c (site.operand i) e
    return v :: (← evalItems host call c site (i + 1) rest)

/-- The positional and the keyword arguments of a call. -/
def evalArgs (host : Host) (call : Caller) (c : Context) (site : Identity) (i : Nat) :
    List Expr → Outcome (List Value × List (String × Value))
  | [] => .ok ([], [])
  | keyword n value :: rest => do
    let v ← evalWith host call c (site.operand i) value
    let (positional, keywords) ← evalArgs host call c site (i + 1) rest
    return (positional, (n, v) :: keywords)
  | e :: rest => do
    let v ← evalWith host call c (site.operand i) e
    let (positional, keywords) ← evalArgs host call c site (i + 1) rest
    return (v :: positional, keywords)

/-- Whether all comparisons of a chain hold. The first that does not ends it. -/
def evalLinks (host : Host) (call : Caller) (c : Context) (site : Identity) (left : Value) :
    List (CompareOp × Expr) → Outcome Bool
  | [] => .ok true
  | l :: rest => do
    let right ← evalLink host call c ((site.link rest).operand 1) l
    if ← l.1.holds host (site.link rest) left right then
      evalLinks host call c (site.operand 1) right rest
    else return false

def evalLink (host : Host) (call : Caller) (c : Context) (site : Identity) :
    CompareOp × Expr → Outcome Value
  | (_, e) => evalWith host call c site e

/-- The entries of a dict, set one after the other. -/
def evalEntries (host : Host) (call : Caller) (c : Context) (site : Identity) (i : Nat)
    (d : Dict) : List (Expr × Expr) → Outcome Dict
  | [] => .ok d
  | e :: rest => do
    let (k, v) ← evalEntry host call c (site.operand i) e
    evalEntries host call c site (i + 1) (← d.insert host site k v) rest

def evalEntry (host : Host) (call : Caller) (c : Context) (site : Identity) :
    Expr × Expr → Outcome (Value × Value)
  | (k, v) => do
    let key ← evalWith host call c (site.operand 0) k
    let value ← evalWith host call c (site.operand 1) v
    return (key, value)

end

/-- The value of an expression in which at most `depth` evaluations of lambda
bodies, the expression itself counted, stand inside each other. -/
def evalWithin (host : Host) (depth : Nat) (c : Context) (site : Identity) (e : Expr) :
    Outcome Value :=
  match depth with
  | 0 => .error .tooDeep
  | depth + 1 =>
    e.evalWith host
      (fun site callee args keywords =>
        callee.callWith host site
          (fun body scope => evalWithin host depth scope (site.child 0) body) args keywords)
      c site

/-- How many evaluations of lambda bodies may stand inside each other. -/
def maxDepth : Nat := 5000

def eval (host : Host) (c : Context) (site : Identity) (e : Expr) : Outcome Value :=
  e.evalWithin host maxDepth c site

end Expr

end FilterLang
