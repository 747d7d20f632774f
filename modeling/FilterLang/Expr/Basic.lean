import FilterLang.Decimal.Layout
/-!
Expression trees, and their display as nested lists.

A chain of comparisons is its first operand and a list of links, each an operator
with the operand after it. String literals keep their escapes; they are decoded
when the expression is evaluated.
-/

namespace FilterLang

/-- The constants of the language. -/
inductive Constant where
  | none | true | false
deriving DecidableEq

def Constant.text : Constant → String
  | none => "None"
  | true => "True"
  | false => "False"

/-- The operators with one operand, `not` apart. -/
inductive UnaryOp where
  | negate | plus | invert
deriving DecidableEq

def UnaryOp.text : UnaryOp → String
  | negate => "-"
  | plus => "+"
  | invert => "~"

/-- The arithmetic and bitwise operators. -/
inductive BinaryOp where
  | add | sub | mul | div | floorDiv | mod | pow | shiftLeft | shiftRight | bitAnd | bitXor | bitOr
deriving DecidableEq

def BinaryOp.text : BinaryOp → String
  | add => "+"
  | sub => "-"
  | mul => "*"
  | div => "/"
  | floorDiv => "//"
  | mod => "%"
  | pow => "**"
  | shiftLeft => "<<"
  | shiftRight => ">>"
  | bitAnd => "&"
  | bitXor => "^"
  | bitOr => "|"

/-- The operators of a chain of comparisons. -/
inductive CompareOp where
  | isIn | notIn | same | notSame | lt | le | gt | ge | ne | eq
deriving DecidableEq

def CompareOp.text : CompareOp → String
  | isIn => "in"
  | notIn => "not in"
  | same => "is"
  | notSame => "is not"
  | lt => "<"
  | le => "<="
  | gt => ">"
  | ge => ">="
  | ne => "!="
  | eq => "=="

inductive Expr where
  | name (n : String)
  | number (x : Float)
  /-- A string literal before its escapes are decoded. -/
  | str (raw : String) (unicode : Bool)
  | const (c : Constant)
  | unary (op : UnaryOp) (operand : Expr)
  | not (operand : Expr)
  | binary (op : BinaryOp) (left right : Expr)
  | and (left right : Expr)
  | or (left right : Expr)
  /-- `first op₁ e₁ op₂ e₂ …`. -/
  | compare (first : Expr) (links : List (CompareOp × Expr))
  | call (callee : Expr) (args : List Expr)
  /-- `name=value`, which has a meaning only among the arguments of a call. -/
  | keyword (name : String) (value : Expr)
  | attr (object : Expr) (name : String)
  | subscript (object index : Expr)
  | tuple (items : List Expr)
  | list (items : List Expr)
  | dict (entries : List (Expr × Expr))
  /-- `body if test else orelse`. -/
  | conditional (body test orelse : Expr)
  | lambda (params : List String) (body : Expr)

namespace Expr

mutual

/-- An expression as a nested list, its operator or kind first. -/
def display : Expr → String
  | name n => "(name " ++ n ++ ")"
  | number x => "(number " ++ Decimal.plain x ++ ")"
  | str raw _ => "(string " ++ raw ++ ")"
  | const c => "(constant " ++ c.text ++ ")"
  | unary op e => "(" ++ op.text ++ " " ++ e.display ++ ")"
  | not e => "(not " ++ e.display ++ ")"
  | binary op l r => "(" ++ op.text ++ " " ++ l.display ++ " " ++ r.display ++ ")"
  | and l r => "(and " ++ l.display ++ " " ++ r.display ++ ")"
  | or l r => "(or " ++ l.display ++ " " ++ r.display ++ ")"
  | compare first links => "(comparator " ++ first.display ++ displayLinks links ++ ")"
  | call callee args => "(call " ++ callee.display ++ displayAll args ++ ")"
  | keyword n value => "(= " ++ n ++ " " ++ value.display ++ ")"
  | attr object n => "(. " ++ object.display ++ " " ++ n ++ ")"
  | subscript object index => "([ " ++ object.display ++ " " ++ index.display ++ ")"
  | tuple items => "(tuple" ++ displayAll items ++ ")"
  | list items => "(list" ++ displayAll items ++ ")"
  | dict entries => "(dict" ++ displayEntries entries ++ ")"
  | conditional body test orelse =>
    "(if " ++ test.display ++ " " ++ body.display ++ " " ++ orelse.display ++ ")"
  | lambda params body => "(lambda (" ++ String.intercalate " " params ++ ") " ++ body.display ++ ")"

def displayAll : List Expr → String
  | [] => ""
  | e :: rest => " " ++ e.display ++ displayAll rest

/-- The links of a chain of comparisons, a blank before each part. -/
def displayLinks : List (CompareOp × Expr) → String
  | [] => ""
  | l :: rest => displayLink l ++ displayLinks rest

/-- An operator and its right operand. -/
def displayLink : CompareOp × Expr → String
  | (op, e) => " " ++ op.text ++ " " ++ e.display

def displayEntries : List (Expr × Expr) → String
  | [] => ""
  | e :: rest => displayEntry e ++ displayEntries rest

def displayEntry : Expr × Expr → String
  | (k, v) => " (" ++ k.display ++ " " ++ v.display ++ ")"

end

end Expr

end FilterLang
