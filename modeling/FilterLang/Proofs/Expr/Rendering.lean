import FilterLang.Expr.Parser
import FilterLang.Proofs.Expr.Children
/-!
Trees written as tokens.

Every kind of expression has a level, and every position inside an expression asks
for a least level. `tokens` writes a tree from left to right and puts parentheses
around a part exactly when its level is below what its position asks for. Inside
brackets, and wherever a part runs up to a symbol that joins nothing, every level
will do.
-/

namespace FilterLang

def Constant.symbol : Constant → Symbol
  | none => .constNone
  | true => .constTrue
  | false => .constFalse

def UnaryOp.symbol : UnaryOp → Symbol
  | negate => .minus
  | plus => .plus
  | invert => .tilde

def BinaryOp.symbol : BinaryOp → Symbol
  | add => .plus
  | sub => .minus
  | mul => .star
  | div => .slash
  | floorDiv => .doubleSlash
  | mod => .percent
  | pow => .doubleStar
  | shiftLeft => .shiftLeft
  | shiftRight => .shiftRight
  | bitAnd => .ampersand
  | bitXor => .caret
  | bitOr => .pipe

def CompareOp.symbol : CompareOp → Symbol
  | isIn => .kwIn
  | notIn => .kwNotIn
  | same => .kwIs
  | notSame => .kwIsNot
  | lt => .lt
  | le => .le
  | gt => .gt
  | ge => .ge
  | ne => .ne
  | eq => .eq

def BinaryOp.level : BinaryOp → Nat
  | pow => 140
  | mul | div | floorDiv | mod => 120
  | add | sub => 110
  | shiftLeft | shiftRight => 100
  | bitAnd => 90
  | bitXor => 80
  | bitOr => 70

/-- The least level of a left operand. Operators group to the left, the power
operator apart. -/
def BinaryOp.leftNeed (op : BinaryOp) : Nat :=
  if op = pow then op.level + 1 else op.level

/-- The least level of a right operand. -/
def BinaryOp.rightNeed (op : BinaryOp) : Nat :=
  if op = pow then op.level else op.level + 1

/-- Tokens that may have to stand in parentheses: they do when their level is below
the one that is asked for. -/
def fitted (need level : Nat) (ts : List Token) : List Token :=
  if need ≤ level then ts else .symbol .parenOpen :: (ts ++ [.symbol .parenClose])

theorem fitted_of_le {need level : Nat} {ts : List Token} (h : need ≤ level) :
    fitted need level ts = ts :=
  if_pos h

theorem fitted_of_not_le {need level : Nat} {ts : List Token} (h : ¬ need ≤ level) :
    fitted need level ts = .symbol .parenOpen :: (ts ++ [.symbol .parenClose]) :=
  if_neg h

namespace Expr

/-- How tightly the parts of an expression hold together. -/
@[simp] def level : Expr → Nat
  | name _ | number _ | str .. | const _ | tuple _ | list _ | dict _ => 160
  | attr .. | call .. | subscript .. => 150
  | binary op _ _ => op.level
  | unary .. => 130
  | compare .. => 60
  | not _ => 50
  | and .. => 40
  | or .. => 30
  | conditional .. | lambda .. => 20
  | keyword .. => 10

/-- The tokens of a string literal: one of unicode text has a mark. -/
def stringToken (raw : String) (unicode : Bool) : Token :=
  .string (if unicode then some 'u' else none) '\'' raw

def paramTokens : List String → List Token
  | [] => []
  | [p] => [.name p]
  | p :: ps => .name p :: .symbol .comma :: paramTokens ps

/-- The comma that tells a tuple of one item from a part in parentheses. -/
def tupleComma : List Expr → List Token
  | [_] => [.symbol .comma]
  | _ => []

mutual

/-- The tokens of an expression, with no more parentheses than it needs. -/
@[simp] def tokens : Expr → List Token
  | name n => [.name n]
  | number x => [.number (Decimal.plain x) x]
  | str raw unicode => [stringToken raw unicode]
  | const c => [.symbol c.symbol]
  | unary op e => .symbol op.symbol :: fitted 130 e.level e.tokens
  | not e => .symbol .kwNot :: fitted 50 e.level e.tokens
  | binary op l r =>
    fitted op.leftNeed l.level l.tokens ++
      .symbol op.symbol :: fitted op.rightNeed r.level r.tokens
  | and l r => fitted 41 l.level l.tokens ++ .symbol .kwAnd :: fitted 40 r.level r.tokens
  | or l r => fitted 31 l.level l.tokens ++ .symbol .kwOr :: fitted 30 r.level r.tokens
  | compare first links => fitted 61 first.level first.tokens ++ tokensLinks links
  | call callee args =>
    fitted 150 callee.level callee.tokens ++
      .symbol .parenOpen :: (tokensItems args ++ [.symbol .parenClose])
  | keyword n value => .name n :: .symbol .assign :: value.tokens
  | attr object n => fitted 150 object.level object.tokens ++ [.symbol .dot, .name n]
  | subscript object index =>
    fitted 150 object.level object.tokens ++
      .symbol .bracketOpen :: (index.tokens ++ [.symbol .bracketClose])
  | tuple items =>
    .symbol .parenOpen :: (tokensItems items ++ tupleComma items ++ [.symbol .parenClose])
  | list items => .symbol .bracketOpen :: (tokensItems items ++ [.symbol .bracketClose])
  | dict entries => .symbol .braceOpen :: (tokensEntries entries ++ [.symbol .braceClose])
  | conditional body test orelse =>
    fitted 21 body.level body.tokens ++
      .symbol .kwIf :: (test.tokens ++ .symbol .kwElse :: orelse.tokens)
  | lambda params body =>
    .symbol .kwLambda :: (paramTokens params ++ .symbol .colon :: body.tokens)

@[simp] def tokensItems : List Expr → List Token
  | [] => []
  | e :: rest => e.tokens ++ tokensMoreItems rest

/-- The items after the first, a comma before each. -/
@[simp] def tokensMoreItems : List Expr → List Token
  | [] => []
  | e :: rest => .symbol .comma :: (e.tokens ++ tokensMoreItems rest)

@[simp] def tokensLinks : List (CompareOp × Expr) → List Token
  | [] => []
  | l :: rest => tokensLink l ++ tokensLinks rest

@[simp] def tokensLink : CompareOp × Expr → List Token
  | (op, e) => .symbol op.symbol :: fitted 61 e.level e.tokens

/-- The entries of a dict with commas between them. -/
@[simp] def tokensEntries : List (Expr × Expr) → List Token
  | [] => []
  | e :: rest => tokensEntry e ++ tokensMoreEntries rest

/-- The entries after the first, a comma before each. -/
@[simp] def tokensMoreEntries : List (Expr × Expr) → List Token
  | [] => []
  | e :: rest => .symbol .comma :: (tokensEntry e ++ tokensMoreEntries rest)

@[simp] def tokensEntry : Expr × Expr → List Token
  | (k, v) => k.tokens ++ .symbol .colon :: v.tokens

end

end Expr

/-! ## The symbols of operators -/

theorem CompareOp.ofSymbol_symbol (op : CompareOp) : ofSymbol op.symbol = op := by
  cases op <;> rfl

theorem BinaryOp.power_symbol (op : BinaryOp) : op.symbol.power = op.level := by
  cases op <;> rfl

theorem CompareOp.power_symbol (op : CompareOp) : op.symbol.power = comparatorPower := by
  cases op <;> rfl

theorem CompareOp.isComparator_symbol (op : CompareOp) : op.symbol.isComparator = true := by
  cases op <;> rfl

end FilterLang
