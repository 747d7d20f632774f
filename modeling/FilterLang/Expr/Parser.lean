import FilterLang.Expr.Basic
import FilterLang.Grammar
/-!
From tokens to an expression tree.

An expression is opened by one token and then extended to the right, as long as
the next symbol binds more strongly than `power`, the power that the surrounding
expression asks for. Every function returns the tokens it has left. That they are
no more than it was given, and fewer for a whole expression, is part of the type
of its result, and is why parsing ends.
-/

namespace FilterLang

/-- A token list that is not one expression. The token at fault is kept as it is
displayed. -/
inductive ParseError where
  | missingEnd
  | undefinedPrefix (found : String)
  | undefinedInfix (found : String)
  | expected (wanted found : String)
  | keywordName (found : String)
  | attributeName (found : String)
  | trailingInput (found : String)
deriving DecidableEq

def ParseError.message : ParseError → String
  | missingEnd => "token stream is not terminated by an end marker"
  | undefinedPrefix found => "undefined prefix " ++ found
  | undefinedInfix found => "undefined infix " ++ found
  | expected wanted found => "expected " ++ wanted ++ ", got " ++ found
  | keywordName found => "expected keyword argument name, got " ++ found
  | attributeName found => "expected attribute name, got " ++ found
  | trailingInput found => "unexpected " ++ found ++ " after end of expression"

def UnaryOp.ofSymbol? : Symbol → Option UnaryOp
  | .minus => some .negate
  | .plus => some .plus
  | .tilde => some .invert
  | _ => none

def BinaryOp.ofSymbol? : Symbol → Option BinaryOp
  | .plus => some .add
  | .minus => some .sub
  | .star => some .mul
  | .slash => some .div
  | .doubleSlash => some .floorDiv
  | .percent => some .mod
  | .doubleStar => some .pow
  | .shiftLeft => some .shiftLeft
  | .shiftRight => some .shiftRight
  | .ampersand => some .bitAnd
  | .caret => some .bitXor
  | .pipe => some .bitOr
  | _ => none

def CompareOp.ofSymbol : Symbol → CompareOp
  | .kwIn => .isIn
  | .kwNotIn => .notIn
  | .kwIs => .same
  | .kwIsNot => .notSame
  | .lt => .lt
  | .le => .le
  | .gt => .gt
  | .ge => .ge
  | .eq => .eq
  | _ => .ne

namespace Parser

/-- A result with the tokens left over, fewer than `n` of them. -/
abbrev Fewer (α : Type) (n : Nat) := Except ParseError (α × { r : List Token // r.length < n })

/-- A result with the tokens left over, at most `n` of them. -/
abbrev AtMost (α : Type) (n : Nat) := Except ParseError (α × { r : List Token // r.length ≤ n })

/-- The token at hand. Past the end of the list it is the end marker. -/
def current : List Token → Token
  | [] => Token.stop
  | t :: _ => t

/-- The symbol at hand. -/
def peek (ts : List Token) : Symbol :=
  (current ts).kind

/-- Takes one symbol, which has to be the given one. -/
def expect (s : Symbol) (ts : List Token) : Except ParseError { r : List Token // r.length ≤ ts.length } :=
  match ts with
  | [] => .error (.expected s.text Token.stop.display)
  | t :: rest =>
    if t.kind = s then .ok ⟨rest, by simp⟩ else .error (.expected s.text t.display)

def params (ts : List Token) : AtMost (List String) ts.length :=
  match ts with
  | .name p :: .symbol .comma :: rest => do
    let (ps, r) ← params rest
    return (p :: ps, ⟨r.1, by have := r.2; simp only [List.length_cons]; omega⟩)
  | .name p :: rest => do
    let r ← expect .colon rest
    return ([p], ⟨r.1, by have := r.2; simp only [List.length_cons]; omega⟩)
  | t :: rest =>
    if t.kind = .colon then return ([], ⟨rest, by simp⟩)
    else .error (.expected "parameter name" t.display)
  | [] => .error (.expected "parameter name" Token.stop.display)

/-- The name that stands before the `=` of a keyword argument. -/
def keywordName : Expr → Except ParseError String
  | .name n => .ok n
  | e => .error (.keywordName e.display)

/-- The tree of a prefix operator over its operand. -/
def applyPrefix (t : Token) (operand : Expr) : Except ParseError Expr :=
  match t.kind with
  | .kwNot => .ok (.not operand)
  | s =>
    match UnaryOp.ofSymbol? s with
    | some op => .ok (.unary op operand)
    | none => .error (.undefinedPrefix t.display)

/-- The tree of an infix operator between its operands. -/
def applyInfix (t : Token) (left right : Expr) : Except ParseError Expr :=
  match t.kind with
  | .kwAnd => .ok (.and left right)
  | .kwOr => .ok (.or left right)
  | s =>
    match BinaryOp.ofSymbol? s with
    | some op => .ok (.binary op left right)
    | none => .error (.undefinedInfix t.display)

def literal (t : Token) : Except ParseError Expr :=
  match t with
  | .number _ value => .ok (.number value)
  | .string mark _ content => .ok (.str content mark.isSome)
  | .name word => .ok (.name word)
  | .symbol _ => .error (.undefinedPrefix t.display)

def constant : Symbol → Expr
  | .constTrue => .const .true
  | .constFalse => .const .false
  | _ => .const .none

/-- One item in parentheses without a comma is that item; everything else is a
tuple. -/
def group : List Expr → Bool → Expr
  | [e], false => e
  | items, _ => .tuple items

mutual

/-- The longest expression at the start of the tokens whose joining symbols all
bind more strongly than `power`. -/
def expression (power : Nat) (ts : List Token) : Fewer Expr ts.length :=
  match ts with
  | [] => .error (.undefinedPrefix Token.stop.display)
  | t :: rest => do
    let (left, ⟨r, hr⟩) ← opened t rest
    let (e, ⟨r', hr'⟩) ← extended power left r
    return (e, ⟨r', by simp only [List.length_cons]; omega⟩)
termination_by 4 * ts.length
decreasing_by all_goals simp only [List.length_cons]; omega

/-- The expression that the token `t` opens. -/
def opened (t : Token) (ts : List Token) : AtMost Expr ts.length :=
  match t.kind.opening? with
  | none => .error (.undefinedPrefix t.display)
  | some .literal => do
    let e ← literal t
    return (e, ⟨ts, Nat.le_refl _⟩)
  | some .constant => .ok (constant t.kind, ⟨ts, Nat.le_refl _⟩)
  | some (.operator power) => do
    let (operand, ⟨r, hr⟩) ← expression power ts
    let e ← applyPrefix t operand
    return (e, ⟨r, Nat.le_of_lt hr⟩)
  | some .group => do
    let ((items, comma), r) ← sequence .parenClose ts
    return (group items comma, r)
  | some .list => do
    let ((items, _), r) ← sequence .bracketClose ts
    return (.list items, r)
  | some .dict => do
    let (es, r) ← entries ts
    return (.dict es, r)
  | some .lambda => do
    let (ps, ⟨r, hr⟩) ← params ts
    let (body, ⟨r', hr'⟩) ← expression 0 r
    return (.lambda ps body, ⟨r', by omega⟩)
termination_by 4 * ts.length + 3
decreasing_by all_goals omega

/-- Extends the expression `left` to the right as long as the next symbol binds
more strongly than `power`. -/
def extended (power : Nat) (left : Expr) (ts : List Token) : AtMost Expr ts.length :=
  match ts with
  | [] => .ok (left, ⟨[], Nat.le_refl _⟩)
  | t :: rest =>
    if power < t.kind.power then do
      let (e, ⟨r, hr⟩) ← joined t left rest
      let (e', ⟨r', hr'⟩) ← extended power e r
      return (e', ⟨r', by simp only [List.length_cons]; omega⟩)
    else .ok (left, ⟨t :: rest, Nat.le_refl _⟩)
termination_by 4 * ts.length
decreasing_by all_goals simp only [List.length_cons]; omega

/-- The expression that the token `t` makes of `left` and what follows. -/
def joined (t : Token) (left : Expr) (ts : List Token) : AtMost Expr ts.length :=
  match t.kind.joining? with
  | none => .error (.undefinedInfix t.display)
  | some (.operator power) => do
    let (right, ⟨r, hr⟩) ← expression power ts
    let e ← applyInfix t left right
    return (e, ⟨r, Nat.le_of_lt hr⟩)
  | some .comparator => do
    let (right, ⟨r, hr⟩) ← expression comparatorPower ts
    let (links, ⟨r', hr'⟩) ← chain r
    return (.compare left ((CompareOp.ofSymbol t.kind, right) :: links), ⟨r', by omega⟩)
  | some .keywordArgument => do
    let n ← keywordName left
    let (value, ⟨r, hr⟩) ← expression 0 ts
    return (.keyword n value, ⟨r, Nat.le_of_lt hr⟩)
  | some .conditional => do
    let (test, ⟨r, hr⟩) ← expression 0 ts
    let ⟨r', hr'⟩ ← expect .kwElse r
    let (orelse, ⟨r'', hr''⟩) ← expression 0 r'
    return (.conditional left test orelse, ⟨r'', by omega⟩)
  | some .attr =>
    match ts with
    | .name n :: rest => .ok (.attr left n, ⟨rest, by simp⟩)
    | ts => .error (.attributeName (current ts).display)
  | some .call => do
    let ((args, _), r) ← sequence .parenClose ts
    return (.call left args, r)
  | some .subscript => do
    let (index, ⟨r, hr⟩) ← expression 0 ts
    let ⟨r', hr'⟩ ← expect .bracketClose r
    return (.subscript left index, ⟨r', by omega⟩)
termination_by 4 * ts.length + 3
decreasing_by all_goals omega

/-- The links of a chain of comparisons after its first. -/
def chain (ts : List Token) : AtMost (List (CompareOp × Expr)) ts.length :=
  match ts with
  | [] => .ok ([], ⟨[], Nat.le_refl _⟩)
  | t :: rest =>
    if t.kind.isComparator then do
      let (right, ⟨r, hr⟩) ← expression comparatorPower rest
      let (links, ⟨r', hr'⟩) ← chain r
      return ((CompareOp.ofSymbol t.kind, right) :: links,
        ⟨r', by simp only [List.length_cons]; omega⟩)
    else .ok ([], ⟨t :: rest, Nat.le_refl _⟩)
termination_by 4 * ts.length
decreasing_by all_goals simp only [List.length_cons]; omega

/-- Expressions with commas between them up to the symbol `close`, a comma after
the last one allowed, and whether there was a comma. -/
def sequence (close : Symbol) (ts : List Token) : AtMost (List Expr × Bool) ts.length :=
  if peek ts = close then do
    let r ← expect close ts
    return (([], false), r)
  else do
    let (e, ⟨r, hr⟩) ← expression 0 ts
    match r, hr with
    | .symbol .comma :: rest, hr => do
      let ((es, _), ⟨r', hr'⟩) ← sequence close rest
      return ((e :: es, true), ⟨r', by simp only [List.length_cons] at hr; omega⟩)
    | r, hr => do
      let ⟨r', hr'⟩ ← expect close r
      return (([e], false), ⟨r', by omega⟩)
termination_by 4 * ts.length + 2
decreasing_by
  · omega
  · simp only [List.length_cons] at hr; omega

/-- The entries of a dict up to its closing brace. -/
def entries (ts : List Token) : AtMost (List (Expr × Expr)) ts.length :=
  if peek ts = .braceClose then do
    let r ← expect .braceClose ts
    return ([], r)
  else do
    let (k, ⟨r₁, hr₁⟩) ← expression 0 ts
    let ⟨r₂, hr₂⟩ ← expect .colon r₁
    let (v, ⟨r, hr⟩) ← expression 0 r₂
    match r, hr with
    | .symbol .comma :: rest, hr => do
      let (es, ⟨r', hr'⟩) ← entries rest
      return ((k, v) :: es, ⟨r', by simp only [List.length_cons] at hr; omega⟩)
    | r, hr => do
      let ⟨r', hr'⟩ ← expect .braceClose r
      return ([(k, v)], ⟨r', by omega⟩)
termination_by 4 * ts.length + 2
decreasing_by
  · omega
  · omega
  · simp only [List.length_cons] at hr; omega

end

end Parser

/-- The expression that a token list is. The list has to end in an end marker and
hold exactly one expression before it. -/
def parse (ts : List Token) : Except ParseError Expr := do
  match ts.getLast? with
  | some t =>
    if t.kind = .stop then
      let (e, r) ← Parser.expression 0 ts
      if Parser.peek r.1 = .stop then return e
      else throw (.trailingInput (Parser.current r.1).display)
    else throw .missingEnd
  | none => throw .missingEnd

end FilterLang
