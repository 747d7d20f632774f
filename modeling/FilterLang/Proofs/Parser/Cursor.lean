import FilterLang.Expr.Parser
/-!
Parsing with a cursor.

The parser consumes a list. Here it is written once more with a cursor that moves over the whole
token list and stops at its last token: `advance` gives the token at hand and steps behind it, but
never past the last token, where it can be asked again and again and moves no more. Nothing in
these definitions says that they end, so they are given fuel, which every call and every turn of a
loop uses up, and they have no outcome without it. What a run costs is counted along the way.
-/

namespace FilterLang.Cursor

open FilterLang.Parser (literal constant group keywordName applyPrefix applyInfix)

/-! ## Runs of a cursor -/

/-- What a run costs: how deep expressions stand inside each other, how many were begun, and how
often any loop went round. -/
structure Cost where
  depth : Nat
  calls : Nat
  turns : Nat

namespace Cost

def zero : Cost :=
  ⟨0, 0, 0⟩

/-- The cost of one run and another after it. -/
def add (a b : Cost) : Cost :=
  ⟨max a.depth b.depth, a.calls + b.calls, a.turns + b.turns⟩

/-- The cost of an expression around a run. -/
def enter (a : Cost) : Cost :=
  ⟨a.depth + 1, a.calls + 1, a.turns⟩

end Cost

/-- How a run went: its result, where the cursor stands afterwards, and the cost. -/
structure Trace (α : Type) where
  result : Except ParseError α
  cursor : Nat
  cost : Cost

/-- A reader moves a cursor over tokens. It has no outcome when its fuel runs out. -/
def Reader (α : Type) : Type :=
  List Token → Nat → Option (Trace α)

instance : Monad Reader where
  pure a := fun _ pos => some ⟨.ok a, pos, .zero⟩
  bind x f := fun ts pos =>
    match x ts pos with
    | none => none
    | some ⟨.error e, pos', cost⟩ => some ⟨.error e, pos', cost⟩
    | some ⟨.ok a, pos', cost⟩ =>
      (f a ts pos').map fun tr => { tr with cost := cost.add tr.cost }

/-- The reader whose fuel has run out. -/
def exhausted {α : Type} : Reader α :=
  fun _ _ => none

/-- A result that takes nothing off the tokens. -/
def settled {α : Type} (x : Except ParseError α) : Reader α :=
  fun _ pos => some ⟨x, pos, .zero⟩

/-- The token at hand; past the last token it is the last one. -/
def current : Reader Token :=
  fun ts pos => some ⟨.ok (ts.getD (min pos (ts.length - 1)) Token.stop), pos, .zero⟩

/-- Takes the token at hand. The cursor steps behind it, unless it is the last one. -/
def advance : Reader Token :=
  fun ts pos =>
    some ⟨.ok (ts.getD (min pos (ts.length - 1)) Token.stop),
      if pos < ts.length - 1 then pos + 1 else pos, .zero⟩

/-- Takes one symbol, which has to be the given one. -/
def expect (s : Symbol) : Reader Unit := do
  let t ← current
  if t.kind = s then
    let _ ← advance
    return ()
  else settled (.error (.expected s.text t.display))

/-- Counts a reader as an expression. -/
def entered {α : Type} (x : Reader α) : Reader α :=
  fun ts pos => (x ts pos).map fun tr => { tr with cost := tr.cost.enter }

def turn : Reader Unit :=
  fun _ pos => some ⟨.ok (), pos, ⟨0, 0, 1⟩⟩

/-! ## The parser -/

def params : (fuel : Nat) → Reader (List String)
  | 0 => exhausted
  | fuel + 1 => do
    let t ← current
    if t.kind = .colon then
      expect .colon
      return []
    else
      turn
      match t with
      | .name p =>
        let _ ← advance
        let next ← current
        if next.kind = .comma then
          let _ ← advance
          let ps ← params fuel
          return p :: ps
        else
          expect .colon
          return [p]
      | t => settled (.error (.expected "parameter name" t.display))

mutual

/-- An expression whose joining symbols all bind more strongly than `power`. -/
def expression : (fuel : Nat) → (power : Nat) → Reader Expr
  | 0, _ => exhausted
  | fuel + 1, power => entered do
    let t ← advance
    let left ← opened fuel t
    extended fuel power left

def opened : (fuel : Nat) → Token → Reader Expr
  | 0, _ => exhausted
  | fuel + 1, t =>
    match t.kind.opening? with
    | none => settled (.error (.undefinedPrefix t.display))
    | some .literal => settled (literal t)
    | some .constant => return constant t.kind
    | some (.operator power) => do
      let operand ← expression fuel power
      settled (applyPrefix t operand)
    | some .group => do
      let x ← sequence fuel .parenClose
      return group x.1 x.2
    | some .list => do
      let x ← sequence fuel .bracketClose
      return .list x.1
    | some .dict => do
      let es ← entries fuel
      return .dict es
    | some .lambda => do
      let ps ← params fuel
      let body ← expression fuel 0
      return .lambda ps body

/-- Extends an expression as long as the symbol at hand binds more strongly than `power`. -/
def extended : (fuel : Nat) → (power : Nat) → Expr → Reader Expr
  | 0, _, _ => exhausted
  | fuel + 1, power, left => do
    let next ← current
    if power < next.kind.power then
      turn
      let t ← advance
      let e ← joined fuel t left
      extended fuel power e
    else return left

/-- The expression that the token `t` makes of `left` and what follows. -/
def joined : (fuel : Nat) → Token → Expr → Reader Expr
  | 0, _, _ => exhausted
  | fuel + 1, t, left =>
    match t.kind.joining? with
    | none => settled (.error (.undefinedInfix t.display))
    | some (.operator power) => do
      let right ← expression fuel power
      settled (applyInfix t left right)
    | some .comparator => do
      let right ← expression fuel comparatorPower
      let links ← chain fuel
      return .compare left ((CompareOp.ofSymbol t.kind, right) :: links)
    | some .keywordArgument => do
      let n ← settled (keywordName left)
      let value ← expression fuel 0
      return .keyword n value
    | some .conditional => do
      let test ← expression fuel 0
      expect .kwElse
      let orelse ← expression fuel 0
      return .conditional left test orelse
    | some .attr => do
      let t ← current
      match t with
      | .name n =>
        let _ ← advance
        return .attr left n
      | t => settled (.error (.attributeName t.display))
    | some .call => do
      let x ← sequence fuel .parenClose
      return .call left x.1
    | some .subscript => do
      let index ← expression fuel 0
      expect .bracketClose
      return .subscript left index

/-- The links of a chain of comparisons after its first. -/
def chain : (fuel : Nat) → Reader (List (CompareOp × Expr))
  | 0 => exhausted
  | fuel + 1 => do
    let next ← current
    if next.kind.isComparator = true then
      turn
      let t ← advance
      let right ← expression fuel comparatorPower
      let links ← chain fuel
      return (CompareOp.ofSymbol t.kind, right) :: links
    else return []

/-- Expressions with commas between them up to the symbol `close`, a comma after the last one
allowed, and whether there was a comma. -/
def sequence : (fuel : Nat) → (close : Symbol) → Reader (List Expr × Bool)
  | 0, _ => exhausted
  | fuel + 1, close => do
    let t ← current
    if t.kind = close then
      expect close
      return ([], false)
    else
      turn
      let e ← expression fuel 0
      let next ← current
      if next.kind = .comma then
        let _ ← advance
        let x ← sequence fuel close
        return (e :: x.1, true)
      else
        expect close
        return ([e], false)

def entries : (fuel : Nat) → Reader (List (Expr × Expr))
  | 0 => exhausted
  | fuel + 1 => do
    let t ← current
    if t.kind = .braceClose then
      expect .braceClose
      return []
    else
      turn
      let k ← expression fuel 0
      expect .colon
      let v ← expression fuel 0
      let next ← current
      if next.kind = .comma then
        let _ ← advance
        let es ← entries fuel
        return (k, v) :: es
      else
        expect .braceClose
        return [(k, v)]

end

/-- The last token is an end marker. -/
def Terminated (ts : List Token) : Prop :=
  ts.getLast?.map Token.kind = some .stop

instance (ts : List Token) : Decidable (Terminated ts) :=
  inferInstanceAs (Decidable (_ = _))

/-- The expression that a token list is. The list has to end in an end marker and hold exactly one
expression before it. -/
def parse (fuel : Nat) : Reader Expr :=
  fun ts pos =>
    if Terminated ts then
      (do
        let e ← expression fuel 0
        let t ← current
        if t.kind = .stop then return e
        else settled (.error (.trailingInput t.display)) : Reader Expr) ts pos
    else some ⟨.error .missingEnd, pos, .zero⟩

end FilterLang.Cursor
