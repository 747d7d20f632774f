import FilterLang.Token.Basic
/-!
The grammar as a table of binding powers.

A symbol may open an expression, and it may join what follows it to the
expression on its left. It joins only where its binding power exceeds the power
that the expression around it asks for. An operator that groups to the right asks
for one less than its own power on its right.
-/

namespace FilterLang

/-- How a symbol opens an expression. -/
inductive Opening where
  | literal
  | constant
  | operator (power : Nat)
  | group
  | list
  | dict
  | lambda
deriving DecidableEq

/-- How a symbol joins what follows it to the expression on its left. -/
inductive Joining where
  | operator (power : Nat)
  | comparator
  | keywordArgument
  | conditional
  | attr
  | call
  | subscript
deriving DecidableEq

def comparatorPower : Nat := 60

namespace Symbol

/-- How strongly a symbol binds to the expression on its left. -/
def power : Symbol → Nat
  | assign => 10
  | kwLambda | kwIf => 20
  | kwOr => 30
  | kwAnd => 40
  | kwIn | kwNotIn | kwIs | kwIsNot | lt | le | gt | ge | diamond | ne | eq => comparatorPower
  | pipe => 70
  | caret => 80
  | ampersand => 90
  | shiftLeft | shiftRight => 100
  | plus | minus => 110
  | star | slash | doubleSlash | percent => 120
  | doubleStar => 140
  | dot | parenOpen | bracketOpen => 150
  | _ => 0

/-- How a symbol opens an expression, if it can. -/
def opening? : Symbol → Option Opening
  | number | string | name => some .literal
  | constNone | constTrue | constFalse => some .constant
  | kwNot => some (.operator 50)
  | plus | minus | tilde => some (.operator 130)
  | parenOpen => some .group
  | bracketOpen => some .list
  | braceOpen => some .dict
  | kwLambda => some .lambda
  | _ => none

/-- How a symbol joins what follows it to the expression on its left, if it can. -/
def joining? : Symbol → Option Joining
  | kwOr => some (.operator 29)
  | kwAnd => some (.operator 39)
  | pipe => some (.operator 70)
  | caret => some (.operator 80)
  | ampersand => some (.operator 90)
  | shiftLeft | shiftRight => some (.operator 100)
  | plus | minus => some (.operator 110)
  | star | slash | doubleSlash | percent => some (.operator 120)
  | doubleStar => some (.operator 139)
  | kwIn | kwNotIn | kwIs | kwIsNot | lt | le | gt | ge | diamond | ne | eq => some .comparator
  | assign => some .keywordArgument
  | kwIf => some .conditional
  | dot => some .attr
  | parenOpen => some .call
  | bracketOpen => some .subscript
  | _ => none

/-- Whether a symbol continues a chain of comparisons. -/
def isComparator (s : Symbol) : Bool :=
  s.joining? == some .comparator

end Symbol

end FilterLang
