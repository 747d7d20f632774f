import FilterLang.Decimal.Layout
/-!
Tokens and the symbols of the grammar.

A symbol is what the grammar looks at; a token is a symbol together with what its
source text says. Keywords, operators and punctuation have one spelling each, so
their tokens carry nothing else.
-/

namespace FilterLang

inductive Symbol where
  | number | string | name | stop
  | constNone | constTrue | constFalse
  | kwAnd | kwOr | kwNot | kwIn | kwNotIn | kwIs | kwIsNot | kwIf | kwElse | kwLambda
  | parenOpen | parenClose | bracketOpen | bracketClose | braceOpen | braceClose
  | colon | comma | dot | assign
  | lt | le | gt | ge | diamond | ne | eq
  | pipe | caret | ampersand | shiftLeft | shiftRight
  | plus | minus | star | slash | doubleSlash | percent | doubleStar | tilde
deriving DecidableEq

namespace Symbol

/-- The spelling of a symbol; the kinds of literals are named in parentheses. -/
def text : Symbol → String
  | number => "(number)"
  | string => "(string)"
  | name => "(name)"
  | stop => "(end)"
  | constNone => "None"
  | constTrue => "True"
  | constFalse => "False"
  | kwAnd => "and"
  | kwOr => "or"
  | kwNot => "not"
  | kwIn => "in"
  | kwNotIn => "not in"
  | kwIs => "is"
  | kwIsNot => "is not"
  | kwIf => "if"
  | kwElse => "else"
  | kwLambda => "lambda"
  | parenOpen => "("
  | parenClose => ")"
  | bracketOpen => "["
  | bracketClose => "]"
  | braceOpen => "\x7b"
  | braceClose => "\x7d"
  | colon => ":"
  | comma => ","
  | dot => "."
  | assign => "="
  | lt => "<"
  | le => "<="
  | gt => ">"
  | ge => ">="
  | diamond => "<>"
  | ne => "!="
  | eq => "=="
  | pipe => "|"
  | caret => "^"
  | ampersand => "&"
  | shiftLeft => "<<"
  | shiftRight => ">>"
  | plus => "+"
  | minus => "-"
  | star => "*"
  | slash => "/"
  | doubleSlash => "//"
  | percent => "%"
  | doubleStar => "**"
  | tilde => "~"

/-- The symbols that are written as one word. -/
def keywords : List Symbol :=
  [constNone, constTrue, constFalse, kwAnd, kwOr, kwNot, kwIn, kwIs, kwIf, kwElse, kwLambda]

/-- The symbols that are written in punctuation. -/
def operators : List Symbol :=
  [parenOpen, parenClose, bracketOpen, bracketClose, braceOpen, braceClose, colon, comma, dot,
    assign, lt, le, gt, ge, diamond, ne, eq, pipe, caret, ampersand, shiftLeft, shiftRight, plus,
    minus, star, slash, doubleSlash, percent, doubleStar, tilde]

/-- The keyword or constant that a word is. -/
def keyword? (word : String) : Option Symbol :=
  keywords.find? fun s => s.text == word

def operator? (spelling : String) : Option Symbol :=
  operators.find? fun s => s.text == spelling

end Symbol

inductive Token where
  /-- A number with the digits it was written in. -/
  | number (digits : String) (value : Float)
  /-- A string: the letter before the quote if there is one, the quote, and what
  stands between the quotes, escapes and all. -/
  | string (mark : Option Char) (quote : Char) (content : String)
  /-- A name that is not a keyword. -/
  | name (word : String)
  /-- A keyword, an operator, punctuation or the end marker. -/
  | symbol (s : Symbol)

namespace Token

/-- The marker that ends every token list. -/
def stop : Token := .symbol .stop

/-- The symbol that the grammar sees. -/
def kind : Token → Symbol
  | number _ _ => .number
  | string _ _ _ => .string
  | name _ => .name
  | symbol s => s

/-- The source text of a token, without the suffix of a long number. -/
def lexeme : Token → String
  | number digits _ => digits
  | string mark quote content =>
    String.ofList (mark.toList ++ quote :: (content.toList ++ [quote]))
  | name word => word
  | symbol .stop => ""
  | symbol s => s.text

/-- A token as listings and error messages show it. -/
def display : Token → String
  | number _ value => "(number " ++ Decimal.plain value ++ ")"
  | string _ _ content => "(string " ++ content ++ ")"
  | name word => "(name " ++ word ++ ")"
  | symbol .constNone => "(constant None)"
  | symbol .constTrue => "(constant True)"
  | symbol .constFalse => "(constant False)"
  | symbol s => s.text

end Token

end FilterLang
