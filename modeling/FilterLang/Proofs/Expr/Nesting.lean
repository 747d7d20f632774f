import FilterLang.Proofs.Expr.Rendering
import FilterLang.Proofs.Text.Nested
/-!
Displays are nested lists.

The display of an expression is a nested list written out (`display_eq_render`). The list begins
with a word for the kind of expression. That word tells the kind (`headOf_nested`), except that a
sign can be a unary operator or a binary one, which the number of parts after it tells. The parts
are words and nested lists.
-/

namespace FilterLang

open Text (IsBareWord Nested)

namespace Expr

/-! ## The kinds of expressions -/

/-- What an expression is, without its parts. -/
inductive Head where
  | name | number | str | const
  | unary (op : UnaryOp)
  | not
  | binary (op : BinaryOp)
  | and | or | compare | call | keyword | attr | subscript | tuple | list | dict | conditional
  | lambda
deriving DecidableEq

namespace Head

/-- The word at the beginning of a display. -/
def word : Head → String
  | name => "name"
  | number => "number"
  | str => "string"
  | const => "constant"
  | unary op => op.text
  | not => "not"
  | binary op => op.text
  | and => "and"
  | or => "or"
  | compare => "comparator"
  | call => "call"
  | keyword => "="
  | attr => "."
  | subscript => "["
  | tuple => "tuple"
  | list => "list"
  | dict => "dict"
  | conditional => "if"
  | lambda => "lambda"

/-- The kinds whose words are all different. -/
def several : List Head :=
  [name, number, str, const, not, and, or, compare, call, keyword, attr, subscript, tuple, list,
    dict, conditional, lambda] ++
    [.add, .sub, .mul, .div, .floorDiv, .mod, .pow, .shiftLeft, .shiftRight, .bitAnd, .bitXor,
      .bitOr].map binary

/-- The kinds with one part that have a sign for a word. -/
def signed : List Head :=
  [unary .negate, unary .plus, unary .invert]

/-- The kind with a word. A sign before a single part is a unary operator. -/
def ofWord? (single : Bool) (w : String) : Option Head :=
  (if single then signed ++ several else several).find? fun h => h.word == w

theorem isBareWord_word (h : Head) : IsBareWord h.word.toList := by
  cases h with
  | unary op | binary op => cases op <;> exact Text.isBareWord_iff.mp rfl
  | _ => exact Text.isBareWord_iff.mp rfl

end Head

def head : Expr → Head
  | name _ => .name
  | number _ => .number
  | str .. => .str
  | const _ => .const
  | unary op _ => .unary op
  | not _ => .not
  | binary op _ _ => .binary op
  | and .. => .and
  | or .. => .or
  | compare .. => .compare
  | call .. => .call
  | keyword .. => .keyword
  | attr .. => .attr
  | subscript .. => .subscript
  | tuple _ => .tuple
  | list _ => .list
  | dict _ => .dict
  | conditional .. => .conditional
  | lambda .. => .lambda

end Expr

def CompareOp.words : CompareOp → List String
  | notIn => ["not", "in"]
  | notSame => ["is", "not"]
  | op => [op.text]

namespace Expr

/-! ## Expressions as nested lists -/

def node (h : Head) (parts : List Nested) : Nested :=
  .list (.word h.word :: parts)

mutual

def nested : Expr → Nested
  | name n => node .name [.word n]
  | number x => node .number [.word (Decimal.plain x)]
  | str raw _ => node .str [.word raw]
  | const c => node .const [.word c.text]
  | unary op e => node (.unary op) [e.nested]
  | not e => node .not [e.nested]
  | binary op l r => node (.binary op) [l.nested, r.nested]
  | and l r => node .and [l.nested, r.nested]
  | or l r => node .or [l.nested, r.nested]
  | compare first links => node .compare (first.nested :: nestedLinks links)
  | call callee args => node .call (callee.nested :: nestedAll args)
  | keyword n value => node .keyword [.word n, value.nested]
  | attr object n => node .attr [object.nested, .word n]
  | subscript object index => node .subscript [object.nested, index.nested]
  | tuple items => node .tuple (nestedAll items)
  | list items => node .list (nestedAll items)
  | dict entries => node .dict (nestedEntries entries)
  | conditional body test orelse => node .conditional [test.nested, body.nested, orelse.nested]
  | lambda params body => node .lambda [.list (params.map .word), body.nested]

def nestedAll : List Expr → List Nested
  | [] => []
  | e :: rest => e.nested :: nestedAll rest

/-- The links of a chain of comparisons: words of operators, and operands between them. -/
def nestedLinks : List (CompareOp × Expr) → List Nested
  | [] => []
  | l :: rest => nestedLink l ++ nestedLinks rest

/-- The words of an operator and its right operand. -/
def nestedLink : CompareOp × Expr → List Nested
  | (op, e) => op.words.map .word ++ [e.nested]

def nestedEntries : List (Expr × Expr) → List Nested
  | [] => []
  | e :: rest => nestedEntry e :: nestedEntries rest

/-- An entry of a dict is a list of two. -/
def nestedEntry : Expr × Expr → Nested
  | (k, v) => .list [k.nested, v.nested]

end

theorem nestedAll_eq_map (items : List Expr) : nestedAll items = items.map nested := by
  induction items with
  | nil => rfl
  | cons e rest ih => rw [nestedAll, ih, List.map_cons]

theorem nestedEntries_eq_map (entries : List (Expr × Expr)) :
    nestedEntries entries = entries.map nestedEntry := by
  induction entries with
  | nil => rfl
  | cons e rest ih => rw [nestedEntries, ih, List.map_cons]

theorem nestedLinks_eq_flatMap (links : List (CompareOp × Expr)) :
    nestedLinks links = links.flatMap nestedLink := by
  induction links with
  | nil => rfl
  | cons l rest ih => rw [nestedLinks, ih, List.flatMap_cons]

theorem render_node (h : Head) (parts : List Nested) :
    (node h parts).render = '(' :: (h.word.toList ++ Nested.renderMore parts) := rfl

theorem renderMore_link (op : CompareOp) (parts : List Nested) :
    Nested.renderMore (op.words.map .word ++ parts) =
      ' ' :: (op.text.toList ++ Nested.renderMore parts) := by
  cases op <;> rfl

theorem renderItems_words (params : List String) :
    Nested.renderItems (params.map .word) = (String.intercalate " " params).toList ++ [')'] := by
  have hblank : (" " : String).toList = [' '] := rfl
  rw [String.toList_intercalate, hblank]
  induction params with
  | nil => rfl
  | cons p rest ih =>
    cases rest with
    | nil => simp [Nested.renderItems, Nested.render, Nested.renderMore]
    | cons q rest =>
      simp only [List.map_cons, Nested.renderItems, Nested.renderMore] at ih ⊢
      rw [ih]
      simp [Nested.render]

/-! ## Displays -/

@[simp] theorem toList_close : (")" : String).toList = [')'] := rfl

mutual

/-- The display of an expression is its nested list written out. -/
theorem display_eq_render : (e : Expr) → e.display.toList = e.nested.render
  | name _ | number _ | str _ _ | const _ => by
    simp only [display, String.toList_append, List.append_assoc]
    rfl
  | unary _ e | not e | keyword _ e | attr e _ => by
    simp only [display, String.toList_append, List.append_assoc, display_eq_render e]
    rfl
  | binary _ l r | and l r | or l r | subscript l r => by
    simp only [display, String.toList_append, List.append_assoc, display_eq_render l,
      display_eq_render r]
    rfl
  | conditional body test orelse => by
    simp only [display, String.toList_append, List.append_assoc, display_eq_render body,
      display_eq_render test, display_eq_render orelse]
    rfl
  | lambda params body => by
    have hparams (rest : List Char) :
        (String.intercalate " " params).toList ++ (") ".toList ++ rest) =
          Nested.renderItems (params.map .word) ++ ' ' :: rest := by
      rw [renderItems_words, List.append_assoc]
      rfl
    simp only [display, String.toList_append, List.append_assoc, display_eq_render body, hparams,
      nested, render_node, Nested.renderMore, Nested.render, List.cons_append]
    rfl
  | compare first links => by
    simp only [display, String.toList_append, List.append_assoc, display_eq_render first,
      toList_close, displayLinks_eq_render links]
    rfl
  | call callee args => by
    simp only [display, String.toList_append, List.append_assoc, display_eq_render callee,
      toList_close, displayAll_eq_render args]
    rfl
  | tuple items | list items => by
    simp only [display, String.toList_append, List.append_assoc, toList_close,
      displayAll_eq_render items]
    rfl
  | dict entries => by
    simp only [display, String.toList_append, List.append_assoc, toList_close,
      displayEntries_eq_render entries]
    rfl

theorem displayAll_eq_render : (items : List Expr) →
    (displayAll items).toList ++ [')'] = Nested.renderMore (nestedAll items)
  | [] => rfl
  | e :: rest => by
    simp only [displayAll, String.toList_append, List.append_assoc, display_eq_render e,
      displayAll_eq_render rest]
    rfl

theorem displayLinks_eq_render : (links : List (CompareOp × Expr)) →
    (displayLinks links).toList ++ [')'] = Nested.renderMore (nestedLinks links)
  | [] => rfl
  | (op, e) :: rest => by
    simp only [displayLinks, displayLink, nestedLinks, nestedLink, String.toList_append,
      List.append_assoc, display_eq_render e, displayLinks_eq_render rest]
    rw [renderMore_link]
    rfl

theorem displayEntries_eq_render : (entries : List (Expr × Expr)) →
    (displayEntries entries).toList ++ [')'] = Nested.renderMore (nestedEntries entries)
  | [] => rfl
  | (k, v) :: rest => by
    simp only [displayEntries, displayEntry, nestedEntries, nestedEntry, String.toList_append,
      List.append_assoc, display_eq_render k, display_eq_render v, displayEntries_eq_render rest]
    simp only [Nested.renderMore, Nested.render, Nested.renderItems, List.append_assoc,
      toList_close, List.cons_append, List.nil_append]
    rfl

end

/-! ## Kinds are read off -/

/-- The kind of the expression that a nested list is. -/
def headOf? : Nested → Option Head
  | .list (.word w :: parts) => Head.ofWord? (parts.length == 1) w
  | _ => none

/-- A kind with a word of its own is told without the number of parts. -/
theorem headOf_node {h : Head} (parts : List Nested)
    (hword : ∀ single, Head.ofWord? single h.word = some h) : headOf? (node h parts) = some h :=
  hword (parts.length == 1)

theorem headOf_nested (e : Expr) : headOf? e.nested = some e.head := by
  cases e with
  | unary op _ => cases op <;> rfl
  | binary op _ _ => cases op <;> rfl
  | compare first links => exact headOf_node _ fun single => by cases single <;> rfl
  | call callee args => exact headOf_node _ fun single => by cases single <;> rfl
  | tuple items => exact headOf_node _ fun single => by cases single <;> rfl
  | list items => exact headOf_node _ fun single => by cases single <;> rfl
  | dict entries => exact headOf_node _ fun single => by cases single <;> rfl
  | _ => rfl

theorem head_of_nested {e e' : Expr} (h : e.nested = e'.nested) : e.head = e'.head := by
  apply Option.some.inj
  rw [← headOf_nested, h, headOf_nested]

end Expr

end FilterLang
