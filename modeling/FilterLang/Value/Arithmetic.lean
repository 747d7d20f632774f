import FilterLang.Value.Compare
/-!
The arithmetic and bitwise operators.

Numbers are floating point numbers; the bitwise operators and the shifts take
whole ones of 64 bits. Truth values have the bitwise operators, texts and
sequences addition and repetition. Everything else is up to the special methods
of the operands.
-/

namespace FilterLang

namespace BinaryOp

/-- The special method of the left operand. -/
def method : BinaryOp → String
  | add => "__add__"
  | sub => "__sub__"
  | mul => "__mul__"
  | div => "__div__"
  | floorDiv => "__floordiv__"
  | mod => "__mod__"
  | pow => "__pow__"
  | shiftLeft => "__lshift__"
  | shiftRight => "__rshift__"
  | bitAnd => "__and__"
  | bitXor => "__xor__"
  | bitOr => "__or__"

/-- The special method of the right operand. -/
def reflected : BinaryOp → String
  | add => "__radd__"
  | sub => "__rsub__"
  | mul => "__rmul__"
  | div => "__rdiv__"
  | floorDiv => "__rfloordiv__"
  | mod => "__rmod__"
  | pow => "__rpow__"
  | shiftLeft => "__rlshift__"
  | shiftRight => "__rrshift__"
  | bitAnd => "__rand__"
  | bitXor => "__rxor__"
  | bitOr => "__ror__"

end BinaryOp

/-- A bitwise operation on integers of 64 bits. -/
def onWords (op : BitVec 64 → BitVec 64 → BitVec 64) (x y : Int) : Int :=
  (op (BitVec.ofInt 64 x) (BitVec.ofInt 64 y)).toInt

/-- The shifts and bitwise operators on whole numbers. -/
def wholeArith (op : BinaryOp) (x y : Int) : Outcome Float :=
  match op with
  | .shiftLeft =>
    if y < 0 then .error (.value .shiftCount)
    else .ok (Number.ofInt x * Number.powerOfTwo y.toNat)
  | .shiftRight =>
    if y < 0 then .error (.value .shiftCount)
    else .ok (Number.floor (Number.ofInt x / Number.powerOfTwo y.toNat))
  | .bitAnd => .ok (Number.ofInt (onWords (· &&& ·) x y))
  | .bitXor => .ok (Number.ofInt (onWords (· ^^^ ·) x y))
  | _ => .ok (Number.ofInt (onWords (· ||| ·) x y))

/-- An operator on two numbers. The bitwise operators and the shifts have no
answer for numbers that are not whole. -/
def numberArith (op : BinaryOp) (x y : Numeric) : Outcome (Option Numeric) :=
  match op with
  | .add => .ok (some (.map₂ (· + ·) x y))
  | .sub => .ok (some (.map₂ (· - ·) x y))
  | .mul => .ok (some (.map₂ (· * ·) x y))
  | .div =>
    if y.float == 0.0 then .error (.division .quotient) else .ok (some (.map₂ (· / ·) x y))
  | .floorDiv =>
    if y.float == 0.0 then .error (.division .floorQuotient)
    else .ok (some (.map₂ (fun a b => (Number.divMod a b).1) x y))
  | .mod =>
    if y.float == 0.0 then .error (.division .modulo)
    else .ok (some (.map₂ (fun a b => (Number.divMod a b).2) x y))
  | .pow =>
    if x.float == 0.0 && y.float < 0.0 then .error (.division .power)
    else if x.float < 0.0 && Number.fraction y.float != 0.0 then
      .error (.value .fractionalPower)
    else .ok (some (x.power y))
  | op =>
    match Number.integral? x.float, Number.integral? y.float with
    | some m, some n => (wholeArith op m n).map fun r => some (.withSign r true)
    | _, _ => .ok none

namespace Value

/-- The items of a list of values, `n` times over. -/
def repeatItems (items : List Value) (n : Nat) : List Value :=
  (List.replicate n items).flatten

/-- A text or a sequence, as many times over as a number says. -/
def repeated (site : Identity) (sequence : Value) (count : Float) : Outcome Value :=
  match Number.integral? count with
  | none => .error (.type (.repeatCount "float"))
  | some n =>
    match sequence with
    | str s => .ok (.str (String.join (List.replicate n.toNat s)))
    | tuple _ items => .ok (.tuple site (repeatItems items n.toNat))
    | v => .ok (.list site (repeatItems ((v.listItems? site).getD []) n.toNat))

/-- Whether a value can be repeated. -/
def isSequence : Value → Bool
  | str _ | tuple .. | list .. | nativeList .. => true
  | _ => false

/-- An operator on two values of built-in kinds, if they have it. -/
def nativeArith (site : Identity) (op : BinaryOp) (a b : Value) : Outcome (Option Value) :=
  match op, a, b with
  | op, float x, float y => do return (← numberArith op x y).map .float
  | .bitAnd, bool x, bool y => .ok (some (.bool (x && y)))
  | .bitOr, bool x, bool y => .ok (some (.bool (x || y)))
  | .bitXor, bool x, bool y => .ok (some (.bool (x ^^ y)))
  | .add, str x, str y => .ok (some (.str (x ++ y)))
  | .add, tuple _ x, tuple _ y => .ok (some (.tuple site (x ++ y)))
  | .add, a, b =>
    match a.listItems? (site.child 0), b.listItems? (site.child 1) with
    | some x, some y => .ok (some (.list site (x ++ y)))
    | _, _ => .ok none
  | .mul, a, float n =>
    if a.isSequence then (repeated site a n.float).map some else .ok none
  | _, _, _ => .ok none

/-- An operator that the kind of the right operand has: repetition. -/
def nativeReflected (site : Identity) (op : BinaryOp) (a b : Value) : Outcome (Option Value) :=
  match op, a with
  | .mul, float n => if b.isSequence then (repeated site b n.float).map some else .ok none
  | _, _ => .ok none

/-- An arithmetic or bitwise operator on two values: by their kinds, then by the
left operand's method, then by the right operand's. -/
def binary (host : Host) (site : Identity) (op : BinaryOp) (a b : Value) : Outcome Value := do
  match ← nativeArith site op a b with
  | some result => return result
  | none =>
    match ← askOperator host site a op.method b with
    | some result => return result
    | none =>
      match ← nativeReflected site op a b with
      | some result => return result
      | none =>
        match ← askOperator host site b op.reflected a with
        | some result => return result
        | none => throw (.type (.operands op.text a.typeName b.typeName))

/-- A unary operator that only instances can have. -/
def unaryByMethod (host : Host) (site : Identity) (name symbol : String) (v : Value) :
    Outcome Value :=
  match v.special? host name with
  | some m => m.call host site v []
  | none => .error (.type (.unaryOperand symbol v.typeName))

def unary (host : Host) (site : Identity) (op : UnaryOp) (v : Value) : Outcome Value :=
  match op, v with
  | .negate, float x => .ok (.float x.negate)
  | .negate, bool b => .ok (.int (if b then -1 else 0))
  | .negate, v => unaryByMethod host site "__neg__" "-" v
  | .plus, float x => .ok (.float x)
  | .plus, bool b => .ok (.int (if b then 1 else 0))
  | .plus, v => unaryByMethod host site "__pos__" "+" v
  | .invert, v =>
    match v.integer? with
    | some n => .ok (.int (-n - 1))
    | none => unaryByMethod host site "__invert__" "~" v

end Value

end FilterLang
