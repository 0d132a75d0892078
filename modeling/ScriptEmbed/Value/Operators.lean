import ScriptEmbed.Value.Error
import ScriptEmbed.Number.Binary64

/-!
# Operators on values

Two integers are combined as integers and any other two numbers as floating-point numbers.
Division comes out rounded down, and a remainder has the sign of the divisor. Texts are joined
by `+`, repeated by `*` and ordered by their characters.

* `Value.applyUnary`, `Value.applyBinary` — the operators other than `and` and `or`;
* `Value.equal`, `Value.order?` — equality and order;
* `Value.charAt` — the character of a text at an index.
-/

namespace ScriptEmbed.Value

/-! ### Signs and negation -/

/-- A sign or `not` before an operand. -/
def applyUnary : UnaryOp → Value → Except EvalError Value
  | .not, v => .ok (bool !v.isTruthy)
  | .neg, int i =>
    match Word.neg? i with
    | some r => .ok (int r)
    | none => .error .overflow
  | .neg, float x => .ok (float (-x))
  | .plus, int i => .ok (int i)
  | .plus, float x => .ok (float x)
  | op, v => .error (.unsupportedOperand (.unary op) v.kind)

/-! ### Arithmetic -/

/-- The longest text, in bytes, that repetition may produce. -/
def repetitionLimit : Nat := 16777216

/-- A text a number of times over; none for a negative number. -/
def repeated (s : Text) (count : Int64) : Except EvalError Value :=
  let n := count.toInt.toNat
  if s.isEmpty then .ok (str [])
  else if Text.byteSize s * n ≤ repetitionLimit then .ok (str (List.replicate n s).flatten)
  else .error .overflow

/-- An operator on two integers. -/
def intArithmetic (op : BinaryOp) (a b : Int64) : Except EvalError Value :=
  let exact : Option Int64 → Except EvalError Value := fun
    | some r => .ok (int r)
    | none => .error .overflow
  match op with
  | .add => exact (Word.add? a b)
  | .sub => exact (Word.sub? a b)
  | .mul => exact (Word.mul? a b)
  | .div | .floorDiv => if b = 0 then .error .divisionByZero else exact (Word.floorDiv? a b)
  | .mod => if b = 0 then .error .divisionByZero else exact (Word.floorMod? a b)
  | _ => .error .overflow

/-- An operator on two floating-point numbers. -/
def floatArithmetic (op : BinaryOp) (a b : Float) : Except EvalError Value :=
  let divided : Float → Except EvalError Value := fun r =>
    if b == 0.0 then .error .divisionByZero else .ok (float r)
  match op with
  | .add => .ok (float (a + b))
  | .sub => .ok (float (a - b))
  | .mul => .ok (float (a * b))
  | .div => divided (a / b)
  | .floorDiv => divided (a / b).floor
  | .mod => divided (Binary64.floorRemainder a b)
  | _ => .error (.unsupportedOperands (.binary op) .float .float)

/-- An arithmetic operator. -/
def arithmetic : BinaryOp → Value → Value → Except EvalError Value
  | .add, str a, str b => .ok (str (a ++ b))
  | .mul, str s, int n => repeated s n
  | .mul, int n, str s => repeated s n
  | op, int a, int b => intArithmetic op a b
  | op, l, r =>
    match l.toFloat?, r.toFloat? with
    | some a, some b => floatArithmetic op a b
    | _, _ => .error (.unsupportedOperands (.binary op) l.kind r.kind)

/-! ### Equality and order -/

/-- Values of one kind are compared as such, numbers of two kinds as floating-point numbers,
and any other two values differ. -/
def equal : Value → Value → Bool
  | str a, str b => a == b
  | bool a, bool b => a == b
  | int a, int b => a == b
  | l, r =>
    match l.toFloat?, r.toFloat? with
    | some a, some b => a == b
    | _, _ => false

/-- The order of two floating-point numbers, if both are numbers. -/
def floatOrder? (a b : Float) : Option Ordering :=
  if a < b then some .lt else if b < a then some .gt else if a == b then some .eq else none

/-- The order of two values: texts by their characters, integers and other numbers by value. -/
def order? : Value → Value → Option Ordering
  | str a, str b => some (compare a b)
  | int a, int b => some (compare a.toInt b.toInt)
  | l, r =>
    match l.toFloat?, r.toFloat? with
    | some a, some b => floatOrder? a b
    | _, _ => none

/-- The order of two values on behalf of an operator, which is named if they have none. -/
def order (op : BinaryOp) (l r : Value) : Except EvalError Ordering :=
  match order? l r with
  | some o => .ok o
  | none => .error (.unsupportedOperands (.binary op) l.kind r.kind)

/-- An operator other than `and` and `or`. -/
def applyBinary (op : BinaryOp) (l r : Value) : Except EvalError Value :=
  match op with
  | .eq => .ok (bool (equal l r))
  | .ne => .ok (bool !equal l r)
  | .lt => return bool ((← order op l r) == .lt)
  | .le => return bool ((← order op l r) != .gt)
  | .gt => return bool ((← order op l r) == .gt)
  | .ge => return bool ((← order op l r) != .lt)
  | _ => arithmetic op l r

/-! ### Indexing -/

/-- The character of a text at an index; a negative index counts from the end. -/
def charAt : Value → Value → Except EvalError Value
  | str s, int i =>
    let position := if i.toInt < 0 then i.toInt + s.length else i.toInt
    if position < 0 then .error (.indexOutOfRange i s.length)
    else
      match s[position.toNat]? with
      | some c => .ok (str [c])
      | none => .error (.indexOutOfRange i s.length)
  | target, position => .error (.unsupportedOperands .index target.kind position.kind)

end ScriptEmbed.Value
