import ScriptEmbed.Value.Operators

/-!
# Built-in functions

* `Value.callBuiltin` — the value of a built-in function at given arguments;
* `Value.toInt`, `Value.toFloat` — the conversions to numbers;
* `Value.extremum` — the first of the least or greatest arguments.
-/

namespace ScriptEmbed.Value

/-! ### Conversions -/

/-- A floating-point number without its fraction, if that is a word. -/
def truncated (x : Float) : Except EvalError Value :=
  let t := if x < 0.0 then x.ceil else x.floor
  if -9223372036854775808.0 ≤ t && t < 9223372036854775808.0 then .ok (int t.toInt64)
  else .error .overflow

/-- The word that the text of a value stands for, blanks around it aside. -/
def readInt (v : Value) : Except EvalError Value :=
  match Word.read? (Text.trim v.text) with
  | some i => .ok (int i)
  | none => .error (.invalidConversion .int v.text)

/-- Conversion to an integer. -/
def toInt : Value → Except EvalError Value
  | int i => .ok (int i)
  | float x => if x.isFinite then truncated x else readInt (float x)
  | bool b => .ok (int (if b then 1 else 0))
  | str s => readInt (str s)

/-- Conversion to a floating-point number. -/
def toFloat (v : Value) : Except EvalError Value :=
  match v.toFloat? with
  | some x => .ok (float x)
  | none =>
    match FloatReading.read? (Text.trim v.text) with
    | some x => .ok (float x)
    | none => .error (.invalidConversion .float v.text)

/-- The character with the given code point, if there is one. -/
def character (i : Int64) : Except EvalError Value :=
  let n := i.toInt
  if 0 ≤ n ∧ n.toNat.isValidChar then .ok (str [Char.ofNat n.toNat])
  else .error (.invalidConversion .chr (Word.numeral i))

/-- The code point of a text of one character. -/
def codePoint : Value → Except EvalError Value
  | str [c] => .ok (int (Int64.ofNat c.toNat))
  | v => .error (.invalidConversion .ord v.text)

/-! ### Other functions -/

/-- The number of characters of a text. -/
def length : Value → Except EvalError Value
  | str s => .ok (int (Int64.ofNat s.length))
  | v => .error (.unsupportedOperand (.builtin .len) v.kind)

/-- The distance of a number from zero. -/
def magnitude : Value → Except EvalError Value
  | int i =>
    match Word.abs? i with
    | some r => .ok (int r)
    | none => .error .overflow
  | float x => .ok (float x.abs)
  | v => .error (.unsupportedOperand (.builtin .abs) v.kind)

/-- Each candidate replaces the best value so far if it stands in the given order to it. -/
def extremum (keep : Ordering) (best : Value) : List Value → Except EvalError Value
  | [] => .ok best
  | v :: vs => do
    let o ← order .lt v best
    extremum keep (if o == keep then v else best) vs

/-- The value of a function of one argument. -/
def apply1 (f : Builtin) (g : Value → Except EvalError Value) :
    List Value → Except EvalError Value
  | [v] => g v
  | vs => .error (.builtinArity f .one vs.length)

/-- The value of a built-in function at the given arguments. -/
def callBuiltin (f : Builtin) (args : List Value) : Except EvalError Value :=
  match f with
  | .len => apply1 f length args
  | .ord => apply1 f codePoint args
  | .chr =>
    apply1 f (fun
      | int i => character i
      | v => .error (.unsupportedOperand (.builtin .chr) v.kind)) args
  | .str => apply1 f (fun v => .ok (str v.text)) args
  | .int => apply1 f toInt args
  | .float => apply1 f toFloat args
  | .abs => apply1 f magnitude args
  | .min =>
    match args with
    | [] => .error (.builtinArity f .atLeastOne 0)
    | v :: vs => extremum .lt v vs
  | .max =>
    match args with
    | [] => .error (.builtinArity f .atLeastOne 0)
    | v :: vs => extremum .gt v vs

end ScriptEmbed.Value
