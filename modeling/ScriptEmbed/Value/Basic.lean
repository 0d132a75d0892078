import ScriptEmbed.Number.FloatReading
import ScriptEmbed.Number.Shortest
import ScriptEmbed.Number.Word

/-!
# Values of expressions

Evaluation works on integers, floating-point numbers, texts and truth values. The argument of a
macro is a text: where it looks like a number it is read as one, and the result of a computed
macro is written back as text.

* `Value` — the values, with `Value.kind`;
* `Value.isTruthy` — the truth of a value in a condition;
* `Value.text` — the text of a value;
* `Value.ofArgument` — the value of an argument.
-/

namespace ScriptEmbed

/-- The kinds of values. -/
inductive Kind where
  | int | float | str | bool
  deriving DecidableEq, Repr

/-- The name of a kind in messages. -/
def Kind.name : Kind → String
  | int => "int"
  | float => "float"
  | str => "str"
  | bool => "bool"

/-- A value. -/
inductive Value where
  | int (value : Int64)
  | float (value : Float)
  | str (value : Text)
  | bool (value : Bool)
  deriving Inhabited

namespace Value

/-- The kind of a value. -/
def kind : Value → Kind
  | int _ => .int
  | float _ => .float
  | str _ => .str
  | bool _ => .bool

/-- A number is true unless it is zero, and a text unless it is empty. -/
def isTruthy : Value → Bool
  | int i => i != 0
  | float x => x != 0.0
  | str s => !s.isEmpty
  | bool b => b

/-- The text of a value. -/
def text : Value → Text
  | int i => Word.numeral i
  | float x => Shortest.text x
  | str s => s
  | bool b => if b then "true".toList else "false".toList

/-- The value as a floating-point number, if it is a number. -/
def toFloat? : Value → Option Float
  | int i => some i.toFloat
  | float x => some x
  | _ => none

/-! ### Arguments -/

/-- At least one digit, and besides digits only points, signs and exponent letters. The words
for infinity and for no number do not look like numbers. -/
def looksNumeric (t : Text) : Bool :=
  t.any Decimal.isDigit &&
    t.all fun c => Decimal.isDigit c || c == '.' || c == '-' || c == '+' || c == 'e' || c == 'E'

/-- The value of an argument: blanks around a number do not count, and a text that is no number
is kept as it is. -/
def ofArgument (t : Text) : Value :=
  let core := Text.trim t
  match Word.read? core with
  | some i => int i
  | none =>
    if looksNumeric core then
      match FloatReading.read? core with
      | some x => float x
      | none => str t
    else str t

end Value

end ScriptEmbed
