import ScriptEmbed.Expr.Basic
import ScriptEmbed.Value.Basic

/-!
# Failures of evaluation

* `Operation` — what was applied to operands of the wrong kind;
* `EvalError` — why an expression has no value;
* `EvalError.message` — the wording.
-/

namespace ScriptEmbed

/-- Something that is applied to operands. -/
inductive Operation where
  | unary (op : UnaryOp)
  | binary (op : BinaryOp)
  | index
  | builtin (function : Builtin)
  deriving DecidableEq, Repr

/-- The operation as named in messages. -/
def Operation.symbol : Operation → String
  | unary op => op.symbol
  | binary op => op.symbol
  | index => "[]"
  | builtin f => f.name ++ "()"

/-- The number of arguments that a built-in function takes. -/
inductive Arity where
  | one
  | atLeastOne
  deriving DecidableEq, Repr

/-- The wording of an arity. -/
def Arity.description : Arity → String
  | one => "1"
  | atLeastOne => "at least 1"

/-- Why an expression has no value. -/
inductive EvalError where
  | unsupportedOperands (operation : Operation) (left right : Kind)
  | unsupportedOperand (operation : Operation) (operand : Kind)
  | divisionByZero
  | overflow
  | indexOutOfRange (index : Int64) (length : Nat)
  | unknownName (name : Text)
  | unknownFunction (name : Text)
  | builtinArity (function : Builtin) (expected : Arity) (found : Nat)
  | invalidConversion (function : Builtin) (value : Text)
  deriving DecidableEq, Repr

/-- The wording of a failure. -/
def EvalError.message : EvalError → String
  | unsupportedOperands op l r =>
    "unsupported operand types for " ++ op.symbol ++ ": '" ++ l.name ++ "' and '" ++ r.name ++ "'"
  | unsupportedOperand op k => "bad operand type for unary " ++ op.symbol ++ ": '" ++ k.name ++ "'"
  | divisionByZero => "division by zero"
  | overflow => "integer overflow"
  | indexOutOfRange i len =>
    "index " ++ String.ofList (Word.numeral i) ++ " out of range for length " ++
      String.ofList (Decimal.digits len)
  | unknownName n => "unknown name '" ++ String.ofList n ++ "'"
  | unknownFunction f => "unknown function '" ++ String.ofList f ++ "'"
  | builtinArity f expected found =>
    f.name ++ "() takes " ++ expected.description ++ " argument(s), " ++
      String.ofList (Decimal.digits found) ++ " given"
  | invalidConversion f value =>
    f.name ++ "() cannot convert '" ++ String.ofList value ++ "'"

end ScriptEmbed
