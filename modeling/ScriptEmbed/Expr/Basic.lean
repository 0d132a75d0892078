import ScriptEmbed.Text.Basic

/-!
# Expressions of computed macros

A computed macro carries a small expression over its parameters: literals, names, operators,
conditionals, indexing and calls of built-in functions.

* `UnaryOp`, `BinaryOp` — the operators and their symbols;
* `Builtin` — the functions that can be called;
* `Expr` — expression trees.
-/

namespace ScriptEmbed

/-- An operator with one operand. -/
inductive UnaryOp where
  | neg | plus | not
  deriving DecidableEq, Repr

/-- An operator with two operands. Division comes in a true and a floored form. -/
inductive BinaryOp where
  | add | sub | mul | div | floorDiv | mod
  | eq | ne | lt | le | gt | ge
  | and | or
  deriving DecidableEq, Repr

namespace UnaryOp

/-- The operator as written. -/
def symbol : UnaryOp → String
  | neg => "-"
  | plus => "+"
  | not => "not"

end UnaryOp

namespace BinaryOp

/-- The operator as written. -/
def symbol : BinaryOp → String
  | add => "+"
  | sub => "-"
  | mul => "*"
  | div => "/"
  | floorDiv => "//"
  | mod => "%"
  | eq => "=="
  | ne => "!="
  | lt => "<"
  | le => "<="
  | gt => ">"
  | ge => ">="
  | and => "and"
  | or => "or"

end BinaryOp

/-- A function that an expression can call. -/
inductive Builtin where
  | len | ord | chr | str | int | float | abs | min | max
  deriving DecidableEq, Repr

namespace Builtin

/-- All built-in functions. -/
def all : List Builtin := [len, ord, chr, str, int, float, abs, min, max]

/-- The name a function is called by. -/
def name : Builtin → String
  | len => "len"
  | ord => "ord"
  | chr => "chr"
  | str => "str"
  | int => "int"
  | float => "float"
  | abs => "abs"
  | min => "min"
  | max => "max"

/-- The function with the given name. -/
def ofName? (n : Text) : Option Builtin := all.find? fun b => b.name.toList == n

theorem mem_all (b : Builtin) : b ∈ all := by cases b <;> decide

end Builtin

/-- An expression. Names stand for parameters; only built-in functions can be called, which is
checked when a macro is defined and not by the shape of the tree. -/
inductive Expr where
  | int (value : Int64)
  | float (value : Float)
  | str (value : Text)
  | bool (value : Bool)
  | name (name : Text)
  | unary (op : UnaryOp) (operand : Expr)
  | binary (op : BinaryOp) (left right : Expr)
  | conditional (condition yes no : Expr)
  | index (target position : Expr)
  | call (function : Text) (arguments : List Expr)
  deriving Inhabited

end ScriptEmbed
