import ScriptEmbed.Expr.Eval
import ScriptEmbed.Expr.Parser
import ScriptEmbed.Expr.Scope
import ScriptEmbed.Macro.Template

/-!
# Computed macros

The body of a computed macro is an expression over its parameters. It is read and checked when
the macro is defined; a call evaluates it with the arguments read as values.

* `Computed.compile` — reads and checks the expression;
* `CompileFault` — why that fails;
* `Computed.expand` — the text of the value for given arguments.
-/

namespace ScriptEmbed

/-- A macro given by an expression. The source is kept for listings. -/
structure Computed where
  params : List Text
  source : Text
  expr : Expr

/-- Why a computed macro cannot be defined. -/
inductive CompileFault where
  | notIdentifier (param : Text)
  | expression
  | scope (fault : ScopeFault)
  deriving DecidableEq, Repr

/-- The wording of a fault. -/
def CompileFault.message : CompileFault → String
  | notIdentifier p => "parameter '" ++ String.ofList p ++ "' is not an identifier"
  | expression => "expression syntax"
  | scope f => f.message

namespace Computed

/-- A name made of at least one name character. -/
def isIdentifier (p : Text) : Bool := !p.isEmpty && p.all Text.isNameChar

/-- Reads the expression of a macro with the given parameters. The parameters are checked
first, then the syntax, then the names. -/
def compile (params : List Text) (source : Text) : Except CompileFault Computed :=
  match params.find? fun p => !isIdentifier p with
  | some p => .error (.notIdentifier p)
  | none =>
    match Expr.parse? source with
    | none => .error .expression
    | some e =>
      match e.checkNames params with
      | .error f => .error (.scope f)
      | .ok () => .ok ⟨params, source, e⟩

/-- The values of the arguments. -/
def scope (bindings : Bindings) : Scope := bindings.map fun b => (b.1, Value.ofArgument b.2)

/-- The text of the value for the given arguments. -/
def expand (c : Computed) (bindings : Bindings) : Except EvalError Text :=
  (c.expr.eval (scope bindings)).map Value.text

end Computed

end ScriptEmbed
