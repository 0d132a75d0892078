import ScriptEmbed.Value.Builtins

/-!
# Evaluation of expressions

* `Scope` — the values of the parameters;
* `Expr.eval` — the value of an expression in a scope.

`and` and `or` give one of their operands and leave the other unevaluated, as a conditional
leaves one branch. Arguments are evaluated before the function is looked up.
-/

namespace ScriptEmbed

/-- The values of parameters; a later entry hides an earlier one of the same name. -/
abbrev Scope := List (Text × Value)

/-- The value of a parameter. -/
def Scope.find? (scope : Scope) (name : Text) : Option Value :=
  (scope.reverse.find? fun entry => entry.1 == name).map Prod.snd

namespace Expr

mutual

/-- The value of an expression. -/
def eval (scope : Scope) : Expr → Except EvalError Value
  | int i => .ok (.int i)
  | float x => .ok (.float x)
  | str s => .ok (.str s)
  | bool b => .ok (.bool b)
  | name n =>
    match scope.find? n with
    | some v => .ok v
    | none => .error (.unknownName n)
  | unary op e => do Value.applyUnary op (← eval scope e)
  | binary .and l r => do
    let v ← eval scope l
    if v.isTruthy then eval scope r else return v
  | binary .or l r => do
    let v ← eval scope l
    if v.isTruthy then return v else eval scope r
  | binary op l r => do
    let v ← eval scope l
    let w ← eval scope r
    Value.applyBinary op v w
  | conditional c y n => do
    if (← eval scope c).isTruthy then eval scope y else eval scope n
  | index t p => do
    let v ← eval scope t
    let w ← eval scope p
    Value.charAt v w
  | call f args => do
    let vs ← evalAll scope args
    match Builtin.ofName? f with
    | some b => Value.callBuiltin b vs
    | none => .error (.unknownFunction f)

/-- The values of a list of expressions, from the left. -/
def evalAll (scope : Scope) : List Expr → Except EvalError (List Value)
  | [] => .ok []
  | e :: es => do
    let v ← eval scope e
    let vs ← evalAll scope es
    return v :: vs

end

end Expr

end ScriptEmbed
