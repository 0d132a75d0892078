import ScriptEmbed.Expr.Basic

/-!
# Names in scope

A computed macro may only name its parameters and call built-in functions. This is checked once,
when the macro is defined, from left to right and functions before their arguments.

* `ScopeFault` — what a name that is not in scope is;
* `Expr.checkNames` — the first such name.
-/

namespace ScriptEmbed

/-- A name that is not in scope. -/
inductive ScopeFault where
  | unknownName (name : Text)
  | unknownFunction (name : Text)
  deriving DecidableEq, Repr

/-- The wording of a fault. -/
def ScopeFault.message : ScopeFault → String
  | unknownName n => "unknown name '" ++ String.ofList n ++ "'"
  | unknownFunction f => "unknown function '" ++ String.ofList f ++ "'"

namespace Expr

mutual

/-- Fails at the first name that is neither a parameter nor a built-in function. -/
def checkNames (params : List Text) : Expr → Except ScopeFault Unit
  | int _ | float _ | str _ | bool _ => .ok ()
  | name n => if n ∈ params then .ok () else .error (.unknownName n)
  | unary _ e => checkNames params e
  | binary _ l r => do
    checkNames params l
    checkNames params r
  | conditional c y n => do
    checkNames params c
    checkNames params y
    checkNames params n
  | index t p => do
    checkNames params t
    checkNames params p
  | call f args =>
    match Builtin.ofName? f with
    | some _ => checkAllNames params args
    | none => .error (.unknownFunction f)

/-- Checks a list of expressions in order. -/
def checkAllNames (params : List Text) : List Expr → Except ScopeFault Unit
  | [] => .ok ()
  | e :: es => do
    checkNames params e
    checkAllNames params es

end

end Expr

end ScriptEmbed
