import ScriptEmbed.Macro.Computed

/-!
# Macros

A macro is a template or an expression. Both turn one argument per parameter into the text that
replaces a call.
-/

namespace ScriptEmbed

/-- The body of a declared macro. -/
inductive Macro where
  | template (t : Template)
  | computed (c : Computed)

namespace Macro

/-- The parameters in declaration order. -/
def params : Macro → List Text
  | template t => t.params
  | computed c => c.params

/-- The body as written. -/
def source : Macro → Text
  | template t => t.body
  | computed c => c.source

/-- Each parameter with its argument; what is left over on either side is ignored. -/
def bind (m : Macro) (args : List Text) : Bindings := m.params.zip args

/-- The text that replaces a call with the given arguments. -/
def expand (m : Macro) (mode : Substitution) (args : List Text) : Except EvalError Text :=
  match m with
  | template t => .ok (t.expand mode (m.bind args))
  | computed c => c.expand (m.bind args)

end Macro

end ScriptEmbed
