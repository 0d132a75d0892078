import ScriptEmbed.Definitions.Reader

/-!
# Failures of the macro language

* `MacroError` — why definitions cannot be read or a text cannot be expanded;
* `MacroError.message` — the wording.
-/

namespace ScriptEmbed

/-- Why definitions cannot be read, or a text cannot be expanded or is refused. -/
inductive MacroError where
  | definition (error : LineError)
  | forbidden (file message : Text)
  | arity (name : Text) (expected found : Nat)
  | recursion (name : Text) (chain : List Text)
  | unterminated (name : Text) (offset : Nat)
  | evaluation (name : Text) (cause : EvalError)
  | pattern
  deriving DecidableEq, Repr

namespace MacroError

/-- The wording of a failure. -/
def message : MacroError → String
  | definition e => e.message
  | forbidden file text => String.ofList text ++ ": " ++ String.ofList file
  | arity n expected found =>
    "Macro " ++ String.ofList n ++ " expects " ++ String.ofList (Decimal.digits expected) ++
      " argument(s), found " ++ String.ofList (Decimal.digits found)
  | recursion n chain =>
    "Recursive expansion of macro " ++ String.ofList n ++ " (active: " ++
      String.ofList (Text.join " -> ".toList chain) ++ ")"
  | unterminated n offset =>
    "Unterminated invocation of macro " ++ String.ofList n ++ " at offset " ++
      String.ofList (Decimal.digits offset)
  | evaluation n cause => "Computed macro " ++ String.ofList n ++ " failed: " ++ cause.message
  | pattern => "Invalid pattern"

end MacroError

end ScriptEmbed
