import ScriptEmbed.Config.Basic
import ScriptEmbed.Expansion.Invocations

/-!
# Processing a module

A module's text is expanded, checked for forbidden constructs, and, where the configuration says
so, rid of its comments.

* `Pipeline` — definitions and settings for all modules of a build;
* `Pipeline.process` — the text to embed.
-/

namespace ScriptEmbed

/-- What is the same for all modules of a build. -/
structure Pipeline where
  definitions : Definitions
  substitution : Substitution
  validator : Validator
  stripsComments : Bool
  depth : Nat

namespace Pipeline

/-- The pipeline of a configuration, which expands to a given depth. -/
def ofConfig (d : Definitions) (c : Config) (pattern? : PatternReader := Pattern.parse?)
    (depth : Nat := defaultDepth) : Except MacroError Pipeline :=
  match c.validator pattern? with
  | .error e => .error e
  | .ok v => .ok ⟨d, c.substitution, v, c.stripComments, depth⟩

/-- The text to embed for a module; `file` names it in refusals. -/
def process (p : Pipeline) (t file : Text) : Except Stop Text :=
  match p.definitions.expand p.substitution p.depth t with
  | .error e => .error e
  | .ok expanded =>
    match p.validator.validate expanded file with
    | .error e => .error (.failed e)
    | .ok () => .ok (if p.stripsComments then ScriptEmbed.stripComments expanded else expanded)

end Pipeline

end ScriptEmbed
