import ScriptEmbed.Comments
import ScriptEmbed.Expansion.Error
import ScriptEmbed.Pattern.Reader

/-!
# Forbidden constructs

An expanded module is refused if one of a list of patterns matches it. Comments are taken out
first, so that a mention in a comment does no harm.

* `Rule` — a pattern as written with the message of a refusal;
* `Rule.defaults` — the rules that apply where no others are given;
* `Validator.ofRules` — the rules with their patterns read, in any notation of patterns;
* `Validator.validate` — refuses a text at the first rule whose pattern matches.
-/

namespace ScriptEmbed

/-- A pattern as written, and the message of a refusal. -/
structure Rule where
  pattern : Text
  message : Text
  deriving DecidableEq, Repr

/-- The rules that apply where no others are given. -/
def Rule.defaults : List Rule :=
  [⟨"\\beval\\s*\\(".toList, "Eval disallowed in natives".toList⟩,
    ⟨"\\bwith\\s*\\(".toList, "With statements disallowed in natives".toList⟩]

/-- Rules with their patterns. -/
structure Validator where
  rules : List (Rule × Pattern Atom)

namespace Validator

/-- Reads the patterns of rules; the first that cannot be read is an error. -/
def ofRules (rules : List Rule) (pattern? : PatternReader := Pattern.parse?) :
    Except MacroError Validator :=
  match rules with
  | [] => .ok ⟨[]⟩
  | r :: rest =>
    match pattern? r.pattern with
    | none => .error .pattern
    | some p =>
      match ofRules rest pattern? with
      | .error e => .error e
      | .ok v => .ok ⟨(r, p) :: v.rules⟩

/-- The first rule whose pattern matches a text without comments. -/
def firstMatch? (v : Validator) (stripped : Text) : Option Rule :=
  (v.rules.find? fun entry => entry.2.isMatch stripped).map Prod.fst

/-- Refuses a text in which a forbidden construct stands outside comments. -/
def validate (v : Validator) (t file : Text) : Except MacroError Unit :=
  match v.firstMatch? (stripComments t) with
  | some r => .error (.forbidden file r.message)
  | none => .ok ()

end Validator

end ScriptEmbed
