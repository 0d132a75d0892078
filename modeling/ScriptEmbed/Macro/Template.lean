import ScriptEmbed.Text.Word

/-!
# Template macros

The body of a template macro is a text in which the parameters stand for the arguments. There
are two ways to find them.

* `Substitution` — by substring or by whole token;
* `Bindings` — parameters with their arguments, in declaration order;
* `Template.substituteAll` — one replacement of all occurrences after the other;
* `Template.substituteTokens` — all tokens at once;
* `Template.expand` — the body with the arguments in place.
-/

namespace ScriptEmbed

/-- How parameters are found in the body of a template. -/
inductive Substitution where
  /-- Every occurrence as a substring, one parameter after the other. A parameter is found
  inside longer words and inside arguments that were put in before. -/
  | substring
  /-- Whole tokens of name characters only, all parameters at once. -/
  | token
  deriving DecidableEq, Repr

/-- The parameters of a call with their arguments, in declaration order. -/
abbrev Bindings := List (Text × Text)

/-- The first argument bound to a name. -/
def Bindings.find? (bindings : Bindings) (name : Text) : Option Text :=
  (List.find? (fun b => b.1 == name) bindings).map Prod.snd

/-- A macro given by a text. -/
structure Template where
  params : List Text
  body : Text
  deriving DecidableEq, Repr

namespace Template

/-- Replaces all occurrences of each parameter, one parameter after the other. -/
def substituteAll (bindings : Bindings) (body : Text) : Text :=
  bindings.foldl (fun t b => Text.replaceAll b.1 b.2 t) body

/-- What a token stands for: its argument, or itself if it is no parameter. -/
def tokenValue (bindings : Bindings) (token : Text) : Text :=
  (bindings.find? token).getD token

/-- Replaces each longest run of name characters that is a parameter, and copies the rest. -/
def substituteTokens (bindings : Bindings) (body : Text) : Text :=
  let gap := body.takeWhile fun c => !Text.isNameChar c
  match _h : body.dropWhile fun c => !Text.isNameChar c with
  | [] => gap
  | c :: rest =>
    gap ++ tokenValue bindings (c :: rest.takeWhile Text.isNameChar) ++
      substituteTokens bindings (rest.dropWhile Text.isNameChar)
termination_by body.length
decreasing_by
  have h1 := (List.dropWhile_sublist (l := body) fun c => !Text.isNameChar c).length_le
  have h2 := (List.dropWhile_sublist (l := rest) Text.isNameChar).length_le
  rw [‹body.dropWhile _ = _›, List.length_cons] at h1
  omega

/-- The body with the arguments in place of the parameters. -/
def expand (t : Template) (mode : Substitution) (bindings : Bindings) : Text :=
  match mode with
  | .substring => substituteAll bindings t.body
  | .token => substituteTokens bindings t.body

end Template

end ScriptEmbed
