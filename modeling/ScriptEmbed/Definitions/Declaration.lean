import ScriptEmbed.Text.Blank
import ScriptEmbed.Text.Word

/-!
# Declarations

A line of a definitions file declares a constant, a template macro or a computed macro:

* `const NAME = value;`
* `macro NAME(params) = body;`
* `python macro NAME(params) = body;`

Spaces, tabs and line ends may stand around names and must stand after a leading word. The value
or body runs to the semicolon that ends the line and is trimmed.

* `Declaration` — the three forms, with the parameters as written;
* `Declaration.parse?` — the declaration on a line.
-/

namespace ScriptEmbed

/-- What a line declares. -/
inductive Declaration where
  | constant (name value : Text)
  | template (name params body : Text)
  | computed (name params body : Text)
  deriving DecidableEq, Repr

namespace Declaration

/-! ### Parts of a line

Each part is taken from the front of a text and gives the rest. -/

/-- The characters that may stand between the parts of a line. -/
def isGap (c : Char) : Bool := c == ' ' || c == '\t' || c == '\r' || c == '\n'

/-- A word with a gap after it. -/
def leading? (word t : Text) : Option Text :=
  if word.isPrefixOf t then
    match t.drop word.length with
    | c :: rest => if isGap c then some (rest.dropWhile isGap) else none
    | [] => none
  else none

/-- A name. -/
def name? (t : Text) : Option (Text × Text) :=
  let n := t.takeWhile Text.isNameChar
  if n.isEmpty then none else some (n, t.dropWhile Text.isNameChar)

/-- An equals sign and a text without semicolon, then the semicolon that ends the line. -/
def assigned? (t : Text) : Option Text :=
  match t.dropWhile isGap with
  | '=' :: rest =>
    match rest.dropWhile (· != ';') with
    | [_] => some (Text.trim (rest.takeWhile (· != ';')))
    | _ => none
  | _ => none

/-- The parameters of a macro in parentheses, as written. -/
def parameters? (t : Text) : Option (Text × Text) :=
  match t.dropWhile isGap with
  | '(' :: rest =>
    match rest.dropWhile (· != ')') with
    | _ :: rest' => some (rest.takeWhile (· != ')'), rest')
    | [] => none
  | _ => none

/-! ### The three forms -/

/-- The declaration of a constant. -/
def constant? (t : Text) : Option Declaration := do
  let t ← leading? "const".toList t
  let (n, t) ← name? t
  let v ← assigned? t
  return constant n v

/-- The name, parameters and body of a macro of either kind. -/
def signature? (t : Text) : Option (Text × Text × Text) := do
  let t ← leading? "macro".toList t
  let (n, t) ← name? t
  let (ps, t) ← parameters? t
  let b ← assigned? t
  return (n, ps, b)

/-- The declaration of a template macro. -/
def template? (t : Text) : Option Declaration :=
  (signature? t).map fun (n, ps, b) => template n ps b

/-- The declaration of a computed macro. -/
def computed? (t : Text) : Option Declaration := do
  let t ← leading? "python".toList t
  let (n, ps, b) ← signature? t
  return computed n ps b

/-- The declaration on a line. -/
def parse? (t : Text) : Option Declaration :=
  (constant? t).or ((template? t).or (computed? t))

end Declaration

end ScriptEmbed
