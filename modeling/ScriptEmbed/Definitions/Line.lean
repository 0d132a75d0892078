import ScriptEmbed.Text.Blank

/-!
# Lines of a definitions file

A definitions file holds one definition per line. A number sign starts a comment that ends with
the line; blanks around a definition do not count, and blank lines hold none.

* `Line` — the text of a definition with the number of its line, counted from one;
* `Line.ofSource` — the lines of a file that hold something.
-/

namespace ScriptEmbed

/-- A line that holds something, without comment and surrounding blanks. -/
structure Line where
  number : Nat
  text : Text
  deriving DecidableEq, Repr

namespace Line

/-- A line of a file without its comment and without the blanks around the rest. -/
def content (raw : Text) : Text := Text.trim (Text.before '#' raw)

/-- The lines that hold something, numbered from `number` on. -/
def numbered : Nat → List Text → List Line
  | _, [] => []
  | number, raw :: rest =>
    let text := content raw
    if text.isEmpty then numbered (number + 1) rest
    else ⟨number, text⟩ :: numbered (number + 1) rest

/-- The lines of a file that hold something. -/
def ofSource (source : Text) : List Line := numbered 1 (Text.pieces '\n' source)

end Line

end ScriptEmbed
