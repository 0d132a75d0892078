import ScriptEmbed.Definitions.Basic
import ScriptEmbed.Number.Decimal

/-!
# Listings of definitions

* `Listing.plain` — a count and a line per definition;
* `Listing.json` — an array of objects, indented by two spaces a level.
-/

namespace ScriptEmbed.Listing

/-! ### Plain text -/

/-- The tag of a kind at the start of a line. -/
def tag : DefinitionKind → Text
  | .constant => "[const]".toList
  | .template => "[macro]".toList
  | .computed => "[computed]".toList

/-- The line of a definition. -/
def line (d : Definition) : Text :=
  let params := match d.kind with
    | .constant => []
    | _ => '(' :: Text.join ", ".toList d.params ++ [')']
  "  ".toList ++ tag d.kind ++ ' ' :: d.name ++ params ++ " = ".toList ++ d.body ++ ['\n']

/-- The listing as plain text. -/
def plain (d : Definitions) : Text :=
  "OK ".toList ++ Decimal.digits d.constants.length ++ " constant(s), ".toList ++
    Decimal.digits d.macros.length ++ " macro(s)\n".toList ++ d.summary.flatMap line

/-! ### JSON -/

/-- A digit in base sixteen. -/
def hexDigit (n : Nat) : Char := if n < 10 then Char.ofNat (48 + n) else Char.ofNat (87 + n)

/-- A character inside a JSON string. -/
def escapeChar (c : Char) : Text :=
  if c == '"' then ['\\', '"']
  else if c == '\\' then ['\\', '\\']
  else if c == '\n' then ['\\', 'n']
  else if c == '\r' then ['\\', 'r']
  else if c == '\t' then ['\\', 't']
  else if c == '\x08' then ['\\', 'b']
  else if c == '\x0c' then ['\\', 'f']
  else if c.toNat < 0x20 then
    ['\\', 'u', '0', '0', hexDigit (c.toNat / 16), hexDigit (c.toNat % 16)]
  else [c]

/-- A JSON string. -/
def quoted (t : Text) : Text := '"' :: t.flatMap escapeChar ++ ['"']

/-- A line break and the indentation of a level. -/
def newline (level : Nat) : Text := '\n' :: List.replicate (2 * level) ' '

/-- Items in brackets, each on a line of its own; nothing between the brackets if there are
none. -/
def block (opening closing : Char) (level : Nat) (items : List Text) : Text :=
  if items.isEmpty then [opening, closing]
  else
    opening :: newline (level + 1) ++ Text.join (',' :: newline (level + 1)) items ++
      newline level ++ [closing]

/-- The name of a kind. -/
def kindName : DefinitionKind → Text
  | .constant => "constant".toList
  | .template => "macro".toList
  | .computed => "computed_macro".toList

/-- The object of a definition. -/
def object (d : Definition) : Text :=
  let member := fun (key : String) (value : Text) => quoted key.toList ++ ": ".toList ++ value
  block '\x7b' '\x7d' 1
    [member "kind" (quoted (kindName d.kind)), member "name" (quoted d.name),
      member "params" (block '[' ']' 2 (d.params.map quoted)), member "body" (quoted d.body)]

/-- The listing as JSON. -/
def json (d : Definitions) : Text := block '[' ']' 0 (d.summary.map object) ++ ['\n']

end ScriptEmbed.Listing
