import ScriptEmbed.Number.Decimal

/-!
# The generated C++ file

All modules stand one after the other in one array of bytes. An array of strings lists each
module by its id and the part of the bytes that is its text, and ends with an empty string.

* `EmbeddedModule` — an id with a text;
* `Cpp.checkAscii` — refuses a module with a byte beyond ASCII; `NonAscii` says which;
* `Cpp.escape` — an id inside a string literal;
* `Cpp.render` — the file.
-/

namespace ScriptEmbed

/-- A module to embed. -/
structure EmbeddedModule where
  id : Text
  text : Text
  deriving DecidableEq, Repr

/-- A byte beyond ASCII in a module, at an offset in bytes. -/
structure NonAscii where
  id : Text
  offset : Nat
  byte : Nat
  deriving DecidableEq, Repr

namespace Cpp

/-! ### Bytes beyond ASCII -/

/-- The first byte of a character in UTF-8. -/
def leadByte (c : Char) : Nat :=
  let n := c.toNat
  if n < 0x80 then n
  else if n < 0x800 then 0xC0 + n / 0x40
  else if n < 0x10000 then 0xE0 + n / 0x1000
  else 0xF0 + n / 0x40000

/-- The first character beyond ASCII. All before it are single bytes. -/
def firstNonAscii? (offset : Nat) : Text → Option (Nat × Char)
  | [] => none
  | c :: rest => if c.toNat < 128 then firstNonAscii? (offset + 1) rest else some (offset, c)

/-- Refuses the first module that holds a byte beyond ASCII. -/
def checkAscii : List EmbeddedModule → Except NonAscii Unit
  | [] => .ok ()
  | m :: rest =>
    match firstNonAscii? 0 m.text with
    | some (offset, c) => .error ⟨m.id, offset, leadByte c⟩
    | none => checkAscii rest

/-- The two digits of a byte in base sixteen. -/
def hexByte (n : Nat) : Text :=
  let digit := fun d => if d < 10 then Char.ofNat (48 + d) else Char.ofNat (87 + d)
  [digit (n / 16 % 16), digit (n % 16)]

end Cpp

/-- The wording of a refusal. -/
def NonAscii.message (e : NonAscii) : String :=
  "Non-ASCII byte 0x" ++ String.ofList (Cpp.hexByte e.byte) ++ " in module " ++
    String.ofList e.id ++ " at offset " ++ String.ofList (Decimal.digits e.offset)

namespace Cpp

/-! ### Rendering -/

/-- An id inside a string literal: a backslash stands before each backslash and quote. -/
def escape (id : Text) : Text :=
  id.flatMap fun c => if c == '\\' || c == '"' then ['\\', c] else [c]

/-- The bytes of all modules, in decimal with commas between them. -/
def byteList (modules : List EmbeddedModule) : Text :=
  Text.join ", ".toList ((modules.flatMap EmbeddedModule.text).map fun c => Decimal.digits c.toNat)

/-- The row of one module whose text starts at `offset`. -/
def row (offset : Nat) (m : EmbeddedModule) : Text :=
  "std::string(\"".toList ++ escape m.id ++ "\"), std::string(sources + ".toList ++
    Decimal.digits offset ++ ", ".toList ++ Decimal.digits m.text.length ++ "), ".toList

/-- The rows of all modules, each starting where the one before it ends. -/
def rows (offset : Nat) : List EmbeddedModule → Text
  | [] => []
  | m :: rest => row offset m ++ rows (offset + m.text.length) rest

/-- The comment and include line at the start of the file. -/
def header : Text :=
  ("// This file was generated from .js source files by js2c. If you\n" ++
    "// want to make changes to this file you should either change the\n" ++
    "// javascript source files or the macro definitions.\n\n" ++
    "#include <string>\n").toList

/-- The file around the given byte list and rows. -/
def layout (space array bytes rows : Text) : Text :=
  header ++ "\nnamespace ".toList ++ space ++
    " \x7b\n\nstatic const char sources[] = \x7b ".toList ++ bytes ++
    " \x7d;\nstd::string ".toList ++ array ++ "[] = \x7b ".toList ++ rows ++
    "std::string() \x7d;\n\n\x7d  // namespace ".toList ++ space ++ ['\n']

/-- The file for the given modules. -/
def render (space array : Text) (modules : List EmbeddedModule) : Except NonAscii Text :=
  match checkAscii modules with
  | .error e => .error e
  | .ok () => .ok (layout space array (byteList modules) (rows 0 modules))

end Cpp

end ScriptEmbed
