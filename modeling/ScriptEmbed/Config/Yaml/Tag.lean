import ScriptEmbed.Config.Yaml.Cursor

/-!
# Tags

A tag names the kind of a value. It is written in full between angle brackets, or as a handle and
a suffix; a directive at the head of a document says what a handle stands for. Escapes in a tag
give octets, so that a tag is a list of them.

* `Octets.ofText`, `Octets.toText?` — octets and texts;
* `Tag.uri?` — the octets of a tag as written;
* `Tag.Short` — a handle with a suffix, and `Tag.read?`, which reads one;
* `Tag.Handle` — what a handle stands for, with the standard ones.
-/

namespace ScriptEmbed.Yaml

/-- A list of octets. -/
abbrev Octets := List UInt8

namespace Octets

/-- The octets of an ASCII text. -/
def ofText (t : Text) : Octets := t.map fun c => c.toNat.toUInt8

/-- The text of octets that are valid UTF-8. -/
def toText? (o : Octets) : Option Text := (String.fromUTF8? ⟨o.toArray⟩).map String.toList

end Octets

namespace Tag

/-! ### Characters of tags -/

/-- A character that stands for itself in a tag; a comma and square brackets do only where the
tag is written in full. -/
def isPlainChar (inFull : Bool) (c : Char) : Bool :=
  isNameChar c ||
    c ∈ [';', '/', '?', ':', '@', '&', '=', '+', '$', '.', '!', '~', '*', '\'', '(', ')'] ||
    (inFull && c ∈ [',', '[', ']'])

/-- The octet that a percent sign and two digits stand for. -/
def octet? : Text → Option (Nat × Text)
  | '%' :: a :: b :: rest => do
    let high ← hexDigit? a
    let low ← hexDigit? b
    return (16 * high + low, rest)
  | _ => none

/-- The number of octets that follow the first octet of a character. -/
def followers? (first : Nat) : Option Nat :=
  if first < 0x80 then some 0
  else if first < 0xC0 then none
  else if first < 0xE0 then some 1
  else if first < 0xF0 then some 2
  else if first < 0xF8 then some 3
  else none

/-- Octets that go on with a character. -/
def following? : Nat → Text → Option (Octets × Text)
  | 0, t => some ([], t)
  | n + 1, t => do
    let (o, rest) ← octet? t
    if 0x80 ≤ o ∧ o < 0xC0 then
      let (os, rest) ← following? n rest
      return (o.toUInt8 :: os, rest)
    else none

/-- The octets of one character that is written with percent signs. -/
def escape? (t : Text) : Option (Octets × Text) := do
  let (first, rest) ← octet? t
  let n ← followers? first
  let (os, rest) ← following? n rest
  return (first.toUInt8 :: os, rest)

/-- The octets of a tag up to the first character that cannot stand in one. -/
def octets? (inFull : Bool) : Nat → Text → Option (Octets × Text)
  | _, [] => some ([], [])
  | 0, t => some ([], t)
  | n + 1, c :: rest =>
    if c == '%' then do
      let (o, rest) ← escape? (c :: rest)
      let (os, rest) ← octets? inFull n rest
      return (o ++ os, rest)
    else if isPlainChar inFull c then
      (octets? inFull n rest).map fun (os, rest) => (c.toNat.toUInt8 :: os, rest)
    else some ([], c :: rest)

/-- The octets of a tag at the start of a text, after some that were read before. There is at
least one character, and a zero octet ends the tag. -/
def uri? (inFull : Bool) (before : Text) (t : Text) : Option (Octets × Text) :=
  match octets? inFull t.length t with
  | some (os, rest) =>
    if before.isEmpty && rest.length == t.length then none
    else some ((Octets.ofText (before.drop 1) ++ os).takeWhile (· != 0), rest)
  | none => none

/-! ### Handles -/

/-- A tag as written: a handle, which is empty for a tag in full, and a suffix. -/
structure Short where
  handle : Text
  suffix : Octets
  deriving DecidableEq, Repr

/-- An exclamation mark, a name that may be empty, and a further mark if there is one. -/
def handle? : Text → Option (Text × Text)
  | '!' :: rest =>
    let name := rest.takeWhile isNameChar
    match rest.dropWhile isNameChar with
    | '!' :: rest => some ('!' :: name ++ ['!'], rest)
    | rest => some ('!' :: name, rest)
  | _ => none

/-- The text is a handle between two marks. -/
def isClosed (handle : Text) : Bool := 2 ≤ handle.length && handle.getLast? == some '!'

/-- The tag at the start of a text. A single mark is a tag of its own. -/
def read? (t : Text) : Option (Short × Text) :=
  match t with
  | '!' :: '<' :: rest =>
    match uri? true [] rest with
    | some (os, '>' :: rest) => some (⟨[], os⟩, rest)
    | _ => none
  | t => do
    let (handle, rest) ← handle? t
    if isClosed handle then
      let (os, rest) ← uri? false [] rest
      return (⟨handle, os⟩, rest)
    else
      let (os, rest) ← uri? false handle rest
      return (if os.isEmpty then ⟨[], Octets.ofText ['!']⟩ else ⟨['!'], os⟩, rest)

/-- What a handle stands for. -/
structure Handle where
  name : Text
  stem : Octets
  deriving DecidableEq, Repr

/-- The handles that every document has. -/
def standardHandles : List Handle :=
  [⟨['!'], Octets.ofText ['!']⟩, ⟨['!', '!'], Octets.ofText "tag:yaml.org,2002:".toList⟩]

/-- The octets of a tag under handles of which the first of a name counts. -/
def Short.resolve? (handles : List Handle) (tag : Short) : Option Octets :=
  if tag.handle.isEmpty then some tag.suffix
  else (handles.find? fun h => h.name == tag.handle).map fun h => h.stem ++ tag.suffix

/-- The tag of truth values. -/
def bool : Octets := Octets.ofText "tag:yaml.org,2002:bool".toList

/-- The tag of a scalar about which nothing is said. -/
def unspecific : Octets := Octets.ofText ['!']

/-- The name in a tag of the file's own, which starts with an exclamation mark. -/
def ownName? (tag : Octets) : Option Text :=
  match tag with
  | [] => none
  | first :: rest =>
    if first = 33 then Octets.toText? (if rest.isEmpty then tag else rest) else none

end Tag

/-! ### Directives -/

/-- A directive at the head of a document. -/
inductive Directive where
  | version (major minor : Nat)
  | handle (h : Tag.Handle)
  deriving DecidableEq, Repr

namespace Directive

/-- A number of at most nine digits. -/
def number? (t : Text) : Option (Nat × Text) :=
  let ds := t.takeWhile Char.isDigit
  if ds.isEmpty || 9 < ds.length then none
  else some (ds.foldl (fun n c => 10 * n + (c.toNat - 48)) 0, t.drop ds.length)

/-- Two numbers with a point between them. -/
def version? (t : Text) : Option (Directive × Text) := do
  let (major, rest) ← number? (t.dropWhile isGap)
  match rest with
  | '.' :: rest =>
    let (minor, rest) ← number? rest
    return (version major minor, rest)
  | _ => none

/-- A handle, blanks, and the octets that it stands for. -/
def handle? (t : Text) : Option (Directive × Text) := do
  let (name, rest) ← Tag.handle? (t.dropWhile isGap)
  if !(Tag.isClosed name || name == ['!']) || !rest.head?.any isGap then none
  else
    let (stem, rest) ← Tag.uri? true [] (rest.dropWhile isGap)
    if atVoid rest then return (handle ⟨name, stem⟩, rest) else none

/-- The directive after the percent sign that starts its line, and the rest of the line. -/
def read? (t : Text) : Option (Directive × Text) :=
  let name := t.takeWhile isNameChar
  let rest := t.drop name.length
  if !atVoid rest then none
  else if name == "YAML".toList then version? rest
  else if name == "TAG".toList then handle? rest
  else none

end Directive

end ScriptEmbed.Yaml
