import ScriptEmbed.Text.Basic

/-!
# Paths

A path is kept as written; its meaning is the list of its components. Repeated and final
slashes and dots after the start mean nothing.

* `Path.components` — the components of a path;
* `Path.same` — equality of components;
* `Path.fileName?`, `Path.parent?`, `Path.join` — as written where possible;
* `Path.asksDirectory` — the form of the path admits a directory only.
-/

namespace ScriptEmbed

/-- A path as written. -/
structure Path where
  text : Text
  deriving DecidableEq, Repr

/-- A component of a path. -/
inductive Component where
  | root
  | current
  | parent
  | name (n : Text)
  deriving DecidableEq, Repr

namespace Path

/-- A path from a string. -/
def ofString (s : String) : Path := ⟨s.toList⟩

/-- The length of the part that stands for the start: a slash, or a single dot. -/
def headLength : Text → Nat
  | '/' :: _ => 1
  | ['.'] => 1
  | '.' :: '/' :: _ => 1
  | _ => 0

/-- The part of a path that stands for the start. -/
def head (p : Path) : Text := p.text.take (headLength p.text)

/-- The parts between the slashes after the start. -/
def segments (p : Path) : List Text := Text.pieces '/' (p.text.drop (headLength p.text))

/-- A part that is no component. -/
def isVoid (s : Text) : Bool := s.isEmpty || s == ['.']

/-- The component that a part stands for. -/
def component (s : Text) : Component := if s == ['.', '.'] then .parent else .name s

/-- The components of a path. -/
def components (p : Path) : List Component :=
  let start := match p.head with
    | ['/'] => [.root]
    | ['.'] => [.current]
    | _ => []
  start ++ (p.segments.filter fun s => !isVoid s).map component

/-- Two paths have the same components. -/
def same (p q : Path) : Bool := p.components == q.components

/-- The last component, if it is a name. -/
def fileName? (p : Path) : Option Text :=
  match p.components.getLast? with
  | some (.name n) => some n
  | _ => none

/-- Parts without those at the end that are no components. -/
def trimmed (segments : List Text) : List Text := (segments.reverse.dropWhile isVoid).reverse

/-- The path without its last component, unless that is the root or there is none. -/
def parent? (p : Path) : Option Path :=
  match trimmed p.segments with
  | [] => if p.head == ['.'] then some ⟨[]⟩ else none
  | ss => some ⟨p.head ++ Text.join ['/'] (trimmed ss.dropLast)⟩

/-- The path of `name` below a directory; a name that starts with a slash stands alone. -/
def join (p : Path) (name : Text) : Path :=
  if name.head? == some '/' then ⟨name⟩
  else if p.text.isEmpty || p.text.getLast? == some '/' then ⟨p.text ++ name⟩
  else ⟨p.text ++ '/' :: name⟩

/-- The path ends with a slash or with a dot as its last part. -/
def asksDirectory (p : Path) : Bool :=
  match (Text.pieces '/' p.text).reverse with
  | last :: _ :: _ => isVoid last
  | _ => false

end Path

end ScriptEmbed
