import ScriptEmbed.Config.Reading
import ScriptEmbed.Config.Yaml.Node

/-!
# Settings in a file

A scalar in a settings file has no type of its own: each place takes it for what it needs there.
A reference is read as the node that it stands for.

* `Node.toText?`, `Node.toBool?`, `Node.toChoice?` — what a scalar stands for;
* `Document.reading` — how the nodes of a document are read.
-/

namespace ScriptEmbed.Yaml

namespace Node

/-- A plain scalar without text, which stands for any collection that is empty. -/
def isEmpty : Node → Bool
  | scalar _ .plain [] => true
  | _ => false

/-- The scalar as a text, however it is written. -/
def toText? : Node → Option Text
  | scalar _ _ t => some t
  | _ => none

/-- The truth value with the given name. -/
def truth? (name : Text) : Option Bool :=
  if name == "true".toList || name == "True".toList || name == "TRUE".toList then some true
  else if name == "false".toList || name == "False".toList || name == "FALSE".toList then
    some false
  else none

/-- The scalar as a truth value. It is plain, or a literal block that has the tag of truth
values. -/
def toBool? : Node → Option Bool
  | scalar p style t =>
    if style == .plain || (style == .literal && p.tag == some Tag.bool) then truth? t else none
  | _ => none

/-- The text of a plain scalar that stands for nothing. -/
def isNull (t : Text) : Bool :=
  t.isEmpty || t == "null".toList || t == "Null".toList || t == "NULL".toList || t == ['~']

/-- The scalar as the name of a choice: its text, or the name in its tag with nothing after it. -/
def toChoice? : Node → Option Text
  | scalar p style t =>
    match p.tag.bind Tag.ownName? with
    | none => some t
    | some name => if style == .plain && isNull t then some name else none
  | _ => none

end Node

namespace Document

/-- The items of a list; an empty scalar has none. -/
def toList? (d : Document) (v : Node) : Option (List Node) :=
  match d.resolve v with
  | .list _ items => some items
  | v => if v.isEmpty then some [] else none

/-- The values of the named fields of a map, all of whose keys have to be scalars; an empty scalar
has no fields. -/
def fields? (d : Document) (names : List Text) (v : Node) : Option (List (Option Node)) :=
  match d.resolve v with
  | .map _ entries => do
    let entries ← entries.mapM fun (k, v) => (d.resolve k).toText?.map fun name => (name, v)
    Reading.atMostOnce? entries names
  | v => if v.isEmpty then some (names.map fun _ => none) else none

/-- Scalars are read by the place where they stand. -/
def reading (d : Document) : Reading Node where
  text? v := (d.resolve v).toText?
  bool? v := (d.resolve v).toBool?
  choice? v := (d.resolve v).toChoice?
  list? := d.toList?
  fields? := d.fields?

end Document

end ScriptEmbed.Yaml
