import ScriptEmbed.Config.Reading

/-!
# Settings with types

A configuration may be given as a tree of values that have types of their own. A setting of
another type than the one in its place is refused.

* `Setting` — the trees;
* `Setting.reading` — how they are read.
-/

namespace ScriptEmbed

/-- A tree of settings. -/
inductive Setting where
  | null
  | bool (value : Bool)
  | number
  | text (value : Text)
  | list (items : List Setting)
  | map (entries : List (Text × Setting))
  deriving Inhabited

namespace Setting

/-- The setting as a text. -/
def toText? : Setting → Option Text
  | text t => some t
  | _ => none

/-- The setting as a truth value. -/
def toBool? : Setting → Option Bool
  | bool b => some b
  | _ => none

/-- The setting as the name of a choice: a text, or a map from the name to nothing. -/
def toChoice? : Setting → Option Text
  | map [(name, null)] => some name
  | s => s.toText?

/-- The setting as a list. -/
def toList? : Setting → Option (List Setting)
  | list items => some items
  | _ => none

/-- The values of the named fields. A list gives the first of them in order. -/
def fields? (names : List Text) : Setting → Option (List (Option Setting))
  | map entries => Reading.atMostOnce? entries names
  | list items =>
    if items.length ≤ names.length then
      some (items.map some ++ List.replicate (names.length - items.length) none)
    else none
  | _ => none

/-- Settings with types are read by their types. -/
def reading : Reading Setting := ⟨toText?, toBool?, toChoice?, toList?, fields?⟩

end Setting

end ScriptEmbed
