import ScriptEmbed.Text.Basic

/-!
# Readings of settings

Settings come in more than one form, and each form has its own rules for what counts as a text, a
truth value and so on. What a configuration takes from them is said once, over those rules.

* `Reading` — how settings of one form are read;
* `Reading.atMostOnce?` — the values of named fields among entries.
-/

namespace ScriptEmbed

/-- How settings of the form `α` are read. -/
structure Reading (α : Type) where
  /-- The setting as a text. -/
  text? : α → Option Text
  /-- The setting as a truth value. -/
  bool? : α → Option Bool
  /-- The setting as the name of a choice. -/
  choice? : α → Option Text
  /-- The setting as a list. -/
  list? : α → Option (List α)
  /-- The values of the named fields, any of which may be missing. -/
  fields? : List Text → α → Option (List (Option α))

namespace Reading

/-- The values that the entries give to one field. -/
def valuesOf {α : Type} (entries : List (Text × α)) (name : Text) : List α :=
  (entries.filter fun e => e.1 == name).map Prod.snd

/-- The values of the named fields, none of which may come twice. Other entries do not count. -/
def atMostOnce? {α : Type} (entries : List (Text × α)) (names : List Text) :
    Option (List (Option α)) :=
  names.mapM fun n =>
    match valuesOf entries n with
    | [] => some none
    | [v] => some (some v)
    | _ => none

end Reading

end ScriptEmbed
