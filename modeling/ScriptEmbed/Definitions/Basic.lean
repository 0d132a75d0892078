import ScriptEmbed.Macro.Basic

/-!
# Definition tables

Constants and macros are kept in two tables in the order of their declarations, duplicates
included. Of two constants with one name the first counts, of two macros the last.

* `Constant`, `NamedMacro` — the entries;
* `Definitions` — the two tables;
* `Definitions.summary` — a listing, constants first.
-/

namespace ScriptEmbed

/-- A name for a literal text. -/
structure Constant where
  name : Text
  replacement : Text
  deriving DecidableEq, Repr

/-- A macro under its name. -/
structure NamedMacro where
  name : Text
  body : Macro

/-- The kind of a definition in a listing. -/
inductive DefinitionKind where
  | constant | template | computed
  deriving DecidableEq, Repr

/-- An entry of a listing. -/
structure Definition where
  kind : DefinitionKind
  name : Text
  params : List Text
  body : Text
  deriving DecidableEq, Repr

/-- The entry of a constant. -/
def Constant.summary (c : Constant) : Definition := ⟨.constant, c.name, [], c.replacement⟩

/-- The entry of a macro. -/
def NamedMacro.summary (m : NamedMacro) : Definition :=
  let kind := match m.body with
    | .template _ => .template
    | .computed _ => .computed
  ⟨kind, m.name, m.body.params, m.body.source⟩

/-- The table of constants and the table of macros. -/
structure Definitions where
  constants : List Constant
  macros : List NamedMacro

namespace Definitions

/-- No definitions. -/
def empty : Definitions := ⟨[], []⟩

/-- The tables with one more constant at the end. -/
def addConstant (d : Definitions) (c : Constant) : Definitions :=
  { d with constants := d.constants ++ [c] }

/-- The tables with one more macro at the end. -/
def addMacro (d : Definitions) (m : NamedMacro) : Definitions :=
  { d with macros := d.macros ++ [m] }

/-- The number of entries in both tables. -/
def size (d : Definitions) : Nat := d.constants.length + d.macros.length

/-- There are no entries. -/
def isEmpty (d : Definitions) : Bool := d.constants.isEmpty && d.macros.isEmpty

/-- All entries, constants first, each table in declaration order. -/
def summary (d : Definitions) : List Definition :=
  d.constants.map Constant.summary ++ d.macros.map NamedMacro.summary

end Definitions

end ScriptEmbed
