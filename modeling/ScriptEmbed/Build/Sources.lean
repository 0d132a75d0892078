import ScriptEmbed.Files.Path

/-!
# Sources of a build

Among the files given to a build one may hold the definitions; the others are modules.

* `Sources.ofPaths` — the definitions file is the last with a given name, or one that is named
  explicitly;
* `moduleId?` — the id of a module is its file name.
-/

namespace ScriptEmbed

/-- The definitions file, if any, and the modules in the order given. -/
structure Sources where
  definitions : Option Path
  modules : List Path
  deriving DecidableEq, Repr

namespace Sources

/-- The path has the given file name. -/
def hasName (name : Text) (p : Path) : Bool := p.fileName? == some name

/-- Tells the definitions file from the modules. An explicit definitions file is no module, and
leaves all other paths modules whatever their names. -/
def ofPaths (paths : List Path) (name : Text) (explicit : Option Path) : Sources :=
  match explicit with
  | some d => ⟨some d, paths.filter fun p => !p.same d⟩
  | none => ⟨(paths.filter (hasName name)).getLast?, paths.filter fun p => !hasName name p⟩

end Sources

/-- The id of a module: its file name, if it has one. -/
def moduleId? (p : Path) : Option Text := p.fileName?

end ScriptEmbed
