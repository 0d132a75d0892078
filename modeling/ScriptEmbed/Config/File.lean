import ScriptEmbed.Build.Failure
import ScriptEmbed.Config.Yaml.Reading
import ScriptEmbed.Files.Store

/-!
# Configuration files

A configuration is read from a file that is named explicitly, or else from `js2c.yaml` in the
working directory if there is one; otherwise the standard configuration applies.

* `Config.ofDocument?` — the configuration that a settings file gives;
* `Config.load` — reads and checks a file;
* `Config.locate` — finds the file and loads it.
-/

namespace ScriptEmbed.Config

/-- The file that is read if no other is named. -/
def standardFile : Path := ⟨"js2c.yaml".toList⟩

/-- The configuration that a settings file gives. -/
def ofDocument? (d : Yaml.Document) : Option Config := read? d.reading d.root

/-- Reads and checks a configuration file. -/
def load (s : Store) (p : Path) : Except Failure Config :=
  match s.readText? p with
  | none => .error (.unreadable .config p)
  | some t =>
    match (Yaml.Document.parse? t).bind ofDocument? with
    | none => .error (.badConfigFile p)
    | some c =>
      match c.check Pattern.parse? with
      | .error e => .error (.badConfig p e)
      | .ok () => .ok c

/-- The configuration of an explicit file, of the standard file, or the standard one. -/
def locate (s : Store) (explicit : Option Path) : Except Failure Config :=
  match explicit with
  | some p => load s p
  | none => if s.doesExist standardFile then load s standardFile else .ok standard

end ScriptEmbed.Config
