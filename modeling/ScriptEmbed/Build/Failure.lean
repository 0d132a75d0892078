import ScriptEmbed.Build.Cpp
import ScriptEmbed.Config.Basic
import ScriptEmbed.Expansion.Invocations
import ScriptEmbed.Files.Path

/-!
# Failures of a build

* `Failure` — why a build or a command fails, with the files concerned;
* `Failure.message` — what was attempted, and after colons the causes.
-/

namespace ScriptEmbed

/-- A file that is read. -/
inductive InputKind where
  | config | definitions | module
  deriving DecidableEq, Repr

/-- Something that is written. -/
inductive OutputKind where
  | file | debugDirectory | debugModule
  deriving DecidableEq, Repr

/-- Why a build or a command fails. -/
inductive Failure where
  | unreadable (what : InputKind) (path : Path)
  | unwritable (what : OutputKind) (path : Path)
  | badConfigFile (path : Path)
  | badConfig (path : Path) (cause : ConfigError)
  | badOptions (cause : ConfigError)
  | badDefinitions (path : Path) (cause : LineError)
  | badRule (cause : MacroError)
  | noFileName (path : Path)
  | unprocessed (path : Path) (cause : Stop)
  | nonAscii (cause : NonAscii)
  deriving DecidableEq, Repr

/-- The wording of a failure of the macro language followed by that of its cause. -/
def MacroError.chain : MacroError → String
  | evaluation n cause => (evaluation n cause).message ++ ": " ++ cause.message
  | e => e.message

/-- The wording of a reason to stop followed by that of its cause. -/
def Stop.chain : Stop → String
  | failed e => e.chain
  | tooDeep => tooDeep.message

namespace Failure

/-- The attempt at reading a file. -/
def reading : InputKind → String
  | .config => "Failed to read config file: "
  | .definitions => "Failed to read definitions file: "
  | .module => "Failed to read module: "

/-- The attempt at writing something. -/
def writing : OutputKind → String
  | .file => "Failed to write output: "
  | .debugDirectory => "Failed to create debug directory: "
  | .debugModule => "Failed to write debug module: "

/-- The wording of a failure. -/
def message : Failure → String
  | unreadable what p => reading what ++ String.ofList p.text ++ ": io error"
  | unwritable what p => writing what ++ String.ofList p.text ++ ": io error"
  | badConfigFile p => "Failed to parse config file: " ++ String.ofList p.text
  | badConfig p e => "Invalid config file: " ++ String.ofList p.text ++ ": " ++ e.message
  | badOptions e => "Invalid options: " ++ e.message
  | badDefinitions p e =>
    "Failed to parse definitions file: " ++ String.ofList p.text ++ ": " ++ e.message
  | badRule e => "Invalid forbidden pattern: " ++ e.message
  | noFileName p => "Module path has no usable file name: " ++ String.ofList p.text
  | unprocessed p e => "Failed to process module: " ++ String.ofList p.text ++ ": " ++ e.chain
  | nonAscii e => e.message

end Failure

end ScriptEmbed
