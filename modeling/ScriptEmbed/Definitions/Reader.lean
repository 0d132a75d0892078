import ScriptEmbed.Definitions.Basic
import ScriptEmbed.Definitions.Declaration
import ScriptEmbed.Definitions.Line

/-!
# Reading definitions

A definitions file is read line by line, all or nothing: the first line that is no well-formed
definition is reported with its number.

* `LineFault`, `LineError` — what is wrong, and on which line;
* `paramNames` — the names in a parameter list;
* `Definitions.ofLines`, `Definitions.ofSource` — the tables.
-/

namespace ScriptEmbed

/-- What is wrong with a line. -/
inductive LineFault where
  | unrecognised
  | emptyParameter
  | duplicateParameter (param : Text)
  | notCompiled (fault : CompileFault)
  deriving DecidableEq, Repr

/-- The wording of a fault. -/
def LineFault.message : LineFault → String
  | unrecognised => "expected `const`, `macro` or `python macro` definition"
  | emptyParameter => "empty parameter name"
  | duplicateParameter p => "duplicate parameter '" ++ String.ofList p ++ "'"
  | notCompiled f => f.message

/-- A line that is no definition. -/
structure LineError where
  line : Line
  fault : LineFault
  deriving DecidableEq, Repr

/-- The wording of an error. -/
def LineError.message (e : LineError) : String :=
  "Illegal line " ++ String.ofList (Decimal.digits e.line.number) ++ ": " ++
    String.ofList e.line.text ++ " (" ++ e.fault.message ++ ")"

/-! ### Parameters -/

/-- Checks names in order: none is empty, and none stands among the names before it. -/
def checkParams (seen : List Text) : List Text → Except LineFault (List Text)
  | [] => .ok []
  | p :: ps =>
    if p.isEmpty then .error .emptyParameter
    else if seen.contains p then .error (.duplicateParameter p)
    else (checkParams (p :: seen) ps).map (p :: ·)

/-- The names in a parameter list: separated by commas, blanks aside. A blank list holds none. -/
def paramNames (t : Text) : Except LineFault (List Text) :=
  if Text.allBlank t then .ok []
  else checkParams [] ((Text.pieces ',' t).map Text.trim)

/-! ### Tables -/

namespace Definitions

/-- The tables with the definition on one more line. -/
def addLine (d : Definitions) (t : Text) : Except LineFault Definitions :=
  match Declaration.parse? t with
  | none => .error .unrecognised
  | some (.constant name value) => .ok (d.addConstant ⟨name, value⟩)
  | some (.template name params body) => do
    let ps ← paramNames params
    return d.addMacro ⟨name, .template ⟨ps, body⟩⟩
  | some (.computed name params body) => do
    let ps ← paramNames params
    match Computed.compile ps body with
    | .error f => .error (.notCompiled f)
    | .ok c => return d.addMacro ⟨name, .computed c⟩

/-- The tables with the definitions on more lines. -/
def addLines (d : Definitions) : List Line → Except LineError Definitions
  | [] => .ok d
  | line :: rest =>
    match d.addLine line.text with
    | .error f => .error ⟨line, f⟩
    | .ok d => d.addLines rest

/-- The tables that the given lines define. -/
def ofLines (lines : List Line) : Except LineError Definitions := empty.addLines lines

/-- The tables that a definitions file defines. -/
def ofSource (source : Text) : Except LineError Definitions := ofLines (Line.ofSource source)

end Definitions

end ScriptEmbed
