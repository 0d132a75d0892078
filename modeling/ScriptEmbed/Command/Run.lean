import ScriptEmbed.Build.Run
import ScriptEmbed.Command.Invocation
import ScriptEmbed.Command.Listing
import ScriptEmbed.Config.File

/-!
# Running commands

* `Outcome` — what a command prints, or why it fails, or that it was not understood;
* `Command.run` — one command on a store;
* `Invocation.run` — the configuration, then the command;
* `run` — the whole program on a store;
* `configPaths`, `commandPaths` — the paths of which a store has to know.
-/

namespace ScriptEmbed

/-- The result of a command. -/
inductive Outcome where
  | printed (output : Text)
  | failed (cause : Failure)
  | misused
  deriving DecidableEq, Repr

namespace Outcome

/-- The exit status of the program. -/
def status : Outcome → Nat
  | printed _ => 0
  | failed _ => 1
  | misused => 2

/-- The line that reports a failure. -/
def report (cause : Failure) : String := "error: " ++ cause.message

end Outcome

/-- The configuration with options of the command line in place. -/
def Overrides.apply (o : Overrides) (c : Config) : Config :=
  { c with
    stripComments := o.stripComments || c.stripComments
    substitution := o.substitution.getD c.substitution }

namespace Command

/-- What a build prints. -/
def buildSummary (output : Path) (r : Report) : Text :=
  let wrote :=
    "OK Wrote ".toList ++ Decimal.digits r.ids.length ++ " module(s), ".toList ++
      Decimal.digits r.bytes ++ " bytes, to ".toList ++ output.text ++ ['\n']
  match r.debugDirectory with
  | some dir => wrote ++ "   Expanded modules in ".toList ++ dir.text ++ ['\n']
  | none => wrote

/-- The definitions for a single module: in a file named for them, or in the file with the
configured name beside the module, if there is one. -/
def definitionsFor (s : Store) (explicit : Option Path) (module : Path) (name : Text) :
    Except Failure Definitions :=
  match explicit with
  | some p => readDefinitions s p
  | none =>
    let candidate := (module.parent?.getD ⟨[]⟩).join name
    if s.isFile candidate then readDefinitions s candidate else .ok Definitions.empty

/-- Expands and checks a single module. -/
def expandModule (s : Store) (explicit : Option Path) (module : Path) (c : Config) :
    Except Failure Text := do
  let d ← definitionsFor s explicit module c.macrosFileName
  let pipeline ← makePipeline d c Pattern.parse? defaultDepth
  let m ← embed s pipeline module
  return m.text

/-- The store after a command, and its result. -/
def run (s : Store) (c : Config) : Command → Store × Outcome
  | build output debug definitions overrides namespaceName sources =>
    let c := overrides.apply c
    let c := { c with namespaceName := namespaceName.getD c.namespaceName }
    match c.check Pattern.parse? with
    | .error e => (s, .failed (.badOptions e))
    | .ok () =>
      let options : BuildOptions := ⟨output, sources, definitions, debug⟩
      match ScriptEmbed.build s options c Pattern.parse? defaultDepth with
      | (s, .error e) => (s, .failed e)
      | (s, .ok r) => (s, .printed (buildSummary output r))
  | expand definitions overrides module =>
    match expandModule s definitions module (overrides.apply c) with
    | .error e => (s, .failed e)
    | .ok t => (s, .printed t)
  | check definitions format =>
    match readDefinitions s definitions with
    | .error e => (s, .failed e)
    | .ok d =>
      match format with
      | .plain => (s, .printed (Listing.plain d))
      | .json => (s, .printed (Listing.json d))

end Command

/-- The store after an invocation, and its result. -/
def Invocation.run (s : Store) (i : Invocation) : Store × Outcome :=
  match Config.locate s i.config with
  | .error e => (s, .failed e)
  | .ok c => i.command.run s c

/-- The name and version of the program. -/
def versionText : Text := "js2c 0.1.0\n".toList

/-- The store after the program ran with the given arguments, and its result. -/
def run (s : Store) (environment : Option Text) (args : List Text) : Store × Outcome :=
  if Invocation.asksVersion args then (s, .printed versionText)
  else
    match Invocation.parse? environment args with
    | none => (s, .misused)
    | some i => i.run s

/-! ### What a store has to know -/

/-- The paths that a configuration may come from. -/
def configPaths (environment : Option Text) (args : List Text) : List Path :=
  match Invocation.parse? environment args with
  | some ⟨some p, _⟩ => [p]
  | some ⟨none, _⟩ => [Config.standardFile]
  | none => []

/-- The paths that a command may read or write under a configuration. -/
def Command.paths (c : Config) : Command → List Path
  | build output _ definitions _ _ sources =>
    let dir := debugDirectory output
    output :: dir :: definitions.toList ++ sources ++
      (sources.filterMap moduleId?).map dir.join
  | expand definitions _ module =>
    module :: (module.parent?.getD ⟨[]⟩).join c.macrosFileName :: definitions.toList
  | check definitions _ => [definitions]

/-- The paths that the program may read or write once a store knows its configuration. -/
def commandPaths (s : Store) (environment : Option Text) (args : List Text) : List Path :=
  match Invocation.parse? environment args with
  | none => []
  | some i =>
    match Config.locate s i.config with
    | .error _ => []
    | .ok c => i.command.paths c

end ScriptEmbed
