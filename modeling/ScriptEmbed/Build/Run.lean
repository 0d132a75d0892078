import ScriptEmbed.Build.Failure
import ScriptEmbed.Build.Pipeline
import ScriptEmbed.Build.Sources
import ScriptEmbed.Files.Store

/-!
# Builds

A build reads the definitions and the modules, processes every module, optionally writes the
expanded modules beside the output, and writes the C++ file. The notation of patterns and the depth
of expansions are arguments.

* `BuildOptions`, `Report` — what to build, and what was built;
* `readDefinitions`, `embed` — reading from a store;
* `writeDebugModules` — the expanded modules in a directory `js` beside the output;
* `build` — the whole; it gives the store after the build, whether it failed or not.
-/

namespace ScriptEmbed

/-- What to build. -/
structure BuildOptions where
  output : Path
  sources : List Path
  /-- A definitions file to use in place of the one among the sources. -/
  definitions : Option Path
  /-- Whether the expanded modules are written too. -/
  debug : Bool
  deriving DecidableEq, Repr

/-- What was built. -/
structure Report where
  ids : List Text
  bytes : Nat
  debugDirectory : Option Path
  deriving DecidableEq, Repr

/-! ### Reading -/

/-- The definitions in a file. -/
def readDefinitions (s : Store) (p : Path) : Except Failure Definitions :=
  match s.readText? p with
  | none => .error (.unreadable .definitions p)
  | some t =>
    match Definitions.ofSource t with
    | .error e => .error (.badDefinitions p e)
    | .ok d => .ok d

/-- The definitions of a build: none where there is no definitions file. -/
def Sources.readDefinitions (s : Store) (sources : Sources) : Except Failure Definitions :=
  match sources.definitions with
  | none => .ok Definitions.empty
  | some p => ScriptEmbed.readDefinitions s p

/-- The pipeline of a build. -/
def makePipeline (d : Definitions) (c : Config) (pattern? : PatternReader := Pattern.parse?)
    (depth : Nat := defaultDepth) : Except Failure Pipeline :=
  match Pipeline.ofConfig d c pattern? depth with
  | .error e => .error (.badRule e)
  | .ok p => .ok p

/-- Reads and processes one module. -/
def embed (s : Store) (pipeline : Pipeline) (p : Path) : Except Failure EmbeddedModule :=
  match moduleId? p with
  | none => .error (.noFileName p)
  | some id =>
    match s.readText? p with
    | none => .error (.unreadable .module p)
    | some t =>
      match pipeline.process t p.text with
      | .error e => .error (.unprocessed p e)
      | .ok t => .ok ⟨id, t⟩

/-- Reads and processes modules in order. -/
def embedAll (s : Store) (pipeline : Pipeline) : List Path → Except Failure (List EmbeddedModule)
  | [] => .ok []
  | p :: ps => do
    let m ← embed s pipeline p
    let ms ← embedAll s pipeline ps
    return m :: ms

/-- The expanded modules of a build. -/
def expandModules (s : Store) (options : BuildOptions) (c : Config)
    (pattern? : PatternReader := Pattern.parse?) (depth : Nat := defaultDepth) :
    Except Failure (List EmbeddedModule) := do
  let sources := Sources.ofPaths options.sources c.macrosFileName options.definitions
  let d ← sources.readDefinitions s
  let pipeline ← makePipeline d c pattern? depth
  embedAll s pipeline sources.modules

/-! ### Writing -/

/-- The directory `js` beside the output. -/
def debugDirectory (output : Path) : Path :=
  match output.parent? with
  | some dir => dir.join "js".toList
  | none => ⟨"js".toList⟩

/-- Writes modules into a directory, each under its id. -/
def writeModules (s : Store) (dir : Path) : List EmbeddedModule → Store × Except Failure Unit
  | [] => (s, .ok ())
  | m :: rest =>
    let path := dir.join m.id
    match s.write? path m.text with
    | none => (s, .error (.unwritable .debugModule path))
    | some s => writeModules s dir rest

/-- Makes a directory and writes modules into it. -/
def writeDebugModules (s : Store) (dir : Path) (modules : List EmbeddedModule) :
    Store × Except Failure Unit :=
  match s.createDirs? dir with
  | none => (s, .error (.unwritable .debugDirectory dir))
  | some s => writeModules s dir modules

/-- Writes the C++ file. -/
def writeOutput (s : Store) (options : BuildOptions) (c : Config) (debug : Option Path)
    (modules : List EmbeddedModule) : Store × Except Failure Report :=
  match Cpp.render c.namespaceName c.arrayName modules with
  | .error e => (s, .error (.nonAscii e))
  | .ok file =>
    match s.write? options.output file with
    | none => (s, .error (.unwritable .file options.output))
    | some s =>
      let bytes := Text.byteSize (modules.flatMap EmbeddedModule.text)
      (s, .ok ⟨modules.map EmbeddedModule.id, bytes, debug⟩)

/-- The store after a build, and its report. The expanded modules are written before the C++
file is rendered. -/
def build (s : Store) (options : BuildOptions) (c : Config)
    (pattern? : PatternReader := Pattern.parse?) (depth : Nat := defaultDepth) :
    Store × Except Failure Report :=
  match expandModules s options c pattern? depth with
  | .error e => (s, .error e)
  | .ok modules =>
    if options.debug then
      let dir := debugDirectory options.output
      match writeDebugModules s dir modules with
      | (s, .error e) => (s, .error e)
      | (s, .ok ()) => writeOutput s options c (some dir) modules
    else writeOutput s options c none modules

end ScriptEmbed
