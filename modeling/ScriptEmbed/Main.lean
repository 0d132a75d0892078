import ScriptEmbed.Command.Run

/-!
# The command line program

The program runs on a store that holds what the disk holds at the paths concerned. Files are
read before the run and written after it; everything in between is `ScriptEmbed.run`.
-/

namespace ScriptEmbed.Main

/-- The path of a place on disk. -/
def diskPath (p : Place) : String := String.ofList ('/' :: Text.join ['/'] p)

/-- What stands at a place on disk. -/
def readPlace (p : Place) : IO (Option Entry) := do
  try
    let bytes ← IO.FS.readBinFile (diskPath p)
    return some (.file (Content.ofBytes bytes.toList))
  catch _ =>
    try
      let real ← IO.FS.realPath (diskPath p)
      return if ← real.isDir then some .directory else none
    catch _ => return none

/-- The places from the root to the end of a path, all that it passes by included. -/
def placesOnWay (here : Place) : List Component → List Place
  | [] => [here]
  | .root :: rest => here :: placesOnWay [] rest
  | .current :: rest => placesOnWay here rest
  | .parent :: rest => here :: placesOnWay here.dropLast rest
  | .name n :: rest => here :: placesOnWay (here ++ [n]) rest

/-- Adds what stands on disk along a path. -/
def loadPath (s : Store) (p : Path) : IO Store :=
  (placesOnWay s.working p.components).foldlM (fun s place => do
    if (s.at? place).isSome then return s
    match ← readPlace place with
    | some e => return s.put place e
    | none => return s) s

/-- Writes to disk what was put into a store. -/
def writePlace (change : Place × Entry) : IO Unit :=
  match change.2 with
  | .directory => IO.FS.createDirAll (diskPath change.1)
  | .file (.text t) => IO.FS.writeFile (diskPath change.1) (String.ofList t)
  | .file (.binary bytes) => IO.FS.writeBinFile (diskPath change.1) ⟨bytes.toArray⟩

/-- Runs the program and gives its exit status. -/
def program (args : List String) : IO UInt32 := do
  let arguments := args.map String.toList
  let environment := (← IO.getEnv "JS2C_CONFIG").map String.toList
  let here ← IO.currentDir
  let working := (Text.pieces '/' here.toString.toList).filter fun s => !s.isEmpty
  let s ← (configPaths environment arguments).foldlM loadPath ⟨[], working⟩
  let s ← (commandPaths s environment arguments).foldlM loadPath s
  let (after, outcome) := run s environment arguments
  (s.putSince after).forM writePlace
  match outcome with
  | .printed t => IO.print (String.ofList t)
  | .failed cause => IO.eprintln (Outcome.report cause)
  | .misused => IO.eprintln "Usage: js2c [OPTIONS] <build|expand|check> [ARGUMENTS]"
  return outcome.status.toUInt32

end ScriptEmbed.Main

/-- The entry point. -/
def main (args : List String) : IO UInt32 := ScriptEmbed.Main.program args
