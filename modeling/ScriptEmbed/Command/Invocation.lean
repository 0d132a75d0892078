import ScriptEmbed.Command.Arguments
import ScriptEmbed.Files.Path
import ScriptEmbed.Macro.Template

/-!
# Command lines

A command line names one of three commands with its options and files. Some options may stand
before the name of the command as well.

* `Command` — the three commands; `Invocation` — a command with the options of all commands;
* `Front` — what stands before the name of a command;
* `Invocation.parse?` — the invocation that a list of arguments makes up;
* `Invocation.asksVersion` — whether the version is asked for instead.
-/

namespace ScriptEmbed

/-- How a listing is written. -/
inductive ListingFormat where
  | plain | json
  deriving DecidableEq, Repr

/-- Options that override the configuration. -/
structure Overrides where
  stripComments : Bool
  substitution : Option Substitution
  deriving DecidableEq, Repr

/-- A command with its options and files. -/
inductive Command where
  /-- Embeds all modules in a C++ file. -/
  | build (output : Path) (debug : Bool) (definitions : Option Path) (overrides : Overrides)
    (namespaceName : Option Text) (sources : List Path)
  /-- Prints one module as it would be embedded. -/
  | expand (definitions : Option Path) (overrides : Overrides) (module : Path)
  /-- Lists the definitions in a file. -/
  | check (definitions : Path) (format : ListingFormat)
  deriving DecidableEq, Repr

namespace Command

/-- The options that every command takes. -/
def commonOptions : List OptionName := [.verbose, .config]

/-- The overrides among items. -/
def overrides (items : List Item) : Overrides where
  stripComments := has items .stripComments
  substitution := (value? items .substitution).map fun v =>
    if v == "token".toList then .token else .substring

/-- The options of a command by its name. -/
def optionsOf? (name : Text) : Option (List OptionName) :=
  if name == "build".toList then
    some (commonOptions ++
      [.output, .debug, .definitions, .stripComments, .substitution, .namespaceName])
  else if name == "expand".toList then
    some (commonOptions ++ [.definitions, .stripComments, .substitution])
  else if name == "check".toList then some (commonOptions ++ [.format])
  else none

/-- The command with the given name, options and files, if they are complete. -/
def ofItems? (name : Text) (items : List Item) : Option Command :=
  let definitions := (value? items .definitions).map Path.mk
  if name == "build".toList then
    match value? items .output, files items with
    | some output, f :: fs =>
      some (build ⟨output⟩ (has items .debug) definitions (overrides items)
        (value? items .namespaceName) ((f :: fs).map Path.mk))
    | _, _ => none
  else if name == "expand".toList then
    match files items with
    | [f] => some (expand definitions (overrides items) ⟨f⟩)
    | _ => none
  else
    match files items with
    | [f] =>
      let format := if value? items .format == some "json".toList then .json else .plain
      some (check ⟨f⟩ format)
    | _ => none

end Command

/-- A command with the configuration file that is named for it. -/
structure Invocation where
  config : Option Path
  command : Command
  deriving DecidableEq, Repr

/-- What stands at the front of a command line. -/
inductive Front where
  /-- Options, and then the question for the version. -/
  | version (options : List Command.Item)
  /-- Options, and then the arguments from the name of the command on. -/
  | command (options : List Command.Item) (rest : List Text)
  deriving DecidableEq, Repr

namespace Front

/-- The front with more options before it. -/
def withOptions (more : List Command.Item) : Front → Front
  | version options => version (more ++ options)
  | command options rest => command (more ++ options) rest

/-- Takes options from the front as long as there are any, at most `n` times. -/
def go? : Nat → List Text → Option Front
  | 0, args => some (command [] args)
  | n + 1, args =>
    match args with
    | [] => some (command [] [])
    | ('-' :: '-' :: t) :: rest =>
      if t == "version".toList then some (version [])
      else
        match Command.long? Command.commonOptions t rest with
        | none => none
        | some (item, rest) => (go? n rest).map (withOptions [item])
    | ('-' :: c :: t) :: rest =>
      let letters := (c :: t).takeWhile (· != 'V')
      match Command.cluster? Command.commonOptions letters rest with
      | none => none
      | some (items, rest) =>
        if letters.length ≤ t.length then some (version items)
        else (go? n rest).map (withOptions items)
    | args => some (command [] args)

/-- The front of a command line. -/
def parse? (args : List Text) : Option Front := go? args.length args

end Front

namespace Invocation

/-- The configuration file that options before and after the name of the command give, or else the
environment. The environment must not give an empty path where either place gives none. -/
def config? (environment : Option Text) (before items : List Command.Item) :
    Option (Option Path) :=
  let front := Command.value? before .config
  let back := Command.value? items .config
  if environment == some [] && !(front.isSome && back.isSome) then none
  else some (((back.or front).or environment).map Path.mk)

/-- The invocation that the arguments make up; `environment` names a configuration file where no
option does. -/
def parse? (environment : Option Text) (args : List Text) : Option Invocation := do
  match ← Front.parse? args with
  | .version _ => none
  | .command _ [] => none
  | .command before (name :: rest) =>
    let allowed ← Command.optionsOf? name
    let items ← Command.scan? allowed rest
    let command ← Command.ofItems? name items
    let config ← config? environment before items
    if Command.areValid before && Command.areValid items then some ⟨config, command⟩ else none

/-- The arguments ask for the version. -/
def asksVersion (args : List Text) : Bool :=
  match Front.parse? args with
  | some (.version options) => Command.areValid options
  | _ => false

end Invocation

end ScriptEmbed
