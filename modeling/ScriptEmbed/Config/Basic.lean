import ScriptEmbed.Config.Setting
import ScriptEmbed.Forbidden
import ScriptEmbed.Macro.Template

/-!
# Configuration

* `Config` — the settings of a build, with `Config.standard` for what is not given;
* `Config.read?` — the configuration that settings of some form give, and `Config.ofSetting?`,
  the one of a tree of settings;
* `Config.check` — refuses values from which no C++ file could be made;
* `ConfigError` — why.
-/

namespace ScriptEmbed

/-- The settings of a build. -/
structure Config where
  /-- The file name by which the definitions file is found among the sources. -/
  macrosFileName : Text
  /-- The C++ namespace around the generated arrays. -/
  namespaceName : Text
  /-- The name of the generated array of strings. -/
  arrayName : Text
  /-- Whether comments are taken out of the expanded modules. -/
  stripComments : Bool
  /-- How template parameters are found. -/
  substitution : Substitution
  /-- The constructs refused in expanded modules. -/
  forbidden : List Rule
  deriving DecidableEq, Repr

/-- Why a configuration is refused. -/
inductive ConfigError where
  | emptyMacrosFileName
  | badNamespace (name : Text)
  | badArrayName (name : Text)
  | badRule
  deriving DecidableEq, Repr

/-- The wording of a refusal. -/
def ConfigError.message : ConfigError → String
  | emptyMacrosFileName => "macros_file_name must not be empty"
  | badNamespace n => "namespace '" ++ String.ofList n ++ "' is not a C++ namespace name"
  | badArrayName n => "array_name '" ++ String.ofList n ++ "' is not a usable C++ identifier"
  | badRule => "Invalid forbidden pattern: " ++ MacroError.pattern.message

namespace Config

/-- What applies where nothing is given. -/
def standard : Config where
  macrosFileName := "macros.py".toList
  namespaceName := "adblock".toList
  arrayName := "js_sources".toList
  stripComments := false
  substitution := .substring
  forbidden := Rule.defaults

/-! ### Decoding -/

/-- The way of substitution with the given name. -/
def substitution? (name : Text) : Option Substitution :=
  if name == "substring".toList then some .substring
  else if name == "token".toList then some .token
  else none

/-- A rule: both fields are needed. -/
def rule? {α : Type} (r : Reading α) (v : α) : Option Rule :=
  match r.fields? ["pattern".toList, "message".toList] v with
  | some [some p, some m] => do
    let pattern ← r.text? p
    let message ← r.text? m
    return ⟨pattern, message⟩
  | _ => none

/-- The value of a field if it is given, or else the standard one. -/
def given {α β : Type} (read : α → Option β) (standard : β) : Option α → Option β
  | none => some standard
  | some v => read v

/-- The names of the fields, in the order in which a list gives them. -/
def fieldNames : List Text :=
  ["macros_file_name".toList, "namespace".toList, "array_name".toList, "strip_comments".toList,
    "param_substitution".toList, "forbidden".toList]

/-- The configuration that settings of some form give. Unknown fields are ignored. -/
def read? {α : Type} (r : Reading α) (v : α) : Option Config :=
  match r.fields? fieldNames v with
  | some [macros, space, array, strip, mode, rules] => do
    let macros ← given r.text? standard.macrosFileName macros
    let space ← given r.text? standard.namespaceName space
    let array ← given r.text? standard.arrayName array
    let strip ← given r.bool? standard.stripComments strip
    let mode ← given (fun v => (r.choice? v).bind substitution?) standard.substitution mode
    let rules ← given (fun v => (r.list? v).bind (·.mapM (rule? r))) standard.forbidden rules
    return ⟨macros, space, array, strip, mode, rules⟩
  | _ => none

/-- The configuration that a tree of settings gives. -/
def ofSetting? : Setting → Option Config := read? Setting.reading

/-! ### Checking -/

/-- An ASCII letter or low line and word characters after it. -/
def isIdentifier : Text → Bool
  | [] => false
  | c :: rest => (c.isAlpha || c == '_') && rest.all Text.isWord

/-- Identifiers with two colons between neighbours, given the pieces between single colons. -/
def isQualified : List Text → Bool
  | [p] => isIdentifier p
  | p :: [] :: rest => isIdentifier p && isQualified rest
  | _ => false

/-- A name of a C++ namespace, which may be nested in others. -/
def isNamespace (t : Text) : Bool := isQualified (Text.pieces ':' t)

/-- A name that the generated array can have beside the array of bytes. -/
def isArrayName (t : Text) : Bool := isIdentifier t && t != "sources".toList

/-- The validator of the configured rules. -/
def validator (c : Config) (pattern? : PatternReader := Pattern.parse?) :
    Except MacroError Validator :=
  Validator.ofRules c.forbidden pattern?

/-- Refuses values from which no C++ file could be made, and patterns that are none. -/
def check (c : Config) (pattern? : PatternReader := Pattern.parse?) : Except ConfigError Unit :=
  if c.macrosFileName.isEmpty then .error .emptyMacrosFileName
  else if !isNamespace c.namespaceName then .error (.badNamespace c.namespaceName)
  else if !isArrayName c.arrayName then .error (.badArrayName c.arrayName)
  else
    match c.validator pattern? with
    | .error _ => .error .badRule
    | .ok _ => .ok ()

end Config

end ScriptEmbed
