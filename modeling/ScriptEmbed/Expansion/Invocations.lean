import ScriptEmbed.Expansion.Arguments
import ScriptEmbed.Expansion.Constants
import ScriptEmbed.Expansion.Error

/-!
# Expansion of macros

The macros are taken from the last declared to the first. Of each, every call in the text is
replaced, from the left: its arguments are expanded, the body is instantiated, the result is
expanded again with the macro marked as active, and scanning goes on after it. A call of an
active macro is an error, so that a macro cannot be expanded inside its own expansion.

Arguments are expanded while the macro is not active, which leaves calls that nest without end.
The nesting of expansions is therefore bounded by a depth.

* `Stop` — an error of the macro language, or the depth is used up;
* `Expansion.sweepCalls` — replaces all calls of one macro;
* `Definitions.expandWithin` — expansion to a given depth under given active macros;
* `Definitions.expandMacros`, `Definitions.expand` — macros alone, and constants first.
-/

namespace ScriptEmbed

/-- Why an expansion has no result. -/
inductive Stop where
  | failed (error : MacroError)
  | tooDeep
  deriving DecidableEq, Repr

/-- The wording of a reason. -/
def Stop.message : Stop → String
  | failed e => e.message
  | tooDeep => "Expansion nested too deeply"

namespace Expansion

/-- A call of the name starts at `rest`, before which `before` stands: a word boundary, the name
and an opening parenthesis. -/
def calledAt (name : Text) (before : Option Char) (rest : Text) : Bool :=
  (name ++ ['(']).isPrefixOf rest && Text.isBoundary before rest.head?

/-- The last character of a text, or the one before it if the text is empty. -/
def lastOr (before : Option Char) (t : Text) : Option Char := t.getLast?.or before

/-- The results of an expansion for each text, in order. -/
def expandAll (expand : Text → Except Stop Text) : List Text → Except Stop (List Text)
  | [] => .ok []
  | t :: ts => do
    let u ← expand t
    let us ← expandAll expand ts
    return u :: us

/-- The expansion of one call: its arguments, then its body under the macro as active. The
offset is that of the call in the text at hand. -/
def expandCall (expand : List Text → Text → Except Stop Text) (mode : Substitution)
    (m : NamedMacro) (active args : List Text) : Except Stop Text :=
  if args.length = m.body.params.length then do
    let values ← expandAll (expand active) args
    match m.body.expand mode values with
    | .error cause => .error (.failed (.evaluation m.name cause))
    | .ok body => expand (active ++ [m.name]) body
  else .error (.failed (.arity m.name m.body.params.length args.length))

/-- Replaces all calls of one macro in a text before which `before` stands, `offset` bytes into
the text at hand. -/
def sweepCalls (expand : List Text → Text → Except Stop Text) (mode : Substitution)
    (m : NamedMacro) (active : List Text) (before : Option Char) (offset : Nat) (t : Text) :
    Except Stop Text :=
  match t with
  | [] => .ok []
  | c :: rest =>
    if calledAt m.name before (c :: rest) then
      if m.name ∈ active then .error (.failed (.recursion m.name (active ++ [m.name])))
      else
        match _h : Arguments.parse? ((c :: rest).drop (m.name.length + 1)) with
        | none => .error (.failed (.unterminated m.name offset))
        | some call =>
          match expandCall expand mode m active call.values with
          | .error e => .error e
          | .ok expansion =>
            (sweepCalls expand mode m active (lastOr before expansion)
              (offset + Text.byteSize expansion) call.rest).map (expansion ++ ·)
    else
      (sweepCalls expand mode m active (some c) (offset + c.utf8Size) rest).map (c :: ·)
termination_by t.length
decreasing_by
  · have := Arguments.parse?_rest_length ‹_›
    simp only [List.length_drop] at this
    omega
  · simp

/-- Replaces all calls of the given macros, one macro after the other. -/
def sweepAll (expand : List Text → Text → Except Stop Text) (mode : Substitution)
    (active : List Text) : List NamedMacro → Text → Except Stop Text
  | [], t => .ok t
  | m :: ms, t =>
    match sweepCalls expand mode m active none 0 t with
    | .error e => .error e
    | .ok t => sweepAll expand mode active ms t

end Expansion

namespace Definitions

/-- The expansion of a text under the given active macros, with at most `depth` expansions
inside one another. -/
def expandWithin (d : Definitions) (mode : Substitution) :
    Nat → List Text → Text → Except Stop Text
  | 0, _, _ => .error .tooDeep
  | depth + 1, active, t =>
    Expansion.sweepAll (d.expandWithin mode depth) mode active d.macros.reverse t

/-- The text with all macro calls expanded. -/
def expandMacros (d : Definitions) (mode : Substitution) (depth : Nat) (t : Text) :
    Except Stop Text :=
  d.expandWithin mode depth [] t

/-- The text with all constants replaced and then all macro calls expanded. -/
def expand (d : Definitions) (mode : Substitution) (depth : Nat) (t : Text) : Except Stop Text :=
  d.expandMacros mode depth (expandConstants d.constants t)

end Definitions

/-- The depth to which the program expands. -/
def defaultDepth : Nat := 10000

end ScriptEmbed
