import ScriptEmbed.Number.Decimal
import ScriptEmbed.Pattern.Class

/-!
# Reading patterns

The notation of patterns: literals, `.`, classes in square brackets, escapes, assertions, groups
with or without names and flags, alternatives, and repetitions, which may be lazy or counted.
Look-around and back-references are refused.

The notation has more than is read here: classes of characters by their properties, under `\p` and
`\P`, are refused. Beyond ASCII, the name of a group may hold any word character instead of letters
and numbers only, and the size of a set is an estimate. Laws on what is made of patterns therefore
take any `PatternReader`.

* `Pattern.groupStart?` — what stands after an opening parenthesis;
* `Pattern.repetition?` — a repetition;
* `Pattern.parse?` — the pattern of a text, or nothing if it is none, is nested too deeply or is
  too large.

The readers take what they read from the front of a text. Their recursion is bounded by a count
that `Pattern.parse?` takes from the length of the text.
-/

namespace ScriptEmbed.Pattern

/-! ### Flags and groups -/

/-- Sets a flag by its letter. The preference for short or long matches does not show. -/
def setFlag? (f : Flags) (on : Bool) : Char → Option Flags
  | 'i' => some { f with ignoreCase := on }
  | 'm' => some { f with multiLine := on }
  | 's' => some { f with dotAll := on }
  | 'x' => some { f with spaced := on }
  | 'u' => some { f with ascii := !on }
  | 'U' => some f
  | 'R' => some { f with carriage := on }
  | _ => none

/-- Flags up to a colon or closing parenthesis. No flag comes twice, and a hyphen stands once,
before at least one flag. -/
def flags? (f : Flags) (on : Bool) (seen : Text) : Text → Option (Flags × Char × Text)
  | [] => none
  | c :: rest =>
    if c == ':' || c == ')' then
      if !on && seen.head? == some '-' then none else some (f, c, rest)
    else if c == '-' then
      if on then flags? f false ('-' :: seen) rest else none
    else if c ∈ seen then none
    else
      match setFlag? f on c with
      | none => none
      | some f => flags? f on (c :: seen) rest

/-- A character of a group's name. -/
def isGroupNameChar (first : Bool) (c : Char) : Bool :=
  c == '_' || (if c.toNat < 128 then c.isAlpha else Text.isWord c) ||
    (!first && (c.isDigit || c == '.' || c == '[' || c == ']'))

/-- The name of a group, and the text after its closing angle bracket. -/
def groupName? (t : Text) : Option (Text × Text) :=
  match t.dropWhile (· != '>') with
  | _ :: rest =>
    match t.takeWhile (· != '>') with
    | [] => none
    | c :: cs =>
      if isGroupNameChar true c && cs.all (isGroupNameChar false) then some (c :: cs, rest)
      else none
  | [] => none

/-- How a group starts. -/
inductive GroupStart where
  | flagsOnly (f : Flags)
  | group (f : Flags) (isCaptured : Bool) (name : Option Text)

/-- The start of a group, given the text after its opening parenthesis. -/
def groupStart? (f : Flags) : Text → Option (GroupStart × Text)
  | '?' :: 'P' :: '<' :: rest => (groupName? rest).map fun (n, t) => (.group f true (some n), t)
  | '?' :: '<' :: '=' :: _ => none
  | '?' :: '<' :: '!' :: _ => none
  | '?' :: '<' :: rest => (groupName? rest).map fun (n, t) => (.group f true (some n), t)
  | '?' :: ')' :: _ => none
  | '?' :: rest =>
    (flags? f true [] rest).map fun (g, c, t) =>
      (if c == ':' then .group g false none else .flagsOnly g, t)
  | t => some (.group f true none, t)

/-! ### Repetitions -/

/-- A number below `2 ^ 32`, blanks around it aside. -/
def count? (f : Flags) (t : Text) : Option Nat × Text :=
  let (ds, rest) := takeRun f Decimal.isDigit t.length (t.dropWhile Text.isBlank)
  (if ds.isEmpty || Decimal.value ds ≥ 4294967296 then none else some (Decimal.value ds),
    skip f (rest.dropWhile Text.isBlank))

/-- The bounds of a counted repetition, given the text after its opening bracket. -/
def bounds? (f : Flags) (t : Text) : Option (Nat × Option Nat × Text) :=
  match count? f (skip f t) with
  | (some least, '}' :: rest) => some (least, some least, rest)
  | (some least, ',' :: rest) =>
    match skip f rest with
    | '}' :: rest => some (least, none, rest)
    | rest =>
      match count? f rest with
      | (some most, '}' :: rest) => if least ≤ most then some (least, some most, rest) else none
      | _ => none
  | _ => none

/-- A text without a question mark at its start. -/
def dropLazy : Text → Text
  | '?' :: rest => rest
  | t => t

/-- A repetition at the start of a text, with the question mark that makes it lazy. -/
def repetition? (f : Flags) : Text → Option (Option (Nat × Option Nat × Text))
  | '*' :: rest => some (some (0, none, dropLazy rest))
  | '+' :: rest => some (some (1, none, dropLazy rest))
  | '?' :: rest => some (some (0, some 1, dropLazy rest))
  | '{' :: rest =>
    some ((bounds? f rest).map fun (least, most, rest) => (least, most, dropLazy (skip f rest)))
  | _ => none

/-! ### Patterns -/

/-- A reader's state: the flags, the names of groups so far, and the rest of the text. -/
structure Reading where
  flags : Flags
  names : List Text
  rest : Text

/-- The set that a dot stands for. -/
def dotSet? (f : Flags) : Option CharSet :=
  if f.ascii then none
  else if f.dotAll then some (.complement .none)
  else if f.carriage then some (.complement (.union (.single '\n') (.single '\r')))
  else some (.complement (.single '\n'))

/-- The place that a circumflex stands for. -/
def startPlace (f : Flags) : Assertion :=
  if !f.multiLine then .start else if f.carriage then .carriageStart else .lineStart

/-- The place that a dollar sign stands for. -/
def stopPlace (f : Flags) : Assertion :=
  if !f.multiLine then .stop else if f.carriage then .carriageStop else .lineStop

/-- The atom of an escape. -/
def Escaped.atom (f : Flags) : Escaped → Atom
  | .char c => .set (cased f (.single c))
  | .set s => .set s
  | .place a => .place a

/-- A single atom: an escape, a dot, an anchor or a literal. -/
def atom? (f : Flags) : Text → Option (Atom × Text)
  | [] => none
  | '\\' :: rest => (escape? f rest).map fun (e, t) => (e.atom f, t)
  | '.' :: rest => (dotSet? f).map fun s => (.set s, rest)
  | '^' :: rest => some (.place (startPlace f), rest)
  | '$' :: rest => some (.place (stopPlace f), rest)
  | c :: rest => some (.set (cased f (.single c)), rest)

mutual

/-- Alternatives up to the end of the text or of a group. -/
def alternatives? (n : Nat) (r : Reading) : Option (Part × Reading) :=
  match n with
  | 0 => none
  | n + 1 =>
    match items? n r [] with
    | none => none
    | some (p, r) => (branches? n r).map fun (ps, r) => (p.alternatives ps, r)

/-- The further alternatives, each after a bar. -/
def branches? : Nat → Reading → Option (List Part × Reading)
  | 0, _ => none
  | n + 1, r =>
    match r.rest with
    | '|' :: rest =>
      match items? n { r with rest := rest } [] with
      | none => none
      | some (p, r) => (branches? n r).map fun (ps, r) => (p :: ps, r)
    | _ => some ([], r)

/-- Items up to a bar, a closing parenthesis or the end of the text. -/
def items? : Nat → Reading → List (Option Part) → Option (Part × Reading)
  | 0, _, _ => none
  | n + 1, r, items =>
    let t := skip r.flags r.rest
    match repetition? r.flags t with
    | some bounds =>
      match bounds, items with
      | some (least, most, rest), some p :: items =>
        items? n { r with rest := rest } (some (p.repeated least most) :: items)
      | _, _ => none
    | none =>
      match t with
      | [] => some (.sequence items, { r with rest := [] })
      | '|' :: rest => some (.sequence items, { r with rest := '|' :: rest })
      | ')' :: rest => some (.sequence items, { r with rest := ')' :: rest })
      | '[' :: rest =>
        match readClass? r.flags n rest with
        | none => none
        | some (⟨s, depth⟩, rest) =>
          items? n { r with rest := rest } (some (.ofAtom (.set s) depth) :: items)
      | '(' :: rest =>
        match groupStart? r.flags (skip r.flags rest) with
        | none => none
        | some (.flagsOnly f, rest) =>
          items? n { r with flags := f, rest := rest } (none :: items)
        | some (.group f isCaptured name, rest) =>
          if name.any (· ∈ r.names) then none
          else
            match alternatives? n ⟨f, name.toList ++ r.names, rest⟩ with
            | some (p, ⟨_, names, ')' :: rest⟩) =>
              items? n ⟨r.flags, names, rest⟩ (some (p.group isCaptured) :: items)
            | _ => none
      | t =>
        match atom? r.flags t with
        | none => none
        | some (a, rest) => items? n { r with rest := rest } (some (.ofAtom a 0) :: items)

end

/-- The pattern of a text. A text with a class of characters by their properties is taken for none, as
one whose sets beyond ASCII are estimated to be too large. -/
def parse? (t : Text) : Option (Pattern Atom) :=
  match alternatives? (2 * t.length + 4) ⟨Flags.initial, [], t⟩ with
  | some (p, ⟨_, _, []⟩) =>
    if p.depth ≤ depthLimit ∧ p.size ≤ sizeLimit then some p.pattern else none
  | _ => none

end ScriptEmbed.Pattern
