import ScriptEmbed.Pattern.Escape
import ScriptEmbed.Pattern.Part

/-!
# Classes in square brackets

A class holds characters, ranges of characters, classes under letters or names, and classes in
brackets of their own. Operators between them make the intersection or a difference.

* `Pattern.named?` — a class by its name;
* `Pattern.ClassState` — a class between its brackets;
* `Pattern.readClass?` — a class in square brackets.

The recursion of the readers is bounded by a count.
-/

namespace ScriptEmbed.Pattern

/-- The named classes of ASCII characters. -/
def namedClass? (name : Text) : Option CharSet :=
  let upper := CharSet.between 'A' 'Z'
  let lower := CharSet.between 'a' 'z'
  let figure := CharSet.between '0' '9'
  match String.ofList name with
  | "alnum" => some (.unions [figure, upper, lower])
  | "alpha" => some (.union upper lower)
  | "ascii" => some (.range 0 127)
  | "blank" => some (.union (.single '\t') (.single ' '))
  | "cntrl" => some (.union (.range 0 31) (.range 127 127))
  | "digit" => some figure
  | "graph" => some (.between '!' '~')
  | "lower" => some lower
  | "print" => some (.between ' ' '~')
  | "punct" =>
    some (.unions [.between '!' '/', .between ':' '@', .range 91 96, .range 123 126])
  | "space" => some (.union (.range 9 13) (.single ' '))
  | "upper" => some upper
  | "word" => some (.unions [figure, upper, lower, .single '_'])
  | "xdigit" => some (.unions [figure, .between 'A' 'F', .between 'a' 'f'])
  | _ => none

/-- A set with all case variants if case does not count. -/
def cased (f : Flags) (s : CharSet) : CharSet :=
  if !f.ignoreCase then s else if f.ascii then .anyAsciiCase s else .anyCase s

/-- A named class, given the text after its opening bracket: `:name:]` or `:^name:]`. A complement
that is refused leaves the class out. -/
def named? (f : Flags) : Text → Option (Option CharSet × Text)
  | ':' :: rest =>
    let negated := rest.head? == some '^'
    let rest := if negated then rest.drop 1 else rest
    match rest.dropWhile (· != ':') with
    | ':' :: ']' :: after =>
      (namedClass? (rest.takeWhile (· != ':'))).map fun s =>
        (if negated then complement? f (cased f s) else some (cased f s), after)
    | _ => none
  | _ => none

/-- Operators on sets. -/
inductive SetOp where
  | inter | diff | symmDiff

/-- The set that an operator makes of two. -/
def SetOp.apply : SetOp → CharSet → CharSet → CharSet
  | inter, a, b => .inter a b
  | diff, a, b => .diff a b
  | symmDiff, a, b => .symmDiff a b

/-- The operator at the start of a text: two equal characters. -/
def setOp? : Text → Option (SetOp × Text)
  | '&' :: '&' :: rest => some (.inter, rest)
  | '-' :: '-' :: rest => some (.diff, rest)
  | '~' :: '~' :: rest => some (.symmDiff, rest)
  | _ => none

/-- A set, and how many levels deep it is written. -/
structure Nested where
  set : CharSet
  depth : Nat

/-- A class between its brackets: the operands so far, joined by an operator to come. -/
structure ClassState where
  pending : Option (SetOp × Nested)
  items : List Nested

/-- The set read so far. -/
def ClassState.set (f : Flags) (s : ClassState) : Nested :=
  let operand : Nested :=
    ⟨cased f (.unions (s.items.reverse.map (·.set))), depthBeside (s.items.map (·.depth))⟩
  match s.pending with
  | none => operand
  | some (op, left) => ⟨op.apply left.set operand.set, max left.depth operand.depth + 1⟩

/-- The state with one more item. -/
def ClassState.push (s : ClassState) (item : Nested) : ClassState :=
  { s with items := item :: s.items }

/-- Where only ASCII counts, no other character stands inside brackets. -/
def Escaped.isAllowed (f : Flags) : Escaped → Bool
  | .char c => !f.ascii || c.toNat < 128
  | _ => true

/-- A single character or class inside brackets. -/
def classItem? (f : Flags) (t : Text) : Option (Escaped × Text) :=
  let item := match t with
    | [] => none
    | '\\' :: rest => escape? f rest
    | c :: rest => some (.char c, rest)
  item.filter fun (e, _) => e.isAllowed f

/-- The character of an item that is one. -/
def Escaped.char? : Escaped → Option Char
  | .char c => some c
  | _ => none

/-- The set of an item that is no place. -/
def Escaped.set? : Escaped → Option CharSet
  | .char c => some (.single c)
  | .set s => some s
  | .place _ => none

/-- A hyphen that joins two characters to a range: one that neither the closing bracket nor a
second hyphen follows. -/
def rangeRest? (f : Flags) (t : Text) : Option Text :=
  match skip f t with
  | '-' :: rest =>
    match skip f rest with
    | ']' :: _ => none
    | '-' :: _ => none
    | [] => none
    | _ => some (skip f rest)
  | _ => none

/-- An item or a range of characters. -/
def classRange? (f : Flags) (t : Text) : Option (CharSet × Text) := do
  let (first, t) ← classItem? f t
  match rangeRest? f t with
  | none => return (← first.set?, t)
  | some t =>
    let (last, t) ← classItem? f t
    let a ← first.char?
    let b ← last.char?
    if a ≤ b then some (.between a b, t) else none

/-- The hyphens at the start of a class, and a closing bracket that stands first: they mean
themselves. -/
def classPrelude (f : Flags) : Nat → Bool → Text → List CharSet × Text
  | 0, _, t => ([], t)
  | n + 1, first, t =>
    match skip f t with
    | '-' :: rest =>
      let (items, t) := classPrelude f n false rest
      (.single '-' :: items, t)
    | ']' :: rest => if first then ([.single ']'], rest) else ([], ']' :: rest)
    | t => ([], t)

mutual

/-- A class, given the text after its opening bracket. -/
def readClass? (f : Flags) : Nat → Text → Option (Nested × Text)
  | 0, _ => none
  | n + 1, t =>
    let t := skip f t
    let negated := t.head? == some '^'
    let (items, t) := classPrelude f n true (if negated then t.drop 1 else t)
    match classItems? f n ⟨none, items.reverse.map (⟨·, 0⟩)⟩ t with
    | none => none
    | some (⟨s, depth⟩, t) =>
      let s := cased f s
      if negated then (complement? f s).map fun s => (⟨s, depth + 1⟩, t)
      else some (⟨s, depth + 1⟩, t)

/-- The items of a class up to its closing bracket. -/
def classItems? (f : Flags) : Nat → ClassState → Text → Option (Nested × Text)
  | 0, _, _ => none
  | n + 1, s, t =>
    let t := skip f t
    match t with
    | [] => none
    | ']' :: rest => some (s.set f, rest)
    | '[' :: rest =>
      match named? f rest with
      | some (none, _) => none
      | some (some item, rest) => classItems? f n (s.push ⟨item, 0⟩) rest
      | none =>
        match readClass? f n rest with
        | none => none
        | some (item, rest) => classItems? f n (s.push item) rest
    | _ =>
      match setOp? t with
      | some (op, rest) => classItems? f n ⟨some (op, s.set f), []⟩ rest
      | none =>
        match classRange? f t with
        | none => none
        | some (item, rest) => classItems? f n (s.push ⟨item, 0⟩) rest

end

end ScriptEmbed.Pattern
