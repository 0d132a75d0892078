import ScriptEmbed.Pattern.Basic

/-!
# Depth and size of patterns

A pattern is refused if its written form is nested too deeply. Counted repetitions stand for copies
of what they repeat, and a pattern that would be too large with all copies written out is refused
as well. Sizes are in octets of a machine that reads the octets of a text from its end on.

* `Pattern.depthBeside` — the depth of things side by side;
* `Pattern.setSize`, `Pattern.loopSize` — sizes of sets and repetitions;
* `Pattern.Part` — a pattern with the depth and the size of its written form;
* `Pattern.depthLimit`, `Pattern.sizeLimit` — the greatest ones.
-/

namespace ScriptEmbed.Pattern

/-- The depth of things side by side: one level more than the deepest, unless there is one thing
at most. -/
def depthBeside : List Nat → Nat
  | [] => 0
  | [d] => d
  | ds => ds.foldl max 0 + 1

/-- The size of a state. -/
def stateSize : Nat := 32

/-- The size of a set beyond its two states: eight octets for each interval of ASCII characters,
and what the encodings of other characters take. The weights of combinations are estimates. -/
def setWeight : CharSet → Nat
  | .range _ last => if last < 128 then 8 else 104
  | .digit => 5052
  | .blank => 616
  | .word => 49772
  | .union a b => setWeight a + setWeight b
  | .inter a b => min (setWeight a) (setWeight b)
  | .diff a b => setWeight a + setWeight b
  | .complement .digit => 12656
  | .complement .blank => 1860
  | .complement .word => 46356
  | .complement a => setWeight a + 928
  | .anyCase a => 2 * setWeight a
  | .anyAsciiCase a => 2 * setWeight a

/-- The size of a set. A single character takes a state for each octet. -/
def setSize : CharSet → Nat
  | .range first last =>
    if first = last then stateSize * (Char.ofNat first).utf8Size
    else 2 * stateSize + setWeight (.range first last)
  | s => 2 * stateSize + setWeight s

/-- The pattern goes over no character, wherever it matches. -/
def takesNone : Pattern Atom → Bool
  | empty => true
  | atom (.set _) => false
  | atom (.place _) => true
  | seq p q => takesNone p && takesNone q
  | alt p q => takesNone p && takesNone q
  | loop p _ most => takesNone p || most == some 0

/-- The size of repetitions of something of a given size. -/
def loopSize (size least : Nat) : Option Nat → Nat
  | none => size * max least 1 + stateSize + 8
  | some most =>
    if most = 0 then stateSize
    else if most = least then size * least
    else size * most + (stateSize + 8) * (most - least) + stateSize

/-- A pattern, with the depth and the size of its written form. -/
structure Part where
  pattern : Pattern Atom
  depth : Nat
  size : Nat

namespace Part

/-- An atom that is written so many levels deep. -/
def ofAtom (a : Atom) (depth : Nat) : Part :=
  ⟨atom a, depth, match a with
    | .set s => setSize s
    | .place _ => stateSize⟩

/-- A sequence of items given in reverse; flags stand for nothing. -/
def sequence (items : List (Option Part)) : Part :=
  let parts := items.filterMap id
  { pattern := parts.foldl (fun later p =>
      match later with
      | empty => p.pattern
      | q => seq p.pattern q) empty
    depth := depthBeside (items.map fun item => (item.map Part.depth).getD 0)
    size := if parts.isEmpty then stateSize else parts.foldl (fun n p => n + p.size) 0 }

/-- Alternatives, of which there is one at least. -/
def alternatives (p : Part) : List Part → Part
  | [] => p
  | q :: rest =>
    let parts := q :: rest
    { pattern := parts.foldl (fun r part => alt r part.pattern) p.pattern
      depth := depthBeside (p.depth :: parts.map Part.depth)
      size := parts.foldl (fun n part => n + part.size + 4) (p.size + 4) + 2 * stateSize }

/-- A repetition. What goes over no character is repeated once at most. -/
def repeated (p : Part) (least : Nat) (most : Option Nat) : Part :=
  { pattern := loop p.pattern least most
    depth := p.depth + 1
    size :=
      if takesNone p.pattern then loopSize p.size (min least 1) (some (min (most.getD 1) 1))
      else loopSize p.size least most }

/-- A group, whose bounds are states if they are captured. -/
def group (p : Part) (isCaptured : Bool) : Part :=
  { p with depth := p.depth + 1, size := if isCaptured then p.size + 2 * stateSize else p.size }

end Part

/-- The greatest depth of a pattern. -/
def depthLimit : Nat := 250

/-- The largest size of a pattern, less what every pattern takes. -/
def sizeLimit : Nat := 10485760 - 208

end ScriptEmbed.Pattern
