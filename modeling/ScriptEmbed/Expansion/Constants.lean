import ScriptEmbed.Definitions.Basic
import ScriptEmbed.Text.Word

/-!
# Expansion of constants

Every occurrence of a constant's name as a whole word becomes its replacement, in one pass from
the left. All names are looked for in the given text only, so a replacement is never replaced again;
of two names that occur at one place the one declared first counts.

* `occursAt` — a name stands at a place, with a word boundary on either side;
* `nextOccurrence?` — the first place from here where it does;
* `Slot` — a constant with its next occurrence;
* `sweep` — takes the earliest occurrence and goes on after it;
* `expandConstants` — the pass over a text.
-/

namespace ScriptEmbed

namespace Expansion

/-- The name stands at the start of `rest`, before which `before` stands, with word boundaries
at both of its ends. -/
def occursAt (name : Text) (before : Option Char) (rest : Text) : Bool :=
  name.isPrefixOf rest && Text.isBoundary before rest.head? &&
    Text.isBoundary name.getLast? (rest.drop name.length).head?

/-- The first position, `position` being that of `rest`, at which the name occurs. -/
def nextOccurrence? (name : Text) (before : Option Char) (position : Nat) : Text → Option Nat
  | [] => none
  | c :: rest =>
    if occursAt name before (c :: rest) then some position
    else nextOccurrence? name (some c) (position + 1) rest

/-- A constant and the position of its next occurrence. -/
structure Slot where
  name : Text
  replacement : Text
  next : Option Nat
  name_ne_nil : name ≠ []

namespace Slot

/-- The slot of a constant at the start of a text; an empty name never occurs. -/
def ofConstant? (t : Text) (c : Constant) : Option Slot :=
  if h : c.name = [] then none
  else some ⟨c.name, c.replacement, nextOccurrence? c.name none 0 t, h⟩

/-- The slot once the text is copied up to `position`: an occurrence before it is looked for
anew. -/
def refresh (s : Slot) (before : Option Char) (position : Nat) (rest : Text) : Slot :=
  match s.next with
  | none => s
  | some p =>
    if p < position then { s with next := nextOccurrence? s.name before position rest } else s

/-- The earliest occurrence and its slot, of two equally early the first. -/
def earliest? : List Slot → Option (Nat × Slot)
  | [] => none
  | s :: rest =>
    match s.next, earliest? rest with
    | none, other => other
    | some p, none => some (p, s)
    | some p, some (q, u) => if p ≤ q then some (p, s) else some (q, u)

end Slot

/-- The text from `position` on, with every occurrence replaced. -/
def sweep (slots : List Slot) (position : Nat) (t : Text) : Text :=
  match t with
  | [] => []
  | c :: rest =>
    match Slot.earliest? slots with
    | none => c :: rest
    | some (start, s) =>
      let skipped := start - position
      let stop := start + s.name.length
      let tail := (c :: rest).drop (skipped + s.name.length)
      (c :: rest).take skipped ++ s.replacement ++
        sweep (slots.map fun u => u.refresh s.name.getLast? stop tail) stop tail
termination_by t.length
decreasing_by
  have := List.length_pos_iff.mpr s.name_ne_nil
  simp only [List.length_drop, List.length_cons]
  omega

end Expansion

/-- The text with every whole-word constant name replaced by its value. -/
def expandConstants (constants : List Constant) (t : Text) : Text :=
  Expansion.sweep (constants.filterMap (Expansion.Slot.ofConstant? t)) 0 t

end ScriptEmbed
