import ScriptEmbed.Pattern.CharSet

/-!
# Patterns

A pattern describes texts: characters of a set, places between characters, sequences,
alternatives and repetitions. The only question asked is whether a pattern matches somewhere in
a text, so that neither groups nor the preference between matches play a part.

The answer is computed on sets of places. A text of `n` characters has `n + 1` places; a set of
places is a number whose bits stand for them. A pattern takes a set of places to the set of all
places where a match that starts in the set can end.

* `Pattern` — patterns over given atoms; `Atom` — the atoms of written patterns;
* `Step` — what an atom does to places of one text;
* `Pattern.image` — what a pattern does to them;
* `Pattern.isMatch` — some match somewhere;
* `PatternReader` — a notation of patterns.
-/

namespace ScriptEmbed

/-- A condition on the characters before and after a place. -/
inductive Assertion where
  | start | stop | lineStart | lineStop | carriageStart | carriageStop
  | boundary | notBoundary | wordStart | wordStop | wordStartHalf | wordStopHalf
  /-- The condition where characters beyond ASCII count as none. -/
  | ascii (a : Assertion)
  deriving DecidableEq, Repr

/-- The condition holds between the two neighbours of a place. -/
def Assertion.holds : Assertion → Option Char → Option Char → Bool
  | start, before, _ => before.isNone
  | stop, _, after => after.isNone
  | lineStart, before, _ => before.isNone || before == some '\n'
  | lineStop, _, after => after.isNone || after == some '\n'
  | carriageStart, before, after =>
    before.isNone || before == some '\n' || (before == some '\r' && after != some '\n')
  | carriageStop, before, after =>
    after.isNone || after == some '\r' || (after == some '\n' && before != some '\r')
  | boundary, before, after => Text.isBoundary before after
  | notBoundary, before, after => !Text.isBoundary before after
  | wordStart, before, after => !Text.isWordSide before && Text.isWordSide after
  | wordStop, before, after => Text.isWordSide before && !Text.isWordSide after
  | wordStartHalf, before, _ => !Text.isWordSide before
  | wordStopHalf, _, after => !Text.isWordSide after
  | ascii a, before, after =>
    a.holds (before.filter fun c => c.toNat < 128) (after.filter fun c => c.toNat < 128)

/-- One character of a set, or a place. -/
inductive Atom where
  | set (s : CharSet)
  | place (a : Assertion)
  deriving DecidableEq, Repr

/-- A pattern over atoms. A repetition without upper bound has no `most`. -/
inductive Pattern (α : Type) where
  | empty
  | atom (a : α)
  | seq (p q : Pattern α)
  | alt (p q : Pattern α)
  | loop (p : Pattern α) (least : Nat) (most : Option Nat)
  deriving DecidableEq, Repr

/-- What an atom does to a set of places: go over one character from the places of a set, or
stay on the places of a set. -/
inductive Step where
  | advance (places : Nat)
  | stay (places : Nat)

/-! ### Sets of places -/

/-- The places of a text whose neighbours satisfy a condition. -/
def placesWhere (holds : Option Char → Option Char → Bool) (before : Option Char) : Text → Nat
  | [] => (holds before none).toNat
  | c :: rest => 2 * placesWhere holds (some c) rest + (holds before (some c)).toNat

/-- The step of an atom in a text. -/
def Step.ofAtom (t : Text) : Atom → Step
  | .set s => advance (placesWhere (fun _ after => after.any s.contains) none t)
  | .place a => stay (placesWhere a.holds none t)

/-- The places that a step leads to. -/
def Step.image : Step → Nat → Nat
  | advance m, places => 2 * (places &&& m)
  | stay m, places => places &&& m

/-- Adds the image of a set to it, as often as `count` says or until nothing is new. -/
def saturate (image : Nat → Nat) : Nat → Nat → Nat
  | 0, places => places
  | count + 1, places =>
    let more := places ||| image places
    if more = places then places else saturate image count more

namespace Pattern

/-- The pattern over other atoms. -/
def map {α β : Type} (f : α → β) : Pattern α → Pattern β
  | empty => empty
  | atom a => atom (f a)
  | seq p q => seq (p.map f) (q.map f)
  | alt p q => alt (p.map f) (q.map f)
  | loop p least most => loop (p.map f) least most

/-- The ends of the matches that start in a set of places, of which a text has `count`. Each
round of a repetition that leads anywhere new adds a place, so `count` rounds are enough. -/
def image (count : Nat) : Pattern Step → Nat → Nat
  | empty, places => places
  | atom s, places => s.image places
  | seq p q, places => q.image count (p.image count places)
  | alt p q, places => p.image count places ||| q.image count places
  | loop p least most, places =>
    let rounds := match most with
      | none => count
      | some m => m - least
    saturate (p.image count) rounds (Nat.repeat (p.image count) least places)

/-- The pattern matches somewhere in the text. -/
def isMatch (p : Pattern Atom) (t : Text) : Bool :=
  let count := t.length + 1
  (p.map (Step.ofAtom t)).image count (Nat.pow 2 count - 1) != 0

end Pattern

/-- A notation of patterns: the pattern that a text stands for, or nothing where it is none. Every set
of characters is a union of ranges, so that no class of characters is left out. -/
abbrev PatternReader := Text → Option (Pattern Atom)

end ScriptEmbed
