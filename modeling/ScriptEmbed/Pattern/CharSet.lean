import ScriptEmbed.Text.Blank
import ScriptEmbed.Text.CaseFolding
import ScriptEmbed.Text.Digit
import ScriptEmbed.Text.Word

/-!
# Sets of characters in patterns

* `CharSet` — ranges, the classes of digits, blanks and word characters, and their combinations;
* `CharSet.contains` — membership.
-/

namespace ScriptEmbed

/-- A set of characters. -/
inductive CharSet where
  | range (first last : Nat)
  | digit
  | blank
  | word
  | union (a b : CharSet)
  | inter (a b : CharSet)
  | diff (a b : CharSet)
  | complement (a : CharSet)
  /-- Every character that equals one of the set without regard to case. -/
  | anyCase (a : CharSet)
  /-- The same where only ASCII letters have a case. -/
  | anyAsciiCase (a : CharSet)
  deriving DecidableEq, Repr

namespace CharSet

/-- Membership. -/
def contains : CharSet → Char → Bool
  | range first last, c => first ≤ c.toNat && c.toNat ≤ last
  | digit, c => Text.isDecimalDigit c
  | blank, c => Text.isBlank c
  | word, c => Text.isWord c
  | union a b, c => a.contains c || b.contains c
  | inter a b, c => a.contains c && b.contains c
  | diff a b, c => a.contains c && !b.contains c
  | complement a, c => !a.contains c
  | anyCase a, c => (Text.caseVariants c.toNat).any fun n => a.contains (Char.ofNat n)
  | anyAsciiCase a, c => a.contains c.toLower || a.contains c.toUpper

/-- No character. -/
def none : CharSet := range 1 0

/-- One character. -/
def single (c : Char) : CharSet := range c.toNat c.toNat

/-- The characters between two, ends included. -/
def between (first last : Char) : CharSet := range first.toNat last.toNat

/-- The characters of any of the sets. -/
def unions : List CharSet → CharSet
  | [] => none
  | [s] => s
  | s :: rest => union s (unions rest)

/-- The characters of exactly one of two sets. -/
def symmDiff (a b : CharSet) : CharSet := union (diff a b) (diff b a)

end CharSet

end ScriptEmbed
