import ScriptEmbed.Text.Basic

/-!
# Places in a settings file

Settings are read from the front of a text to its end. What may stand at a place depends on its
column, and how far a key may reach on its line and on the number of characters before it.

* `Yaml.isGap`, `Yaml.isBreak` — the blanks within a line and the characters that end one;
* `Yaml.isAllowed` — the characters that may stand in a file;
* `Cursor` — a place with the text after it;
* `Cursor.skipVoid` — over blanks, comments and line breaks;
* `Gap` — blanks and line breaks inside a scalar, with `Gap.fold`, the text they stand for.
-/

namespace ScriptEmbed.Yaml

/-! ### Characters -/

/-- A space or a tab. -/
def isGap (c : Char) : Bool := c == ' ' || c == '\t'

/-- A character that ends a line: a line feed, a carriage return, or one of three others. -/
def isBreak (c : Char) : Bool :=
  c == '\n' || c == '\r' || c == '\u0085' || c == '\u2028' || c == '\u2029'

/-- A gap or a line break. -/
def isVoid (c : Char) : Bool := isGap c || isBreak c

/-- A character that may stand in a file. -/
def isAllowed (c : Char) : Bool :=
  let n := c.toNat
  n == 9 || n == 10 || n == 13 || (0x20 ≤ n && n ≤ 0x7E) || n == 0x85 ||
    (0xA0 ≤ n && n != 0xFFFE && n != 0xFFFF)

/-- An ASCII letter or digit, a low line or a hyphen. -/
def isNameChar (c : Char) : Bool := c.isAlphanum || c == '_' || c == '-'

/-- The value of a digit in base sixteen. -/
def hexDigit? (c : Char) : Option Nat :=
  if c.isDigit then some (c.toNat - 48)
  else if 'a' ≤ c ∧ c ≤ 'f' then some (c.toNat - 87)
  else if 'A' ≤ c ∧ c ≤ 'F' then some (c.toNat - 55)
  else none

/-- A gap, a line break or the end stands at the start of a text. -/
def atVoid (t : Text) : Bool := t.head?.all isVoid

/-- A line break or the end stands at the start of a text. -/
def atLineEnd (t : Text) : Bool := t.head?.all isBreak

/-! ### Cursors -/

/-- A place: the text after it, the number of characters before it, and its line and column. -/
structure Cursor where
  rest : Text
  index : Nat
  line : Nat
  column : Nat
  deriving DecidableEq, Repr

namespace Cursor

/-- The place `n` characters further on the same line. -/
def advance (c : Cursor) (n : Nat) : Cursor :=
  { c with rest := c.rest.drop n, index := c.index + n, column := c.column + n }

theorem advance_rest_length_le (c : Cursor) (n : Nat) :
    (c.advance n).rest.length ≤ c.rest.length := by
  simp only [advance, List.length_drop]
  omega

/-- The number of characters of the line break at a place; a carriage return and a line feed
make up one. -/
def breakLength (c : Cursor) : Nat :=
  match c.rest with
  | '\r' :: '\n' :: _ => 2
  | _ => 1

/-- The place after the line break at a place. -/
def skipBreak (c : Cursor) : Cursor :=
  ⟨c.rest.drop c.breakLength, c.index + c.breakLength, c.line + 1, 0⟩

/-- A line break takes up at least one character. -/
theorem skipBreak_rest_length_lt {c : Cursor} (h : c.rest.head?.any isBreak = true) :
    c.skipBreak.rest.length < c.rest.length := by
  have pos : 0 < c.rest.length := by
    cases hc : c.rest with
    | nil => simp [hc] at h
    | cons x t => simp
  have width : 1 ≤ c.breakLength := by
    unfold breakLength
    split <;> decide
  simp only [skipBreak, List.length_drop]
  omega

/-- The text that the line break at a place stands for: a line feed, except for the line and
paragraph separators, which stand for themselves. -/
def breakText (c : Cursor) : Text :=
  match c.rest with
  | [] => []
  | x :: _ => if x == '\u2028' || x == '\u2029' then [x] else ['\n']

/-- Three times the given character stand alone at the start of a line. -/
def atMark (c : Cursor) (mark : Char) : Bool :=
  c.column == 0 && [mark, mark, mark].isPrefixOf c.rest && atVoid (c.rest.drop 3)

/-- A line that starts or ends a document. -/
def atDocumentMark (c : Cursor) : Bool := c.atMark '-' || c.atMark '.'

/-- The place after the spaces at a place, and after the tabs too if they count. -/
def skipBlanks (c : Cursor) (tabs : Bool) : Cursor :=
  c.advance (c.rest.takeWhile fun x => x == ' ' || (tabs && x == '\t')).length

/-- The place before the next line break. -/
def skipLine (c : Cursor) : Cursor := c.advance (c.rest.takeWhile fun x => !isBreak x).length

/-- The place after a comment, if there is one. -/
def skipComment (c : Cursor) : Cursor := if c.rest.head? == some '#' then c.skipLine else c

theorem skipBlanks_rest_length_le (c : Cursor) (tabs : Bool) :
    (c.skipBlanks tabs).rest.length ≤ c.rest.length :=
  advance_rest_length_le c _

theorem skipComment_rest_length_le (c : Cursor) :
    c.skipComment.rest.length ≤ c.rest.length := by
  unfold skipComment
  split
  · exact advance_rest_length_le c _
  · exact Nat.le_refl _

/-- The place after blanks, comments and line breaks, and whether a line ended on the way.
Outside brackets tabs do not count at the start of a line. -/
def skipVoid (inFlow tabs ended : Bool) (c : Cursor) : Cursor × Bool :=
  let stop := (c.skipBlanks tabs).skipComment
  if stop.rest.head?.any isBreak then skipVoid inFlow inFlow true stop.skipBreak
  else (stop, ended)
termination_by c.rest.length
decreasing_by
  have lt : (c.skipBlanks tabs).skipComment.skipBreak.rest.length <
      (c.skipBlanks tabs).skipComment.rest.length := skipBreak_rest_length_lt ‹_›
  have le := skipComment_rest_length_le (c.skipBlanks tabs)
  have le' := skipBlanks_rest_length_le c tabs
  omega

end Cursor

/-! ### Gaps -/

/-- Blanks on a line, and the texts of the line breaks after them. Blanks at the start of the
lines that follow do not count. -/
structure Gap where
  blanks : Text
  breaks : List Text
  deriving DecidableEq, Repr

namespace Gap

/-- A first line break becomes a space, or nothing if others follow it. -/
def fold (g : Gap) : Text :=
  match g.breaks with
  | [] => g.blanks
  | b :: rest =>
    if b == ['\n'] then if rest.isEmpty then [' '] else rest.flatten
    else b ++ rest.flatten

/-- Reads line breaks with the blanks at the start of the lines after them. No tab may stand
before the column `margin`. -/
def breaks? (margin : Nat) (c : Cursor) : Option (List Text × Cursor) :=
  if c.rest.head?.any isBreak then
    let start := c.skipBreak
    if '\t' ∈ (start.rest.takeWhile isGap).take margin then none
    else (breaks? margin (start.skipBlanks true)).map fun (bs, c') => (c.breakText :: bs, c')
  else some ([], c)
termination_by c.rest.length
decreasing_by
  have lt : c.skipBreak.rest.length < c.rest.length := Cursor.skipBreak_rest_length_lt ‹_›
  have le := Cursor.skipBlanks_rest_length_le c.skipBreak true
  omega

/-- The gap at a place. -/
def at? (margin : Nat) (c : Cursor) : Option (Gap × Cursor) :=
  let blanks := c.rest.takeWhile isGap
  (breaks? margin (c.advance blanks.length)).map fun (bs, c) => (⟨blanks, bs⟩, c)

end Gap

end ScriptEmbed.Yaml
