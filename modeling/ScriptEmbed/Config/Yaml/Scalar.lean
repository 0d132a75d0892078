import ScriptEmbed.Config.Yaml.Cursor

/-!
# Scalars

A scalar is written plainly, in quotes, or as a block of lines. Line breaks inside a plain or
quoted scalar are folded; a block keeps them or folds them as its head says.

* `Quoted.read?` — the text up to the closing quote;
* `Plain.read?` — the text up to what cannot go on a plain scalar;
* `Block.read?` — the text of the lines that are indented far enough.

Recursion is bounded by the number of characters that are left.
-/

namespace ScriptEmbed.Yaml

/-! ### Scalars in quotes -/

namespace Quoted

/-- The value of digits in base sixteen. -/
def hexValue? (t : Text) : Option Nat :=
  t.foldlM (fun n c => (hexDigit? c).map fun d => 16 * n + d) 0

/-- The character that a letter stands for after a backslash. -/
def escape? : Char → Option Char
  | '0' => some '\x00'
  | 'a' => some '\x07'
  | 'b' => some '\x08'
  | 't' => some '\t'
  | '\t' => some '\t'
  | 'n' => some '\n'
  | 'v' => some '\x0b'
  | 'f' => some '\x0c'
  | 'r' => some '\r'
  | 'e' => some '\x1b'
  | ' ' => some ' '
  | '"' => some '"'
  | '/' => some '/'
  | '\\' => some '\\'
  | 'N' => some '\u0085'
  | '_' => some '\u00a0'
  | 'L' => some '\u2028'
  | 'P' => some '\u2029'
  | _ => none

/-- The number of digits after a letter that starts a character code. -/
def codeWidth? : Char → Option Nat
  | 'x' => some 2
  | 'u' => some 4
  | 'U' => some 8
  | _ => none

/-- The character with the code that `width` digits give. -/
def code? (width : Nat) (t : Text) : Option Char := do
  let digits := t.take width
  let n ← hexValue? digits
  if digits.length = width ∧ n.isValidChar then some (Char.ofNat n) else none

/-- The character that is written after a backslash, and the length of what is written. -/
def escaped? : Text → Option (Char × Nat)
  | [] => none
  | e :: rest =>
    match codeWidth? e with
    | none => (escape? e).map fun c => (c, 1)
    | some width => (code? width rest).map fun c => (c, width + 1)

/-- What stands at a place inside quotes. -/
inductive Piece where
  /-- The closing quote. -/
  | close
  /-- A character, written with so many. -/
  | char (c : Char) (length : Nat)
  /-- Blanks or line breaks. -/
  | gap
  /-- A line break that a backslash takes away. -/
  | splice
  deriving DecidableEq, Repr

/-- What stands at the start of a text inside quotes of either kind. In single quotes two quotes
stand for one, and in double quotes a backslash starts an escape. -/
def piece? (single : Bool) : Text → Option Piece
  | [] => none
  | x :: rest =>
    if isVoid x then some .gap
    else if single then
      if x == '\'' then
        if rest.head? == some '\'' then some (.char '\'' 2) else some .close
      else some (.char x 1)
    else if x == '"' then some .close
    else if x == '\\' then
      if rest.head?.any isBreak then some .splice
      else (escaped? rest).map fun (c, length) => .char c (length + 1)
    else some (.char x 1)

/-- The text up to the closing quote, and the place after it. A line that starts or ends a
document may not come before it. -/
def go? (single : Bool) : Nat → Cursor → Option (Text × Cursor)
  | 0, _ => none
  | n + 1, c => do
    let more? := fun (t : Text) (next : Cursor) =>
      if next.atDocumentMark then none
      else (go? single n next).map fun (s, stop) => (t ++ s, stop)
    match ← piece? single c.rest with
    | .close => some ([], c.advance 1)
    | .char x length => (go? single n (c.advance length)).map fun (s, stop) => (x :: s, stop)
    | .gap =>
      let (g, next) ← Gap.at? 0 c
      more? g.fold next
    | .splice =>
      let (g, next) ← Gap.at? 0 (c.advance 1).skipBreak
      more? g.breaks.flatten next

/-- The scalar whose opening quote stands at a place. -/
def read? (single : Bool) (c : Cursor) : Option (Text × Cursor) :=
  go? single c.rest.length (c.advance 1)

end Quoted

/-! ### Plain scalars -/

namespace Plain

/-- A bracket or comma, which ends a plain scalar inside brackets. -/
def isBracket (c : Char) : Bool := c ∈ [',', '[', ']', '{', '}']

/-- The characters up to the next gap or to what ends a plain scalar: a colon before a gap, and
inside brackets a comma or bracket, which no colon may touch. -/
def run? (inFlow : Bool) : Text → Option Text
  | [] => some []
  | x :: rest =>
    if isVoid x then some []
    else if inFlow && x == ':' && rest.head?.any (fun d => isBracket d || d == '?') then none
    else if (x == ':' && atVoid rest) || (inFlow && isBracket x) then some []
    else (run? inFlow rest).map (x :: ·)

/-- A plain scalar: its text, the place after it, and whether a line ended since its last
character. -/
structure Result where
  text : Text
  stop : Cursor
  ended : Bool

/-- Goes on with a plain scalar after a gap, whose text counts only if some character follows.
Outside brackets each line has to reach the column `margin`. -/
def go? (inFlow : Bool) (margin : Nat) : Nat → Text → Bool → Cursor → Option Result
  | 0, _, _, _ => none
  | n + 1, gap, ended, c =>
    if c.atDocumentMark || c.rest.head? == some '#' then some ⟨[], c, ended⟩
    else
      match run? inFlow c.rest with
      | none => none
      | some [] => some ⟨[], c, ended⟩
      | some run =>
        let stop := c.advance run.length
        if stop.rest.head?.any isVoid then
          match Gap.at? margin stop with
          | none => none
          | some (g, next) =>
            let ended := !g.breaks.isEmpty
            if !inFlow && next.column < margin then some ⟨gap ++ run, next, ended⟩
            else (go? inFlow margin n g.fold ended next).map fun r =>
              { r with text := gap ++ run ++ r.text }
        else some ⟨gap ++ run, stop, false⟩

/-- The plain scalar that starts at a place. -/
def read? (inFlow : Bool) (margin : Nat) (c : Cursor) : Option Result :=
  go? inFlow margin (c.rest.length + 1) [] false c

end Plain

/-! ### Blocks of lines -/

namespace Block

/-- What becomes of the line breaks at the end of a block. -/
inductive Chomping where
  | strip | clip | keep
  deriving DecidableEq, Repr

/-- The sign at the start of a text that says what becomes of final line breaks. -/
def chomping : Text → Chomping × Text
  | '-' :: rest => (.strip, rest)
  | '+' :: rest => (.keep, rest)
  | t => (.clip, t)

/-- The digit at the start of a text that gives an indentation; zero if there is none. -/
def increment? : Text → Option (Nat × Text)
  | [] => some (0, [])
  | c :: rest =>
    if c == '0' then none
    else if c.isDigit then some (c.toNat - 48, rest)
    else some (0, c :: rest)

/-- The head of a block: a sign and a digit in either order. -/
def head? (t : Text) : Option (Chomping × Nat × Text) :=
  match chomping t with
  | (.clip, _) => (increment? t).map fun (n, rest) =>
    let (chomp, rest) := chomping rest
    (chomp, n, rest)
  | (chomp, rest) => (increment? rest).map fun (n, rest) => (chomp, n, rest)

/-- The line breaks of empty lines, the greatest column on the way, and the place where a line
holds something. While `indent` is zero every space counts as indentation. -/
def emptyLines? (indent : Nat) : Nat → Cursor → Option (Text × Nat × Cursor)
  | 0, _ => none
  | n + 1, c =>
    let within := if indent = 0 then c.rest else c.rest.take (indent - c.column)
    let start := c.advance (within.takeWhile (· == ' ')).length
    if (indent = 0 || start.column < indent) && start.rest.head? == some '\t' then none
    else if start.rest.head?.any isBreak then
      (emptyLines? indent n start.skipBreak).map fun (breaks, column, stop) =>
        (start.breakText ++ breaks, max start.column column, stop)
    else some ([], start.column, start)

/-- Line breaks that were read but not yet written: the one that ended a line, those of the empty
lines after it, and whether the line started with a blank. -/
structure Pending where
  ending : Text
  empty : Text
  blank : Bool

/-- The text of pending line breaks before a line. A line feed between two lines that do not
start with a blank is folded, unless the block is literal. -/
def Pending.text (p : Pending) (literal blank : Bool) : Text :=
  if !literal && p.ending == ['\n'] && !p.blank && !blank then
    if p.empty.isEmpty then [' '] else p.empty
  else p.ending ++ p.empty

/-- The text of pending line breaks at the end of a block. -/
def Pending.final (p : Pending) : Chomping → Text
  | .strip => []
  | .clip => p.ending
  | .keep => p.ending ++ p.empty

/-- The text of the lines that are indented to the column `indent`. -/
def lines? (literal : Bool) (chomp : Chomping) (indent : Nat) :
    Nat → Pending → Cursor → Option (Text × Cursor)
  | 0, _, _ => none
  | n + 1, p, c =>
    match c.rest with
    | [] => some (p.final chomp, c)
    | x :: _ =>
      if c.column = indent then
        let stop := c.skipLine
        let next := if stop.rest.isEmpty then stop else stop.skipBreak
        let line := c.rest.takeWhile fun x => !isBreak x
        match emptyLines? indent (next.rest.length + 1) next with
        | none => none
        | some (empty, _, next) =>
          (lines? literal chomp indent n ⟨stop.breakText, empty, isGap x⟩ next).map
            fun (t, stop) => (p.text literal (isGap x) ++ line ++ t, stop)
      else some (p.final chomp, c)

/-- The block whose sign stands at a place. Its lines are indented as its head says, or as far as
its first line, and to the column `margin` at least. -/
def read? (literal : Bool) (margin : Nat) (c : Cursor) : Option (Text × Cursor) := do
  let (chomp, increment, rest) ← head? (c.rest.drop 1)
  let after := (c.advance (c.rest.length - rest.length)).skipBlanks true
  let stop := after.skipComment
  if !atLineEnd stop.rest then none
  else
    let start := if stop.rest.isEmpty then stop else stop.skipBreak
    let given := if increment = 0 then 0 else margin - 1 + increment
    let (empty, column, start) ← emptyLines? given (start.rest.length + 1) start
    let indent := if given = 0 then max column (max margin 1) else given
    lines? literal chomp indent (start.rest.length + 1) ⟨[], empty, false⟩ start

end Block

end ScriptEmbed.Yaml
