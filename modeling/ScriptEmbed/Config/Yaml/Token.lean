import ScriptEmbed.Config.Yaml.Scalar
import ScriptEmbed.Config.Yaml.Tag

/-!
# Tokens

A settings file is read as a list of tokens. Outside brackets the structure is given by columns:
a token further to the right than the structure around it may open a list or a map, and one
further to the left closes what it stands left of. That a scalar is a key shows only at the colon
after it, so the place of each possible key is kept, and the token for it is put in later.

* `Token` — the tokens;
* `Key` — the place where a key may have started;
* `Lexer` — the tokens so far, with the columns and possible keys that are open;
* `Lexer.settle?` — goes to the next token and closes what ends before it;
* `Lexer.next?` — reads one token;
* `Token.scan?` — all tokens of a file, unless some part of it is none.
-/

namespace ScriptEmbed.Yaml

/-- How a scalar is written. -/
inductive Style where
  | plain | quoted | literal | folded
  deriving DecidableEq, Repr

/-- A token. -/
inductive Token where
  | directive (d : Directive)
  | documentStart
  | documentEnd
  | blockList
  | blockMap
  | blockEnd
  | listStart
  | listEnd
  | mapStart
  | mapEnd
  | item
  | separator
  | key
  | value
  | reference (name : Text)
  | anchor (name : Text)
  | tag (t : Tag.Short)
  | scalar (style : Style) (text : Text)
  deriving DecidableEq, Repr

/-- The place where a key may have started: the number of tokens before it, and its position. A
key is needed where the place has the column of the map around it. -/
structure Key where
  tokensBefore : Nat
  start : Cursor
  needed : Bool

/-- A key stands on one line and has at most 1024 characters. -/
def Key.isOver (k : Key) (c : Cursor) : Bool :=
  k.start.line < c.line || k.start.index + 1024 < c.index

/-- The state of reading tokens. -/
structure Lexer where
  cursor : Cursor
  tokens : Array Token
  /-- The columns of the open lists and maps outside brackets, each plus one, innermost first. -/
  margins : List Nat
  /-- The possible key inside the innermost brackets. -/
  key : Option Key
  /-- The possible keys around each pair of open brackets, innermost first. -/
  outerKeys : List (Option Key)
  /-- A key may start at the next token. -/
  keyAllowed : Bool

namespace Lexer

/-- The state at the start of a file; a byte order mark there does not count as a character of a
token, but it does as a column. -/
def start (t : Text) : Lexer :=
  let c : Cursor := ⟨t, 0, 0, 0⟩
  ⟨if t.head? == some '\ufeff' then c.advance 1 else c, #[], [], none, [], true⟩

/-- Some bracket is open. -/
def inFlow (l : Lexer) : Bool := !l.outerKeys.isEmpty

/-- One more than the column of the innermost list or map outside brackets, or zero. -/
def margin (l : Lexer) : Nat := l.margins.headD 0

/-- One more token at the end. -/
def push (l : Lexer) (k : Token) : Lexer := { l with tokens := l.tokens.push k }

/-- A token, after which the place is `n` characters further on. -/
def take (l : Lexer) (k : Token) (n : Nat) : Lexer :=
  { l.push k with cursor := l.cursor.advance n }

/-! ### Columns -/

/-- Opens a list or map at a column, unless one is open there; the token is put in after the given
number of tokens. -/
def openAt (l : Lexer) (column : Nat) (k : Token) (tokensBefore : Nat) : Lexer :=
  if !l.inFlow && l.margin ≤ column then
    { l with
      margins := (column + 1) :: l.margins
      tokens := l.tokens.insertIdxIfInBounds tokensBefore k }
  else l

/-- Opens a list or map at the place, unless one is open in its column. -/
def openHere (l : Lexer) (k : Token) : Lexer := l.openAt l.cursor.column k l.tokens.size

/-- Closes the lists and maps of a greater margin. -/
def closeTo (l : Lexer) (margin : Nat) : Lexer :=
  if l.inFlow then l
  else
    let closed := l.margins.takeWhile (margin < ·)
    { l with
      margins := l.margins.drop closed.length
      tokens := l.tokens ++ Array.replicate closed.length .blockEnd }

/-! ### Keys -/

/-- Gives up the possible key, which must not be needed. -/
def dropKey? (l : Lexer) : Option Lexer :=
  if l.key.any Key.needed then none else some { l with key := none }

/-- A key may start at the place, if one is allowed there. -/
def saveKey? (l : Lexer) : Option Lexer :=
  if l.keyAllowed then
    let needed := !l.inFlow && l.margin == l.cursor.column + 1
    l.dropKey?.map fun l => { l with key := some ⟨l.tokens.size, l.cursor, needed⟩ }
  else some l

/-- Gives up the possible keys that went on for too long, none of which may be needed. -/
def dropOver? (l : Lexer) : Option Lexer :=
  let isOver := fun k : Option Key => k.any (·.isOver l.cursor)
  let keep := fun k => if isOver k then none else k
  if (l.key :: l.outerKeys).any fun k => isOver k && k.any Key.needed then none
  else some { l with key := keep l.key, outerKeys := l.outerKeys.map keep }

/-! ### From token to token -/

/-- Goes to the next token, and closes what it ends. -/
def settle? (l : Lexer) : Option Lexer :=
  let (stop, ended) := l.cursor.skipVoid l.inFlow (l.inFlow || !l.keyAllowed) false
  let keyAllowed := l.keyAllowed || (ended && !l.inFlow)
  (dropOver? { l with cursor := stop, keyAllowed := keyAllowed }).map fun l =>
    l.closeTo (l.cursor.column + 1)

/-- The state at the end of the file. -/
def finish? (l : Lexer) : Option Lexer := (l.closeTo 0).dropKey?

/-! ### The kinds of tokens -/

/-- A directive, which takes up its line; only a comment may follow it there. -/
def directive? (l : Lexer) : Option Lexer := do
  let l ← (l.closeTo 0).dropKey?
  let (d, rest) ← Directive.read? (l.cursor.rest.drop 1)
  let after := l.cursor.advance (l.cursor.rest.length - rest.length)
  let stop := (after.skipBlanks true).skipComment
  if atLineEnd stop.rest then
    let next := if stop.rest.isEmpty then stop else stop.skipBreak
    some { l.push (.directive d) with cursor := next, keyAllowed := false }
  else none

/-- A line that starts or ends a document. -/
def documentMark? (l : Lexer) (k : Token) : Option Lexer :=
  (l.closeTo 0).dropKey?.map fun l => { l.take k 3 with keyAllowed := false }

/-- An opening bracket, which may start a key and which a key may follow. -/
def openBracket? (l : Lexer) (k : Token) : Option Lexer :=
  l.saveKey?.map fun l =>
    { l.take k 1 with key := none, outerKeys := l.key :: l.outerKeys, keyAllowed := true }

/-- A closing bracket. -/
def closeBracket? (l : Lexer) (k : Token) : Option Lexer :=
  l.dropKey?.map fun l =>
    { l.take k 1 with
      key := l.outerKeys.headD none, outerKeys := l.outerKeys.tail, keyAllowed := false }

/-- A comma inside brackets. -/
def separator? (l : Lexer) : Option Lexer :=
  l.dropKey?.map fun l => { l.take .separator 1 with keyAllowed := true }

/-- A hyphen before an item. -/
def item? (l : Lexer) : Option Lexer :=
  if !l.inFlow && !l.keyAllowed then none
  else (l.openHere .blockList).dropKey?.map fun l => { l.take .item 1 with keyAllowed := true }

/-- A question mark before a key. -/
def explicitKey? (l : Lexer) : Option Lexer :=
  if !l.inFlow && !l.keyAllowed then none
  else
    (l.openHere .blockMap).dropKey?.map fun l => { l.take .key 1 with keyAllowed := !l.inFlow }

/-- A colon before a value. If a key may have started before it, that is the key. -/
def value? (l : Lexer) : Option Lexer :=
  match l.key with
  | some k =>
    let tokens := l.tokens.insertIdxIfInBounds k.tokensBefore .key
    let l := openAt { l with tokens := tokens } k.start.column .blockMap k.tokensBefore
    some { l.take .value 1 with key := none, keyAllowed := false }
  | none =>
    if !l.inFlow && !l.keyAllowed then none
    else some { (l.openHere .blockMap).take .value 1 with keyAllowed := !l.inFlow }

/-- A name after a sign: an anchor or a reference to one. Few characters may follow it. -/
def name? (l : Lexer) (k : Text → Token) : Option Lexer := do
  let l ← l.saveKey?
  let name := (l.cursor.rest.drop 1).takeWhile isNameChar
  let follows := fun c => isVoid c || c ∈ ['?', ':', ',', ']', '}', '%', '@', '\x60']
  if !name.isEmpty && (l.cursor.rest.drop (name.length + 1)).head?.all follows then
    some { l.take (k name) (name.length + 1) with keyAllowed := false }
  else none

/-- A tag. A blank follows it, or inside brackets a comma. -/
def tag? (l : Lexer) : Option Lexer := do
  let l ← l.saveKey?
  let (t, rest) ← Tag.read? l.cursor.rest
  if atVoid rest || (l.inFlow && rest.head? == some ',') then
    some { l.take (.tag t) (l.cursor.rest.length - rest.length) with keyAllowed := false }
  else none

/-- A scalar in quotes. -/
def quoted? (l : Lexer) (single : Bool) : Option Lexer := do
  let l ← l.saveKey?
  let (t, stop) ← Quoted.read? single l.cursor
  return { l.push (.scalar .quoted t) with cursor := stop, keyAllowed := false }

/-- A plain scalar. A key may start after it if a line ended since. -/
def plain? (l : Lexer) : Option Lexer := do
  let l ← l.saveKey?
  let r ← Plain.read? l.inFlow l.margin l.cursor
  return { l.push (.scalar .plain r.text) with cursor := r.stop, keyAllowed := r.ended }

/-- A scalar that is a block of lines. -/
def block? (l : Lexer) (literal : Bool) : Option Lexer := do
  let l ← l.dropKey?
  let (t, stop) ← Block.read? literal l.margin l.cursor
  let style := if literal then Style.literal else Style.folded
  return { l.push (.scalar style t) with cursor := stop, keyAllowed := true }

/-- Reads the token at the place, where something stands. -/
def next? (l : Lexer) : Option Lexer :=
  let c := l.cursor
  if c.column == 0 && c.rest.head? == some '%' then l.directive?
  else if c.atMark '-' then l.documentMark? .documentStart
  else if c.atMark '.' then l.documentMark? .documentEnd
  else
    match c.rest with
    | [] => none
    | x :: rest =>
      match x with
      | '[' => l.openBracket? .listStart
      | '{' => l.openBracket? .mapStart
      | ']' => l.closeBracket? .listEnd
      | '}' => l.closeBracket? .mapEnd
      | ',' => l.separator?
      | '-' => if atVoid rest then l.item? else l.plain?
      | '?' => if l.inFlow || atVoid rest then l.explicitKey? else l.plain?
      | ':' => if l.inFlow || atVoid rest then l.value? else l.plain?
      | '*' => l.name? .reference
      | '&' => l.name? .anchor
      | '!' => l.tag?
      | '|' => if l.inFlow then none else l.block? true
      | '>' => if l.inFlow then none else l.block? false
      | '\'' => l.quoted? true
      | '"' => l.quoted? false
      | x => if isVoid x || x ∈ ['#', '%', '@', '\x60'] then none else l.plain?

/-- Reads all tokens from a state on, at most `n`. -/
def run? : Nat → Lexer → Option Lexer
  | 0, _ => none
  | n + 1, l =>
    l.settle?.bind fun l =>
      if l.cursor.rest.isEmpty then l.finish? else l.next?.bind (run? n)

end Lexer

/-- All tokens of a file. Each takes up at least one character. -/
def Token.scan? (t : Text) : Option (List Token) :=
  if t.all isAllowed then
    ((Lexer.start t).run? (t.length + 1)).map fun l => l.tokens.toList
  else none

end ScriptEmbed.Yaml
