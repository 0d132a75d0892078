import ScriptEmbed.Expr.Basic
import ScriptEmbed.Number.FloatReading
import ScriptEmbed.Number.Word
import ScriptEmbed.Text.Word

/-!
# Tokens of expressions

An expression is read as a list of tokens: literals, names, reserved words, operators and
brackets, separated by any number of spaces, tabs and line ends.

* `Token` — the tokens;
* `Token.next?` — the token at the start of a text that does not start with a space;
* `Token.scan?` — all tokens of a text, unless some part of it is none.
-/

namespace ScriptEmbed

/-- A word that is never a name. -/
inductive Keyword where
  | and | or | not | if | else | true | false
  deriving DecidableEq, Repr

namespace Keyword

/-- All reserved words. -/
def all : List Keyword := [and, or, not, .if, .else, true, false]

/-- The word itself. -/
def spelling : Keyword → String
  | and => "and"
  | or => "or"
  | not => "not"
  | .if => "if"
  | .else => "else"
  | true => "True"
  | false => "False"

/-- The reserved word with the given spelling. -/
def ofSpelling? (w : Text) : Option Keyword := all.find? fun k => k.spelling.toList == w

end Keyword

/-- A bracket or separator. -/
inductive Mark where
  | openParen | closeParen | openBracket | closeBracket | comma
  deriving DecidableEq, Repr

/-- A token. Plus and minus are one token whether they have one operand or two. -/
inductive Token where
  | int (value : Int64)
  | float (value : Float)
  | str (value : Text)
  | name (name : Text)
  | keyword (word : Keyword)
  | op (op : BinaryOp)
  | mark (mark : Mark)

namespace Token

/-! ### Character classes -/

/-- The characters that may stand between tokens. -/
def isSpace (c : Char) : Bool := c == ' ' || c == '\t' || c == '\r' || c == '\n'

/-- The first character of a name. -/
def isNameStart (c : Char) : Bool := c.isAlpha || c == '_'

/-- A digit in base sixteen. -/
def isHexDigit (c : Char) : Bool :=
  c.isDigit || ('a' ≤ c && c ≤ 'f') || ('A' ≤ c && c ≤ 'F')

/-- The value of a digit in base sixteen. -/
def hexDigitValue (c : Char) : Nat :=
  if c.isDigit then c.toNat - 48
  else if 'a' ≤ c then c.toNat - 87
  else c.toNat - 55

/-- The number that a string of digits in base sixteen stands for. -/
def hexValue (t : Text) : Nat := t.foldl (fun n c => 16 * n + hexDigitValue c) 0

/-! ### Literals -/

/-- The character that stands after a backslash in a string, and what it means. -/
def escape? : Char → Option Char
  | 'n' => some '\n'
  | 'r' => some '\r'
  | 't' => some '\t'
  | '\\' => some '\\'
  | '"' => some '"'
  | '\'' => some '\''
  | _ => none

/-- The contents of a string literal up to the closing quote, and the text after it. -/
def quoted? (quote : Char) : Text → Option (Text × Text)
  | [] => none
  | '\\' :: e :: rest => do
    let c ← escape? e
    let (s, rest) ← quoted? quote rest
    return (c :: s, rest)
  | c :: rest =>
    if c = quote then some ([], rest)
    else do
      let (s, rest) ← quoted? quote rest
      return (c :: s, rest)

/-- The token of a word. -/
def ofWord (w : Text) : Token :=
  match Keyword.ofSpelling? w with
  | some k => keyword k
  | none => name w

/-- A decimal literal: with a point it is a floating-point number. An integer that is no word
of sixty-four bits is no token. -/
def decimal? (t : Text) : Option (Token × Text) :=
  let whole := t.takeWhile Decimal.isDigit
  match t.dropWhile Decimal.isDigit with
  | '.' :: rest =>
    let fraction := rest.takeWhile Decimal.isDigit
    some (float (FloatReading.Numeral.ofDigits whole fraction 0).nearest,
      rest.dropWhile Decimal.isDigit)
  | rest => (Word.ofInt? (Decimal.value whole)).map fun i => (int i, rest)

/-- A number: `0x` and digits in base sixteen, or a decimal literal. -/
def number? : Text → Option (Token × Text)
  | '0' :: x :: rest =>
    let ds := rest.takeWhile isHexDigit
    if (x == 'x' || x == 'X') && !ds.isEmpty then
      (Word.ofInt? (hexValue ds)).map fun i => (int i, rest.dropWhile isHexDigit)
    else decimal? ('0' :: x :: rest)
  | t => decimal? t

/-- An operator, bracket or separator. Of two operators that start alike the longer is meant. -/
def symbol? : Text → Option (Token × Text)
  | '=' :: '=' :: rest => some (op .eq, rest)
  | '!' :: '=' :: rest => some (op .ne, rest)
  | '<' :: '=' :: rest => some (op .le, rest)
  | '>' :: '=' :: rest => some (op .ge, rest)
  | '<' :: rest => some (op .lt, rest)
  | '>' :: rest => some (op .gt, rest)
  | '+' :: rest => some (op .add, rest)
  | '-' :: rest => some (op .sub, rest)
  | '*' :: rest => some (op .mul, rest)
  | '/' :: '/' :: rest => some (op .floorDiv, rest)
  | '/' :: rest => some (op .div, rest)
  | '%' :: rest => some (op .mod, rest)
  | '(' :: rest => some (mark .openParen, rest)
  | ')' :: rest => some (mark .closeParen, rest)
  | '[' :: rest => some (mark .openBracket, rest)
  | ']' :: rest => some (mark .closeBracket, rest)
  | ',' :: rest => some (mark .comma, rest)
  | _ => none

/-- The token at the start of a text, and the text after it. -/
def next? : Text → Option (Token × Text)
  | [] => none
  | c :: rest =>
    if c.isDigit then number? (c :: rest)
    else if isNameStart c then
      some (ofWord (c :: rest.takeWhile Text.isNameChar), rest.dropWhile Text.isNameChar)
    else if c = '"' ∨ c = '\'' then (quoted? c rest).map fun (s, rest) => (str s, rest)
    else symbol? (c :: rest)

/-! ### A token takes at least one character -/

theorem length_dropWhile_le (p : Char → Bool) (t : Text) :
    (t.dropWhile p).length ≤ t.length :=
  (List.dropWhile_sublist p).length_le

theorem quoted?_length {quote : Char} {t s rest : Text} (h : quoted? quote t = some (s, rest)) :
    rest.length < t.length := by
  fun_induction quoted? quote t generalizing s rest with
  | case1 => simp at h
  | case2 e t ih =>
    simp only [bind, Option.bind_eq_some_iff, pure, Option.some.injEq, Prod.mk.injEq,
      Prod.exists] at h
    obtain ⟨c, _, u, r, hq, _, rfl⟩ := h
    have := ih hq
    simp only [List.length_cons]
    omega
  | case3 t _ =>
    simp only [Option.some.injEq, Prod.mk.injEq] at h
    simp [← h.2]
  | case4 c t _ _ ih =>
    simp only [bind, Option.bind_eq_some_iff, pure, Option.some.injEq, Prod.mk.injEq,
      Prod.exists] at h
    obtain ⟨u, r, hq, _, rfl⟩ := h
    have := ih hq
    simp only [List.length_cons]
    omega

theorem decimal?_length {t rest : Text} {k : Token} (hd : t.takeWhile Decimal.isDigit ≠ [])
    (h : decimal? t = some (k, rest)) : rest.length < t.length := by
  have hsplit : (t.takeWhile Decimal.isDigit).length + (t.dropWhile Decimal.isDigit).length =
      t.length := by
    rw [← List.length_append, List.takeWhile_append_dropWhile]
  have hpos : 0 < (t.takeWhile Decimal.isDigit).length := List.length_pos_iff.mpr hd
  rw [decimal?] at h
  split at h
  · rename_i r hr
    simp only [Option.some.injEq, Prod.mk.injEq] at h
    have := length_dropWhile_le Decimal.isDigit r
    rw [hr, List.length_cons] at hsplit
    rw [← h.2]
    omega
  · simp only [Option.map_eq_some_iff, Prod.mk.injEq] at h
    obtain ⟨_, _, _, rfl⟩ := h
    omega

theorem number?_length {c : Char} {t rest : Text} {k : Token} (hc : c.isDigit = true)
    (h : number? (c :: t) = some (k, rest)) : rest.length < (c :: t).length := by
  have hd : (c :: t).takeWhile Decimal.isDigit ≠ [] := by simp [Decimal.isDigit, hc]
  rw [number?.eq_def] at h
  split at h
  · rename_i x r heq
    simp only [List.cons.injEq] at heq
    obtain ⟨rfl, rfl⟩ := heq
    simp only at h
    split at h
    · simp only [Option.map_eq_some_iff, Prod.mk.injEq] at h
      obtain ⟨_, _, _, rfl⟩ := h
      have := length_dropWhile_le isHexDigit r
      simp only [List.length_cons]
      omega
    · exact decimal?_length hd h
  · exact decimal?_length hd h

theorem symbol?_length {t rest : Text} {k : Token} (h : symbol? t = some (k, rest)) :
    rest.length < t.length := by
  unfold symbol? at h
  split at h
  all_goals first
    | (simp only [Option.some.injEq, Prod.mk.injEq] at h
       rw [← h.2]
       simp only [List.length_cons]
       omega)
    | simp at h

/-- The text after a token is shorter than the text before it. -/
theorem next?_length {t rest : Text} {k : Token} (h : next? t = some (k, rest)) :
    rest.length < t.length := by
  cases t with
  | nil => simp [next?] at h
  | cons c t =>
    rw [next?] at h
    split at h
    · exact number?_length ‹_› h
    · split at h
      · simp only [Option.some.injEq, Prod.mk.injEq] at h
        rw [← h.2]
        have := length_dropWhile_le Text.isNameChar t
        simp only [List.length_cons]
        omega
      · split at h
        · simp only [Option.map_eq_some_iff, Prod.mk.injEq, Prod.exists] at h
          obtain ⟨_, _, hq, _, rfl⟩ := h
          have := quoted?_length hq
          simp only [List.length_cons]
          omega
        · exact symbol?_length h

/-! ### Scanning -/

/-- All tokens of a text, or nothing where some part of it is no token. -/
def scan? (t : Text) : Option (List Token) :=
  match t with
  | [] => some []
  | c :: rest =>
    if isSpace c then scan? rest
    else
      match _h : next? (c :: rest) with
      | none => none
      | some (k, rest') =>
        (scan? rest').map (k :: ·)
termination_by t.length
decreasing_by
  · simp
  · exact next?_length ‹_›

end Token

end ScriptEmbed
