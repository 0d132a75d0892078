import ScriptEmbed.Pattern.Basic

/-!
# Escapes in patterns

After a backslash stands a character by its code or by a letter, a class under a letter, or an
assertion.

* `Flags` — how the rest of a group is read;
* `Pattern.skip` — over what means nothing in spaced patterns;
* `Pattern.escape?` — what stands after a backslash.
-/

namespace ScriptEmbed

/-- How the rest of a group is read. -/
structure Flags where
  ignoreCase : Bool
  multiLine : Bool
  dotAll : Bool
  /-- A carriage return ends a line too, alone or before a line feed. -/
  carriage : Bool
  spaced : Bool
  ascii : Bool
  deriving DecidableEq, Repr

/-- The flags at the start of a pattern. -/
def Flags.initial : Flags := ⟨false, false, false, false, false, false⟩

namespace Pattern

/-! ### Blanks and comments in spaced patterns -/

/-- Skips blanks and comments, which run from a number sign to the end of the line. -/
def skipSpaced (inComment : Bool) : Text → Text
  | [] => []
  | c :: rest =>
    if inComment then skipSpaced (c != '\n') rest
    else if Text.isBlank c then skipSpaced false rest
    else if c == '#' then skipSpaced true rest
    else c :: rest

/-- Skips what means nothing under the given flags. -/
def skip (f : Flags) (t : Text) : Text := if f.spaced then skipSpaced false t else t

/-- The first characters that pass a test, at most `n` of them and without what means nothing
between them, and the text after them. -/
def takeRun (f : Flags) (test : Char → Bool) : Nat → Text → Text × Text
  | 0, t => ([], t)
  | _, [] => ([], [])
  | n + 1, c :: rest =>
    if test c then
      let (cs, t) := takeRun f test n (skip f rest)
      (c :: cs, t)
    else ([], c :: rest)

/-! ### Characters by code -/

/-- The value of a digit in base sixteen. -/
def hexDigit? (c : Char) : Option Nat :=
  if c.isDigit then some (c.toNat - 48)
  else if 'a' ≤ c ∧ c ≤ 'f' then some (c.toNat - 87)
  else if 'A' ≤ c ∧ c ≤ 'F' then some (c.toNat - 55)
  else none

/-- The character whose code the digits give in base sixteen. -/
def charOfHex? (digits : Text) : Option Char := do
  let ds ← digits.mapM hexDigit?
  let n := ds.foldl (fun n d => 16 * n + d) 0
  if ds.isEmpty || !decide n.isValidChar then none else some (Char.ofNat n)

/-- A code in curly brackets, or of exactly `width` digits. -/
def code? (f : Flags) (width : Nat) (t : Text) : Option (Char × Text) :=
  match skip f t with
  | '{' :: rest =>
    match takeRun f (· != '}') rest.length (skip f rest) with
    | (digits, _ :: after) => (charOfHex? digits).map (·, skip f after)
    | (_, []) => none
  | t =>
    let (digits, after) := takeRun f (fun _ => true) width t
    if digits.length = width then (charOfHex? digits).map (·, after) else none

/-! ### Escapes -/

/-- What stands after a backslash. -/
inductive Escaped where
  | char (c : Char)
  | set (s : CharSet)
  | place (a : Assertion)

/-- The ASCII part of a set. -/
def asciiOnly (s : CharSet) : CharSet := .inter s (.range 0 127)

/-- The complement of a set. Where only ASCII counts there is none: it would hold parts of
characters. -/
def complement? (f : Flags) (s : CharSet) : Option CharSet :=
  if f.ascii then none else some (.complement s)

/-- A class under a letter, or its complement. -/
def letterClass? (f : Flags) (s : CharSet) (negated : Bool) : Option Escaped :=
  if negated then (complement? f s).map .set
  else some (.set (if f.ascii then asciiOnly s else s))

/-- The assertion in curly brackets after `\b`. A bracket that no letter or hyphen follows
belongs to a repetition. -/
def boundary? (f : Flags) : Text → Option (Assertion × Text)
  | '{' :: rest =>
    match takeRun f (fun c => c.isAlpha || c == '-') rest.length (skip f rest) with
    | ([], []) => none
    | ([], _) => some (.boundary, '{' :: rest)
    | (word, '}' :: after) =>
      if word == "start".toList then some (.wordStart, after)
      else if word == "end".toList then some (.wordStop, after)
      else if word == "start-half".toList then some (.wordStartHalf, after)
      else if word == "end-half".toList then some (.wordStopHalf, after)
      else none
    | _ => none
  | t => some (.boundary, t)

/-- An assertion on words. Where only ASCII counts, no other character is part of a word. -/
def wordPlace (f : Flags) (a : Assertion) : Escaped := .place (if f.ascii then .ascii a else a)

/-- A character by its code. Where only ASCII counts, two digits stand for an octet, and one beyond
ASCII is no character. -/
def octet? (f : Flags) (t : Text) : Option (Char × Text) :=
  (code? f 2 t).filter fun (c, _) => !f.ascii || c.toNat < 128 || (skip f t).head? == some '{'

/-- An escape, given the text after the backslash. Classes of characters by their properties, under `p`
and `P`, are refused. -/
def escape? (f : Flags) : Text → Option (Escaped × Text)
  | [] => none
  | c :: rest =>
    match c with
    | 'x' => (octet? f rest).map fun (c, t) => (.char c, t)
    | 'u' => (code? f 4 rest).map fun (c, t) => (.char c, t)
    | 'U' => (code? f 8 rest).map fun (c, t) => (.char c, t)
    | 'd' => (letterClass? f .digit false).map (·, rest)
    | 's' => (letterClass? f .blank false).map (·, rest)
    | 'w' => (letterClass? f .word false).map (·, rest)
    | 'D' => (letterClass? f .digit true).map (·, rest)
    | 'S' => (letterClass? f .blank true).map (·, rest)
    | 'W' => (letterClass? f .word true).map (·, rest)
    | 'a' => some (.char '\x07', rest)
    | 'f' => some (.char '\x0c', rest)
    | 't' => some (.char '\t', rest)
    | 'n' => some (.char '\n', rest)
    | 'r' => some (.char '\r', rest)
    | 'v' => some (.char '\x0b', rest)
    | 'A' => some (.place .start, rest)
    | 'z' => some (.place .stop, rest)
    | 'B' => some (wordPlace f .notBoundary, rest)
    | '<' => some (wordPlace f .wordStart, rest)
    | '>' => some (wordPlace f .wordStop, rest)
    | 'b' => (boundary? f rest).map fun (a, t) => (wordPlace f a, t)
    | _ => if c.toNat < 128 && !c.isAlphanum then some (.char c, rest) else none

end Pattern

end ScriptEmbed
