import ScriptEmbed.Expr.Token

/-!
# Reading expressions

The levels of precedence, from the loosest:

* `conditional` — `disjunction ["if" disjunction "else" conditional]`;
* `disjunction`, `conjunction` — chains of `or` and of `and`, grouped to the left;
* `negation` — `"not" negation`, or a comparison;
* `comparison` — at most one comparison of two sums;
* `sum`, `term` — chains of additive and multiplicative operators, grouped to the left;
* `signed` — signs before a postfix expression;
* `postfixed` — an atom with any number of indices.

A parser takes tokens from the front of a list and returns the rest. The recursion is bounded by
a count of steps that `Expr.parse?` computes from the number of tokens.
-/

namespace ScriptEmbed

/-- A level of precedence. -/
inductive Level where
  | conditional | disjunction | conjunction | negation | comparison | sum | term | signed
  | postfixed
  deriving DecidableEq, Repr

namespace Level

/-- The operator that a token stands for in a chain of the given level. -/
def operator? : Level → Token → Option BinaryOp
  | disjunction, .keyword .or => some .or
  | conjunction, .keyword .and => some .and
  | comparison, .op o => if o ∈ [.eq, .ne, .lt, .le, .gt, .ge] then some o else none
  | sum, .op o => if o ∈ [.add, .sub] then some o else none
  | term, .op o => if o ∈ [.mul, .div, .floorDiv, .mod] then some o else none
  | _, _ => none

/-- The next tighter level. -/
def tighter : Level → Level
  | conditional => disjunction
  | disjunction => conjunction
  | conjunction => negation
  | negation => comparison
  | comparison => sum
  | sum => term
  | term => signed
  | signed => postfixed
  | postfixed => postfixed

end Level

namespace Expr

/-- The sign that a token stands for before an operand. -/
def sign? : Token → Option UnaryOp
  | .op .sub => some .neg
  | .op .add => some .plus
  | _ => none

mutual

/-- An expression of the given level. -/
def parseLevel : Nat → Level → List Token → Option (Expr × List Token)
  | 0, _, _ => none
  | n + 1, .conditional, ts => do
    let (yes, ts) ← parseLevel n .disjunction ts
    match ts with
    | .keyword .if :: ts =>
      let (condition, ts) ← parseLevel n .disjunction ts
      match ts with
      | .keyword .else :: ts =>
        let (no, ts) ← parseLevel n .conditional ts
        return (.conditional condition yes no, ts)
      | _ => none
    | _ => return (yes, ts)
  | n + 1, .negation, ts =>
    match ts with
    | .keyword .not :: ts => do
      let (e, ts) ← parseLevel n .negation ts
      return (.unary .not e, ts)
    | _ => parseLevel n .comparison ts
  | n + 1, .comparison, ts => do
    let (left, ts) ← parseLevel n .sum ts
    match ts with
    | t :: ts' =>
      match Level.comparison.operator? t with
      | some o =>
        let (right, ts) ← parseLevel n .sum ts'
        return (.binary o left right, ts)
      | none => return (left, ts)
    | [] => return (left, ts)
  | n + 1, .signed, ts =>
    match ts with
    | t :: ts' =>
      match sign? t with
      | some o => do
        let (e, ts) ← parseLevel n .signed ts'
        return (.unary o e, ts)
      | none => parseLevel n .postfixed ts
    | [] => none
  | n + 1, .postfixed, ts => do
    let (target, ts) ← parseAtom n ts
    parseIndices n target ts
  | n + 1, level, ts => do
    let (left, ts) ← parseLevel n level.tighter ts
    parseChain n level left ts

/-- The rest of a chain of the given level, after its first operands. -/
def parseChain : Nat → Level → Expr → List Token → Option (Expr × List Token)
  | 0, _, _, _ => none
  | _ + 1, _, left, [] => some (left, [])
  | n + 1, level, left, t :: ts =>
    match level.operator? t with
    | some o => do
      let (right, ts) ← parseLevel n level.tighter ts
      parseChain n level (.binary o left right) ts
    | none => some (left, t :: ts)

/-- The indices that follow a target. -/
def parseIndices : Nat → Expr → List Token → Option (Expr × List Token)
  | 0, _, _ => none
  | n + 1, target, .mark .openBracket :: ts => do
    let (position, ts) ← parseLevel n .conditional ts
    match ts with
    | .mark .closeBracket :: ts => parseIndices n (.index target position) ts
    | _ => none
  | _ + 1, target, ts => some (target, ts)

/-- A literal, a name, a call, or an expression in parentheses. -/
def parseAtom : Nat → List Token → Option (Expr × List Token)
  | 0, _ => none
  | _ + 1, .int i :: ts => some (.int i, ts)
  | _ + 1, .float x :: ts => some (.float x, ts)
  | _ + 1, .str s :: ts => some (.str s, ts)
  | _ + 1, .keyword .true :: ts => some (.bool true, ts)
  | _ + 1, .keyword .false :: ts => some (.bool false, ts)
  | n + 1, .mark .openParen :: ts => do
    let (e, ts) ← parseLevel n .conditional ts
    match ts with
    | .mark .closeParen :: ts => return (e, ts)
    | _ => none
  | _ + 1, .name f :: .mark .openParen :: .mark .closeParen :: ts => some (.call f [], ts)
  | n + 1, .name f :: .mark .openParen :: ts => do
    let (arguments, ts) ← parseArguments n ts
    return (.call f arguments, ts)
  | _ + 1, .name x :: ts => some (.name x, ts)
  | _ + 1, _ => none

/-- The arguments of a call, of which there is at least one, and the closing parenthesis. -/
def parseArguments : Nat → List Token → Option (List Expr × List Token)
  | 0, _ => none
  | n + 1, ts => do
    let (e, ts) ← parseLevel n .conditional ts
    match ts with
    | .mark .comma :: ts =>
      let (es, ts) ← parseArguments n ts
      return (e :: es, ts)
    | .mark .closeParen :: ts => return ([e], ts)
    | _ => none

end

/-- A bound on the depth of the recursion for a list of tokens: every token opens each level at
most once. -/
def stepsFor (ts : List Token) : Nat := 12 * (ts.length + 1)

/-- The expression that a list of tokens makes up. -/
def ofTokens? (ts : List Token) : Option Expr :=
  match parseLevel (stepsFor ts) .conditional ts with
  | some (e, []) => some e
  | _ => none

/-- The expression that a text stands for. -/
def parse? (t : Text) : Option Expr := (Token.scan? t).bind ofTokens?

end Expr

end ScriptEmbed
