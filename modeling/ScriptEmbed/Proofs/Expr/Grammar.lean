import Mathlib.Tactic
import ScriptEmbed.Expr.Parser

/-!
# The grammar of expressions

The levels of precedence as a grammar over tokens: which lists of tokens an expression can be
written as at a level.  Chains group to the left, comparisons do not chain, conditionals group to
the right, and parentheses turn any expression into one of the tightest level.

* `Level.rank`, `BinaryOp.level`, `UnaryOp.level` — the levels from the loosest, and where the
  operators stand;
* `Derives` — **the grammar**;
* `Derives.exists_first` — the tokens that an expression of a level can start with;
* `Expr.leaves`, `Derives.filter_isLeaf` — the literals and names of a tree from left to right,
  which are those of its tokens;
* `Derives.operandsFollow` — every operator is followed by a token that starts an operand.
-/

namespace ScriptEmbed

/-! ### Levels -/

namespace Level

/-- The place of a level, counted from the loosest. -/
def rank : Level → Nat
  | conditional => 0
  | disjunction => 1
  | conjunction => 2
  | negation => 3
  | comparison => 4
  | sum => 5
  | term => 6
  | signed => 7
  | postfixed => 8

theorem rank_le (l : Level) : l.rank ≤ 8 := by cases l <;> decide

theorem rank_injective : Function.Injective rank := by
  intro l l' h
  cases l <;> cases l' <;> first | rfl | cases h

theorem rank_tighter {l : Level} (h : l ≠ .postfixed) : l.tighter.rank = l.rank + 1 := by
  cases l <;> first | rfl | exact absurd rfl h

theorem rank_le_tighter (l : Level) : l.rank ≤ l.tighter.rank := by cases l <;> decide

end Level

namespace BinaryOp

/-- The level of the chain or comparison that an operator makes. -/
def level : BinaryOp → Level
  | or => .disjunction
  | and => .conjunction
  | eq | ne | lt | le | gt | ge => .comparison
  | add | sub => .sum
  | mul | div | floorDiv | mod => .term

/-- The level of the left operand: chains group to the left, and comparisons do not chain. -/
def leftLevel (o : BinaryOp) : Level :=
  match o.level with
  | .comparison => .sum
  | l => l

/-- The level of the right operand. -/
def rightLevel (o : BinaryOp) : Level := o.level.tighter

/-- The token of an operator. -/
def token : BinaryOp → Token
  | or => .keyword .or
  | and => .keyword .and
  | o => .op o

end BinaryOp

namespace UnaryOp

/-- The level of an operator before its operand, and of the operand. -/
def level : UnaryOp → Level
  | not => .negation
  | neg | plus => .signed

/-- The token of an operator. -/
def token : UnaryOp → Token
  | not => .keyword .not
  | neg => .op .sub
  | plus => .op .add

end UnaryOp

theorem Level.mem_operators {l : Level} {os : List BinaryOp} {o' o : BinaryOp}
    (hos : ∀ o ∈ os, o.level = l ∧ .op o = o.token)
    (h : (if o' ∈ os then some o' else none) = some o) :
    o.level = l ∧ .op o' = o.token := by
  obtain ⟨hmem, heq⟩ := Option.ite_none_right_eq_some.1 h
  cases heq
  exact hos _ hmem

/-- The operators of a level are those that stand there. -/
theorem Level.operator?_eq_some_iff {l : Level} {t : Token} {o : BinaryOp} :
    l.operator? t = some o ↔ o.level = l ∧ t = o.token := by
  constructor
  · intro h
    unfold Level.operator? at h
    split at h
    · cases h
      exact ⟨rfl, rfl⟩
    · cases h
      exact ⟨rfl, rfl⟩
    · exact mem_operators (by simp [BinaryOp.level, BinaryOp.token]) h
    · exact mem_operators (by simp [BinaryOp.level, BinaryOp.token]) h
    · exact mem_operators (by simp [BinaryOp.level, BinaryOp.token]) h
    · cases h
  · rintro ⟨rfl, rfl⟩
    cases o <;> rfl

theorem Expr.sign?_eq_some_iff {t : Token} {o : UnaryOp} :
    Expr.sign? t = some o ↔ o.level = .signed ∧ t = o.token := by
  constructor
  · intro h
    unfold Expr.sign? at h
    split at h <;> cases h <;> exact ⟨rfl, rfl⟩
  · rintro ⟨hlevel, rfl⟩
    cases o with
    | neg => rfl
    | plus => rfl
    | not => cases hlevel

/-! ### The grammar -/

/-- What a list of tokens can be: an expression of a level, or the arguments of a call. -/
inductive Form where
  | expr (level : Level) (e : Expr)
  | arguments (es : List Expr)

/-- The lists of tokens that a form can be written as. -/
inductive Derives : Form → List Token → Prop
  | int (i : Int64) : Derives (.expr .postfixed (.int i)) [.int i]
  | float (x : Float) : Derives (.expr .postfixed (.float x)) [.float x]
  | str (s : Text) : Derives (.expr .postfixed (.str s)) [.str s]
  | yes : Derives (.expr .postfixed (.bool true)) [.keyword .true]
  | no : Derives (.expr .postfixed (.bool false)) [.keyword .false]
  | name (n : Text) : Derives (.expr .postfixed (.name n)) [.name n]
  | paren {e : Expr} {ts : List Token} : Derives (.expr .conditional e) ts →
      Derives (.expr .postfixed e) (.mark .openParen :: (ts ++ [.mark .closeParen]))
  | call {f : Text} {es : List Expr} {ts : List Token} : Derives (.arguments es) ts →
      Derives (.expr .postfixed (.call f es))
        (.name f :: .mark .openParen :: (ts ++ [.mark .closeParen]))
  | index {e p : Expr} {ts us : List Token} : Derives (.expr .postfixed e) ts →
      Derives (.expr .conditional p) us →
      Derives (.expr .postfixed (.index e p))
        (ts ++ .mark .openBracket :: (us ++ [.mark .closeBracket]))
  | unary {o : UnaryOp} {e : Expr} {ts : List Token} : Derives (.expr o.level e) ts →
      Derives (.expr o.level (.unary o e)) (o.token :: ts)
  | binary {o : BinaryOp} {l r : Expr} {ts us : List Token} : Derives (.expr o.leftLevel l) ts →
      Derives (.expr o.rightLevel r) us →
      Derives (.expr o.level (.binary o l r)) (ts ++ o.token :: us)
  | conditional {c y n : Expr} {ts us vs : List Token} : Derives (.expr .disjunction y) ts →
      Derives (.expr .disjunction c) us → Derives (.expr .conditional n) vs →
      Derives (.expr .conditional (.conditional c y n))
        (ts ++ .keyword .if :: (us ++ .keyword .else :: vs))
  | tighter {l : Level} {e : Expr} {ts : List Token} : Derives (.expr l.tighter e) ts →
      Derives (.expr l e) ts
  | noArguments : Derives (.arguments []) []
  | lastArgument {e : Expr} {ts : List Token} : Derives (.expr .conditional e) ts →
      Derives (.arguments [e]) ts
  | moreArguments {e d : Expr} {es : List Expr} {ts us : List Token} :
      Derives (.expr .conditional e) ts → Derives (.arguments (d :: es)) us →
      Derives (.arguments (e :: d :: es)) (ts ++ .mark .comma :: us)

/-! ### First tokens -/

/-- The rank of the tightest level at which an expression can start with a token. -/
def Token.startRank? : Token → Option Nat
  | .int _ | .float _ | .str _ | .name _ => some 8
  | .keyword .true | .keyword .false | .mark .openParen => some 8
  | .op .add | .op .sub => some 7
  | .keyword .not => some 3
  | _ => none

theorem UnaryOp.startRank?_token (o : UnaryOp) : o.token.startRank? = some o.level.rank := by
  cases o <;> rfl

theorem BinaryOp.rank_level_le_leftLevel (o : BinaryOp) : o.level.rank ≤ o.leftLevel.rank := by
  cases o <;> decide

/-- What the first token of a form must satisfy. -/
def Form.Starts : Form → Token → Prop
  | .expr l _, t => ∃ r, t.startRank? = some r ∧ l.rank ≤ r
  | .arguments _, t => ∃ r, t.startRank? = some r

theorem Form.Starts.startRank? {f : Form} {t : Token} (h : f.Starts t) :
    ∃ r, t.startRank? = some r := by
  cases f with
  | expr l e =>
    obtain ⟨r, hr, -⟩ := h
    exact ⟨r, hr⟩
  | arguments es => exact h

theorem Form.Starts.loosen {l l' : Level} {e e' : Expr} {t : Token}
    (h : (Form.expr l e).Starts t) (hl : l'.rank ≤ l.rank) : (Form.expr l' e').Starts t := by
  obtain ⟨r, hr, hle⟩ := h
  exact ⟨r, hr, hl.trans hle⟩

namespace Derives

/-- **The first token** of an expression is one that an expression of that level can start with. -/
theorem exists_first {f : Form} {ts : List Token} (h : Derives f ts) :
    f = .arguments [] ∨ ∃ t us, ts = t :: us ∧ f.Starts t := by
  induction h with
  | int | float | str | yes | no | name => exact .inr ⟨_, _, rfl, 8, rfl, Nat.le_refl 8⟩
  | paren | call => exact .inr ⟨_, _, rfl, 8, rfl, Nat.le_refl 8⟩
  | @unary o e ts _ _ => exact .inr ⟨_, _, rfl, _, o.startRank?_token, Nat.le_refl _⟩
  | index _ _ ih _ =>
    obtain ⟨t, us, rfl, ht⟩ := ih.resolve_left Form.noConfusion
    exact .inr ⟨_, _, rfl, ht.loosen (Nat.le_refl _)⟩
  | @binary o l r ts us _ _ ih _ =>
    obtain ⟨t, us, rfl, ht⟩ := ih.resolve_left Form.noConfusion
    exact .inr ⟨_, _, rfl, ht.loosen o.rank_level_le_leftLevel⟩
  | conditional _ _ _ ih _ _ =>
    obtain ⟨t, us, rfl, ht⟩ := ih.resolve_left Form.noConfusion
    exact .inr ⟨_, _, rfl, ht.loosen (Nat.zero_le _)⟩
  | @tighter l e ts _ ih =>
    obtain ⟨t, us, rfl, ht⟩ := ih.resolve_left Form.noConfusion
    exact .inr ⟨_, _, rfl, ht.loosen l.rank_le_tighter⟩
  | noArguments => exact .inl rfl
  | lastArgument _ ih | moreArguments _ _ ih _ =>
    obtain ⟨t, us, rfl, ht⟩ := ih.resolve_left Form.noConfusion
    exact .inr ⟨_, _, rfl, ht.startRank?⟩

/-- The first token of an expression. -/
theorem first {l : Level} {e : Expr} {ts : List Token} (h : Derives (.expr l e) ts) :
    ∃ t us, ts = t :: us ∧ ∃ r, t.startRank? = some r ∧ l.rank ≤ r :=
  h.exists_first.resolve_left Form.noConfusion

theorem length_pos {l : Level} {e : Expr} {ts : List Token} (h : Derives (.expr l e) ts) :
    0 < ts.length := by
  obtain ⟨t, us, rfl, -⟩ := h.first
  exact Nat.succ_pos _

end Derives

/-! ### The tokens of an expression -/

/-- Literals other than the two truth values, and names. -/
def Token.isLeaf : Token → Bool
  | .int _ | .float _ | .str _ | .name _ => true
  | _ => false

@[simp] theorem Token.isLeaf_name (n : Text) : (name n).isLeaf = true := rfl

@[simp] theorem Token.isLeaf_keyword (k : Keyword) : (keyword k).isLeaf = false := rfl

@[simp] theorem Token.isLeaf_mark (m : Mark) : (mark m).isLeaf = false := rfl

@[simp] theorem UnaryOp.isLeaf_token (o : UnaryOp) : o.token.isLeaf = false := by cases o <;> rfl

@[simp] theorem BinaryOp.isLeaf_token (o : BinaryOp) : o.token.isLeaf = false := by
  cases o <;> rfl

mutual

/-- The literals and names of a tree, in the order in which they are written. -/
def Expr.leaves : Expr → List Token
  | .int i => [.int i]
  | .float x => [.float x]
  | .str s => [.str s]
  | .bool _ => []
  | .name n => [.name n]
  | .unary _ e => e.leaves
  | .binary _ l r => l.leaves ++ r.leaves
  | .conditional c y n => y.leaves ++ (c.leaves ++ n.leaves)
  | .index e p => e.leaves ++ p.leaves
  | .call f es => .name f :: leavesOfArguments es

/-- The literals and names of arguments. -/
def Expr.leavesOfArguments : List Expr → List Token
  | [] => []
  | e :: es => e.leaves ++ leavesOfArguments es

end

/-- The literals and names of a form. -/
def Form.leaves : Form → List Token
  | .expr _ e => e.leaves
  | .arguments es => Expr.leavesOfArguments es

/-- **The literals and names** among the tokens of an expression are those of its tree. -/
theorem Derives.filter_isLeaf {f : Form} {ts : List Token} (h : Derives f ts) :
    ts.filter Token.isLeaf = f.leaves := by
  induction h with
  | int | float | str | yes | no | name | noArguments => rfl
  | paren _ ih | tighter _ ih => simpa [Form.leaves] using ih
  | call _ ih => simp [Form.leaves, Expr.leaves, List.filter_cons, ih]
  | unary _ ih => simpa [Form.leaves, Expr.leaves] using ih
  | index _ _ ihe ihp => simp [Form.leaves, Expr.leaves, ihe, ihp]
  | binary _ _ ihl ihr => simp [Form.leaves, Expr.leaves, ihl, ihr]
  | conditional _ _ _ ihy ihc ihn => simp [Form.leaves, Expr.leaves, ihy, ihc, ihn]
  | lastArgument _ ih => simpa [Form.leaves, Expr.leavesOfArguments] using ih
  | moreArguments _ _ ihe ih => simp [Form.leaves, Expr.leavesOfArguments, ihe, ih]

/-- The first of the tokens is one that an operand can start with. -/
def StartsOperand (ts : List Token) : Prop := ∃ t ∈ ts.head?, ∃ r, t.startRank? = some r

theorem StartsOperand.append {ts : List Token} (h : StartsOperand ts) (us : List Token) :
    StartsOperand (ts ++ us) := by
  cases ts with
  | nil =>
    obtain ⟨t, ht, -⟩ := h
    cases ht
  | cons t ts => exact h

theorem Derives.startsOperand {l : Level} {e : Expr} {ts : List Token}
    (h : Derives (.expr l e) ts) : StartsOperand ts := by
  obtain ⟨t, us, rfl, r, hr, -⟩ := h.first
  exact ⟨t, rfl, r, hr⟩

/-- An operand starts behind every operator, and no operator is written for a reserved word. -/
def OperandsFollow : List Token → Prop
  | [] => True
  | t :: ts => (∀ o, t = .op o → o.token = t ∧ StartsOperand ts) ∧ OperandsFollow ts

namespace OperandsFollow

variable {ts us : List Token}

theorem append (h : OperandsFollow ts) (hus : OperandsFollow us) : OperandsFollow (ts ++ us) := by
  induction ts with
  | nil => exact hus
  | cons t ts ih =>
    obtain ⟨hop, hts⟩ := h
    exact ⟨fun o ho => ⟨(hop o ho).1, (hop o ho).2.append us⟩, ih hts⟩

theorem of_ne {t : Token} (ht : ∀ o, t ≠ .op o) (h : OperandsFollow ts) :
    OperandsFollow (t :: ts) :=
  ⟨fun o ho => absurd ho (ht o), h⟩

theorem binary {o : BinaryOp} (hs : StartsOperand ts) (h : OperandsFollow ts) :
    OperandsFollow (o.token :: ts) := by
  refine ⟨fun o' ho => ⟨?_, hs⟩, h⟩
  cases o <;> cases ho <;> rfl

theorem unary {o : UnaryOp} (hs : StartsOperand ts) (h : OperandsFollow ts) :
    OperandsFollow (o.token :: ts) := by
  refine ⟨fun o' ho => ⟨?_, hs⟩, h⟩
  cases o <;> cases ho <;> rfl

end OperandsFollow

/-- **Operators stand before operands**, whether they have one operand or two. -/
theorem Derives.operandsFollow {f : Form} {ts : List Token} (h : Derives f ts) :
    OperandsFollow ts := by
  induction h with
  | int | float | str | yes | no | name => exact .of_ne (fun _ => Token.noConfusion) trivial
  | paren _ ih =>
    exact .of_ne (fun _ => Token.noConfusion)
      (ih.append (.of_ne (fun _ => Token.noConfusion) trivial))
  | call _ ih =>
    exact .of_ne (fun _ => Token.noConfusion) (.of_ne (fun _ => Token.noConfusion)
      (ih.append (.of_ne (fun _ => Token.noConfusion) trivial)))
  | index _ _ ihe ihp =>
    exact ihe.append (.of_ne (fun _ => Token.noConfusion)
      (ihp.append (.of_ne (fun _ => Token.noConfusion) trivial)))
  | unary he ih => exact .unary he.startsOperand ih
  | binary _ hr ihl ihr => exact ihl.append (.binary hr.startsOperand ihr)
  | conditional _ _ _ ihy ihc ihn =>
    exact ihy.append (.of_ne (fun _ => Token.noConfusion)
      (ihc.append (.of_ne (fun _ => Token.noConfusion) ihn)))
  | tighter _ ih | lastArgument _ ih => exact ih
  | noArguments => exact trivial
  | moreArguments _ _ ihe ih => exact ihe.append (.of_ne (fun _ => Token.noConfusion) ih)

end ScriptEmbed
