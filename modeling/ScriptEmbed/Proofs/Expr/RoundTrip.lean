import Mathlib.Tactic
import ScriptEmbed.Proofs.Expr.Reading
import ScriptEmbed.Proofs.Expr.Spelling

/-!
# Printing and parsing expressions

An expression is printed with parentheses only around operands that are looser than their place
allows.  Its tokens can be written with any spaces and either quote, and parsing gives it back.

* `Expr.print` — the tokens of an expression, with as few parentheses as the grammar allows;
* `Expr.derives_print`, `Derives.print_sublist` — the grammar derives them, and every other list of
  tokens that it derives for the expression has them in it;
* `Expr.WellFormed` — the expressions that can be written;
* `Expr.parse?_of_derives` — every text of every list of tokens of an expression is parsed to it;
* `Expr.parse_print` — **the round trip**, and that parsing gives only expressions that can be
  written.
-/

namespace ScriptEmbed

/-! ### Printing -/

namespace Expr

/-- The tightest level that an expression has without parentheses. -/
def level : Expr → Level
  | .conditional .. => .conditional
  | .binary o .. => o.level
  | .unary o _ => o.level
  | _ => .postfixed

/-- The tokens of an expression at a place of the given level: in parentheses where the expression
is looser than the place. -/
def enclose (l : Level) (e : Expr) (ts : List Token) : List Token :=
  if e.level.rank < l.rank then .mark .openParen :: (ts ++ [.mark .closeParen]) else ts

mutual

/-- The tokens of an expression. -/
def print : Expr → List Token
  | .int i => [.int i]
  | .float x => [.float x]
  | .str s => [.str s]
  | .bool true => [.keyword .true]
  | .bool false => [.keyword .false]
  | .name n => [.name n]
  | .unary o e => o.token :: enclose o.level e e.print
  | .binary o l r => enclose o.leftLevel l l.print ++ o.token :: enclose o.rightLevel r r.print
  | .conditional c y n =>
    enclose .disjunction y y.print ++
      .keyword .if :: (enclose .disjunction c c.print ++ .keyword .else :: n.print)
  | .index e p =>
    enclose .postfixed e e.print ++ .mark .openBracket :: (p.print ++ [.mark .closeBracket])
  | .call f es => .name f :: .mark .openParen :: (printArguments es ++ [.mark .closeParen])

/-- The tokens of arguments, with commas between them. -/
def printArguments : List Expr → List Token
  | [] => []
  | e :: es =>
    match es with
    | [] => e.print
    | _ :: _ => e.print ++ .mark .comma :: printArguments es

end

end Expr

/-- The tokens of a form with as few parentheses as possible. -/
def Form.print : Form → List Token
  | .expr l e => e.enclose l e.print
  | .arguments es => Expr.printArguments es

namespace Expr

theorem enclose_of_le {l : Level} {e : Expr} (h : l.rank ≤ e.level.rank) (ts : List Token) :
    enclose l e ts = ts := if_neg (Nat.not_lt.2 h)

theorem enclose_level (e : Expr) (ts : List Token) : enclose e.level e ts = ts :=
  enclose_of_le (Nat.le_refl _) ts

/-- Nothing is put in parentheses where every expression can stand. -/
theorem enclose_conditional (e : Expr) (ts : List Token) : enclose .conditional e ts = ts :=
  enclose_of_le (Nat.zero_le _) ts

theorem enclose_sublist_parens (l : Level) (e : Expr) (ts : List Token) :
    (enclose l e ts).Sublist (.mark .openParen :: (ts ++ [.mark .closeParen])) := by
  rw [enclose]
  split
  · exact List.Sublist.refl _
  · exact (List.sublist_append_left ts _).cons _

theorem enclose_sublist_enclose {l l' : Level} (h : l.rank ≤ l'.rank) (e : Expr)
    (ts : List Token) : (enclose l e ts).Sublist (enclose l' e ts) := by
  by_cases hl : e.level.rank < l.rank
  · rw [enclose, enclose, if_pos hl, if_pos (hl.trans_le h)]
  · rw [enclose, if_neg hl, enclose]
    split
    · exact (List.sublist_append_left ts _).cons _
    · exact List.Sublist.refl _

end Expr

open ScriptEmbed.Expr

/-- What is derived at a level is derived at every looser one. -/
theorem Derives.loosen {l l' : Level} {e : Expr} {ts : List Token} (h : Derives (.expr l e) ts)
    (hl : l'.rank ≤ l.rank) : Derives (.expr l' e) ts := by
  induction hd : l.rank - l'.rank generalizing l' with
  | zero =>
    have heq : l' = l := Level.rank_injective (by omega)
    exact heq ▸ h
  | succ d ih =>
    have hpost : l' ≠ .postfixed := by
      rintro rfl
      have hle : l.rank ≤ Level.postfixed.rank := l.rank_le
      omega
    have hnext := Level.rank_tighter hpost
    exact .tighter (ih (by omega) (by omega))

theorem Derives.enclose {e : Expr} {ts : List Token} (h : Derives (.expr e.level e) ts)
    (l : Level) : Derives (.expr l e) (Expr.enclose l e ts) := by
  rw [Expr.enclose]
  split
  · exact (h.loosen (Nat.zero_le _)).paren.loosen l.rank_le
  · exact h.loosen (Nat.not_lt.1 ‹_›)

mutual

/-- **What is printed is derived.** -/
theorem Expr.derives_print : (e : Expr) → Derives (.expr e.level e) e.print
  | .int i => .int i
  | .float x => .float x
  | .str s => .str s
  | .bool true => .yes
  | .bool false => .no
  | .name n => .name n
  | .unary o e => .unary (e.derives_print.enclose o.level)
  | .binary _ l r => .binary (l.derives_print.enclose _) (r.derives_print.enclose _)
  | .conditional c y n =>
    .conditional (y.derives_print.enclose _) (c.derives_print.enclose _)
      (n.derives_print.loosen (Nat.zero_le _))
  | .index e p => .index (e.derives_print.enclose _) (p.derives_print.loosen (Nat.zero_le _))
  | .call _ es => .call (derives_printArguments es)

theorem Expr.derives_printArguments : (es : List Expr) → Derives (.arguments es) (printArguments es)
  | [] => .noArguments
  | [e] => .lastArgument (e.derives_print.loosen (Nat.zero_le _))
  | e :: d :: es =>
    .moreArguments (e.derives_print.loosen (Nat.zero_le _)) (derives_printArguments (d :: es))

end

/-- **No list of tokens has fewer parentheses**: what is printed is left of every other list of
tokens of the expression when some tokens are taken away. -/
theorem Derives.print_sublist {f : Form} {ts : List Token} (h : Derives f ts) :
    f.print.Sublist ts := by
  -- parentheses, at `paren`, are the only tokens that a derivation has and the printed ones lack
  induction h with
  | int | float | str | yes | no | name | noArguments => exact List.Sublist.refl _
  | @paren e ts _ ih =>
    rw [Form.print, enclose_conditional] at ih
    exact (enclose_sublist_parens _ e _).trans ((ih.append_right _).cons_cons _)
  | call _ ih => exact ((ih.append_right _).cons_cons _).cons_cons _
  | index _ _ ihe ihp =>
    rw [Form.print, enclose_conditional] at ihp
    exact ihe.append ((ihp.append_right _).cons_cons _)
  | @unary o e ts _ ih =>
    rw [Form.print, show o.level = (Expr.unary o e).level from rfl, enclose_level]
    exact ih.cons_cons _
  | @binary o l r ts us _ _ ihl ihr =>
    rw [Form.print, show o.level = (Expr.binary o l r).level from rfl, enclose_level]
    exact ihl.append (ihr.cons_cons _)
  | conditional _ _ _ ihy ihc ihn =>
    rw [Form.print, enclose_conditional] at ihn
    exact ihy.append ((ihc.append (ihn.cons_cons _)).cons_cons _)
  | @tighter l e ts _ ih => exact (enclose_sublist_enclose l.rank_le_tighter e _).trans ih
  | lastArgument _ ih =>
    rw [Form.print, enclose_conditional] at ih
    exact ih
  | moreArguments _ _ ihe ih =>
    rw [Form.print, enclose_conditional] at ihe
    exact ihe.append (ih.cons_cons _)

/-- Differences group to the left. -/
example : print (.binary .sub (.int 1) (.binary .sub (.int 2) (.int 3))) =
    [.int 1, .op .sub, .mark .openParen, .int 2, .op .sub, .int 3, .mark .closeParen] := rfl

/-! ### The round trip -/

namespace Expr

/-- The expressions that can be written: no floating-point number, no negative integer, and names
that are identifiers. -/
def WellFormed (e : Expr) : Prop := ∀ k ∈ e.leaves, k.WellFormed

variable {e : Expr} {ts : List Token} {t : Text}

theorem WellFormed.exists_spelled (he : e.WellFormed) (h : Derives (.expr .conditional e) ts) :
    ∃ t, Spelled ts t := by
  refine ScriptEmbed.exists_spelled (fun k hk => ?_) h.operandsFollow
  cases hleaf : k.isLeaf with
  | true =>
    refine he k ?_
    rw [← show ts.filter Token.isLeaf = e.leaves from h.filter_isLeaf]
    exact List.mem_filter.2 ⟨hk, hleaf⟩
  | false =>
    cases k with
    | int | float | str | name => cases hleaf
    | keyword | op | mark => trivial

/-- **Every text of an expression is parsed to it**, with any parentheses, spaces and quotes. -/
theorem parse?_of_derives (h : Derives (.expr .conditional e) ts) (ht : Spelled ts t) :
    parse? t = some e := by
  rw [parse?, scan?_of_spelled ht h.operandsFollow, Option.bind_some, ofTokens?_of_derives h]

/-- Parsing gives only expressions that can be written, and floating-point numbers. -/
theorem wellFormed_of_parse? (h : parse? t = some e) (hfloat : ∀ x, .float x ∉ e.leaves) :
    e.WellFormed := by
  obtain ⟨ts, hts, hparse⟩ := Option.bind_eq_some_iff.1 h
  have hleaves : ts.filter Token.isLeaf = e.leaves :=
    (ofTokens?_eq_some_iff.1 hparse).filter_isLeaf
  intro k hk
  have hmem : k ∈ ts := (List.mem_filter.1 (hleaves ▸ hk)).1
  rcases Token.scannable_of_scan? hts k hmem with hk' | ⟨x, rfl⟩
  · exact hk'
  · exact absurd hk (hfloat x)

/-- **The round trip.**  An expression that can be written is printed with the fewest parentheses,
and every text of its tokens is parsed to it; and what is parsed without floating-point numbers can
be written. -/
theorem parse_print :
    (∀ e : Expr, e.WellFormed →
      (∃ t, Spelled e.print t) ∧
      (∀ ts, Derives (.expr .conditional e) ts → e.print.Sublist ts) ∧
      ∀ t, Spelled e.print t → parse? t = some e) ∧
    ∀ t e, parse? t = some e → (∀ x, .float x ∉ e.leaves) → e.WellFormed := by
  refine ⟨fun e he => ?_, fun t e => wellFormed_of_parse?⟩
  have hprint : Derives (.expr .conditional e) e.print := e.derives_print.loosen (Nat.zero_le _)
  refine ⟨he.exists_spelled hprint, fun ts hts => ?_, fun t ht => parse?_of_derives hprint ht⟩
  have := hts.print_sublist
  rwa [Form.print, enclose_conditional] at this

/-- The product of a difference and a string that is a quote. -/
def product : Expr := .binary .mul (.binary .sub (.name ['a']) (.int 1)) (.str ['\''])

/-- A text of the product. -/
def productText : Text := ['(', 'a', ' ', '-', '1', ')', '*', ' ', '\'', '\\', '\'', '\'']

theorem isIdentifier_a : Token.IsIdentifier ['a'] where
  start := ⟨'a', rfl, rfl⟩
  isNameChar := List.forall_mem_singleton.2 rfl
  not_reserved k := by cases k <;> decide

theorem wellFormed_product : product.WellFormed := by
  intro k hk
  simp only [product, leaves, List.cons_append, List.nil_append, List.mem_cons,
    List.not_mem_nil, or_false] at hk
  rcases hk with rfl | rfl | rfl
  · exact isIdentifier_a
  · show 0 ≤ (1 : Int64).toInt
    decide
  · trivial

theorem spelled_productText : Spelled product.print productText := by
  have hnone : ∀ c ∈ [], Token.isSpace c = true := List.forall_mem_nil _
  have hspace : ∀ c ∈ [' '], Token.isSpace c = true := List.forall_mem_singleton.2 rfl
  refine .cons_of_not_isWord hnone (.mark .openParen) rfl ?_
  refine .cons hnone (.name isIdentifier_a) ?_ ?_
  · rintro - ⟨k, hk, hword⟩
    cases hk
    cases hword
  refine .cons_of_not_isWord hspace (.op (o := .sub) rfl) rfl ?_
  refine .cons hnone (.decimal (d := ['1']) (List.cons_ne_nil _ _) ?_ rfl) ?_ ?_
  · exact List.forall_mem_singleton.2 rfl
  · rintro - ⟨k, hk, hword⟩
    cases hk
    cases hword
  refine .cons_of_not_isWord hnone (.mark .closeParen) rfl ?_
  refine .cons_of_not_isWord hnone (.op (o := .mul) rfl) rfl ?_
  exact .cons_of_not_isWord hspace (.str (.inr rfl) (.escaped rfl .close)) rfl (.nil hnone)

theorem parse_print_product :
    product.WellFormed ∧ Spelled product.print productText ∧ parse? productText = some product ∧
      product.print.Sublist (.mark .openParen :: (product.print ++ [.mark .closeParen])) ∧
      (∀ x, .float x ∉ product.leaves) ∧ product.WellFormed := by
  obtain ⟨-, hleast, hround⟩ := parse_print.1 product wellFormed_product
  have hparse := hround productText spelled_productText
  have hprint : Derives (.expr .conditional product) product.print :=
    product.derives_print.loosen (Nat.zero_le _)
  have hfloat : ∀ x, .float x ∉ product.leaves := fun x hx => wellFormed_product _ hx
  exact ⟨wellFormed_product, spelled_productText, hparse,
    hleast _ (hprint.paren.loosen (Nat.zero_le _)), hfloat,
    parse_print.2 productText product hparse hfloat⟩

end Expr

end ScriptEmbed
