import Mathlib.Tactic
import ScriptEmbed.Proofs.Expr.Grammar

/-!
# The parser reads the grammar

The parser takes operands from the front and groups them as it goes, with a bound on its steps.
This file proves that it finds exactly the expressions that the grammar derives.

* `Token.continueRank?`, `Stops` — what may stand behind an expression without belonging to it;
* `Reads` — **the invariant from left to right**: after the tokens of an operand the parser is where
  it would be with the operand in hand;
* `Derives.reads` — the grammar has it, and the bound on the steps is enough;
* `Parses` — what every answer of the parser derives, for any bound;
* `Expr.ofTokens?_eq_some_iff` — **the tokens that the parser accepts are those that the grammar
  derives**.
-/

namespace ScriptEmbed

/-- The rank of the level at which a token continues an expression before it. -/
def Token.continueRank? : Token → Option Nat
  | .keyword .if => some 0
  | .keyword .or => some 1
  | .keyword .and => some 2
  | .op o => some o.level.rank
  | .mark .openBracket => some 8
  | .mark .openParen => some 9
  | _ => none

theorem BinaryOp.continueRank?_token (o : BinaryOp) :
    o.token.continueRank? = some o.level.rank := by
  cases o <;> rfl

/-- The tokens do not start with one that continues an expression of the given rank or of a tighter
one. -/
def Stops (r : Nat) (rest : List Token) : Prop :=
  ∀ t ∈ rest.head?, ∀ k, t.continueRank? = some k → k < r

theorem stops_nil (r : Nat) : Stops r [] := by
  intro t ht
  cases ht

theorem stops_cons {r : Nat} {t : Token} {us : List Token} :
    Stops r (t :: us) ↔ ∀ k, t.continueRank? = some k → k < r := by
  simp [Stops]

theorem Stops.mono {r r' : Nat} {rest : List Token} (h : Stops r rest) (hr : r ≤ r') :
    Stops r' rest := fun t ht k hk => (h t ht k hk).trans_le hr

/-- A token that continues nothing stops every expression. -/
theorem stops_of_none {t : Token} (h : t.continueRank? = none) (r : Nat) (us : List Token) :
    Stops r (t :: us) := by
  rw [stops_cons, h]
  intro k hk
  cases hk

theorem stops_of_some {t : Token} {k r : Nat} (h : t.continueRank? = some k) (hk : k < r)
    (us : List Token) : Stops r (t :: us) := by
  rw [stops_cons, h]
  intro j hj
  exact Option.some.inj hj ▸ hk

theorem Stops.operator?_eq_none {l : Level} {r : Nat} {t : Token} {us : List Token}
    (h : Stops r (t :: us)) (hr : r ≤ l.rank) : l.operator? t = none := by
  rw [Option.eq_none_iff_forall_ne_some]
  intro o ho
  obtain ⟨rfl, rfl⟩ := Level.operator?_eq_some_iff.1 ho
  have := stops_cons.1 h _ o.continueRank?_token
  omega

/-! ### Steps of the parser -/

namespace Level

/-- Operators of the level make chains. -/
def isChain : Level → Bool
  | disjunction | conjunction | sum | term => true
  | _ => false

/-- The least rank from which on tokens behind an operand of the level belong to the operand. -/
def holdRank : Level → Nat
  | disjunction => 2
  | conjunction => 3
  | sum => 6
  | term => 7
  | postfixed => 9
  | l => l.rank

theorem rank_le_holdRank (l : Level) : l.rank ≤ l.holdRank := by cases l <;> decide

theorem holdRank_of_isChain {l : Level} (h : l.isChain = true) : l.holdRank = l.rank + 1 := by
  cases l <;> first | rfl | cases h

end Level

namespace Expr

/-- What the parser does once it has an operand of a level in hand. -/
def resume (n : Nat) (l : Level) (e : Expr) (rest : List Token) : Option (Expr × List Token) :=
  match l with
  | .disjunction | .conjunction | .sum | .term => parseChain n l e rest
  | .postfixed => parseIndices n e rest
  | _ => some (e, rest)

theorem resume_of_isChain {l : Level} (hl : l.isChain = true) (n : Nat) (e : Expr)
    (rest : List Token) : resume n l e rest = parseChain n l e rest := by
  cases l <;> first | rfl | cases hl

theorem parseLevel_of_isChain {l : Level} (hl : l.isChain = true) (n : Nat) (ts : List Token) :
    parseLevel (n + 1) l ts =
      (parseLevel n l.tighter ts).bind fun p => parseChain n l p.1 p.2 := by
  cases l <;> first | rfl | cases hl

theorem parseChain_of_operator?_none {l : Level} {t : Token} (h : l.operator? t = none) (n : Nat)
    (e : Expr) (us : List Token) : parseChain (n + 1) l e (t :: us) = some (e, t :: us) := by
  rw [parseChain, h]

theorem parseChain_of_operator?_some {l : Level} {t : Token} {o : BinaryOp}
    (h : l.operator? t = some o) (n : Nat) (e : Expr) (us : List Token) :
    parseChain (n + 1) l e (t :: us) =
      (parseLevel n l.tighter us).bind fun p => parseChain n l (.binary o e p.1) p.2 := by
  rw [parseChain, h]
  rfl

theorem parseIndices_of_stops {n : Nat} {e : Expr} {rest : List Token} (h : Stops 8 rest) :
    parseIndices (n + 1) e rest = some (e, rest) := by
  cases rest with
  | nil => rfl
  | cons t us =>
    cases t with
    | mark m =>
      cases m with
      | openBracket =>
        have := stops_cons.1 h 8 rfl
        omega
      | _ => rfl
    | _ => rfl

/-- With an operand in hand and nothing behind it that belongs to its level, the parser is done. -/
theorem resume_of_stops {n : Nat} {l : Level} {e : Expr} {rest : List Token} (hn : 0 < n)
    (h : Stops l.rank rest) : resume n l e rest = some (e, rest) := by
  obtain ⟨n, rfl⟩ := Nat.exists_eq_succ_of_ne_zero hn.ne'
  by_cases hl : l.isChain = true
  · rw [resume_of_isChain hl]
    cases rest with
    | nil => rfl
    | cons t us => exact parseChain_of_operator?_none (h.operator?_eq_none (Nat.le_refl _)) n e us
  · cases l with
    | postfixed => exact parseIndices_of_stops h
    | disjunction | conjunction | sum | term => exact absurd rfl hl
    | _ => rfl

/-! ### Steps of the levels that are no chains -/

theorem parseLevel_conditional (n : Nat) {ts rest : List Token} {e : Expr}
    (h : parseLevel n .disjunction ts = some (e, rest)) (hrest : Stops 0 rest) :
    parseLevel (n + 1) .conditional ts = some (e, rest) := by
  rw [parseLevel, h]
  cases rest with
  | nil => rfl
  | cons t us =>
    cases t with
    | keyword k =>
      cases k with
      | «if» => exact absurd (stops_cons.1 hrest 0 rfl) (Nat.lt_irrefl 0)
      | _ => rfl
    | _ => rfl

theorem parseLevel_if (n : Nat) {ts us vs rest : List Token} {y c e : Expr}
    (hy : parseLevel n .disjunction ts = some (y, .keyword .if :: us))
    (hc : parseLevel n .disjunction us = some (c, .keyword .else :: vs))
    (he : parseLevel n .conditional vs = some (e, rest)) :
    parseLevel (n + 1) .conditional ts = some (.conditional c y e, rest) := by
  rw [parseLevel, hy]
  show (parseLevel n .disjunction us).bind _ = _
  rw [hc]
  show (parseLevel n .conditional vs).bind _ = _
  rw [he]
  rfl

theorem parseLevel_not (n : Nat) (ts : List Token) :
    parseLevel (n + 1) .negation (.keyword .not :: ts) =
      (parseLevel n .negation ts).bind fun p => some (.unary .not p.1, p.2) := rfl

theorem parseLevel_negation (n : Nat) {t : Token} {r : Nat} (ht : t.startRank? = some r)
    (hr : 3 < r) (us : List Token) :
    parseLevel (n + 1) .negation (t :: us) = parseLevel n .comparison (t :: us) := by
  cases t with
  | keyword k =>
    cases k with
    | not =>
      cases ht
      omega
    | _ => rfl
  | _ => rfl

theorem parseLevel_comparison (n : Nat) {ts rest : List Token} {e : Expr}
    (h : parseLevel n .sum ts = some (e, rest)) (hrest : Stops 4 rest) :
    parseLevel (n + 1) .comparison ts = some (e, rest) := by
  rw [parseLevel, h]
  cases rest with
  | nil => rfl
  | cons t us =>
    have hnone : Level.comparison.operator? t = none := hrest.operator?_eq_none (Nat.le_refl _)
    simp only [bind, Option.bind_some, hnone, pure]

theorem parseLevel_compare (n : Nat) {t : Token} {o : BinaryOp} {ts us rest : List Token}
    {l r : Expr} (ho : Level.comparison.operator? t = some o)
    (hl : parseLevel n .sum ts = some (l, t :: us))
    (hr : parseLevel n .sum us = some (r, rest)) :
    parseLevel (n + 1) .comparison ts = some (.binary o l r, rest) := by
  rw [parseLevel, hl]
  simp only [bind, Option.bind_some, ho, hr, pure]

theorem parseLevel_sign (n : Nat) {t : Token} {o : UnaryOp} (ho : sign? t = some o)
    (ts : List Token) :
    parseLevel (n + 1) .signed (t :: ts) =
      (parseLevel n .signed ts).bind fun p => some (.unary o p.1, p.2) := by
  rw [parseLevel, ho]
  rfl

theorem parseLevel_signed (n : Nat) {t : Token} {r : Nat} (ht : t.startRank? = some r)
    (hr : 7 < r) (us : List Token) :
    parseLevel (n + 1) .signed (t :: us) = parseLevel n .postfixed (t :: us) := by
  have hnone : sign? t = none := by
    rw [Option.eq_none_iff_forall_ne_some]
    intro o ho
    obtain ⟨hlevel, rfl⟩ := sign?_eq_some_iff.1 ho
    rw [o.startRank?_token, hlevel, Option.some.injEq] at ht
    subst ht
    exact absurd hr (by decide)
  rw [parseLevel, hnone]

theorem parseLevel_postfixed (n : Nat) (ts : List Token) :
    parseLevel (n + 1) .postfixed ts =
      (parseAtom n ts).bind fun p => parseIndices n p.1 p.2 := rfl

/-! ### Steps of the tightest level -/

theorem parseAtom_name (n : Nat) (x : Text) {rest : List Token} (h : Stops 9 rest) :
    parseAtom (n + 1) (.name x :: rest) = some (.name x, rest) := by
  cases rest with
  | nil => rfl
  | cons t us =>
    cases t with
    | mark m =>
      cases m with
      | openParen =>
        have := stops_cons.1 h 9 rfl
        omega
      | _ => rfl
    | _ => rfl

theorem parseAtom_call (n : Nat) (f : Text) {t : Token} {r : Nat} (ht : t.startRank? = some r)
    {us rest : List Token} {es : List Expr}
    (h : parseArguments n (t :: us) = some (es, rest)) :
    parseAtom (n + 1) (.name f :: .mark .openParen :: t :: us) = some (.call f es, rest) := by
  have hstep : parseAtom (n + 1) (.name f :: .mark .openParen :: t :: us) =
      (parseArguments n (t :: us)).bind fun p => some (.call f p.1, p.2) := by
    cases t with
    | mark m =>
      cases m with
      | closeParen => cases ht
      | _ => rfl
    | _ => rfl
  rw [hstep, h]
  rfl

theorem parseAtom_paren (n : Nat) {ts rest : List Token} {e : Expr}
    (h : parseLevel n .conditional ts = some (e, .mark .closeParen :: rest)) :
    parseAtom (n + 1) (.mark .openParen :: ts) = some (e, rest) := by
  rw [parseAtom, h]
  rfl

theorem parseIndices_index (n : Nat) {e p : Expr} {ts rest : List Token}
    (h : parseLevel n .conditional ts = some (p, .mark .closeBracket :: rest)) :
    parseIndices (n + 1) e (.mark .openBracket :: ts) = parseIndices n (.index e p) rest := by
  rw [parseIndices, h]
  rfl

theorem parseArguments_last (n : Nat) {ts rest : List Token} {e : Expr}
    (h : parseLevel n .conditional ts = some (e, .mark .closeParen :: rest)) :
    parseArguments (n + 1) ts = some ([e], rest) := by
  rw [parseArguments, h]
  rfl

theorem parseArguments_more (n : Nat) {ts us rest : List Token} {e : Expr} {es : List Expr}
    (h : parseLevel n .conditional ts = some (e, .mark .comma :: us))
    (hus : parseArguments n us = some (es, rest)) :
    parseArguments (n + 1) ts = some (e :: es, rest) := by
  rw [parseArguments, h]
  show (parseArguments n us).bind _ = _
  rw [hus]
  rfl

end Expr

open ScriptEmbed.Expr

/-! ### From the grammar to the parser -/

/-- **The invariant.**  With enough steps left, the parser gets past the tokens of an expression to
where it would be with the expression in hand, having lost at most one step for each token; and it
gets past the tokens of arguments and the parenthesis that closes them.  Ten steps for a token are
enough, one for each level and one for the atom, less those of the levels that are behind. -/
def Reads : Form → List Token → Prop
  | .expr l e, ts => ∀ n rest, 10 * ts.length ≤ n + l.rank → Stops l.holdRank rest →
      ∃ m, n ≤ m + ts.length ∧ parseLevel n l (ts ++ rest) = resume m l e rest
  | .arguments es, ts => es ≠ [] → ∀ n rest, 10 * ts.length < n →
      parseArguments n (ts ++ .mark .closeParen :: rest) = some (es, rest)

/-- Where nothing behind the tokens belongs to the level, the parser is done with them. -/
theorem Reads.parseLevel_eq {l : Level} {e : Expr} {ts : List Token}
    (h : Reads (.expr l e) ts) (hpos : 0 < ts.length) {n : Nat} {rest : List Token}
    (hn : 10 * ts.length ≤ n + l.rank) (hrest : Stops l.rank rest) :
    parseLevel n l (ts ++ rest) = some (e, rest) := by
  obtain ⟨m, hm, heq⟩ := h n rest hn (hrest.mono l.rank_le_holdRank)
  have hrank := l.rank_le
  rw [heq]
  exact resume_of_stops (by omega) hrest

/-- At a level without chains and indices, all is read in the one step. -/
theorem reads_of_parseLevel {l : Level} (hl : l.holdRank = l.rank) {e : Expr} {ts : List Token}
    (hpos : 0 < ts.length) (h : ∀ n rest, 10 * ts.length ≤ n + 1 + l.rank → Stops l.rank rest →
      parseLevel (n + 1) l (ts ++ rest) = some (e, rest)) : Reads (.expr l e) ts := by
  intro n rest hn hrest
  have hrank := l.rank_le
  obtain ⟨k, rfl⟩ : ∃ k, n = k + 1 := ⟨n - 1, by omega⟩
  refine ⟨k, by omega, ?_⟩
  rw [hl] at hrest
  rw [h k rest hn hrest]
  cases l with
  | disjunction | conjunction | sum | term | postfixed => exact absurd hl (by decide)
  | _ => rfl

/-- An atom is read by the parser for atoms, and the indices behind it by the next step. -/
theorem reads_of_parseAtom {e : Expr} {ts : List Token} (hpos : 0 < ts.length)
    (h : ∀ n rest, 10 * ts.length ≤ n + 10 → Stops 9 rest →
      parseAtom (n + 1) (ts ++ rest) = some (e, rest)) : Reads (.expr .postfixed e) ts := by
  intro n rest hn hrest
  have hrank : Level.postfixed.rank = 8 := rfl
  obtain ⟨k, rfl⟩ : ∃ k, n = k + 2 := ⟨n - 2, by omega⟩
  refine ⟨k + 1, by omega, ?_⟩
  rw [parseLevel_postfixed, h k rest (by omega) hrest]
  rfl

namespace Derives

variable {e : Expr} {ts us vs : List Token}

/-- An expression of the next tighter level is read one step later. -/
theorem reads_tighter {l : Level} (h : Derives (.expr l.tighter e) ts)
    (ih : Reads (.expr l.tighter e) ts) : Reads (.expr l e) ts := by
  have hpos := h.length_pos
  by_cases hpost : l = .postfixed
  · subst hpost
    exact ih
  have hnext := Level.rank_tighter hpost
  obtain ⟨t, us, rfl, r, ht, hr⟩ := h.first
  cases l with
  | postfixed => exact absurd rfl hpost
  | conditional =>
    exact reads_of_parseLevel rfl hpos fun n rest hn hrest =>
      parseLevel_conditional n (ih.parseLevel_eq hpos (by omega) (hrest.mono (by decide))) hrest
  | comparison =>
    exact reads_of_parseLevel rfl hpos fun n rest hn hrest =>
      parseLevel_comparison n (ih.parseLevel_eq hpos (by omega) (hrest.mono (by decide))) hrest
  | negation =>
    exact reads_of_parseLevel rfl hpos fun n rest hn hrest =>
      (parseLevel_negation n ht hr _).trans
        (ih.parseLevel_eq hpos (by omega) (hrest.mono (by decide)))
  | signed =>
    exact reads_of_parseLevel rfl hpos fun n rest hn hrest =>
      (parseLevel_signed n ht hr _).trans
        (ih.parseLevel_eq hpos (by omega) (hrest.mono (by decide)))
  | disjunction | conjunction | sum | term =>
    -- the first operand of a chain that may go on
    intro n rest hn hrest
    have hrank := Level.rank_le .postfixed
    obtain ⟨k, rfl⟩ : ∃ k, n = k + 1 := ⟨n - 1, by simp only [Level.rank] at hn; omega⟩
    refine ⟨k, by omega, ?_⟩
    rw [parseLevel_of_isChain rfl, ih.parseLevel_eq hpos (by omega) hrest]
    rfl

theorem reads_unary {o : UnaryOp} (h : Derives (.expr o.level e) ts)
    (ih : Reads (.expr o.level e) ts) : Reads (.expr o.level (.unary o e)) (o.token :: ts) := by
  have hpos := h.length_pos
  have hrank := o.level.rank_le
  have hhold : o.level.holdRank = o.level.rank := by cases o <;> rfl
  refine reads_of_parseLevel hhold (Nat.succ_pos _) fun n rest hn hrest => ?_
  rw [List.length_cons] at hn
  have hoperand := ih.parseLevel_eq hpos (n := n) (by omega) hrest
  cases o with
  | not =>
    show parseLevel (n + 1) .negation (.keyword .not :: (ts ++ rest)) = _
    rw [parseLevel_not]
    exact congrArg (Option.bind · _) hoperand
  | neg | plus =>
    show parseLevel (n + 1) .signed (_ :: (ts ++ rest)) = _
    rw [parseLevel_sign n rfl]
    exact congrArg (Option.bind · _) hoperand

/-- A comparison reads its two operands in one step. -/
theorem reads_comparison {o : BinaryOp} {l r : Expr} (ho : o.level = .comparison)
    (hl : Derives (.expr .sum l) ts) (hr : Derives (.expr .sum r) us)
    (ihl : Reads (.expr .sum l) ts) (ihr : Reads (.expr .sum r) us) :
    Reads (.expr .comparison (.binary o l r)) (ts ++ o.token :: us) := by
  have hposl := hl.length_pos
  have hposr := hr.length_pos
  have hsum : Level.sum.rank = Level.comparison.rank + 1 := rfl
  have hop : Level.comparison.operator? o.token = some o :=
    Level.operator?_eq_some_iff.2 ⟨ho, rfl⟩
  refine reads_of_parseLevel rfl (by simp) fun n rest hn hrest => ?_
  rw [List.length_append, List.length_cons] at hn
  rw [List.append_assoc, List.cons_append]
  refine parseLevel_compare n hop ?_ (ihr.parseLevel_eq hposr (by omega) (hrest.mono (by decide)))
  exact ihl.parseLevel_eq hposl (by omega) (stops_of_some o.continueRank?_token (ho ▸ by decide) _)

/-- In a chain, the operand on the right is read next, and the chain goes on. -/
theorem reads_chain {o : BinaryOp} {l r : Expr} (ho : o.level.isChain = true)
    (hl : Derives (.expr o.level l) ts) (hr : Derives (.expr o.level.tighter r) us)
    (ihl : Reads (.expr o.level l) ts) (ihr : Reads (.expr o.level.tighter r) us) :
    Reads (.expr o.level (.binary o l r)) (ts ++ o.token :: us) := by
  have hposl := hl.length_pos
  have hposr := hr.length_pos
  have hrank := o.level.rank_le
  have hright : o.level.tighter.rank = o.level.rank + 1 :=
    Level.rank_tighter fun h => by rw [h] at ho; cases ho
  have hhold := Level.holdRank_of_isChain ho
  have hop : o.level.operator? o.token = some o := Level.operator?_eq_some_iff.2 ⟨rfl, rfl⟩
  intro n rest hn hrest
  rw [List.length_append, List.length_cons] at hn ⊢
  rw [hhold, ← hright] at hrest
  obtain ⟨m, hm, heq⟩ := ihl n (o.token :: (us ++ rest)) (by omega)
    (stops_of_some o.continueRank?_token (by omega) _)
  obtain ⟨k, rfl⟩ : ∃ k, m = k + 1 := ⟨m - 1, by omega⟩
  refine ⟨k, by omega, ?_⟩
  rw [List.append_assoc, List.cons_append, heq, resume_of_isChain ho,
    parseChain_of_operator?_some hop, ihr.parseLevel_eq hposr (by omega) hrest,
    resume_of_isChain ho]
  rfl

theorem reads_binary {o : BinaryOp} {l r : Expr} (hl : Derives (.expr o.leftLevel l) ts)
    (hr : Derives (.expr o.rightLevel r) us) (ihl : Reads (.expr o.leftLevel l) ts)
    (ihr : Reads (.expr o.rightLevel r) us) :
    Reads (.expr o.level (.binary o l r)) (ts ++ o.token :: us) := by
  cases o with
  | eq | ne | lt | le | gt | ge => exact reads_comparison rfl hl hr ihl ihr
  | add | sub | mul | div | floorDiv | mod | and | or => exact reads_chain rfl hl hr ihl ihr

theorem reads_conditional {c y : Expr} (hy : Derives (.expr .disjunction y) ts)
    (hc : Derives (.expr .disjunction c) us) (he : Derives (.expr .conditional e) vs)
    (ihy : Reads (.expr .disjunction y) ts) (ihc : Reads (.expr .disjunction c) us)
    (ihe : Reads (.expr .conditional e) vs) :
    Reads (.expr .conditional (.conditional c y e))
      (ts ++ .keyword .if :: (us ++ .keyword .else :: vs)) := by
  have hposy := hy.length_pos
  have hposc := hc.length_pos
  have hpose := he.length_pos
  have hnext : Level.disjunction.rank = Level.conditional.rank + 1 := rfl
  refine reads_of_parseLevel rfl (by simp) fun n rest hn hrest => ?_
  simp only [List.length_append, List.length_cons] at hn
  simp only [List.append_assoc, List.cons_append]
  refine parseLevel_if n (ihy.parseLevel_eq hposy (by omega) (stops_of_some rfl Nat.one_pos _))
    (ihc.parseLevel_eq hposc (by omega) (stops_of_none rfl _ _)) ?_
  exact ihe.parseLevel_eq hpose (by omega) hrest

theorem reads_index {p : Expr} (he : Derives (.expr .postfixed e) ts)
    (hp : Derives (.expr .conditional p) us) (ihe : Reads (.expr .postfixed e) ts)
    (ihp : Reads (.expr .conditional p) us) :
    Reads (.expr .postfixed (.index e p))
      (ts ++ .mark .openBracket :: (us ++ [.mark .closeBracket])) := by
  have hpose := he.length_pos
  have hposp := hp.length_pos
  have hrank : Level.postfixed.rank = 8 := rfl
  intro n rest hn hrest
  simp only [List.length_append, List.length_cons, List.length_nil] at hn ⊢
  obtain ⟨m, hm, heq⟩ := ihe n (.mark .openBracket :: (us ++ .mark .closeBracket :: rest))
    (by omega) (stops_of_some rfl (by decide) _)
  obtain ⟨k, rfl⟩ : ∃ k, m = k + 1 := ⟨m - 1, by omega⟩
  refine ⟨k, by omega, ?_⟩
  simp only [List.append_assoc, List.cons_append, List.nil_append]
  rw [heq]
  exact parseIndices_index k (ihp.parseLevel_eq hposp (by omega) (stops_of_none rfl _ _))

theorem reads_paren (he : Derives (.expr .conditional e) ts)
    (ihe : Reads (.expr .conditional e) ts) :
    Reads (.expr .postfixed e) (.mark .openParen :: (ts ++ [.mark .closeParen])) := by
  have hpos := he.length_pos
  refine reads_of_parseAtom (Nat.succ_pos _) fun n rest hn hrest => ?_
  simp only [List.length_append, List.length_cons, List.length_nil] at hn
  simp only [List.append_assoc, List.cons_append, List.nil_append]
  exact parseAtom_paren n (ihe.parseLevel_eq hpos (by omega) (stops_of_none rfl _ _))

theorem reads_call {f : Text} {es : List Expr} (hes : Derives (.arguments es) ts)
    (ih : Reads (.arguments es) ts) :
    Reads (.expr .postfixed (.call f es))
      (.name f :: .mark .openParen :: (ts ++ [.mark .closeParen])) := by
  refine reads_of_parseAtom (Nat.succ_pos _) fun n rest hn hrest => ?_
  simp only [List.length_append, List.length_cons, List.length_nil] at hn
  simp only [List.append_assoc, List.cons_append, List.nil_append]
  rcases hes.exists_first with hnil | ⟨t, us, rfl, r, ht⟩
  · cases hnil
    cases hes
    rfl
  · have hne : es ≠ [] := by
      rintro rfl
      cases hes
    have hargs := ih hne n rest (by omega)
    rw [List.cons_append] at hargs ⊢
    exact parseAtom_call n f ht hargs

theorem reads_lastArgument (he : Derives (.expr .conditional e) ts)
    (ihe : Reads (.expr .conditional e) ts) : Reads (.arguments [e]) ts := by
  intro _ n rest hn
  obtain ⟨k, rfl⟩ : ∃ k, n = k + 1 := ⟨n - 1, by omega⟩
  exact parseArguments_last k (ihe.parseLevel_eq he.length_pos (by omega) (stops_of_none rfl _ _))

theorem reads_moreArguments {d : Expr} {es : List Expr} (he : Derives (.expr .conditional e) ts)
    (ihe : Reads (.expr .conditional e) ts) (ih : Reads (.arguments (d :: es)) us) :
    Reads (.arguments (e :: d :: es)) (ts ++ .mark .comma :: us) := by
  intro _ n rest hn
  rw [List.length_append, List.length_cons] at hn
  obtain ⟨k, rfl⟩ : ∃ k, n = k + 1 := ⟨n - 1, by omega⟩
  rw [List.append_assoc, List.cons_append]
  exact parseArguments_more k (ihe.parseLevel_eq he.length_pos (by omega) (stops_of_none rfl _ _))
    (ih (List.cons_ne_nil d es) k rest (by omega))

/-- **What the grammar derives, the parser reads.** -/
theorem reads {f : Form} {ts : List Token} (h : Derives f ts) : Reads f ts := by
  induction h with
  | int | float | str | yes | no =>
    exact reads_of_parseAtom Nat.one_pos fun n rest _ _ => rfl
  | name x => exact reads_of_parseAtom Nat.one_pos fun n rest _ hrest => parseAtom_name n x hrest
  | paren he ihe => exact reads_paren he ihe
  | call hes ih => exact reads_call hes ih
  | index he hp ihe ihp => exact reads_index he hp ihe ihp
  | unary he ihe => exact reads_unary he ihe
  | binary hl hr ihl ihr => exact reads_binary hl hr ihl ihr
  | conditional hy hc he ihy ihc ihe => exact reads_conditional hy hc he ihy ihc ihe
  | tighter he ihe => exact reads_tighter he ihe
  | noArguments => exact fun hne => absurd rfl hne
  | lastArgument he ihe => exact reads_lastArgument he ihe
  | moreArguments he _ ihe ih => exact reads_moreArguments he ihe ih

end Derives

/-- The bound on the steps of the parser is enough. -/
theorem Expr.ofTokens?_of_derives {e : Expr} {ts : List Token}
    (h : Derives (.expr .conditional e) ts) : ofTokens? ts = some e := by
  have hread := h.reads.parseLevel_eq h.length_pos (n := stepsFor ts)
    (by simp only [stepsFor, Level.rank]; omega) (stops_nil _)
  rw [List.append_nil] at hread
  rw [ofTokens?, hread]

/-! ### From the parser to the grammar -/

theorem Derives.comparison {o : BinaryOp} {l r : Expr} {ts us : List Token}
    (ho : o.level = .comparison) (hl : Derives (.expr .sum l) ts)
    (hr : Derives (.expr .sum r) us) :
    Derives (.expr .comparison (.binary o l r)) (ts ++ o.token :: us) := by
  have hleft : o.leftLevel = .sum := by rw [BinaryOp.leftLevel, ho]
  have hright : o.rightLevel = .sum := by rw [BinaryOp.rightLevel, ho, Level.tighter]
  exact ho ▸ .binary (hleft ▸ hl) (hright ▸ hr)

/-- What the answers of the parsers with a bound derive: each takes the tokens of its form from the
front, a chain and indices after those of the operand in hand. -/
structure Parses (n : Nat) : Prop where
  level : ∀ {l : Level} {ts rest : List Token} {e : Expr},
    parseLevel n l ts = some (e, rest) → ∃ us, ts = us ++ rest ∧ Derives (.expr l e) us
  chain : ∀ {l : Level} {ts us rest : List Token} {d e : Expr}, l.isChain = true →
    parseChain n l d ts = some (e, rest) → Derives (.expr l d) us →
    ∃ vs, ts = vs ++ rest ∧ Derives (.expr l e) (us ++ vs)
  indices : ∀ {ts us rest : List Token} {d e : Expr},
    parseIndices n d ts = some (e, rest) → Derives (.expr .postfixed d) us →
    ∃ vs, ts = vs ++ rest ∧ Derives (.expr .postfixed e) (us ++ vs)
  atom : ∀ {ts rest : List Token} {e : Expr},
    parseAtom n ts = some (e, rest) → ∃ us, ts = us ++ rest ∧ Derives (.expr .postfixed e) us
  arguments : ∀ {ts rest : List Token} {es : List Expr},
    parseArguments n ts = some (es, rest) → es ≠ [] ∧
      ∃ us, ts = us ++ .mark .closeParen :: rest ∧ Derives (.arguments es) us

namespace Parses

variable {n : Nat} {ts us rest : List Token} {d e : Expr}

theorem zero : Parses 0 where
  level hp := by
    rename_i l ts _ _
    cases l <;> cases hp
  chain _ hp _ := by cases hp
  indices hp _ := by cases hp
  atom hp := by cases hp
  arguments hp := by cases hp

theorem chain_succ (h : Parses n) {l : Level} (hl : l.isChain = true)
    (hp : parseChain (n + 1) l d ts = some (e, rest)) (hd : Derives (.expr l d) us) :
    ∃ vs, ts = vs ++ rest ∧ Derives (.expr l e) (us ++ vs) := by
  cases ts with
  | nil =>
    cases hp
    exact ⟨[], rfl, (List.append_nil us).symm ▸ hd⟩
  | cons t ts =>
    cases ho : l.operator? t with
    | none =>
      rw [parseChain_of_operator?_none ho] at hp
      cases hp
      exact ⟨[], rfl, (List.append_nil us).symm ▸ hd⟩
    | some o =>
      rw [parseChain_of_operator?_some ho, Option.bind_eq_some_iff] at hp
      obtain ⟨⟨r, ts'⟩, hr, hrest⟩ := hp
      obtain ⟨rfl, rfl⟩ := Level.operator?_eq_some_iff.1 ho
      obtain ⟨vs, rfl, hder⟩ := h.level hr
      have hleft : o.leftLevel = o.level := by cases o <;> first | rfl | cases hl
      obtain ⟨ws, hws, he⟩ := h.chain hl hrest (.binary (hleft.symm ▸ hd) hder)
      dsimp only at hws
      subst hws
      refine ⟨o.token :: (vs ++ ws), by simp, ?_⟩
      simpa using he

theorem indices_succ (h : Parses n) (hp : parseIndices (n + 1) d ts = some (e, rest))
    (hd : Derives (.expr .postfixed d) us) :
    ∃ vs, ts = vs ++ rest ∧ Derives (.expr .postfixed e) (us ++ vs) := by
  by_cases hopen : ∃ ts', ts = .mark .openBracket :: ts'
  · obtain ⟨ts', rfl⟩ := hopen
    simp only [parseIndices, bind, Option.bind_eq_some_iff, Prod.exists] at hp
    obtain ⟨p, ts₁, hposition, hp⟩ := hp
    split at hp
    · obtain ⟨vs, rfl, hder⟩ := h.level hposition
      obtain ⟨ws, rfl, he⟩ := h.indices hp (.index hd hder)
      refine ⟨.mark .openBracket :: (vs ++ .mark .closeBracket :: ws), by simp, ?_⟩
      simpa using he
    · cases hp
  · rw [parseIndices] at hp
    · cases hp
      exact ⟨[], rfl, (List.append_nil us).symm ▸ hd⟩
    · exact fun ts' hts => hopen ⟨ts', hts⟩

theorem paren_succ (h : Parses n)
    (hp : parseAtom (n + 1) (.mark .openParen :: ts) = some (e, rest)) :
    ∃ us, .mark .openParen :: ts = us ++ rest ∧ Derives (.expr .postfixed e) us := by
  simp only [parseAtom, bind, Option.bind_eq_some_iff, Prod.exists] at hp
  obtain ⟨d, ts₁, hd, hp⟩ := hp
  split at hp
  · cases hp
    obtain ⟨us, rfl, hder⟩ := h.level hd
    exact ⟨_, by simp, .paren hder⟩
  · cases hp

theorem call_succ (h : Parses n) {f : Text}
    (hp : parseAtom (n + 1) (.name f :: .mark .openParen :: ts) = some (e, rest)) :
    ∃ us, .name f :: .mark .openParen :: ts = us ++ rest ∧ Derives (.expr .postfixed e) us := by
  by_cases hclose : ∃ ts', ts = .mark .closeParen :: ts'
  · obtain ⟨ts', rfl⟩ := hclose
    cases hp
    exact ⟨_, by simp, .call .noArguments⟩
  · rw [parseAtom] at hp
    · simp only [bind, Option.bind_eq_some_iff, Prod.exists] at hp
      obtain ⟨es, ts₁, hes, hp⟩ := hp
      obtain ⟨-, us, rfl, hder⟩ := h.arguments hes
      cases hp
      exact ⟨_, by simp, .call hder⟩
    · exact fun ts' hts => hclose ⟨ts', hts⟩

theorem name_succ (h : Parses n) {x : Text}
    (hp : parseAtom (n + 1) (.name x :: ts) = some (e, rest)) :
    ∃ us, .name x :: ts = us ++ rest ∧ Derives (.expr .postfixed e) us := by
  by_cases hopen : ∃ ts', ts = .mark .openParen :: ts'
  · obtain ⟨ts', rfl⟩ := hopen
    exact h.call_succ hp
  · rw [parseAtom] at hp
    · cases hp
      exact ⟨_, (List.singleton_append).symm, .name x⟩
    · exact fun ts' hts => hopen ⟨_, hts⟩
    · exact fun ts' hts => hopen ⟨ts', hts⟩

theorem atom_succ (h : Parses n) (hp : parseAtom (n + 1) ts = some (e, rest)) :
    ∃ us, ts = us ++ rest ∧ Derives (.expr .postfixed e) us := by
  cases ts with
  | nil => cases hp
  | cons t ts =>
    cases t with
    | int | float | str =>
      cases hp
      exact ⟨_, (List.singleton_append).symm, by constructor⟩
    | name x => exact h.name_succ hp
    | op o => cases hp
    | keyword k =>
      cases k with
      | true | false =>
        cases hp
        exact ⟨_, (List.singleton_append).symm, by constructor⟩
      | _ => cases hp
    | mark m =>
      cases m with
      | openParen => exact h.paren_succ hp
      | _ => cases hp

theorem conditional_succ (h : Parses n)
    (hp : parseLevel (n + 1) .conditional ts = some (e, rest)) :
    ∃ us, ts = us ++ rest ∧ Derives (.expr .conditional e) us := by
  simp only [parseLevel, bind, Option.bind_eq_some_iff, Prod.exists] at hp
  obtain ⟨y, ts₁, hy, hp⟩ := hp
  obtain ⟨us, rfl, hdery⟩ := h.level hy
  split at hp
  · simp only [Option.bind_eq_some_iff, Prod.exists] at hp
    obtain ⟨c, ts₂, hc, hp⟩ := hp
    obtain ⟨vs, rfl, hderc⟩ := h.level hc
    split at hp
    · simp only [Option.bind_eq_some_iff, Prod.exists] at hp
      obtain ⟨d, ts₃, hd, hp⟩ := hp
      obtain ⟨ws, rfl, hderd⟩ := h.level hd
      cases hp
      exact ⟨_, by simp, .conditional hdery hderc hderd⟩
    · cases hp
  · cases hp
    exact ⟨us, rfl, .tighter hdery⟩

theorem negation_succ (h : Parses n)
    (hp : parseLevel (n + 1) .negation ts = some (e, rest)) :
    ∃ us, ts = us ++ rest ∧ Derives (.expr .negation e) us := by
  simp only [parseLevel, bind] at hp
  split at hp
  · simp only [Option.bind_eq_some_iff, Prod.exists] at hp
    obtain ⟨d, ts₁, hd, hp⟩ := hp
    obtain ⟨us, rfl, hder⟩ := h.level hd
    cases hp
    exact ⟨_, (List.cons_append).symm, .unary (o := .not) hder⟩
  · obtain ⟨us, rfl, hder⟩ := h.level hp
    exact ⟨us, rfl, .tighter hder⟩

theorem comparison_succ (h : Parses n)
    (hp : parseLevel (n + 1) .comparison ts = some (e, rest)) :
    ∃ us, ts = us ++ rest ∧ Derives (.expr .comparison e) us := by
  simp only [parseLevel, bind, Option.bind_eq_some_iff, Prod.exists] at hp
  obtain ⟨l, ts₁, hl, hp⟩ := hp
  obtain ⟨us, rfl, hderl⟩ := h.level hl
  split at hp
  · split at hp
    · rename_i ho
      simp only [Option.bind_eq_some_iff, Prod.exists] at hp
      obtain ⟨r, ts₂, hr, hp⟩ := hp
      obtain ⟨vs, rfl, hderr⟩ := h.level hr
      cases hp
      obtain ⟨hlevel, rfl⟩ := Level.operator?_eq_some_iff.1 ho
      exact ⟨_, by simp, .comparison hlevel hderl hderr⟩
    · cases hp
      exact ⟨us, rfl, .tighter hderl⟩
  · cases hp
    exact ⟨us, rfl, .tighter hderl⟩

theorem signed_succ (h : Parses n) (hp : parseLevel (n + 1) .signed ts = some (e, rest)) :
    ∃ us, ts = us ++ rest ∧ Derives (.expr .signed e) us := by
  cases ts with
  | nil => cases hp
  | cons t ts =>
    cases ho : sign? t with
    | none =>
      simp only [parseLevel, ho] at hp
      obtain ⟨us, hus, hder⟩ := h.level hp
      exact ⟨us, hus, .tighter hder⟩
    | some o =>
      rw [parseLevel_sign n ho, Option.bind_eq_some_iff] at hp
      obtain ⟨⟨d, ts₁⟩, hd, hp⟩ := hp
      obtain ⟨us, rfl, hder⟩ := h.level hd
      cases hp
      obtain ⟨hlevel, rfl⟩ := sign?_eq_some_iff.1 ho
      exact ⟨_, (List.cons_append).symm, hlevel ▸ .unary (hlevel ▸ hder)⟩

theorem level_succ (h : Parses n) {l : Level} (hp : parseLevel (n + 1) l ts = some (e, rest)) :
    ∃ us, ts = us ++ rest ∧ Derives (.expr l e) us := by
  by_cases hl : l.isChain = true
  · rw [parseLevel_of_isChain hl, Option.bind_eq_some_iff] at hp
    obtain ⟨⟨d, ts₁⟩, hd, hrest⟩ := hp
    obtain ⟨us, rfl, hder⟩ := h.level hd
    obtain ⟨vs, rfl, he⟩ := h.chain hl hrest (.tighter hder)
    exact ⟨us ++ vs, (List.append_assoc us vs rest).symm, he⟩
  · cases l with
    | disjunction | conjunction | sum | term => exact absurd rfl hl
    | conditional => exact h.conditional_succ hp
    | negation => exact h.negation_succ hp
    | comparison => exact h.comparison_succ hp
    | signed => exact h.signed_succ hp
    | postfixed =>
      rw [parseLevel_postfixed, Option.bind_eq_some_iff] at hp
      obtain ⟨⟨d, ts₁⟩, hd, hrest⟩ := hp
      obtain ⟨us, rfl, hder⟩ := h.atom hd
      obtain ⟨vs, rfl, he⟩ := h.indices hrest hder
      exact ⟨us ++ vs, (List.append_assoc us vs rest).symm, he⟩

theorem arguments_succ (h : Parses n) {es : List Expr}
    (hp : parseArguments (n + 1) ts = some (es, rest)) :
    es ≠ [] ∧ ∃ us, ts = us ++ .mark .closeParen :: rest ∧ Derives (.arguments es) us := by
  simp only [parseArguments, bind, Option.bind_eq_some_iff, Prod.exists] at hp
  obtain ⟨d, ts₁, hd, hp⟩ := hp
  obtain ⟨us, rfl, hder⟩ := h.level hd
  split at hp
  · simp only [Option.bind_eq_some_iff, Prod.exists] at hp
    obtain ⟨ds, ts₂, hds, hp⟩ := hp
    obtain ⟨hne, vs, rfl, hders⟩ := h.arguments hds
    cases hp
    obtain ⟨b, bs, rfl⟩ := List.exists_cons_of_ne_nil hne
    exact ⟨List.cons_ne_nil _ _, _, by simp, .moreArguments hder hders⟩
  · cases hp
    exact ⟨List.cons_ne_nil _ _, us, rfl, .lastArgument hder⟩
  · cases hp

end Parses

/-- **Every answer of the parser derives the tokens it took.** -/
theorem parses (n : Nat) : Parses n := by
  -- each parser calls the others with one step less
  induction n with
  | zero => exact Parses.zero
  | succ n ih =>
    exact ⟨ih.level_succ, ih.chain_succ, ih.indices_succ, ih.atom_succ, ih.arguments_succ⟩

/-- **The parser accepts the tokens that the grammar derives**, with the tree that it derives them
for. -/
theorem Expr.ofTokens?_eq_some_iff {e : Expr} {ts : List Token} :
    ofTokens? ts = some e ↔ Derives (.expr .conditional e) ts := by
  refine ⟨fun h => ?_, ofTokens?_of_derives⟩
  unfold ofTokens? at h
  split at h
  · rename_i hp
    cases h
    obtain ⟨us, hus, hder⟩ := (parses _).level hp
    rw [List.append_nil] at hus
    exact hus ▸ hder
  · cases h

/-- A list of tokens is derived for at most one expression: the grammar is unambiguous. -/
theorem Derives.unique {d e : Expr} {ts : List Token} (hd : Derives (.expr .conditional d) ts)
    (he : Derives (.expr .conditional e) ts) : d = e :=
  Option.some.inj ((ofTokens?_of_derives hd).symm.trans (ofTokens?_of_derives he))

end ScriptEmbed
