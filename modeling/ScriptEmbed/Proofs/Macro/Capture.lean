import Mathlib.Tactic
import ScriptEmbed.Proofs.Macro.Tokens

/-!
# Where both substitutions agree

Replacing one parameter after the other finds a parameter inside longer words, and inside arguments
that were put in before.  Where neither can happen it gives what substitution by tokens gives: no
occurrence reaches over the edge of a token, so all that is done to a body is done to its parts.

* `Text.OnlyWhole` — a name occurs in a text as a whole token only;
* `Text.replaceOccurrences_append_cons` — a replacement starts anew behind a character that is not
  sought;
* `Template.substituteAll_append` — **replacing all parameters keeps the edges of tokens**;
* `Template.substituteAll_token` — on a token it is a look-up of that token;
* `Template.expand_substring_eq_token` — **the two substitutions agree where nothing is captured**.
-/

namespace ScriptEmbed

namespace Text

variable {old new p q s t : Text}

/-! ### Whole occurrences -/

/-- Wherever `p` occurs in the text, no name character stands right before or right behind it. -/
def OnlyWhole (p t : Text) : Prop :=
  ∀ l r, t = l ++ p ++ r → l.getLast?.any isNameChar = false ∧ r.head?.any isNameChar = false

/-- The places at which a text can occur are those before its characters, and its end. -/
theorem onlyWhole_iff : OnlyWhole p t ↔ ∀ i ∈ List.range (t.length + 1),
    p.isPrefixOf (t.drop i) = true →
      (t.take i).getLast?.any isNameChar = false ∧
        (t.drop (i + p.length)).head?.any isNameChar = false := by
  constructor
  · intro h i _ hp
    obtain ⟨r, hr⟩ := List.isPrefixOf_iff_prefix.1 hp
    have ht : t = t.take i ++ p ++ r := by
      rw [List.append_assoc, hr, List.take_append_drop]
    have hdrop : t.drop (i + p.length) = r := by
      rw [← List.drop_drop, ← hr, List.drop_left]
    rw [hdrop]
    exact h _ _ ht
  · intro h l r ht
    have hl : l.length ∈ List.range (t.length + 1) := by
      rw [List.mem_range, ht, List.append_assoc, List.length_append]
      omega
    have hplace := h l.length hl
    rw [ht, ← List.length_append, List.drop_left, List.append_assoc, List.drop_left,
      List.take_left] at hplace
    exact hplace (List.isPrefixOf_iff_prefix.2 (List.prefix_append p r))

instance : Decidable (OnlyWhole p t) := decidable_of_iff _ onlyWhole_iff.symm

/-- A name that occurs as a whole token only is found in no other token. -/
theorem OnlyWhole.eq_of_isInfix (h : OnlyWhole p t) (hq : IsName q) (hqt : q <:+: t)
    (hpq : p <:+: q) : p = q := by
  obtain ⟨l, r, rfl⟩ := hqt
  obtain ⟨m, n, rfl⟩ := hpq
  have hedges := h (l ++ m) (n ++ r) (by simp only [List.append_assoc])
  have hm : m = [] := by
    by_contra hne
    have hlast := hq.isNameChar (m.getLast hne)
      (List.mem_append_left n (List.mem_append_left p (List.getLast_mem hne)))
    rw [List.getLast?_append_of_ne_nil l hne, List.getLast?_eq_some_getLast hne,
      Option.any_some, hlast] at hedges
    cases hedges.1
  have hn : n = [] := by
    by_contra hne
    have hhead := hq.isNameChar (n.head hne) (List.mem_append_right _ (List.head_mem hne))
    rw [List.head?_append_of_ne_nil n hne, List.head?_eq_some_head hne, Option.any_some,
      hhead] at hedges
    cases hedges.2
  rw [hm, hn, List.nil_append, List.append_nil]

/-! ### Replacement -/

/-- Where nothing is found, nothing is replaced. -/
theorem replaceOccurrences_eq_self (h : ¬ old <:+: t) (new : Text) :
    replaceOccurrences old new t = t := by
  induction t with
  | nil => rw [replaceOccurrences]
  | cons c t ih =>
    have hhere : ¬ old.isPrefixOf (c :: t) = true := fun hp =>
      h (List.isPrefixOf_iff_prefix.1 hp).isInfix
    have hrest : ¬ old <:+: t := fun hi => h (hi.trans (List.suffix_cons c t).isInfix)
    rw [replaceOccurrences, if_neg hhere, ih hrest]

theorem replaceOccurrences_self (hne : old ≠ []) (new : Text) :
    replaceOccurrences old new old = new := by
  obtain ⟨c, rest, rfl⟩ := List.exists_cons_of_ne_nil hne
  have hp : (c :: rest).isPrefixOf (c :: rest) = true :=
    List.isPrefixOf_iff_prefix.2 (List.prefix_refl _)
  rw [replaceOccurrences, if_pos hp, List.length_cons, Nat.add_sub_cancel, List.drop_length,
    replaceOccurrences, List.append_nil]

/-- A replacement starts anew behind a character that is not sought. -/
theorem replaceOccurrences_append_cons {a : Char} (hne : old ≠ []) (ha : a ∉ old) (t r : Text) :
    replaceOccurrences old new (t ++ a :: r) =
      replaceOccurrences old new t ++ a :: replaceOccurrences old new r := by
  fun_induction replaceOccurrences old new t with
  | case1 =>
    have hhere : ¬ old.isPrefixOf (a :: r) = true := by
      have hnil := isPrefixOf_append_cons (t := []) (r := r) ha
      rw [List.nil_append] at hnil
      rw [hnil, List.isPrefixOf_iff_prefix, List.prefix_nil]
      exact hne
    rw [List.nil_append, replaceOccurrences, if_neg hhere]
    rfl
  | case2 c rest hp ih =>
    have hle : old.length - 1 ≤ rest.length := by
      have hlen := (List.isPrefixOf_iff_prefix.1 hp).length_le
      rw [List.length_cons] at hlen
      omega
    have hhere : old.isPrefixOf (c :: (rest ++ a :: r)) = true := by
      rw [← List.cons_append, isPrefixOf_append_cons ha, hp]
    rw [List.cons_append, replaceOccurrences, if_pos hhere, List.drop_append_of_le_length hle, ih,
      List.append_assoc]
  | case3 c rest hp ih =>
    have hhere : ¬ old.isPrefixOf (c :: (rest ++ a :: r)) = true := by
      rw [← List.cons_append, isPrefixOf_append_cons ha]
      exact hp
    rw [List.cons_append, replaceOccurrences, if_neg hhere, ih]
    rfl

end Text

namespace Template

open Text

variable {bindings : Bindings}

/-! ### One parameter after the other -/

theorem substituteAll_cons (b : Text × Text) (bindings : Bindings) (body : Text) :
    substituteAll (b :: bindings) body = substituteAll bindings (replaceAll b.1 b.2 body) := rfl

/-- Parameters that do not occur are not replaced. -/
theorem substituteAll_eq_self {t : Text} (hname : ∀ b ∈ bindings, IsName b.1)
    (h : ∀ b ∈ bindings, ¬ b.1 <:+: t) : substituteAll bindings t = t := by
  induction bindings with
  | nil => rfl
  | cons b bindings ih =>
    have hb := (hname b List.mem_cons_self).ne_nil
    rw [substituteAll_cons, replaceAll_of_ne_nil hb,
      replaceOccurrences_eq_self (h b List.mem_cons_self)]
    exact ih (fun e he => hname e (List.mem_cons_of_mem b he))
      fun e he => h e (List.mem_cons_of_mem b he)

/-- A character that is no name character is kept, and both of its sides are replaced apart. -/
theorem substituteAll_append_cons (hname : ∀ b ∈ bindings, IsName b.1) {a : Char}
    (ha : isNameChar a = false) (t r : Text) :
    substituteAll bindings (t ++ a :: r) =
      substituteAll bindings t ++ a :: substituteAll bindings r := by
  induction bindings generalizing t r with
  | nil => rfl
  | cons b bindings ih =>
    have hb := hname b List.mem_cons_self
    have hmem : a ∉ b.1 := by
      intro hmem
      rw [hb.isNameChar a hmem] at ha
      cases ha
    simp only [substituteAll_cons, replaceAll_of_ne_nil hb.ne_nil]
    rw [replaceOccurrences_append_cons hb.ne_nil hmem]
    exact ih (fun e he => hname e (List.mem_cons_of_mem b he)) _ _

theorem substituteAll_nil (hname : ∀ b ∈ bindings, IsName b.1) : substituteAll bindings [] = [] := by
  apply substituteAll_eq_self hname
  intro b hb hfound
  exact (hname b hb).ne_nil (List.infix_nil.1 hfound)

/-- **Replacing all parameters keeps the edges of tokens**: before a text that does not start with a
name character, nothing is found across. -/
theorem substituteAll_append (hname : ∀ b ∈ bindings, IsName b.1) (t : Text) {r : Text}
    (hr : r.head?.any isNameChar = false) :
    substituteAll bindings (t ++ r) = substituteAll bindings t ++ substituteAll bindings r := by
  cases r with
  | nil => rw [substituteAll_nil hname, List.append_nil, List.append_nil]
  | cons a r =>
    rw [List.head?_cons, Option.any_some] at hr
    have hright := substituteAll_append_cons hname hr [] r
    rw [substituteAll_nil hname, List.nil_append, List.nil_append] at hright
    rw [substituteAll_append_cons hname hr, hright]

/-- A gap is copied, and what is behind it is replaced apart. -/
theorem substituteAll_gap (hname : ∀ b ∈ bindings, IsName b.1) {g : Text}
    (hg : ∀ c ∈ g, isNameChar c = false) (t : Text) :
    substituteAll bindings (g ++ t) = g ++ substituteAll bindings t := by
  induction g with
  | nil => rfl
  | cons c g ih =>
    have hfirst := substituteAll_append_cons hname (hg c List.mem_cons_self) [] (g ++ t)
    rw [substituteAll_nil hname] at hfirst
    rw [ih fun d hd => hg d (List.mem_cons_of_mem c hd)] at hfirst
    exact hfirst

/-- **On a token, replacing all parameters is a look-up of the token**, where each is found in it as a
whole only and in no argument that is put in before its turn. -/
theorem substituteAll_token (hname : ∀ b ∈ bindings, IsName b.1)
    (hfree : bindings.Pairwise fun b e => ¬ e.1 <:+: b.2) {w : Text}
    (hw : ∀ b ∈ bindings, b.1 <:+: w → b.1 = w) :
    substituteAll bindings w = tokenValue bindings w := by
  induction bindings with
  | nil => rfl
  | cons b bindings ih =>
    obtain ⟨hlater, hfree⟩ := List.pairwise_cons.1 hfree
    have hb := (hname b List.mem_cons_self).ne_nil
    have hnames : ∀ e ∈ bindings, IsName e.1 := fun e he => hname e (List.mem_cons_of_mem b he)
    rw [substituteAll_cons, replaceAll_of_ne_nil hb]
    by_cases hbw : b.1 = w
    · -- the argument is put in, and no later parameter is found in it
      subst hbw
      rw [replaceOccurrences_self hb, substituteAll_eq_self hnames hlater]
      simp [tokenValue, Bindings.find?]
    · have hnot : ¬ b.1 <:+: w := fun hfound => hbw (hw b List.mem_cons_self hfound)
      rw [replaceOccurrences_eq_self hnot, ih hnames hfree fun e he =>
        hw e (List.mem_cons_of_mem b he)]
      simp [tokenValue, Bindings.find?, hbw]

/-! ### All parts of a body -/

/-- Replacing all parameters is a map over the parts of a body, when it is so on each token. -/
theorem substituteAll_flatten (hname : ∀ b ∈ bindings, IsName b.1) {ps : List Text}
    (hkinds : ∀ p ∈ ps, IsName p ∨ IsGap p) (halternate : ps.IsChain fun p q => IsName p ↔ IsGap q)
    (htoken : ∀ p ∈ ps, IsName p → substituteAll bindings p = tokenValue bindings p) :
    substituteAll bindings ps.flatten = ps.flatMap (partValue bindings) := by
  induction ps with
  | nil => exact substituteAll_nil hname
  | cons p ps ih =>
    have hrest := ih (fun q hq => hkinds q (List.mem_cons_of_mem p hq)) halternate.tail
      fun q hq => htoken q (List.mem_cons_of_mem p hq)
    rw [List.flatten_cons, List.flatMap_cons]
    rcases hkinds p List.mem_cons_self with hp | hp
    · -- a gap, or nothing, follows on a token
      have hhead : ps.flatten.head?.any isNameChar = false := by
        cases ps with
        | nil => rfl
        | cons q ps =>
          have hq : IsGap q := (List.isChain_cons_cons.1 halternate).1.1 hp
          rw [List.flatten_cons, List.head?_append_of_ne_nil q hq.ne_nil,
            List.head?_eq_some_head hq.ne_nil, Option.any_some]
          exact hq.not_isNameChar _ (List.head_mem hq.ne_nil)
      rw [substituteAll_append hname p hhead, hrest, htoken p List.mem_cons_self hp,
        partValue_of_isName hp]
    · rw [substituteAll_gap hname hp.not_isNameChar, hrest, partValue_of_isGap hp]

/-- **The two substitutions agree where nothing is captured**: every parameter occurs in the body as a
whole token only, and no argument holds a parameter that is declared after its own.  The names of
the parameters need not be distinct. -/
theorem expand_substring_eq_token {t : Template} (hname : ∀ b ∈ bindings, IsName b.1)
    (hwhole : ∀ b ∈ bindings, OnlyWhole b.1 t.body)
    (hfree : bindings.Pairwise fun b e => ¬ e.1 <:+: b.2) :
    t.expand .substring bindings = t.expand .token bindings := by
  have hcut := tokenized_tokens t.body
  show substituteAll bindings t.body = substituteTokens bindings t.body
  rw [substituteTokens_eq_flatMap, ← substituteAll_flatten hname hcut.token_or_gap hcut.alternate,
    hcut.flatten_eq]
  intro p hp hpname
  apply substituteAll_token hname hfree
  intro b hb hfound
  have hpbody : p <:+: t.body := hcut.flatten_eq ▸ List.infix_of_mem_flatten hp
  exact (hwhole b hb).eq_of_isInfix hpname hpbody hfound

/-- An empty argument, and an argument that holds a parameter declared before its own. -/
def emptied : Bindings := [("a".toList, []), ("b".toList, "a.c".toList)]

theorem expand_substring_eq_token_emptied :
    (∀ b ∈ emptied, IsName b.1) ∧ (∀ b ∈ emptied, OnlyWhole b.1 "f(a.b, a)".toList) ∧
    (emptied.Pairwise fun b e => ¬ e.1 <:+: b.2) ∧
    Template.expand ⟨["a".toList, "b".toList], "f(a.b, a)".toList⟩ .substring emptied =
      Template.expand ⟨["a".toList, "b".toList], "f(a.b, a)".toList⟩ .token emptied ∧
    Template.expand ⟨["a".toList, "b".toList], "f(a.b, a)".toList⟩ .token emptied =
      "f(.a.c, )".toList := by
  have hname : ∀ b ∈ emptied, IsName b.1 := by decide
  have hwhole : ∀ b ∈ emptied, OnlyWhole b.1 "f(a.b, a)".toList := by
    intro b hb
    simp only [emptied, List.mem_cons, List.not_mem_nil, or_false] at hb
    rcases hb with rfl | rfl <;> decide +kernel
  have hfree : emptied.Pairwise fun b e => ¬ e.1 <:+: b.2 := by decide +kernel
  refine ⟨hname, hwhole, hfree, expand_substring_eq_token hname hwhole hfree, ?_⟩
  rw [expand, substituteTokens_eq_flatMap]
  decide +kernel

end Template

end ScriptEmbed
