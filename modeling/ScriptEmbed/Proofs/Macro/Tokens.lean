import Mathlib.Tactic
import Mathlib.Data.List.SplitBy
import ScriptEmbed.Proofs.Definitions.Names
import ScriptEmbed.Proofs.Text.Pieces
import ScriptEmbed.Proofs.Text.Substitution

/-!
# Substitution by tokens is simultaneous

A text has one cut into tokens, its maximal runs of name characters, and the gaps between them.
Substitution by tokens is a map over the parts of that cut: the tokens that are parameters become
their arguments, all else is copied.  The places of the parameters are found in the body alone, so no
argument is ever looked into.

* `Text.Tokenized` — what it is to be cut into tokens and gaps;
* `Text.tokens`, `Text.tokenized_iff` — the cut, **and that there is no other**;
* `Template.Filling.ofPart`, `Template.Filling.text` — what stands for a part of a body, before the
  arguments are known and after;
* `Template.substituteTokens_eq_flatMap` — the loop over a body is a map over the parts;
* `Template.substituteTokens_simultaneous` — **so are the places of the parameters filled, and
  bindings of distinct names can stand in any order**.
-/

namespace ScriptEmbed

namespace Text

/-! ### Tokens and gaps -/

/-- A gap between tokens: at least one character, and no name character. -/
structure IsGap (p : Text) : Prop where
  ne_nil : p ≠ []
  not_isNameChar : ∀ c ∈ p, isNameChar c = false

/-- The texts are the parts of `t`: its maximal runs of name characters, and the gaps between
them. -/
structure Tokenized (ps : List Text) (t : Text) : Prop where
  flatten_eq : ps.flatten = t
  token_or_gap : ∀ p ∈ ps, IsName p ∨ IsGap p
  alternate : ps.IsChain fun p q => IsName p ↔ IsGap q

/-- The text cut wherever name characters begin or end. -/
def tokens (t : Text) : List Text := t.splitBy fun a b => isNameChar a == isNameChar b

/-- All characters of a part are of the kind of its first. -/
theorem isNameChar_eq_of_isChain {a : Char} {p : Text}
    (h : (a :: p).IsChain fun x y => (isNameChar x == isNameChar y) = true) :
    ∀ c ∈ a :: p, isNameChar c = isNameChar a := by
  induction p generalizing a with
  | nil =>
    intro c hc
    rw [List.mem_singleton.1 hc]
  | cons b p ih =>
    rw [List.isChain_cons_cons, beq_iff_eq] at h
    obtain ⟨hab, hp⟩ := h
    intro c hc
    rcases List.mem_cons.1 hc with rfl | hc
    · rfl
    · rw [ih hp c hc, hab]

/-- The parts of one kind are the tokens and the gaps. -/
theorem isChain_iff {p : Text} (hne : p ≠ []) :
    (p.IsChain fun a b => (isNameChar a == isNameChar b) = true) ↔ IsName p ∨ IsGap p := by
  constructor
  · intro h
    obtain ⟨a, p, rfl⟩ := List.exists_cons_of_ne_nil hne
    have hkind := isNameChar_eq_of_isChain h
    cases ha : isNameChar a with
    | true => exact .inl ⟨hne, fun c hc => (hkind c hc).trans ha⟩
    | false => exact .inr ⟨hne, fun c hc => (hkind c hc).trans ha⟩
  · intro h
    have hkind : ∀ a ∈ p, ∀ b ∈ p, isNameChar a = isNameChar b := by
      intro a ha b hb
      rcases h with hp | hp
      · rw [hp.isNameChar a ha, hp.isNameChar b hb]
      · rw [hp.not_isNameChar a ha, hp.not_isNameChar b hb]
    apply List.Pairwise.isChain
    apply List.pairwise_of_forall_mem_list
    intro a ha b hb
    exact beq_iff_eq.2 (hkind a ha b hb)

/-- No text is both a token and a gap. -/
theorem IsGap.not_isName {p : Text} (hp : IsGap p) : ¬ IsName p := by
  intro hn
  obtain ⟨a, ha⟩ := List.exists_mem_of_ne_nil p hp.ne_nil
  have h := hp.not_isNameChar a ha
  rw [hn.isNameChar a ha] at h
  cases h

/-- The kind of a part can be read off any of its characters. -/
theorem isName_iff_of_mem {p : Text} (h : IsName p ∨ IsGap p) {a : Char} (ha : a ∈ p) :
    IsName p ↔ isNameChar a = true := by
  constructor
  · intro hp
    exact hp.isNameChar a ha
  · intro hname
    apply h.resolve_right
    intro hp
    rw [hp.not_isNameChar a ha] at hname
    cases hname

theorem isGap_iff_of_mem {p : Text} (h : IsName p ∨ IsGap p) {a : Char} (ha : a ∈ p) :
    IsGap p ↔ isNameChar a = false := by
  rw [← Bool.not_eq_true, ← isName_iff_of_mem h ha]
  exact ⟨IsGap.not_isName, h.resolve_left⟩

/-- Parts alternate when the characters that meet between them are of different kinds. -/
theorem alternate_iff {ps : List Text} (hps : ∀ p ∈ ps, IsName p ∨ IsGap p) :
    (ps.IsChain fun p q => IsName p ↔ IsGap q) ↔
      ps.IsChain fun p q => ∃ hp hq,
        (isNameChar (p.getLast hp) == isNameChar (q.head hq)) = false := by
  apply List.IsChain.iff_of_mem_imp
  intro p q hp hq
  have hpne : p ≠ [] := (hps p hp).elim IsName.ne_nil IsGap.ne_nil
  have hqne : q ≠ [] := (hps q hq).elim IsName.ne_nil IsGap.ne_nil
  rw [isName_iff_of_mem (hps p hp) (List.getLast_mem hpne),
    isGap_iff_of_mem (hps q hq) (List.head_mem hqne), exists_prop_of_true hpne,
    exists_prop_of_true hqne]
  cases isNameChar (p.getLast hpne) <;> cases isNameChar (q.head hqne) <;> simp

/-- **A text is cut into tokens and gaps in one way only.** -/
theorem tokenized_iff {ps : List Text} {t : Text} : Tokenized ps t ↔ ps = tokens t := by
  rw [eq_comm (a := ps), tokens, List.splitBy_eq_iff]
  constructor
  · intro h
    have hne : [] ∉ ps := by
      intro hnil
      rcases h.token_or_gap [] hnil with hp | hp
      · exact hp.ne_nil rfl
      · exact hp.ne_nil rfl
    refine ⟨h.flatten_eq.symm, hne, ?_, (alternate_iff h.token_or_gap).1 h.alternate⟩
    intro p hp
    exact (isChain_iff fun hnil => hne (hnil ▸ hp)).2 (h.token_or_gap p hp)
  · intro h
    obtain ⟨hflat, hne, hchain, hcut⟩ := h
    have hkinds : ∀ p ∈ ps, IsName p ∨ IsGap p := by
      intro p hp
      exact (isChain_iff fun hnil => hne (hnil ▸ hp)).1 (hchain p hp)
    exact ⟨hflat.symm, hkinds, (alternate_iff hkinds).2 hcut⟩

theorem tokenized_tokens (t : Text) : Tokenized (tokens t) t := tokenized_iff.2 rfl

/-- A text is cut where characters of different kinds meet. -/
theorem tokens_append {s t : Text}
    (h : ∀ a ∈ s.getLast?, ∀ b ∈ t.head?, isNameChar a ≠ isNameChar b) :
    tokens (s ++ t) = tokens s ++ tokens t := by
  apply List.splitBy_append
  intro a ha b hb
  exact beq_eq_false_iff_ne.2 (h a ha b hb)

theorem tokens_of_kind {p : Text} (h : IsName p ∨ IsGap p) : tokens p = [p] := by
  have hne : p ≠ [] := h.elim IsName.ne_nil IsGap.ne_nil
  exact List.splitBy_of_isChain hne ((isChain_iff hne).2 h)

/-- A token between characters that are no name characters is a part, and the text around it is cut
apart. -/
theorem tokens_append_token {g w r : Text} (hg : ∀ c ∈ g, isNameChar c = false) (hw : IsName w)
    (hr : ∀ c ∈ r.head?, isNameChar c = false) :
    tokens (g ++ w ++ r) = tokens g ++ w :: tokens r := by
  have hright : tokens (w ++ r) = w :: tokens r := by
    rw [tokens_append, tokens_of_kind (.inl hw), List.singleton_append]
    intro a ha b hb
    rw [hw.isNameChar a (List.mem_of_mem_getLast? ha), hr b hb]
    exact Bool.false_ne_true.symm
  rw [List.append_assoc, ← hright]
  apply tokens_append
  intro a ha b hb
  rw [List.head?_append_of_ne_nil w hw.ne_nil] at hb
  rw [hg a (List.mem_of_mem_getLast? ha), hw.isNameChar b (List.mem_of_mem_head? hb)]
  exact Bool.false_ne_true

end Text

namespace Template

open Text

/-! ### The map over the parts -/

/-- What becomes of a part: of a token its argument, if it is a parameter. -/
def partValue (bindings : Bindings) (p : Text) : Text :=
  if p.all isNameChar then tokenValue bindings p else p

theorem partValue_of_isName {p : Text} (hp : IsName p) (bindings : Bindings) :
    partValue bindings p = tokenValue bindings p := by
  rw [partValue, if_pos (List.all_eq_true.2 hp.isNameChar)]

theorem partValue_of_isGap {p : Text} (hp : IsGap p) (bindings : Bindings) :
    partValue bindings p = p := by
  rw [partValue, if_neg]
  intro hall
  exact hp.not_isName ⟨hp.ne_nil, List.all_eq_true.1 hall⟩

/-- A text without name characters is copied. -/
theorem flatMap_tokens_of_gap (bindings : Bindings) {g : Text}
    (hg : ∀ c ∈ g, isNameChar c = false) : (tokens g).flatMap (partValue bindings) = g := by
  by_cases hne : g = []
  · rw [hne]
    rfl
  · have hgap : IsGap g := ⟨hne, hg⟩
    rw [tokens_of_kind (.inr hgap), List.flatMap_singleton, partValue_of_isGap hgap]

/-- **The loop over a body is a map over its parts.** -/
theorem substituteTokens_eq_flatMap (bindings : Bindings) (body : Text) :
    substituteTokens bindings body = (tokens body).flatMap (partValue bindings) := by
  have hgap : ∀ t : Text, ∀ c ∈ t.takeWhile (fun c => !isNameChar c), isNameChar c = false := by
    intro t c hc
    simpa using List.all_eq_true.1 List.all_takeWhile c hc
  fun_induction substituteTokens bindings body with
  | case1 body gap h =>
    have hbody := eq_gap_append body
    rw [h, List.append_nil] at hbody
    rw [hbody]
    exact (flatMap_tokens_of_gap bindings (hgap body)).symm
  | case2 body gap c rest h ih =>
    obtain ⟨hbody, hname⟩ := eq_gap_append_token h
    have htoken : IsName (c :: rest.takeWhile isNameChar) := ⟨List.cons_ne_nil c _, hname⟩
    have hcut : tokens body =
        tokens gap ++ (c :: rest.takeWhile isNameChar) :: tokens (rest.dropWhile isNameChar) := by
      conv_lhs => rw [hbody]
      exact tokens_append_token (hgap body) htoken fun a ha => eq_false_of_mem_head?_dropWhile ha
    rw [hcut, List.flatMap_append, List.flatMap_cons, flatMap_tokens_of_gap bindings (hgap body),
      partValue_of_isName htoken, ih, List.append_assoc]

/-! ### Places of the parameters -/

/-- What stands for a part of a body: the part itself, or the argument with a number. -/
inductive Filling where
  | copied (p : Text)
  | argument (i : Nat)
  deriving DecidableEq, Repr

/-- A token that is a parameter is the place of the argument with the number of the first parameter
of that name; every other part is copied. -/
def Filling.ofPart (params : List Text) (p : Text) : Filling :=
  if p.all isNameChar && params.contains p then .argument (params.idxOf p) else .copied p

/-- The text for given arguments. -/
def Filling.text (args : List Text) : Filling → Text
  | copied p => p
  | argument i => args.getD i []

/-- The argument of a token is the one with the number of its name. -/
theorem tokenValue_eq (bindings : Bindings) (p : Text) :
    tokenValue bindings p =
      if (bindings.map Prod.fst).contains p then
        (bindings.map Prod.snd).getD ((bindings.map Prod.fst).idxOf p) []
      else p := by
  induction bindings with
  | nil => rfl
  | cons b bindings ih =>
    rw [tokenValue, Bindings.find?] at ih ⊢
    by_cases hb : b.1 = p
    · simp [hb]
    · simp only [List.map_cons, List.find?_cons, beq_eq_false_iff_ne.2 hb, ih, List.contains_cons,
        beq_eq_false_iff_ne.2 (Ne.symm hb), Bool.false_or, List.idxOf_cons_ne _ hb,
        List.getD_cons_succ]

theorem partValue_eq_text_ofPart (bindings : Bindings) (p : Text) :
    partValue bindings p =
      (Filling.ofPart (bindings.map Prod.fst) p).text (bindings.map Prod.snd) := by
  rw [partValue, Filling.ofPart, tokenValue_eq]
  cases p.all isNameChar with
  | false => rfl
  | true =>
    rw [Bool.true_and, if_pos rfl]
    split <;> rfl

/-! ### Order of the bindings -/

/-- Where no name repeats, the order of the bindings does not matter. -/
theorem tokenValue_perm {bindings bindings' : Bindings} (h : bindings'.Perm bindings)
    (hnodup : (bindings.map Prod.fst).Nodup) (p : Text) :
    tokenValue bindings' p = tokenValue bindings p := by
  rw [tokenValue, Bindings.find?, find?_perm h hnodup p]
  rfl

/-- **Substitution by tokens is simultaneous.**  A body has one cut into maximal runs of name
characters and the text between them, and the result is made from its parts, each on its own: a run
that is a parameter becomes the argument of the first parameter of that name, and all else is
copied.  Which part is which argument depends on the names alone, so no argument is looked into; and
where no name repeats, bindings in any order give the same. -/
theorem substituteTokens_simultaneous (bindings : Bindings) (body : Text) :
    (∀ ps, Tokenized ps body ↔ ps = tokens body) ∧
    substituteTokens bindings body =
      ((tokens body).map (Filling.ofPart (bindings.map Prod.fst))).flatMap
        (Filling.text (bindings.map Prod.snd)) ∧
    ∀ bindings' : Bindings, bindings'.Perm bindings → (bindings.map Prod.fst).Nodup →
      substituteTokens bindings' body = substituteTokens bindings body := by
  refine ⟨fun ps => tokenized_iff, ?_, ?_⟩
  · rw [substituteTokens_eq_flatMap, List.flatMap_map]
    exact List.flatMap_congr fun p _ => partValue_eq_text_ofPart bindings p
  · intro bindings' hperm hnodup
    rw [substituteTokens_eq_flatMap, substituteTokens_eq_flatMap]
    apply List.flatMap_congr
    intro p _
    rw [partValue, partValue, tokenValue_perm hperm hnodup]

/-- Two parameters, each with the name of the other as its argument. -/
def exchanged : Bindings := [("a".toList, "b".toList), ("b".toList, "a".toList)]

/-- No argument is replaced again, whichever binding comes first; a parameter within a longer word
stays. -/
theorem substituteTokens_simultaneous_exchanged :
    exchanged.reverse.Perm exchanged ∧ (exchanged.map Prod.fst).Nodup ∧
    Tokenized ["data".toList, ".".toList, "a".toList, " + ".toList, "b".toList]
      "data.a + b".toList ∧
    substituteTokens exchanged "data.a + b".toList = "data.b + a".toList ∧
    substituteTokens exchanged.reverse "data.a + b".toList = "data.b + a".toList := by
  have hperm : exchanged.reverse.Perm exchanged := List.reverse_perm exchanged
  have hnodup : (exchanged.map Prod.fst).Nodup := by decide
  obtain ⟨hcut, hvalue, hany⟩ := substituteTokens_simultaneous exchanged "data.a + b".toList
  have hresult : substituteTokens exchanged "data.a + b".toList = "data.b + a".toList := by
    rw [hvalue]
    decide +kernel
  refine ⟨hperm, hnodup, (hcut _).2 (by decide +kernel), hresult, ?_⟩
  rw [hany _ hperm hnodup, hresult]

end Template

end ScriptEmbed
