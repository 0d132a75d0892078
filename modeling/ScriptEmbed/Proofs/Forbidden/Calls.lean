import Mathlib
import ScriptEmbed.Forbidden
import ScriptEmbed.Proofs.Comments.SingleScan
import ScriptEmbed.Proofs.Comments.Trailing
import ScriptEmbed.Proofs.Pattern.Matching

/-!
# Forbidden calls

The standard rules forbid calls of two words.  Whether such a call stands in a text does not depend
on what is behind it, nor on how its blanks are broken into lines, so that it is seen behind all three
passes over comments if it stands in what a single scan leaves.

* `Pattern.call` — the pattern of a call; `Validator.ofRules_defaults` — the standard rules;
* `CallIn`, `Pattern.isMatch_call_iff` — where it matches;
* `CallIn.stripTrailing` — calls outlast the third pass;
* `Validator.validate_sees` — **an accepted text has no forbidden call outside comments**, where its
  block comments end on clear lines;
* `Validator.validate_misses` — a text that is accepted with one.
-/

namespace ScriptEmbed

open Comments Text

namespace Pattern

/-- The characters of a word one after the other, and then another pattern. -/
def letters (p : Pattern Atom) : Text → Pattern Atom
  | [] => p
  | c :: word => seq (atom (.set (.single c))) (letters p word)

/-- A word from a boundary on, blanks, and an opening bracket. -/
def call (word : Text) : Pattern Atom :=
  seq (atom (.place .boundary))
    (letters (seq (loop (atom (.set .blank)) 0 none) (atom (.set (.single '(')))) word)

end Pattern

/-- The validator of the standard rules, which forbid two calls. -/
def Validator.standard : Validator :=
  ⟨[(⟨"\\beval\\s*\\(".toList, "Eval disallowed in natives".toList⟩, .call "eval".toList),
    (⟨"\\bwith\\s*\\(".toList, "With statements disallowed in natives".toList⟩, .call "with".toList)]⟩

theorem Validator.ofRules_defaults : ofRules Rule.defaults = .ok standard := rfl

/-- The word stands in the text, from a boundary on, and behind it stands a bracket, with nothing
but blanks in between. -/
def CallIn (word t : Text) : Prop :=
  ∃ l b r, t = l ++ (word ++ (b ++ '(' :: r)) ∧ (∀ c ∈ b, isBlank c = true) ∧
    isBoundary l.getLast? word.head? = true

namespace Pattern

variable {c : Char} {b r t w word : Text} {p : Pattern Atom} {i j k n : Nat}

/-! ### The pattern of a call -/

theorem contains_single_iff {c d : Char} : (CharSet.single c).contains d = true ↔ d = c := by
  rw [CharSet.single, CharSet.contains, Bool.and_eq_true, decide_eq_true_eq, decide_eq_true_eq]
  constructor
  · rintro ⟨h, h'⟩
    exact Char.ext (UInt32.toNat_inj.1 (Nat.le_antisymm h' h))
  · rintro rfl
    exact ⟨Nat.le_refl _, Nat.le_refl _⟩

/-- What starts at a place: one character, and what starts at the next place. -/
theorem cons_prefix_drop_iff : c :: w <+: t.drop i ↔ t[i]? = some c ∧ w <+: t.drop (i + 1) := by
  by_cases hi : i < t.length
  · rw [List.drop_eq_getElem_cons hi, List.cons_prefix_cons, List.getElem?_eq_getElem hi,
      Option.some.injEq, eq_comm]
  · rw [List.drop_eq_nil_of_le (by omega), List.getElem?_eq_none (by omega)]
    simp

theorem leads_letters_iff :
    Leads t (letters p w) i k ↔ w <+: t.drop i ∧ Leads t p (i + w.length) k := by
  induction w generalizing i with
  | nil => exact ⟨fun h => ⟨List.nil_prefix, h⟩, fun h => h.2⟩
  | cons c w ih =>
    have hplace : i + (c :: w).length = i + 1 + w.length := by
      rw [List.length_cons]
      omega
    rw [cons_prefix_drop_iff, hplace]
    show (∃ j, (j = i + 1 ∧ ∃ d, t[i]? = some d ∧ (CharSet.single c).contains d = true) ∧
      Leads t (letters p w) j k) ↔ _
    constructor
    · rintro ⟨j, ⟨rfl, d, hd, hc⟩, hrest⟩
      obtain rfl := contains_single_iff.1 hc
      obtain ⟨hw, hp⟩ := ih.1 hrest
      exact ⟨⟨hd, hw⟩, hp⟩
    · rintro ⟨⟨hd, hw⟩, hp⟩
      exact ⟨i + 1, ⟨rfl, c, hd, contains_single_iff.2 rfl⟩, ih.2 ⟨hw, hp⟩⟩

theorem rounds_blank_iff :
    Rounds (Leads t (atom (.set .blank))) n i j ↔
      ∃ b : Text, b.length = n ∧ (∀ c ∈ b, isBlank c = true) ∧ b <+: t.drop i ∧ j = i + n := by
  induction n generalizing i with
  | zero =>
    constructor
    · intro h
      cases h
      exact ⟨[], rfl, fun _ hc => (nomatch hc), List.nil_prefix, rfl⟩
    · rintro ⟨b, -, -, -, rfl⟩
      exact .zero
  | succ n ih =>
    constructor
    · intro h
      cases h with
      | succ hstep hrest =>
        obtain ⟨rfl, c, hc, hblank⟩ := hstep
        obtain ⟨b, hlen, hb, hstarts, rfl⟩ := ih.1 hrest
        refine ⟨c :: b, congrArg _ hlen, List.forall_mem_cons.2 ⟨hblank, hb⟩,
          cons_prefix_drop_iff.2 ⟨hc, hstarts⟩, by omega⟩
    · rintro ⟨b, hlen, hb, hstarts, rfl⟩
      cases b with
      | nil => cases hlen
      | cons c b =>
        obtain ⟨hc, hstarts⟩ := cons_prefix_drop_iff.1 hstarts
        obtain ⟨hblank, hb⟩ := List.forall_mem_cons.1 hb
        refine .succ ⟨rfl, c, hc, hblank⟩ (ih.2 ⟨b, Nat.succ.inj hlen, hb, hstarts, by omega⟩)

/-- The character before a place is the last of the text before it. -/
theorem before?_length (l s : Text) : before? (l ++ s) l.length = l.getLast? := by
  induction l using List.reverseRecOn with
  | nil => rfl
  | append_singleton l c =>
    rw [List.length_append, List.getLast?_concat]
    show (l ++ [c] ++ s)[l.length]? = some c
    rw [List.append_assoc, List.getElem?_append_right (Nat.le_refl _), Nat.sub_self]
    rfl

theorem drop_eq_append (h : w <+: t.drop i) : t.drop i = w ++ t.drop (i + w.length) := by
  have hsplit := List.prefix_iff_eq_append.1 h
  rw [List.drop_drop] at hsplit
  exact hsplit.symm

/-- The pattern of a call matches where such a call stands. -/
theorem isMatch_call_iff (hword : word ≠ []) : (call word).isMatch t = true ↔ CallIn word t := by
  obtain ⟨d, w, rfl⟩ := List.exists_cons_of_ne_nil hword
  rw [isMatch_iff]
  constructor
  · rintro ⟨i, hi, j, k, ⟨rfl, -, hboundary⟩, hrest⟩
    obtain ⟨hstarts, l, ⟨n, -, -, hrounds⟩, rfl, c, hc, hbracket⟩ := leads_letters_iff.1 hrest
    obtain ⟨b, rfl, hb, hblanks, rfl⟩ := rounds_blank_iff.1 hrounds
    obtain rfl := contains_single_iff.1 hbracket
    obtain ⟨r, hlast⟩ : ∃ r, t.drop (k + (d :: w).length + b.length) = '(' :: r :=
      ⟨_, drop_eq_append (cons_prefix_drop_iff.2 ⟨hc, List.nil_prefix⟩)⟩
    refine ⟨t.take k, b, r, ?_, hb, ?_⟩
    · rw [← hlast, ← drop_eq_append hblanks, ← drop_eq_append hstarts, List.take_append_drop]
    · have hbefore := before?_length (t.take k) (t.drop k)
      rw [List.take_append_drop, List.length_take_of_le hi] at hbefore
      rw [← hbefore]
      rw [(cons_prefix_drop_iff.1 hstarts).1] at hboundary
      exact hboundary
  · rintro ⟨l, b, r, ht, hb, hboundary⟩
    have hfirst : t.drop l.length = d :: w ++ (b ++ '(' :: r) := by rw [ht, List.drop_left]
    have hsecond : t.drop (l.length + (d :: w).length) = b ++ '(' :: r := by
      rw [← List.drop_drop, hfirst, List.drop_left]
    have hthird : t.drop (l.length + (d :: w).length + b.length) = '(' :: r := by
      rw [← List.drop_drop, hsecond, List.drop_left]
    have hle : l.length ≤ t.length := by
      rw [ht, List.length_append]
      omega
    have hstarts : d :: w <+: t.drop l.length := hfirst ▸ List.prefix_append _ _
    have hblanks : b <+: t.drop (l.length + (d :: w).length) := hsecond ▸ List.prefix_append _ _
    have hbracket : ['('] <+: t.drop (l.length + (d :: w).length + b.length) := hthird ▸ ⟨r, rfl⟩
    have htail : ∃ k, Leads t (seq (loop (atom (.set .blank)) 0 none) (atom (.set (.single '('))))
        (l.length + (d :: w).length) k := by
      refine ⟨l.length + (d :: w).length + b.length + 1, l.length + (d :: w).length + b.length,
        ⟨b.length, Nat.zero_le _, fun _ hm => (nomatch hm), ?_⟩, rfl, '(', ?_⟩
      · exact rounds_blank_iff.2 ⟨b, rfl, hb, hblanks, rfl⟩
      · exact ⟨(cons_prefix_drop_iff.1 hbracket).1, contains_single_iff.2 rfl⟩
    obtain ⟨k, htail⟩ := htail
    refine ⟨l.length, hle, k, l.length, ⟨rfl, hle, ?_⟩, leads_letters_iff.2 ⟨hstarts, htail⟩⟩
    show isBoundary (before? t l.length) t[l.length]? = true
    rw [(cons_prefix_drop_iff.1 hstarts).1, ht, before?_length]
    exact hboundary

end Pattern

/-! ### Calls outlast the passes -/

variable {a b s t word : Text} {c : Char}

/-- A call is seen in any longer text. -/
theorem CallIn.of_prefix (h : CallIn word s) (hst : s <+: t) : CallIn word t := by
  obtain ⟨l, b, r, rfl, hb, hboundary⟩ := h
  obtain ⟨u, rfl⟩ := hst
  refine ⟨l, b, r ++ u, ?_, hb, hboundary⟩
  simp only [List.append_assoc, List.cons_append]

/-- The third pass leaves calls. -/
theorem CallIn.stripTrailing (h : CallIn word t) (hne : word ≠ [])
    (hword : ∀ c ∈ word, isBlank c = false) : CallIn word (stripTrailing t) := by
  obtain ⟨l, b, r, rfl, hb, hboundary⟩ := h
  obtain ⟨c, w, rfl⟩ := List.exists_cons_of_ne_nil hne
  obtain ⟨hc, hw⟩ := List.forall_mem_cons.1 hword
  refine ⟨Comments.stripTrailing l, Comments.stripTrailing b, Comments.stripTrailing r, ?_, ?_, ?_⟩
  · rw [List.cons_append, stripTrailing_append_cons hc, stripTrailing_append_of_not_blank hw,
      stripTrailing_append_cons (by decide), List.cons_append]
  · exact fun c hc => hb c ((stripTrailing_sublist b).subset hc)
  · rw [getLast?_stripTrailing]
    exact hboundary

/-! ### The validator -/

namespace Validator

variable {v : Validator} {file : Text}

/-- A text is accepted when no pattern matches what is left of it. -/
theorem validate_eq_ok_iff :
    v.validate t file = .ok () ↔ ∀ e ∈ v.rules, e.2.isMatch (stripComments t) = false := by
  rw [validate, firstMatch?]
  cases hfind : v.rules.find? fun entry => entry.2.isMatch (stripComments t) with
  | none =>
    refine iff_of_true rfl fun e he => ?_
    simpa using List.find?_eq_none.1 hfind e he
  | some e =>
    refine iff_of_false (fun h => nomatch h) fun h => ?_
    have hmatch := List.find?_some hfind
    rw [h e (List.mem_of_find?_eq_some hfind)] at hmatch
    cases hmatch

/-- A call that a single scan leaves is left by the three passes. -/
theorem isMatch_call_stripComments (hne : word ≠ []) (hword : ∀ c ∈ word, isBlank c = false)
    (hblocks : ∀ b ∈ blocks t, EndsClear b.1 b.2)
    (h : (Pattern.call word).isMatch (withoutComments t) = true) :
    (Pattern.call word).isMatch (stripComments t) = true := by
  rw [Pattern.isMatch_call_iff hne] at h ⊢
  exact (h.of_prefix (withoutComments_prefix_stripBlock hblocks)).stripTrailing hne hword

/-- **An accepted text has no forbidden call outside comments.**  Under the standard rules, no
pattern matches what a single scan leaves of the text, if each block comment in it ends on a clear
line. -/
theorem validate_sees (hv : ofRules Rule.defaults = .ok v)
    (hblocks : ∀ b ∈ blocks t, EndsClear b.1 b.2) (h : v.validate t file = .ok ()) :
    ∀ e ∈ v.rules, e.2.isMatch (withoutComments t) = false := by
  intro e he
  have hleft := validate_eq_ok_iff.1 h e he
  have hcall : ∃ word, e.2 = .call word ∧ word ≠ [] ∧ ∀ c ∈ word, isBlank c = false := by
    obtain rfl := Except.ok.inj (hv.symm.trans ofRules_defaults)
    simp only [standard, List.mem_cons, List.not_mem_nil, or_false] at he
    rcases he with rfl | rfl
    · exact ⟨"eval".toList, rfl, by simp, by simp [isBlank]⟩
    · exact ⟨"with".toList, rfl, by simp, by simp [isBlank]⟩
  obtain ⟨word, hpattern, hne, hword⟩ := hcall
  rw [hpattern] at hleft ⊢
  by_contra hmatch
  have hseen := isMatch_call_stripComments hne hword hblocks (by simpa using hmatch)
  rw [hleft] at hseen
  cases hseen

/-- A block comment over two lines, with two slashes in the first of them. -/
theorem validate_sees_linked :
    ofRules Rule.defaults = .ok standard ∧
      standard.validate "/* see https://a.b\n eval(1) */ f(); // with (o)\ng();".toList
        "a.js".toList = .ok () ∧
      withoutComments "/* see https://a.b\n eval(1) */ f(); // with (o)\ng();".toList =
        " f(); \ng();".toList ∧
      ∀ e ∈ standard.rules, e.2.isMatch
        (withoutComments "/* see https://a.b\n eval(1) */ f(); // with (o)\ng();".toList) = false := by
  have hvalid : standard.validate "/* see https://a.b\n eval(1) */ f(); // with (o)\ng();".toList
    "a.js".toList = .ok () := by decide +kernel
  refine ⟨rfl, hvalid, by cbv, validate_sees rfl ?_ hvalid⟩
  have hblocks : blocks "/* see https://a.b\n eval(1) */ f(); // with (o)\ng();".toList =
    [(" see https://a.b\n eval(1) */".toList, " f(); // with (o)\ng();".toList)] := by cbv
  have hline : lastLine " see https://a.b\n eval(1) */".toList ++
    " f(); // with (o)\ng();".toList.take 1 = " eval(1) */ ".toList := by cbv
  rw [hblocks]
  intro b hb
  obtain rfl := List.mem_singleton.1 hb
  intro _
  rw [hline]
  simp [behind_cons_iff, behind_nil]

/-- **A call that is missed.**  The first pass takes the end of the block comment for a part of a line
comment, together with the code behind it. -/
theorem validate_misses :
    ofRules Rule.defaults = .ok standard ∧
      standard.validate "/* // */ eval(1)\n".toList "a.js".toList = .ok () ∧
      withoutComments "/* // */ eval(1)\n".toList = " eval(1)\n".toList ∧
      ∃ e ∈ standard.rules, e.2.isMatch (withoutComments "/* // */ eval(1)\n".toList) = true := by
  refine ⟨rfl, by decide +kernel, by cbv, _, List.mem_cons_self, ?_⟩
  decide +kernel

end Validator

end ScriptEmbed
