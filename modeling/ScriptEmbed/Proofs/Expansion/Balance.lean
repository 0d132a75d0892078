import Mathlib
import ScriptEmbed.Proofs.Definitions.Tables
import ScriptEmbed.Proofs.Expansion.ArgumentList
import ScriptEmbed.Proofs.Expansion.ConstantScan
import ScriptEmbed.Proofs.Expansion.Sweep
import ScriptEmbed.Proofs.Text.Balance

/-!
# Expansion keeps brackets balanced

Where all texts that are put in are balanced, so is the result, and every call is closed.  The
invariant of a sweep is the level at the place it has come to: the text from there on ends at level
zero, before and after.

* `Arguments.parse?_of_nesting?` — inside a text that ends at level zero an argument list is closed,
  its arguments are balanced, and the text after it ends at level zero again;
* `Swept.nesting?`, `Stopped.not_unterminated` — sweeps keep the invariant and close all calls;
* `Definitions.expand_balanced` — **no call of a balanced text is unterminated, and its expansion
  is balanced**.
-/

namespace ScriptEmbed

open Text Arguments

/-! ### Argument lists -/

namespace Arguments

/-- From `depth + 1` open brackets above level `k` down to zero, the list is closed on the way. -/
theorem spans?_of_nesting? {depth k : Nat} {t : Text} (h : nesting? (depth + 1 + k) t = some 0) :
    ∃ s, spans? depth t = some s ∧ nesting? k s.rest = some 0 ∧
      nesting? depth s.first = some 0 ∧ ∀ p ∈ s.others, Balanced p := by
  induction t generalizing depth with
  | nil =>
    rw [nesting?_nil, Option.some.injEq] at h
    omega
  | cons c t ih =>
    by_cases ho : isOpening c = true
    · rw [nesting?_opening ho, show depth + 1 + k + 1 = depth + 1 + 1 + k by omega] at h
      obtain ⟨s, hs, hrest, hfirst, hothers⟩ := ih h
      refine ⟨s.push c, by rw [spans?_opening ho, hs]; rfl, hrest, ?_, hothers⟩
      show nesting? depth (c :: s.first) = some 0
      rw [nesting?_opening ho]
      exact hfirst
    · have ho' := Bool.eq_false_iff.2 ho
      by_cases hc : isClosing c = true
      · cases depth with
        | zero =>
          rw [show 0 + 1 + k = k + 1 by omega, nesting?_succ_closing ho' hc] at h
          exact ⟨⟨[], [], t⟩, spans?_zero_closing ho' hc, h, nesting?_nil 0, by simp⟩
        | succ depth =>
          rw [show depth + 1 + 1 + k = depth + 1 + k + 1 by omega,
            nesting?_succ_closing ho' hc] at h
          obtain ⟨s, hs, hrest, hfirst, hothers⟩ := ih h
          refine ⟨s.push c, by rw [spans?_succ_closing ho' hc, hs]; rfl, hrest, ?_, hothers⟩
          show nesting? (depth + 1) (c :: s.first) = some 0
          rw [nesting?_succ_closing ho' hc]
          exact hfirst
      · have hc' := Bool.eq_false_iff.2 hc
        have hb := isBracket_eq_false ho' hc'
        rw [nesting?_other hb] at h
        obtain ⟨s, hs, hrest, hfirst, hothers⟩ := ih h
        by_cases hcomma : c = ',' ∧ depth = 0
        · obtain ⟨rfl, rfl⟩ := hcomma
          refine ⟨s.split, by rw [spans?_comma, hs]; rfl, hrest, nesting?_nil 0, ?_⟩
          intro p hp
          rcases List.mem_cons.1 hp with rfl | hp
          · exact balanced_iff.2 hfirst
          · exact hothers p hp
        · refine ⟨s.push c, by rw [spans?_other ho' hc' hcomma, hs]; rfl, hrest, ?_, hothers⟩
          show nesting? depth (c :: s.first) = some 0
          rw [nesting?_other hb]
          exact hfirst

/-- Inside a text that ends at level zero an argument list is closed. -/
theorem parse?_of_nesting? {k : Nat} {t : Text} (h : nesting? (k + 1) t = some 0) :
    ∃ a, parse? t = some a ∧ nesting? k a.rest = some 0 ∧ ∀ v ∈ a.values, Balanced v := by
  rw [show k + 1 = 0 + 1 + k by omega] at h
  obtain ⟨s, hs, hrest, hfirst, hothers⟩ := spans?_of_nesting? h
  refine ⟨ofSpans s, by rw [parse?, hs]; rfl, hrest, fun v hv => ?_⟩
  obtain ⟨p, hp, rfl⟩ := exists_of_mem_values hv
  rw [balanced_iff, nesting?_trim, ← balanced_iff]
  rcases List.mem_cons.1 hp with rfl | hp
  · exact balanced_iff.2 hfirst
  · exact hothers p hp

end Arguments

namespace Expansion

/-! ### Constants -/

theorem nesting?_scanConstants {constants : List Constant}
    (hname : ∀ k ∈ constants, IsName k.name) (hrepl : ∀ k ∈ constants, Balanced k.replacement)
    {t : Text} : ∀ (before : Option Char) (n : Nat),
      nesting? n (scanConstants constants before t) = nesting? n t := by
  induction hlen : t.length using Nat.strong_induction_on generalizing t with
  | _ len ih =>
    intro before n
    cases hf : firstAt? constants before t with
    | none =>
      cases t with
      | nil => rw [scanConstants_nil]
      | cons c rest =>
        rw [List.length_cons] at hlen
        have hrest := ih rest.length (by omega) rfl (some c)
        rw [scanConstants_copy hf, ← List.singleton_append, nesting?_append,
          ← List.singleton_append (l := rest), nesting?_append]
        simp only [hrest]
    | some k =>
      obtain ⟨hk, hne, hocc⟩ := firstAt?_some hf
      have hpos := List.length_pos_iff.2 hne
      obtain ⟨tail, rfl⟩ := prefix_of_occursAt hocc
      have hplain : Balanced k.name := balanced_of_plain fun c hc =>
        isBracket_of_isNameChar ((hname k hk).isNameChar c hc)
      rw [List.length_append] at hlen
      rw [scanConstants_replace hf, List.drop_left, nesting?_balanced_append (hrepl k hk),
        nesting?_balanced_append hplain]
      exact ih tail.length (by omega) rfl _ n

/-! ### Calls -/

variable {expand : List Text → Text → Except Stop Text} {mode : Substitution} {m : NamedMacro}
  {active : List Text}

/-- A macro that puts in nothing but balanced texts: a template with a balanced body, none of whose
parameters holds a bracket. -/
def KeepsBalance (m : NamedMacro) : Prop :=
  ∃ t, m.body = .template t ∧ Balanced t.body ∧
    ∀ p ∈ t.params, p ≠ [] ∧ ∀ c ∈ p, isBracket c = false

theorem KeepsBalance.balanced (h : KeepsBalance m) {values : List Text} {body : Text}
    (hv : ∀ v ∈ values, Balanced v) (hb : m.body.expand mode values = .ok body) :
    Balanced body := by
  obtain ⟨t, ht, hbody, hparams⟩ := h
  rw [ht, Macro.expand, Except.ok.injEq] at hb
  subst hb
  rw [balanced_iff, Template.nesting?_expand (fun b hb => ?_) (fun b hb => ?_), ← balanced_iff]
  · exact hbody
  · exact hparams b.1 (List.of_mem_zip hb).1
  · exact hv b.2 (List.of_mem_zip hb).2

/-- The arguments of a call expand to balanced texts. -/
theorem balanced_of_expandAll {f : Text → Except Stop Text}
    (hf : ∀ t u, Balanced t → f t = .ok u → Balanced u) {ts us : List Text}
    (hts : ∀ t ∈ ts, Balanced t) (h : expandAll f ts = .ok us) : ∀ u ∈ us, Balanced u := by
  rw [expandAll_eq_ok_iff] at h
  induction h with
  | nil =>
    intro u hu
    cases hu
  | @cons t u ts us htu _ ih =>
    intro v hv
    rcases List.mem_cons.1 hv with rfl | hv
    · exact hf t v (hts t List.mem_cons_self) htu
    · exact ih (fun t ht => hts t (List.mem_cons_of_mem _ ht)) v hv

/-- A call in a text that ends at level zero: its list is closed, its arguments are balanced, and
the text after it ends at level zero. -/
theorem parse?_of_calledAt (hm : IsName m.name) {before : Option Char} {t : Text} {k : Nat}
    (hc : calledAt m.name before t = true) (ht : nesting? k t = some 0) :
    ∃ a, Arguments.parse? (t.drop (m.name.length + 1)) = some a ∧
      nesting? k a.rest = some 0 ∧ ∀ v ∈ a.values, Balanced v := by
  obtain ⟨tail, rfl⟩ := prefix_of_calledAt hc
  have hplain : Balanced m.name := balanced_of_plain fun c hc =>
    isBracket_of_isNameChar (hm.isNameChar c hc)
  rw [List.append_assoc, nesting?_balanced_append hplain, List.singleton_append,
    nesting?_opening (by decide)] at ht
  rw [show m.name.length + 1 = (m.name ++ ['(']).length by simp, List.drop_left]
  exact Arguments.parse?_of_nesting? ht

/-- What the expander is to do with balanced texts. -/
structure BalancedExpander (expand : List Text → Text → Except Stop Text) : Prop where
  balanced : ∀ active t u, Balanced t → expand active t = .ok u → Balanced u
  terminated : ∀ active t n offset, Balanced t →
    expand active t ≠ .error (.failed (.unterminated n offset))

/-- A call with balanced arguments becomes a balanced text. -/
theorem BalancedExpander.expandCall (he : BalancedExpander expand) (hm : KeepsBalance m)
    {args : List Text} (hargs : ∀ v ∈ args, Balanced v) {u : Text}
    (h : Expansion.expandCall expand mode m active args = .ok u) : Balanced u := by
  obtain ⟨_, values, body, hvalues, hbody, hu⟩ := expandCall_eq_ok_iff.1 h
  have hv := balanced_of_expandAll (he.balanced active) hargs hvalues
  exact he.balanced _ body u (hm.balanced hv hbody) hu

/-- A sweep keeps the level at its end. -/
theorem Swept.nesting? (he : BalancedExpander expand) (hm : KeepsBalance m) (hn : IsName m.name)
    {before : Option Char} {t u : Text} (h : Swept expand mode m active before t u) {k : Nat}
    (ht : nesting? k t = some 0) : Text.nesting? k u = some 0 := by
  induction h generalizing k with
  | nil => exact ht
  | @copy before c rest out _ _ ih =>
    rw [← List.singleton_append, nesting?_append, Option.bind_eq_some_iff] at ht ⊢
    obtain ⟨j, hj, hrest⟩ := ht
    exact ⟨j, hj, ih hrest⟩
  | call hc _ hp hcall _ ih =>
    obtain ⟨a, ha, hrest, hvalues⟩ := parse?_of_calledAt hn hc ht
    rw [hp, Option.some.injEq] at ha
    subst ha
    rw [nesting?_balanced_append (he.expandCall hm hvalues hcall)]
    exact ih hrest

/-- A sweep that fails does not fail for want of a closing bracket. -/
theorem Stopped.not_unterminated (he : BalancedExpander expand) (hm : KeepsBalance m)
    (hn : IsName m.name) {before : Option Char} {offset : Nat} {t : Text} {e : Stop}
    (h : Stopped expand mode m active before offset t e) {k : Nat}
    (ht : Text.nesting? k t = some 0) (n : Text) (o : Nat) :
    e ≠ .failed (.unterminated n o) := by
  induction h generalizing k with
  | @copy before offset c rest e _ _ ih =>
    rw [← List.singleton_append, nesting?_append, Option.bind_eq_some_iff] at ht
    obtain ⟨j, _, hrest⟩ := ht
    exact ih hrest
  | recursion => exact fun h => by cases h
  | unterminated hc _ hp =>
    obtain ⟨a, ha, _⟩ := parse?_of_calledAt hn hc ht
    rw [hp] at ha
    cases ha
  | call hc _ hp hcall =>
    obtain ⟨a, ha, _, hvalues⟩ := parse?_of_calledAt hn hc ht
    rw [hp, Option.some.injEq] at ha
    subst ha
    rintro rfl
    rcases expandCall_eq_error hcall with ⟨_, h⟩ | ⟨v, hv, h⟩ | ⟨_, _, _, _, h⟩ |
      ⟨values, body, hall, hbody, h⟩
    · cases h
    · exact he.terminated active v n o (hvalues v hv) h
    · cases h
    · have hv := balanced_of_expandAll (he.balanced active) hvalues hall
      exact he.terminated _ body n o (hm.balanced hv hbody) h
  | later hc _ hp hcall _ ih =>
    obtain ⟨a, ha, hrest, _⟩ := parse?_of_calledAt hn hc ht
    rw [hp, Option.some.injEq] at ha
    subst ha
    exact ih hrest

/-- The sweeps over all macros keep a text balanced and do not fail for want of a bracket. -/
theorem BalancedExpander.sweepAll (he : BalancedExpander expand) {ms : List NamedMacro}
    (hm : ∀ m ∈ ms, KeepsBalance m ∧ IsName m.name) {t : Text} (ht : Balanced t) :
    (∀ u, Expansion.sweepAll expand mode active ms t = .ok u → Balanced u) ∧
      ∀ n offset, Expansion.sweepAll expand mode active ms t ≠
        .error (.failed (.unterminated n offset)) := by
  induction ms generalizing t with
  | nil =>
    refine ⟨fun u hu => ?_, fun n offset h => by cases h⟩
    cases hu
    exact ht
  | cons m ms ih =>
    obtain ⟨hkeeps, hname⟩ := hm m List.mem_cons_self
    rw [Expansion.sweepAll]
    cases hs : sweepCalls expand mode m active none 0 t with
    | error e =>
      refine ⟨fun u hu => (by cases hu), fun n offset h => ?_⟩
      have hstop := stopped_of_sweepCalls hs
      rw [Except.error.injEq] at h
      exact hstop.not_unterminated he hkeeps hname (balanced_iff.1 ht) n offset h
    | ok v =>
      have hv := (sweepCalls_eq_ok_iff.1 hs).nesting? he hkeeps hname (balanced_iff.1 ht)
      exact ih (fun k hk => hm k (List.mem_cons_of_mem m hk)) (balanced_iff.2 hv)

end Expansion

namespace Definitions

open Expansion

/-- No macro is computed, all texts that are put in are balanced, and no parameter holds a
bracket. -/
structure KeepsBalance (d : Definitions) : Prop where
  constants : ∀ c ∈ d.constants, Balanced c.replacement
  macros : ∀ m ∈ d.macros, ∃ t, m.body = .template t ∧ Balanced t.body ∧
    ∀ p ∈ t.params, ∀ c ∈ p, isBracket c = false

theorem KeepsBalance.expandWithin {d : Definitions} (hd : d.KeepsBalance) (hn : d.WellNamed)
    (mode : Substitution) (depth : Nat) : BalancedExpander (d.expandWithin mode depth) := by
  have hmacros : ∀ m ∈ d.macros.reverse, Expansion.KeepsBalance m ∧ IsName m.name := by
    intro m hm
    have hm := List.mem_reverse.1 hm
    obtain ⟨t, ht, hbody, hparams⟩ := hd.macros m hm
    refine ⟨⟨t, ht, hbody, fun p hp => ⟨hn.params m hm p ?_, hparams p hp⟩⟩, hn.macros m hm⟩
    rw [ht]
    exact hp
  induction depth with
  | zero => exact ⟨fun _ _ _ _ h => (by cases h), fun _ _ _ _ _ h => (by cases h)⟩
  | succ depth ih =>
    exact ⟨fun active t u ht hu => (ih.sweepAll hmacros ht).1 u hu,
      fun active t n offset ht => (ih.sweepAll hmacros ht).2 n offset⟩

/-- **Expansion keeps brackets balanced.**  Of a balanced text, no call is unterminated at any
depth, and the expansion, if there is one, is balanced. -/
theorem expand_balanced {source : Text} {d : Definitions}
    (hd : Definitions.ofSource source = .ok d) (hb : d.KeepsBalance) (mode : Substitution)
    {t : Text} (ht : Balanced t) (depth : Nat) :
    (∀ n offset, d.expand mode depth t ≠ .error (.failed (.unterminated n offset))) ∧
      ∀ u, d.expand mode depth t = .ok u → Balanced u := by
  have hn := wellNamed_ofSource hd
  have he := hb.expandWithin hn mode depth
  have hconstants : Balanced (expandConstants d.constants t) := by
    rw [balanced_iff, expandConstants_eq_scan,
      nesting?_scanConstants hn.constants hb.constants, ← balanced_iff]
    exact ht
  exact ⟨fun n offset => he.terminated [] _ n offset hconstants,
    fun u hu => he.balanced [] _ u hconstants hu⟩

/-- A constant, and a macro that calls another one. -/
def swapping : Definitions :=
  ⟨[⟨"W".toList, "[8]".toList⟩],
    [⟨"PAIR".toList, .template ⟨["a".toList, "b".toList], "(a, {b})".toList⟩⟩,
      ⟨"SWAP".toList, .template ⟨["x".toList, "y".toList], "PAIR(y, x)".toList⟩⟩]⟩

theorem keepsBalance_swapping : swapping.KeepsBalance := by
  refine ⟨fun c hc => ?_, fun m hm => ?_⟩
  · cases List.mem_singleton.1 hc
    show Balanced "[8]".toList
    decide
  · rcases List.mem_cons.1 hm with rfl | hm
    · exact ⟨_, rfl, by decide, by simp [isBracket, isOpening, isClosing]⟩
    · cases List.mem_singleton.1 hm
      exact ⟨_, rfl, by decide, by simp [isBracket, isOpening, isClosing]⟩

/-- Brackets inside an argument do not end the call, and they stay balanced in the result. -/
theorem expand_balanced_swapping :
    Definitions.ofSource
        "const W = [8];\nmacro PAIR(a, b) = (a, {b});\nmacro SWAP(x, y) = PAIR(y, x);".toList =
      .ok swapping ∧
    swapping.KeepsBalance ∧ Balanced "SWAP(f(W, 1), {2})".toList ∧
    swapping.expand .substring 4 "SWAP(f(W, 1), {2})".toList = .ok "({2}, {f([8], 1)})".toList ∧
    Balanced "({2}, {f([8], 1)})".toList := by
  have hd : Definitions.ofSource
      "const W = [8];\nmacro PAIR(a, b) = (a, {b});\nmacro SWAP(x, y) = PAIR(y, x);".toList =
    .ok swapping := rfl
  have ht : Balanced "SWAP(f(W, 1), {2})".toList := by decide
  have hu : swapping.expand .substring 4 "SWAP(f(W, 1), {2})".toList =
    .ok "({2}, {f([8], 1)})".toList := by cbv
  have hb := expand_balanced hd keepsBalance_swapping .substring ht 4
  exact ⟨hd, keepsBalance_swapping, ht, hu, hb.2 _ hu⟩

end Definitions

end ScriptEmbed
