import Mathlib
import ScriptEmbed.Proofs.Definitions.Tables
import ScriptEmbed.Proofs.Expansion.CallCount
import ScriptEmbed.Proofs.Expansion.Nesting

/-!
# Expansion with closed bodies reaches a fixpoint

Where the body of every macro is closed, an expansion is set off from what comes after it, and a
call needs a word boundary before it.  So no call is put together by a sweep: it was there before.

* `Swept.calledAt_of_calledAt` — a call in front of which a sweep copied was in the text before;
* `Settles`, `Swept.callCount_le` — **sweeping over a macro takes its calls away and brings no other
  call in**;
* `Definitions.ends_of_closedBodies` — **every expansion ends**: a body is expanded with one macro
  less at hand, and an argument holds fewer calls;
* `Definitions.expandMacros_fixpoint` — **the result holds no call and expands to itself**.
-/

namespace ScriptEmbed

open Text

namespace Expansion

variable {expand : List Text → Text → Except Stop Text} {mode : Substitution} {m : NamedMacro}
  {active names : List Text}

/-! ### No call is put together -/

/-- Behind a word character, a sweep puts no word and parenthesis together. -/
theorem Swept.prefix_of_prefix (hm : IsName m.name) {before : Option Char} {t u : Text}
    (h : Swept expand mode m active before t u) {w : Text}
    (hw : ∀ c ∈ w, isNameChar c = true) (hb : isWordSide before = true)
    (hu : w ++ ['('] <+: u) : w ++ ['('] <+: t := by
  induction h generalizing w with
  | nil => exact hu
  | @copy before c rest out _ _ ih =>
    cases w with
    | nil =>
      obtain ⟨rfl, -⟩ := List.cons_prefix_cons.1 hu
      exact List.cons_prefix_cons.2 ⟨rfl, List.nil_prefix⟩
    | cons b w =>
      obtain ⟨rfl, hout⟩ := List.cons_prefix_cons.1 hu
      have hword := isWord_of_isNameChar (hw b List.mem_cons_self)
      have hrest := ih (fun c hc => hw c (List.mem_cons_of_mem b hc)) hword hout
      exact List.cons_prefix_cons.2 ⟨rfl, hrest⟩
  | call hc =>
    -- a call starts at a word boundary
    rw [isWordSide_of_calledAt hm hc] at hb
    cases hb

/-- A call that starts with a copied character was there before the sweep. -/
theorem Swept.calledAt_of_calledAt (hm : IsName m.name) {c : Char} {rest out : Text}
    (h : Swept expand mode m active (some c) rest out) {n : Text} (hn : IsName n)
    {before : Option Char} (hc : calledAt n before (c :: out) = true) :
    calledAt n before (c :: rest) = true := by
  rw [calledAt, Bool.and_eq_true, List.isPrefixOf_iff_prefix] at hc ⊢
  obtain ⟨hname, hside⟩ := hc
  obtain ⟨b, w, rfl⟩ := List.exists_cons_of_ne_nil hn.ne_nil
  obtain ⟨rfl, hout⟩ := List.cons_prefix_cons.1 hname
  have hword := isWord_of_isNameChar (hn.isNameChar b List.mem_cons_self)
  have hrest := h.prefix_of_prefix hm (fun c hc => hn.isNameChar c (List.mem_cons_of_mem b hc))
    hword hout
  exact ⟨List.cons_prefix_cons.2 ⟨rfl, hrest⟩, hside⟩

/-! ### Closed bodies -/

/-- A template with a closed body, whose parameters are words. -/
def ClosedBody (m : NamedMacro) : Prop :=
  ∃ t, m.body = .template t ∧ Closed t.body ∧
    ∀ p ∈ t.params, p ≠ [] ∧ ∀ c ∈ p, isNameChar c = true

/-- The body with arguments in place is closed, whatever the arguments are. -/
def ClosedInstances (mode : Substitution) (m : NamedMacro) : Prop :=
  ∀ values body, m.body.expand mode values = .ok body → Closed body

theorem ClosedBody.closedInstances (h : ClosedBody m) (mode : Substitution) :
    ClosedInstances mode m := by
  intro values body hb
  obtain ⟨t, ht, hbody, hparams⟩ := h
  rw [ht, Macro.expand, Except.ok.injEq] at hb
  subst hb
  exact Template.closed_expand hbody fun b hb => hparams b.1 (List.of_mem_zip hb).1

/-- Expansions hold no call of the names, and those of closed texts are closed. -/
structure Settles (names : List Text) (expand : List Text → Text → Except Stop Text) : Prop where
  callCount : ∀ active t u, expand active t = .ok u → callCount names none u = 0
  closed : ∀ active t u, Closed t → expand active t = .ok u → Closed u

/-- A call becomes a closed text without calls. -/
theorem Settles.expandCall (hs : Settles names expand) (hm : ClosedInstances mode m)
    {args : List Text} {u : Text} (h : Expansion.expandCall expand mode m active args = .ok u) :
    Expansion.callCount names none u = 0 ∧ Closed u := by
  obtain ⟨_, values, body, _, hbody, hu⟩ := expandCall_eq_ok_iff.1 h
  exact ⟨hs.callCount _ body u hu, hs.closed _ body u (hm values body hbody) hu⟩

/-- Sweeping over a macro takes its calls away, and brings no other call in. -/
theorem Swept.callCount_le (hs : Settles names expand) (hnames : ∀ n ∈ names, IsName n)
    (hm : ClosedInstances mode m) {done : List Text} (hdone : m.name :: done ⊆ names)
    {before : Option Char} {t u : Text} (h : Swept expand mode m active before t u) :
    callCount (m.name :: done) before u ≤ callCount done before t := by
  have hname : IsName m.name := hnames m.name (hdone List.mem_cons_self)
  induction h with
  | nil => exact Nat.le_refl 0
  | @copy before c rest out hc hrest ih =>
    have hhere : (anyCalledAt (m.name :: done) before (c :: out)).toNat ≤
        (anyCalledAt done before (c :: rest)).toNat := by
      refine toNat_anyCalledAt_le fun n hn hcalled => ?_
      have hfrom := hrest.calledAt_of_calledAt hname (hnames n (hdone hn)) hcalled
      rcases List.mem_cons.1 hn with rfl | hn
      · rw [hc] at hfrom
        cases hfrom
      · exact ⟨n, hn, hfrom⟩
    exact Nat.add_le_add hhere ih
  | @call before t expansion out call hc _ hp he _ ih =>
    obtain ⟨hcount, hclosed⟩ := hs.expandCall hm he
    have hbefore : isWordSide before = isWordSide none := isWordSide_of_calledAt hname hc
    have hafter : isWordSide (lastOr before expansion) = isWordSide none :=
      isWordSide_lastOr_of_closed hclosed before
    have hnone : callCount (m.name :: done) before expansion = 0 := by
      have hle := callCount_mono hdone none expansion
      rw [callCount_congr hbefore]
      omega
    have hrest : callCount done (lastOr before expansion) call.rest ≤ callCount done before t := by
      rw [callCount_congr hafter]
      exact callCount_rest_le hname hc hp done
    rw [callCount_append_of_closed (fun n hn => hnames n (hdone hn)) hclosed, hnone, Nat.zero_add]
    exact ih.trans hrest

theorem Swept.eq_nil {before : Option Char} {u : Text}
    (h : Swept expand mode m active before [] u) : u = [] := by
  cases h with
  | nil => rfl
  | call hc =>
    rw [calledAt_nil] at hc
    cases hc

/-- A sweep over a closed text gives a closed text. -/
theorem Swept.closed (hs : Settles names expand) (hm : ClosedInstances mode m)
    {before : Option Char} {t u : Text} (h : Swept expand mode m active before t u)
    (ht : Closed t) : Closed u := by
  induction h with
  | nil => exact ht
  | @copy before c rest out _ hrest ih =>
    by_cases hempty : rest = []
    · subst hempty
      rw [hrest.eq_nil]
      exact ht
    · exact (ih ((closed_append_of_ne_nil hempty [c]).1 ht)).cons c
  | @call before t expansion out call _ _ hp he hrest ih =>
    obtain ⟨_, hclosed⟩ := hs.expandCall hm he
    by_cases hempty : call.rest = []
    · rw [hempty] at hrest
      rw [hrest.eq_nil, List.append_nil]
      exact hclosed
    · obtain ⟨l, rfl⟩ := (Arguments.suffix_of_parse? hp).trans (List.drop_suffix _ t)
      exact (ih ((closed_append_of_ne_nil hempty l).1 ht)).append_left expansion

/-- The sweeps over some macros take all their calls away, and keep a text closed. -/
theorem Settles.sweepAll (hs : Settles names expand) (hnames : ∀ n ∈ names, IsName n)
    {ms : List NamedMacro} (hms : ∀ m ∈ ms, ClosedInstances mode m ∧ m.name ∈ names) {t u : Text}
    (h : Expansion.sweepAll expand mode active ms t = .ok u) :
    (∀ done ⊆ names, Expansion.callCount (ms.map NamedMacro.name ++ done) none u ≤
      Expansion.callCount done none t) ∧ (Closed t → Closed u) := by
  induction ms generalizing t with
  | nil =>
    cases h
    exact ⟨fun done _ => Nat.le_refl _, id⟩
  | cons m ms ih =>
    obtain ⟨hbody, hname⟩ := hms m List.mem_cons_self
    rw [Expansion.sweepAll] at h
    cases hv : sweepCalls expand mode m active none 0 t with
    | error e => simp [hv] at h
    | ok v =>
      simp only [hv] at h
      have hswept := sweepCalls_eq_ok_iff.1 hv
      obtain ⟨hcount, hclosed⟩ := ih (fun k hk => hms k (List.mem_cons_of_mem m hk)) h
      refine ⟨fun done hdone => ?_, fun ht => hclosed (hswept.closed hs hbody ht)⟩
      have hadd : m.name :: done ⊆ names := List.cons_subset.2 ⟨hname, hdone⟩
      have hperm : (m :: ms).map NamedMacro.name ++ done ⊆
          ms.map NamedMacro.name ++ m.name :: done := by
        intro n hn
        simp only [List.map_cons, List.cons_append, List.mem_cons, List.mem_append] at hn ⊢
        tauto
      calc Expansion.callCount ((m :: ms).map NamedMacro.name ++ done) none u
          ≤ Expansion.callCount (ms.map NamedMacro.name ++ m.name :: done) none u :=
            callCount_mono hperm none u
        _ ≤ Expansion.callCount (m.name :: done) none v := hcount (m.name :: done) hadd
        _ ≤ Expansion.callCount done none t := hswept.callCount_le hs hnames hbody hadd

/-! ### Texts without calls -/

theorem Swept.refl (hmem : m.name ∈ names) {t : Text} :
    ∀ {before : Option Char}, callCount names before t = 0 →
      Swept expand mode m active before t t := by
  induction t with
  | nil => exact fun _ => .nil
  | cons c t ih =>
    intro before h
    have hc : calledAt m.name before (c :: t) = false := by
      by_contra hcalled
      rw [Bool.not_eq_false] at hcalled
      rw [callCount_of_calledAt hmem hcalled] at h
      omega
    have hle := callCount_cons_le names before c t
    exact .copy hc (ih (by omega))

/-- A text without calls stays as it is. -/
theorem sweepAll_refl {ms : List NamedMacro} (hms : ∀ m ∈ ms, m.name ∈ names) {t : Text}
    (h : callCount names none t = 0) : sweepAll expand mode active ms t = .ok t := by
  induction ms with
  | nil => rfl
  | cons m ms ih =>
    have hswept : Swept expand mode m active none t t := .refl (hms m List.mem_cons_self) h
    rw [sweepAll, hswept.sweepCalls_eq 0]
    exact ih fun k hk => hms k (List.mem_cons_of_mem m hk)

/-! ### What a sweep asks for -/

/-- A sweep asks for an argument, with fewer calls than the text, or for a body, with the macro
active in addition. -/
theorem Requested.callCount_lt (hs : Settles names expand) (hm : ClosedInstances mode m)
    (hname : IsName m.name) (hmem : m.name ∈ names) {q : Task} {before : Option Char} {t : Text}
    (h : Requested expand mode m active q before t) :
    (q.active = active ∧ callCount names none q.text < callCount names before t) ∨
      (m.name ∉ active ∧ q.active = active ++ [m.name]) := by
  induction h with
  | @copy before c rest _ _ ih =>
    rcases ih with ⟨ha, hlt⟩ | hbody
    · exact .inl ⟨ha, hlt.trans_le (callCount_cons_le names before c rest)⟩
    · exact .inr hbody
  | call hc ha hp hq =>
    rcases mem_askedOfCall hq with ⟨v, hv, rfl⟩ | ⟨values, body, _, _, rfl⟩
    · exact .inl ⟨rfl, callCount_lt_of_calledAt hmem hname hc hp hv⟩
    · exact .inr ⟨ha, rfl⟩
  | @later before t expansion call hc _ hp he _ ih =>
    obtain ⟨_, hclosed⟩ := hs.expandCall hm he
    have hafter : isWordSide (lastOr before expansion) = isWordSide none :=
      isWordSide_lastOr_of_closed hclosed before
    rw [callCount_congr hafter] at ih
    rcases ih with ⟨ha, hlt⟩ | hbody
    · exact .inl ⟨ha, hlt.trans_le (callCount_rest_le hname hc hp names)⟩
    · exact .inr hbody

end Expansion

/-! ### Tables with closed bodies -/

namespace Definitions

open Expansion

variable {d : Definitions} {mode : Substitution}

/-- All macros are templates with closed bodies, and all parameters are words. -/
structure ClosedBodies (d : Definitions) : Prop where
  macros : ∀ m ∈ d.macros, ∃ t, m.body = .template t ∧ Closed t.body ∧
    ∀ p ∈ t.params, ∀ c ∈ p, isNameChar c = true

theorem ClosedBodies.closedBody (hd : d.ClosedBodies) (hn : d.WellNamed) :
    ∀ m ∈ d.macros.reverse, ClosedBody m ∧ m.name ∈ d.macroNames := by
  intro m hm
  have hm := List.mem_reverse.1 hm
  obtain ⟨t, ht, hbody, hparams⟩ := hd.macros m hm
  refine ⟨⟨t, ht, hbody, fun p hp => ⟨hn.params m hm p ?_, hparams p hp⟩⟩,
    List.mem_map_of_mem hm⟩
  rw [ht]
  exact hp

theorem WellNamed.macroNames (hn : d.WellNamed) : ∀ n ∈ d.macroNames, IsName n := by
  intro n hmem
  obtain ⟨m, hm, rfl⟩ := List.mem_map.1 hmem
  exact hn.macros m hm

theorem ClosedBodies.closedInstances (hd : d.ClosedBodies) (hn : d.WellNamed)
    (mode : Substitution) : ∀ m ∈ d.macros, ClosedInstances mode m := by
  intro m hm
  exact (hd.closedBody hn m (List.mem_reverse.2 hm)).1.closedInstances mode

/-- The macros in the order in which they are swept over. -/
theorem closedInstances_reverse (hc : ∀ m ∈ d.macros, ClosedInstances mode m) :
    ∀ m ∈ d.macros.reverse, ClosedInstances mode m ∧ m.name ∈ d.macroNames := by
  intro m hm
  have hm := List.mem_reverse.1 hm
  exact ⟨hc m hm, List.mem_map_of_mem hm⟩

/-- Where all instances are closed, expansions hold no call, at every depth. -/
theorem settles_of_closedInstances (hn : d.WellNamed)
    (hc : ∀ m ∈ d.macros, ClosedInstances mode m) (depth : Nat) :
    Settles d.macroNames (d.expandWithin mode depth) := by
  have hall := closedInstances_reverse hc
  induction depth with
  | zero => exact ⟨fun _ _ _ h => (by cases h), fun _ _ _ _ h => (by cases h)⟩
  | succ depth ih =>
    refine ⟨fun active t u h => ?_, fun active t u ht h => ?_⟩
    · have hcount := (ih.sweepAll hn.macroNames hall h).1 [] (List.nil_subset _)
      have hall : d.macroNames ⊆ d.macros.reverse.map NamedMacro.name ++ [] := by
        intro n hmem
        rw [List.append_nil, List.map_reverse]
        exact List.mem_reverse.2 hmem
      have hle := callCount_mono hall none u
      rw [callCount_nil_names] at hcount
      omega
    · exact (ih.sweepAll hn.macroNames hall h).2 ht

/-- At every depth, expansions hold no call. -/
theorem ClosedBodies.settles (hd : d.ClosedBodies) (hn : d.WellNamed) (mode : Substitution)
    (depth : Nat) : Settles d.macroNames (d.expandWithin mode depth) :=
  settles_of_closedInstances hn (hd.closedInstances hn mode) depth

/-! ### Every expansion ends -/

/-- The declared names that are not active. -/
def inactive (d : Definitions) (active : List Text) : Finset Text :=
  d.macroNames.toFinset \ active.toFinset

theorem card_inactive_lt {active : List Text} {n : Text} (hn : n ∈ d.macroNames)
    (ha : n ∉ active) : (d.inactive (active ++ [n])).card < (d.inactive active).card := by
  have hmem : n ∈ d.inactive active := by
    rw [inactive, Finset.mem_sdiff, List.mem_toFinset, List.mem_toFinset]
    exact ⟨hn, ha⟩
  have herase : d.inactive (active ++ [n]) = (d.inactive active).erase n := by
    ext k
    simp only [inactive, Finset.mem_sdiff, Finset.mem_erase, List.mem_toFinset, List.mem_append,
      List.mem_singleton]
    tauto
  rw [herase]
  exact Finset.card_erase_lt_of_mem hmem

/-- How far an expansion is from its end: the macros that may still become active, and then the
calls in the text. -/
def effort (d : Definitions) (q : Task) : ℕ × ℕ :=
  ((d.inactive q.active).card, callCount d.macroNames none q.text)

/-- What an expansion asks for is nearer to its end. -/
theorem Asks.effort_lt (hn : d.WellNamed) (hc : ∀ m ∈ d.macros, ClosedInstances mode m)
    {q r : Task} (h : d.Asks mode q r) : Prod.Lex (· < ·) (· < ·) (d.effort r) (d.effort q) := by
  obtain ⟨depth, hr⟩ := h.exists
  obtain ⟨done, m, rest, u, hms, hu, hreq⟩ := exists_requested_of_mem_askedOfMacros hr
  have hs := settles_of_closedInstances hn hc depth
  have hall := closedInstances_reverse hc
  rw [hms] at hall
  obtain ⟨hbody, hname⟩ := hall m (List.mem_append_right done List.mem_cons_self)
  -- the sweeps before this one did not add calls
  have hle : callCount d.macroNames none u ≤ callCount d.macroNames none q.text := by
    have hsweeps := hs.sweepAll hn.macroNames (fun k hk => hall k (List.mem_append_left _ hk)) hu
    have hcount := hsweeps.1 d.macroNames (List.Subset.refl _)
    exact (callCount_mono (List.subset_append_right _ _) none u).trans hcount
  rcases hreq.callCount_lt hs hbody (hn.macroNames m.name hname) hname with
    ⟨ha, hlt⟩ | ⟨hnot, ha⟩
  · rw [effort, effort, ha]
    exact Prod.Lex.right _ (hlt.trans_le hle)
  · rw [effort, effort, ha]
    exact Prod.Lex.left _ _ (card_inactive_lt hname hnot)

theorem ends_of_closedBodies (hd : d.ClosedBodies) (hn : d.WellNamed) (q : Task) :
    d.Ends mode q := by
  have hlex : WellFounded (Prod.Lex (· < ·) (· < ·) : ℕ × ℕ → ℕ × ℕ → Prop) :=
    WellFounded.prod_lex wellFounded_lt wellFounded_lt
  have hwf : WellFounded fun r q => d.Asks mode q r :=
    Subrelation.wf (fun h => Asks.effort_lt hn (hd.closedInstances hn mode) h)
      (InvImage.wf d.effort hlex)
  rw [ends_iff_acc]
  exact hwf.apply q

/-! ### The fixpoint -/

/-- **Expansion reaches a fixpoint.**  Where all bodies are closed and all parameters are words,
every expansion ends.  The text that it gives holds no call of a declared macro at any place, and
expands to itself. -/
theorem expandMacros_fixpoint {source : Text} (hd : Definitions.ofSource source = .ok d)
    (hclosed : d.ClosedBodies) (mode : Substitution) (t : Text) :
    (∃ depth, d.expandMacros mode depth t ≠ .error .tooDeep) ∧
      ∀ depth out, d.expandMacros mode depth t = .ok out →
        (∀ m ∈ d.macros, ∀ p s, out = p ++ s → calledAt m.name p.getLast? s = false) ∧
          ∀ k, d.expandMacros mode (k + 1) out = .ok out := by
  have hn := wellNamed_ofSource hd
  refine ⟨ends_of_closedBodies hclosed hn ⟨[], t⟩, fun depth out h => ?_⟩
  have hcount := (hclosed.settles hn mode depth).callCount [] t out h
  constructor
  · intro m hm p s hps
    have hcalled := callCount_eq_zero_iff.1 hcount p s hps m.name (List.mem_map_of_mem hm)
    rw [lastOr, Option.or_none] at hcalled
    exact hcalled
  · intro k
    exact sweepAll_refl (fun m hm => (hclosed.closedBody hn m hm).2) hcount

/-- Two closed bodies, one of which calls the other macro. -/
def bracketing : Definitions :=
  ⟨[], [⟨"ADD".toList, .template ⟨["a".toList, "b".toList], "(a + b)".toList⟩⟩,
    ⟨"TWICE".toList, .template ⟨["x".toList], "[ADD(x, x)]".toList⟩⟩]⟩

theorem closedBodies_bracketing : bracketing.ClosedBodies := by
  refine ⟨fun m hm => ?_⟩
  rcases List.mem_cons.1 hm with rfl | hm
  · exact ⟨_, rfl, by decide, by simp [isNameChar]⟩
  · cases List.mem_singleton.1 hm
    exact ⟨_, rfl, by decide, by simp [isNameChar]⟩

/-- A call in an argument is expanded before it is put in twice, and no call is left. -/
theorem expandMacros_fixpoint_bracketing :
    Definitions.ofSource "macro ADD(a, b) = (a + b);\nmacro TWICE(x) = [ADD(x, x)];".toList =
      .ok bracketing ∧
    bracketing.ClosedBodies ∧
    bracketing.expandMacros .token 3 "TWICE(ADD(1, k))".toList =
      .ok "[((1 + k) + (1 + k))]".toList ∧
    (∀ m ∈ bracketing.macros, ∀ p s, "[((1 + k) + (1 + k))]".toList = p ++ s →
      calledAt m.name p.getLast? s = false) ∧
    ∀ k, bracketing.expandMacros .token (k + 1) "[((1 + k) + (1 + k))]".toList =
      .ok "[((1 + k) + (1 + k))]".toList := by
  have hd : Definitions.ofSource
      "macro ADD(a, b) = (a + b);\nmacro TWICE(x) = [ADD(x, x)];".toList = .ok bracketing := rfl
  have hout : bracketing.expandMacros .token 3 "TWICE(ADD(1, k))".toList =
    .ok "[((1 + k) + (1 + k))]".toList := by cbv
  have hfix := expandMacros_fixpoint hd closedBodies_bracketing .token "TWICE(ADD(1, k))".toList
  exact ⟨hd, closedBodies_bracketing, hout, hfix.2 3 _ hout⟩

end Definitions

end ScriptEmbed
