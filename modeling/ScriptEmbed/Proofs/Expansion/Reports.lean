import ScriptEmbed.Proofs.Expansion.ArgumentSplit
import ScriptEmbed.Proofs.Expansion.Walk

/-!
# What a failure reports

Two failures of an expansion carry data of the run: a recursion names the macros that were active,
and an open call says where it stands.  Both are read off the point at which the failure arises.

* `Definitions.Cycle` — a chain of declared macros, each once, closed by a return to one of them;
* `Definitions.expandMacros_recursion` — **a recursion reports a cycle**;
* `Point.LeavesOpen`, `HoldsAt` — an argument list that is not closed, and what stands at an offset;
* `Definitions.Reaches.text_eq` — where no call is closed, the text at hand stays the given one;
* `Definitions.expandMacros_unterminated_iff` — **the offset of an open call is one of the text at
  hand**;
* `Definitions.expandMacros_shifted` — calls that were replaced before it move an open call.
-/

namespace ScriptEmbed

open Expansion Relation

namespace Definitions

variable {d : Definitions} {mode : Substitution} {t n : Text} {chain : List Text} {p q : Point}

/-! ### Recursions -/

/-- The chain passes through declared macros, each once, and then returns to one of them, which is
`n`. -/
structure Cycle (d : Definitions) (n : Text) (chain : List Text) : Prop where
  last : chain.getLast? = some n
  nodup : chain.dropLast.Nodup
  declared : chain.dropLast ⊆ d.macroNames
  returns : n ∈ chain.dropLast

/-- Names that are guarded, with one of them again at the end. -/
theorem cycle_concat {active : List Text} (h : d.Guarded active) (hn : n ∈ active) :
    d.Cycle n (active ++ [n]) := by
  have hdrop : (active ++ [n]).dropLast = active := List.dropLast_concat
  constructor
  · exact List.getLast?_concat
  · rw [hdrop]
    exact h.nodup
  · rw [hdrop]
    exact h.declared
  · rw [hdrop]
    exact hn

theorem Cycle.length_eq (h : d.Cycle n chain) : chain.length = chain.dropLast.length + 1 := by
  have hne : chain ≠ [] := by
    intro hnil
    have hlast := h.last
    rw [hnil] at hlast
    cases hlast
  have hpos := List.length_pos_of_ne_nil hne
  rw [List.length_dropLast]
  omega

theorem Cycle.two_le_length (h : d.Cycle n chain) : 2 ≤ chain.length := by
  have hpos := List.length_pos_of_mem h.returns
  have hlength := h.length_eq
  omega

/-- A cycle is no longer than there are names to pass through. -/
theorem Cycle.length_le (h : d.Cycle n chain) :
    chain.length ≤ d.macroNames.toFinset.card + 1 := by
  have hsubset : chain.dropLast.toFinset ⊆ d.macroNames.toFinset := fun k hk =>
    List.mem_toFinset.2 (h.declared (List.mem_toFinset.1 hk))
  have hcard := Finset.card_le_card hsubset
  rw [List.toFinset_card_of_nodup h.nodup] at hcard
  have hlength := h.length_eq
  omega

/-- At a sound point a recursion reports a cycle: the macro that is called there is active. -/
theorem FailsAt.cycle (h : d.FailsAt mode p (.recursion n chain)) (hp : d.Sound p) :
    d.Cycle n chain := by
  cases h with
  | recursion _ ha => exact cycle_concat hp.guarded ha

/-- **A recursion reports a cycle.**  The chain ends in the name of the macro; what stands before
its end are declared names, no two of them equal, and that name is one of them.  So it has at least
two elements, and at most one more than there are declared names. -/
theorem expandMacros_recursion {depth : Nat}
    (h : d.expandMacros mode depth t = .error (.failed (.recursion n chain))) :
    d.Cycle n chain ∧ 2 ≤ chain.length ∧ chain.length ≤ d.macroNames.toFinset.card + 1 := by
  obtain ⟨p, hreach, hfails⟩ := expandMacros_failed_iff.1 ⟨depth, h⟩
  have hcycle := hfails.cycle hreach.sound
  exact ⟨hcycle, hcycle.two_le_length, hcycle.length_le⟩

/-- Two macros that call each other, one of them declared twice. -/
def returning : Definitions :=
  ⟨[], [⟨['A'], .template ⟨[['x']], "x".toList⟩⟩, ⟨['A'], .template ⟨[['x']], "B(x)".toList⟩⟩,
    ⟨['B'], .template ⟨[['x']], "A(x)".toList⟩⟩]⟩

/-- The chain of `A(1)` returns to `A` by way of `B`. -/
theorem expandMacros_recursion_returning :
    returning.expandMacros .token 4 "A(1)".toList =
        .error (.failed (.recursion ['A'] [['A'], ['B'], ['A']])) ∧
      returning.Cycle ['A'] [['A'], ['B'], ['A']] := by
  have h : returning.expandMacros .token 4 "A(1)".toList =
      .error (.failed (.recursion ['A'] [['A'], ['B'], ['A']])) := by cbv
  exact ⟨h, (expandMacros_recursion h).1⟩

end Definitions

/-! ### Open calls -/

/-- The text `s` stands in `t` at the offset in bytes. -/
def HoldsAt (s : Text) (offset : Nat) (t : Text) : Prop :=
  ∃ l r, t = l ++ (s ++ r) ∧ Text.byteSize l = offset

/-- What stands at an offset is what the text starts with from there on. -/
theorem HoldsAt.prefix_dropBytes {s t : Text} {offset : Nat} (h : HoldsAt s offset t) :
    s <+: Arguments.dropBytes offset t := by
  obtain ⟨l, r, rfl, rfl⟩ := h
  rw [Arguments.dropBytes_append]
  exact List.prefix_append s r

/-- At the point a macro of this name is at hand and called, it is not active, and its argument list
is not closed. -/
structure Point.LeavesOpen (p : Point) (n : Text) : Prop where
  atHand : (p.macros.head?.map NamedMacro.name) = some n
  called : calledAt n (lastOr none p.behind) p.ahead = true
  inactive : n ∉ p.active
  unclosed : Arguments.parse? (p.ahead.drop (n.length + 1)) = none

/-- A call stands at the end of what has been swept. -/
theorem Point.LeavesOpen.holdsAt {p : Point} {n : Text} (h : p.LeavesOpen n) :
    HoldsAt (n ++ ['(']) (Text.byteSize p.behind) p.text := by
  obtain ⟨r, hr⟩ := prefix_of_calledAt h.called
  refine ⟨p.behind, r, ?_, rfl⟩
  rw [Point.text, hr]

namespace Definitions

variable {d : Definitions} {mode : Substitution} {t n : Text} {offset : Nat} {p q : Point}

/-- The point at which an open call is reported, and the offset that is reported. -/
theorem failsAt_unterminated_iff : d.FailsAt mode p (.unterminated n offset) ↔
    p.LeavesOpen n ∧ Text.byteSize p.behind = offset := by
  constructor
  · intro h
    cases h with
    | unterminated hc ha hp => exact ⟨⟨rfl, hc, ha, hp⟩, rfl⟩
  · intro h
    obtain ⟨active, macros, behind, ahead⟩ := p
    obtain ⟨⟨hn, hc, ha, hp⟩, rfl⟩ := h
    cases macros with
    | nil => cases hn
    | cons m ms =>
      obtain rfl : m.name = n := Option.some.inj hn
      exact .unterminated hc ha hp

/-- Somewhere in the text a declared macro is called and its argument list is closed. -/
def ClosedCallIn (d : Definitions) (t : Text) : Prop :=
  ∃ m ∈ d.macros, ∃ i ≤ t.length, calledAt m.name (lastOr none (t.take i)) (t.drop i) = true ∧
    Arguments.parse? ((t.drop i).drop (m.name.length + 1)) ≠ none

instance (d : Definitions) (t : Text) : Decidable (d.ClosedCallIn t) :=
  inferInstanceAs (Decidable (∃ m ∈ d.macros, ∃ i ≤ t.length, _ ∧ _))

/-- A call that is taken is closed. -/
theorem closedCallIn_of_taken {active : List Text} {m : NamedMacro} {behind ahead : Text}
    {call : Arguments} (hm : m ∈ d.macros) (h : Taken active m behind ahead call) :
    d.ClosedCallIn (behind ++ ahead) := by
  refine ⟨m, hm, behind.length, by simp, ?_⟩
  rw [List.take_left, List.drop_left, h.closed]
  exact ⟨h.called, Option.some_ne_none call⟩

/-- A step over or into a call needs one that is closed; the others leave the text at hand. -/
theorem Step.text_eq (hstep : d.Step mode p q) (hp : d.Sound p) (hfree : ¬ d.ClosedCallIn p.text) :
    q.text = p.text := by
  have hhand : ∀ {m ms}, p.macros = m :: ms → m ∈ d.macros := fun hms =>
    hp.declared (hms ▸ List.mem_cons_self)
  cases hstep with
  | copy _ =>
    show _ ++ [_] ++ _ = _
    rw [List.append_assoc]
    rfl
  | next => exact (List.append_nil _).symm
  | replace htaken _ => exact absurd (closedCallIn_of_taken (hhand rfl) htaken) hfree
  | argument htaken _ _ _ => exact absurd (closedCallIn_of_taken (hhand rfl) htaken) hfree
  | body htaken _ _ _ => exact absurd (closedCallIn_of_taken (hhand rfl) htaken) hfree

/-- Where no call is closed, the text at hand stays the given one. -/
theorem Reaches.text_eq (hreach : d.Reaches mode t p) (hfree : ¬ d.ClosedCallIn t) :
    p.text = t := by
  induction hreach with
  | refl => rfl
  | @tail p q hsteps hstep ih =>
    have hsound : d.Sound p := Reaches.sound hsteps
    rw [← ih] at hfree
    exact (hstep.text_eq hsound hfree).trans ih

/-- **The offset of an open call is one of the text at hand.**  An expansion reports an open call
exactly when its run comes to a point that leaves it open, with as many bytes behind.  There the
name stands with the parenthesis at the offset; and where no call in the given text is closed, the
text at hand is the given one. -/
theorem expandMacros_unterminated_iff (d : Definitions) (mode : Substitution) (t n : Text)
    (offset : Nat) :
    (∃ depth, d.expandMacros mode depth t = .error (.failed (.unterminated n offset))) ↔
      ∃ p, d.Reaches mode t p ∧ p.LeavesOpen n ∧ Text.byteSize p.behind = offset ∧
        HoldsAt (n ++ ['(']) offset p.text ∧ (¬ d.ClosedCallIn t → p.text = t) := by
  rw [expandMacros_failed_iff]
  constructor
  · intro h
    obtain ⟨p, hreach, hfails⟩ := h
    obtain ⟨hopen, rfl⟩ := failsAt_unterminated_iff.1 hfails
    exact ⟨p, hreach, hopen, rfl, hopen.holdsAt, hreach.text_eq⟩
  · intro h
    obtain ⟨p, hreach, hopen, hsize, -, -⟩ := h
    exact ⟨p, hreach, failsAt_unterminated_iff.2 ⟨hopen, hsize⟩⟩

/-- Two macros that stand for their arguments. -/
def identities : Definitions :=
  ⟨[], [⟨['F'], .template ⟨[['x']], ['x']⟩⟩, ⟨"ID".toList, .template ⟨[['x']], ['x']⟩⟩]⟩

/-- In a text without closed calls, the offset of an open call is one of that text. -/
theorem expandMacros_unterminated_unmoved :
    identities.expandMacros .token 1 "+F(ID".toList =
        .error (.failed (.unterminated ['F'] 1)) ∧
      HoldsAt "F(".toList 1 "+F(ID".toList := by
  have h : identities.expandMacros .token 1 "+F(ID".toList =
      .error (.failed (.unterminated ['F'] 1)) := by cbv
  have hfree : ¬ identities.ClosedCallIn "+F(ID".toList := by decide
  obtain ⟨p, -, -, -, hholds, htext⟩ := (expandMacros_unterminated_iff identities .token
    "+F(ID".toList ['F'] 1).1 ⟨1, h⟩
  rw [htext hfree] at hholds
  exact ⟨h, hholds⟩

/-- The later macro is swept for first.  By the time the open call is found, the call before it is
replaced, and in the given text something else stands at the offset that is reported. -/
theorem expandMacros_shifted :
    ofSource "macro F(x) = x;\nmacro ID(x) = x;".toList = .ok identities ∧
      (∀ mode, identities.expandMacros mode 3 "ID(1) F(2".toList =
        .error (.failed (.unterminated ['F'] 2))) ∧
      ¬ HoldsAt "F(".toList 2 "ID(1) F(2".toList := by
  refine ⟨rfl, fun mode => ?_, fun h => ?_⟩
  · cases mode <;> cbv
  · have hstarts : "F(".toList.isPrefixOf (Arguments.dropBytes 2 "ID(1) F(2".toList) = false := by
      cbv
    rw [List.isPrefixOf_iff_prefix.2 h.prefix_dropBytes] at hstarts
    cases hstarts

end Definitions

end ScriptEmbed
