import Mathlib
import ScriptEmbed.Proofs.Expansion.Fixpoint

/-!
# Macros that are declared again

Several macros may be declared under one name.  The table is swept over from its end, so the last of
them takes all calls of the name away, and the others find none.  That holds as long as no call is
put together later on, by another macro whose expansion ends in a part of the name.

* `sweepAll_append` — the sweeps over two lists of macros, one after the other;
* `Settles.sweepAll_eq_of_mem` — behind the sweeps over some macros, a macro that has the name of one
  of them finds no call;
* `Definitions.expandMacros_erase_shadowed` — **where all instances are closed, an entry that a later
  entry of the same name follows can be removed**;
* `Definitions.expandMacros_rejoined` — where one is not, such an entry may be the one that counts.
-/

namespace ScriptEmbed

open Text

namespace Expansion

variable {expand : List Text → Text → Except Stop Text} {mode : Substitution} {m : NamedMacro}
  {active names : List Text}

theorem sweepAll_append (ms ks : List NamedMacro) (t : Text) :
    sweepAll expand mode active (ms ++ ks) t =
      (sweepAll expand mode active ms t).bind (sweepAll expand mode active ks) := by
  induction ms generalizing t with
  | nil => rfl
  | cons m ms ih =>
    rw [List.cons_append, sweepAll, sweepAll]
    cases sweepCalls expand mode m active none 0 t with
    | error e => rfl
    | ok u => exact ih u

/-- Behind the sweeps over some macros, a macro that has the name of one of them changes nothing. -/
theorem Settles.sweepAll_eq_of_mem (hs : Settles names expand) (hnames : ∀ n ∈ names, IsName n)
    {ms : List NamedMacro} (hms : ∀ k ∈ ms, ClosedInstances mode k ∧ k.name ∈ names)
    (hm : m.name ∈ ms.map NamedMacro.name) (ks : List NamedMacro) (t : Text) :
    Expansion.sweepAll expand mode active (ms ++ m :: ks) t =
      Expansion.sweepAll expand mode active (ms ++ ks) t := by
  rw [sweepAll_append, sweepAll_append]
  cases hu : Expansion.sweepAll expand mode active ms t with
  | error e => rfl
  | ok u =>
    have hcount := (hs.sweepAll hnames hms hu).1 [] (List.nil_subset _)
    rw [List.append_nil, callCount_nil_names] at hcount
    have hnone : Expansion.callCount (ms.map NamedMacro.name) none u = 0 := by omega
    have hsame : Swept expand mode m active none u u := .refl hm hnone
    show Expansion.sweepAll expand mode active (m :: ks) u = _
    rw [Expansion.sweepAll, hsame.sweepCalls_eq 0]
    rfl

end Expansion

namespace Definitions

open Expansion

variable {d : Definitions} {mode : Substitution} {m : NamedMacro} {before after : List NamedMacro}

/-- At every depth and under all active macros, an entry that is shadowed has no effect. -/
theorem expandWithin_erase_shadowed (hn : d.WellNamed)
    (hc : ∀ k ∈ d.macros, ClosedInstances mode k) (hm : d.macros = before ++ m :: after)
    (hlater : m.name ∈ after.map NamedMacro.name) (depth : Nat) :
    expandWithin ⟨d.constants, before ++ after⟩ mode depth = d.expandWithin mode depth := by
  have hsplit : d.macros.reverse = after.reverse ++ m :: before.reverse := by
    rw [hm]
    simp only [List.reverse_append, List.reverse_cons, List.append_assoc, List.singleton_append]
  have hall := closedInstances_reverse hc
  rw [hsplit] at hall
  have hname : m.name ∈ after.reverse.map NamedMacro.name := by
    rw [List.map_reverse]
    exact List.mem_reverse.2 hlater
  induction depth with
  | zero => rfl
  | succ depth ih =>
    funext active t
    have hs := settles_of_closedInstances hn hc depth
    have hsweeps :
        sweepAll (d.expandWithin mode depth) mode active (after.reverse ++ m :: before.reverse) t =
          sweepAll (d.expandWithin mode depth) mode active (after.reverse ++ before.reverse) t :=
      hs.sweepAll_eq_of_mem hn.macroNames (fun k hk => hall k (List.mem_append_left _ hk)) hname
        before.reverse t
    show sweepAll (expandWithin ⟨d.constants, before ++ after⟩ mode depth) mode active
        (before ++ after).reverse t =
      sweepAll (d.expandWithin mode depth) mode active d.macros.reverse t
    rw [ih, hsplit, hsweeps, List.reverse_append]

/-- **The later declaration of a macro wins.**  Where the instances of all bodies are closed,
removing an entry that a later entry of the same name follows changes no result, be it a text or an
error. -/
theorem expandMacros_erase_shadowed {source : Text} (hd : Definitions.ofSource source = .ok d)
    (hm : d.macros = before ++ m :: after) (hlater : m.name ∈ after.map NamedMacro.name)
    (hc : ∀ k ∈ d.macros, ClosedInstances mode k) (depth : Nat) (t : Text) :
    expandMacros ⟨d.constants, before ++ after⟩ mode depth t = d.expandMacros mode depth t := by
  have hsame := expandWithin_erase_shadowed (wellNamed_ofSource hd) hc hm hlater depth
  exact congrFun (congrFun hsame []) t

/-! ### Two tables -/

/-- An expression that joins a closed text to its end gives closed texts. -/
theorem closedInstances_of_add_str {c : Computed} {l : Expr} {s : Text}
    (he : c.expr = .binary .add l (.str s)) (hs : Closed s) (n : Text) :
    ClosedInstances mode ⟨n, .computed c⟩ := by
  intro values body h
  rw [Macro.expand, Computed.expand, map_eq_ok] at h
  obtain ⟨v, hv, rfl⟩ := h
  rw [he] at hv
  cases hl : Expr.eval (Computed.scope (Macro.bind (.computed c) values)) l with
  | error e =>
    simp only [Expr.eval, hl, bind, Except.bind] at hv
    cases hv
  | ok w =>
    simp only [Expr.eval, hl, bind, Except.bind] at hv
    cases w with
    | str a =>
      cases hv
      exact hs.append_left a
    | int i => cases hv
    | float x => cases hv
    | bool b => cases hv

/-- A macro that is declared twice, and an expression in between. -/
def redeclared : Definitions :=
  ⟨[], [⟨"WRAP".toList, .template ⟨["x".toList], "(x)".toList⟩⟩,
    ⟨"TWICE".toList, .computed ⟨["n".toList], "'(' + str(n * 2) + ')'".toList,
      .binary .add (.binary .add (.str "(".toList)
        (.call "str".toList [.binary .mul (.name "n".toList) (.int 2)])) (.str ")".toList)⟩⟩,
    ⟨"WRAP".toList, .template ⟨["x".toList], "[x]".toList⟩⟩]⟩

theorem closedInstances_redeclared (mode : Substitution) :
    ∀ k ∈ redeclared.macros, ClosedInstances mode k := by
  have hbody : ∀ t : Template, t.params = ["x".toList] → Closed t.body →
      ClosedInstances mode ⟨"WRAP".toList, .template t⟩ := by
    intro t hparams hclosed
    refine ClosedBody.closedInstances ⟨t, rfl, hclosed, ?_⟩ mode
    rw [hparams]
    simp [isNameChar]
  intro k hk
  simp only [redeclared, List.mem_cons, List.not_mem_nil, or_false] at hk
  rcases hk with rfl | rfl | rfl
  · exact hbody _ rfl (by decide)
  · exact closedInstances_of_add_str rfl (by decide) _
  · exact hbody _ rfl (by decide)

/-- The macro with round brackets can be removed: the one with square brackets counts. -/
theorem expandMacros_erase_shadowed_redeclared :
    Definitions.ofSource ("macro WRAP(x) = (x);\npython macro TWICE(n) = '(' + str(n * 2) + ')';\n" ++
      "macro WRAP(x) = [x];").toList = .ok redeclared ∧
    redeclared.macros = [] ++ ⟨"WRAP".toList, .template ⟨["x".toList], "(x)".toList⟩⟩ ::
      redeclared.macros.tail ∧
    "WRAP".toList ∈ redeclared.macros.tail.map NamedMacro.name ∧
    (∀ k ∈ redeclared.macros, ClosedInstances .token k) ∧
    redeclared.expandMacros .token 3 "WRAP(TWICE(3))".toList = .ok "[(6)]".toList ∧
    expandMacros ⟨redeclared.constants, [] ++ redeclared.macros.tail⟩ .token 3
        "WRAP(TWICE(3))".toList =
      redeclared.expandMacros .token 3 "WRAP(TWICE(3))".toList := by
  have hd : Definitions.ofSource
      ("macro WRAP(x) = (x);\npython macro TWICE(n) = '(' + str(n * 2) + ')';\n" ++
        "macro WRAP(x) = [x];").toList = .ok redeclared := by cbv
  have hm : redeclared.macros = [] ++ ⟨"WRAP".toList, .template ⟨["x".toList], "(x)".toList⟩⟩ ::
    redeclared.macros.tail := rfl
  have hlater : "WRAP".toList ∈ redeclared.macros.tail.map NamedMacro.name := by decide
  have hc := closedInstances_redeclared .token
  have hout : redeclared.expandMacros .token 3 "WRAP(TWICE(3))".toList =
    .ok "[(6)]".toList := by decide +kernel
  exact ⟨hd, hm, hlater, hc, hout, expandMacros_erase_shadowed hd hm hlater hc 3 _⟩

/-- A macro that is declared twice, with one in between whose body is its name. -/
def rejoining : Definitions :=
  ⟨[], [⟨"M".toList, .template ⟨["x".toList], "first(x)".toList⟩⟩,
    ⟨"A".toList, .template ⟨[], "M".toList⟩⟩,
    ⟨"M".toList, .template ⟨["x".toList], "second(x)".toList⟩⟩]⟩

/-- **An earlier declaration that counts.**  The expansion of `A()` and what follows it make a call,
which the sweep over the later declaration cannot have found. -/
theorem expandMacros_rejoined :
    Definitions.ofSource "macro M(x) = first(x);\nmacro A() = M;\nmacro M(x) = second(x);".toList =
      .ok rejoining ∧
    rejoining.macros = [] ++ ⟨"M".toList, .template ⟨["x".toList], "first(x)".toList⟩⟩ ::
      rejoining.macros.tail ∧
    "M".toList ∈ rejoining.macros.tail.map NamedMacro.name ∧
    ∀ mode, rejoining.expandMacros mode 3 "A()(1)".toList = .ok "first(1)".toList ∧
      expandMacros ⟨rejoining.constants, [] ++ rejoining.macros.tail⟩ mode 3 "A()(1)".toList =
        .ok "M(1)".toList := by
  refine ⟨rfl, rfl, by decide, fun mode => ?_⟩
  cases mode
  · exact ⟨by cbv, by cbv⟩
  · exact ⟨by cbv, by cbv⟩

end Definitions

end ScriptEmbed
