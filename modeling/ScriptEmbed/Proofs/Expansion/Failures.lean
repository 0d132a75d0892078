import Mathlib
import ScriptEmbed.Proofs.Definitions.Tables
import ScriptEmbed.Proofs.Expansion.Sweep
import ScriptEmbed.Proofs.Expr.Scoped

/-!
# What an expansion fails with

A failure of an expansion comes from one call of one macro, perhaps inside the expansion of others.
`Definitions.Fault` lists the kinds of failure with what is known where each of them arises.  Laws on
failures are proved by induction on it, without the engine.

* `Definitions.Fault` — the failures that an expansion under given active macros can have;
* `Definitions.fault_of_expandWithin` — **an expansion fails with one of these**;
* `Definitions.expand_ne_unknown` — **expansion under tables that were read from a file never fails
  for an unknown name or function**.
-/

namespace ScriptEmbed

open Expansion

namespace Definitions

/-- `d.Fault mode active e`: with the macros in `active` active, an expansion can fail with `e`. -/
inductive Fault (d : Definitions) (mode : Substitution) : List Text → Stop → Prop
  | tooDeep {active : List Text} : Fault d mode active .tooDeep
  | recursion {active : List Text} {m : NamedMacro} : m ∈ d.macros → m.name ∈ active →
      Fault d mode active (.failed (.recursion m.name (active ++ [m.name])))
  | unterminated {active : List Text} {m : NamedMacro} {offset : Nat} :
      m ∈ d.macros → m.name ∉ active →
      Fault d mode active (.failed (.unterminated m.name offset))
  | arity {active : List Text} {m : NamedMacro} {n : Nat} :
      m ∈ d.macros → m.name ∉ active → n ≠ m.body.params.length →
      Fault d mode active (.failed (.arity m.name m.body.params.length n))
  | evaluation {active values : List Text} {m : NamedMacro} {cause : EvalError} :
      m ∈ d.macros → m.name ∉ active → values.length = m.body.params.length →
      m.body.expand mode values = .error cause →
      Fault d mode active (.failed (.evaluation m.name cause))
  /-- The failure arises in the expansion of the body of a macro. -/
  | nested {active : List Text} {m : NamedMacro} {e : Stop} :
      m ∈ d.macros → m.name ∉ active → Fault d mode (active ++ [m.name]) e →
      Fault d mode active e

variable {d : Definitions} {mode : Substitution} {expand : List Text → Text → Except Stop Text}
  {active : List Text} {m : NamedMacro} {e : Stop}

/-- One call fails for a reason of its own, or in an expansion that it asks for. -/
theorem fault_of_expandCall
    (hexpand : ∀ {active t e}, expand active t = .error e → d.Fault mode active e)
    (hm : m ∈ d.macros) (ha : m.name ∉ active) {args : List Text}
    (h : expandCall expand mode m active args = .error e) : d.Fault mode active e := by
  rcases expandCall_eq_error h with ⟨hn, rfl⟩ | ⟨t, -, ht⟩ | ⟨values, cause, hn, hcause, rfl⟩ |
    ⟨values, body, -, -, hbody⟩
  · exact .arity hm ha hn
  · exact hexpand ht
  · exact .evaluation hm ha hn hcause
  · exact .nested hm ha (hexpand hbody)

theorem fault_of_stopped
    (hexpand : ∀ {active t e}, expand active t = .error e → d.Fault mode active e)
    (hm : m ∈ d.macros) {before : Option Char} {offset : Nat} {t : Text}
    (h : Stopped expand mode m active before offset t e) : d.Fault mode active e := by
  induction h with
  | copy _ _ ih => exact ih
  | recursion _ ha => exact .recursion hm ha
  | unterminated _ ha _ => exact .unterminated hm ha
  | call _ ha _ hcall => exact fault_of_expandCall hexpand hm ha hcall
  | later _ _ _ _ _ ih => exact ih

theorem fault_of_sweepAll
    (hexpand : ∀ {active t e}, expand active t = .error e → d.Fault mode active e)
    {ms : List NamedMacro} (hms : ∀ m ∈ ms, m ∈ d.macros) {t : Text}
    (h : sweepAll expand mode active ms t = .error e) : d.Fault mode active e := by
  induction ms generalizing t with
  | nil => cases h
  | cons m ms ih =>
    obtain ⟨hm, hms⟩ := List.forall_mem_cons.1 hms
    rw [sweepAll] at h
    split at h
    · rename_i e' hsweep
      cases h
      exact fault_of_stopped hexpand hm (stopped_of_sweepCalls hsweep)
    · exact ih hms h

/-- **An expansion fails with one of the listed failures.** -/
theorem fault_of_expandWithin {depth : Nat} {t : Text}
    (h : d.expandWithin mode depth active t = .error e) : d.Fault mode active e := by
  induction depth generalizing active t e with
  | zero =>
    cases h
    exact .tooDeep
  | succ depth ih => exact fault_of_sweepAll ih (fun m hm => List.mem_reverse.1 hm) h

/-! ### Unknown names -/

/-- The expressions of all computed macros are scoped. -/
def Scoped (d : Definitions) : Prop :=
  ∀ m ∈ d.macros, ∀ c, m.body = .computed c → c.expr.Scoped c.params

/-- The names in expressions were checked when the file was read. -/
theorem scoped_ofSource {source : Text} (h : ofSource source = .ok d) : d.Scoped := by
  rintro m hm c hc
  have hentry : Sum.inr m ∈ d.entries :=
    List.mem_append_right _ (List.mem_map_of_mem hm)
  obtain ⟨t, -, hdeclares⟩ := exists_declares_of_mem h hentry
  cases hdeclares with
  | template _ _ => cases hc
  | computed _ _ hcompile =>
    cases hc
    obtain ⟨-, rfl, -, -, hcheck⟩ := Computed.compile_eq_ok_iff.1 hcompile
    exact Expr.checkNames_eq_ok_iff.1 hcheck

/-- A failed evaluation does not fail for an unknown name. -/
theorem Fault.isUnknown_eq_false (hd : d.Scoped) {n : Text} {cause : EvalError}
    (h : d.Fault mode active (.failed (.evaluation n cause))) : cause.isUnknown = false := by
  generalize he : Stop.failed (.evaluation n cause) = e at h
  induction h with
  | evaluation hm _ hvalues hexpand =>
    cases he
    exact Macro.known_expand (hd _ hm) hvalues _ hexpand
  | nested _ _ _ ih => exact ih he
  | _ => cases he

/-- **Expansion never fails for an unknown name or function** under tables that were read from a
file: the names were checked when the macros were defined, and a call binds every parameter. -/
theorem expand_ne_unknown {source : Text} (h : ofSource source = .ok d) (mode : Substitution)
    (depth : Nat) (t n x : Text) :
    d.expand mode depth t ≠ .error (.failed (.evaluation n (.unknownName x))) ∧
      d.expand mode depth t ≠ .error (.failed (.evaluation n (.unknownFunction x))) := by
  have hknown : ∀ cause, d.expand mode depth t = .error (.failed (.evaluation n cause)) →
      cause.isUnknown = false := fun cause hcause =>
    (fault_of_expandWithin hcause).isUnknown_eq_false (scoped_ofSource h)
  exact ⟨fun hname => (nomatch hknown _ hname), fun hfunction => (nomatch hknown _ hfunction)⟩

/-- A computed macro that adds one to its argument. -/
def incrementing : Definitions :=
  ⟨[], [⟨"INC".toList,
    .computed ⟨[['x']], "x + 1".toList, .binary .add (.name ['x']) (.int 1)⟩⟩]⟩

/-- An evaluation can fail, here inside an argument, but not for the name of the parameter. -/
theorem expand_ne_unknown_argument :
    ofSource "python macro INC(x) = x + 1;".toList = .ok incrementing ∧
      incrementing.expand .token 5 "INC(INC(a))".toList = .error (.failed (.evaluation "INC".toList
        (.unsupportedOperands (.binary .add) .str .int))) ∧
      incrementing.expand .token 5 "INC(INC(a))".toList ≠
        .error (.failed (.evaluation "INC".toList (.unknownName ['x']))) ∧
      incrementing.expand .token 5 "INC(INC(a))".toList ≠
        .error (.failed (.evaluation "INC".toList (.unknownFunction ['x']))) := by
  have h : ofSource "python macro INC(x) = x + 1;".toList = .ok incrementing := by cbv
  exact ⟨h, by cbv, expand_ne_unknown h .token 5 "INC(INC(a))".toList "INC".toList ['x']⟩

end Definitions

end ScriptEmbed
