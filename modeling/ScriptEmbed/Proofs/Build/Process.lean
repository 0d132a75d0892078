import Mathlib
import ScriptEmbed.Build.Pipeline
import ScriptEmbed.Proofs.Comments.Bare

/-!
# Processed modules

A module is checked before its comments are taken out, and the check takes them out on its own.  So
the text that is embedded is checked as it stands only if taking comments out a second time changes
nothing.

* `Pipeline.process_eq_ok_iff` — what a module becomes;
* `Pipeline.validate_process` — **an embedded text is accepted by the validator that admitted its
  module**, where the expanded text has a clear last line;
* `Pipeline.process_uncovers` — where it has not, a forbidden construct may come out of a comment.
-/

namespace ScriptEmbed

namespace Pipeline

open Comments Text

variable {p : Pipeline} {t file out : Text}

/-- A module becomes its expanded text, if that is accepted, with or without its comments. -/
theorem process_eq_ok_iff :
    p.process t file = .ok out ↔
      ∃ expanded, p.definitions.expand p.substitution p.depth t = .ok expanded ∧
        p.validator.validate expanded file = .ok () ∧
        (if p.stripsComments then stripComments expanded else expanded) = out := by
  rw [process]
  cases p.definitions.expand p.substitution p.depth t with
  | error e => simp
  | ok expanded =>
    cases hv : p.validator.validate expanded file with
    | error e => simp [hv]
    | ok _ => simp [hv]

/-- **An embedded text is accepted by the validator that admitted its module**, if, where comments
are taken out, no closed block stands right behind a slash in the last line of the expanded text. -/
theorem validate_process (h : p.process t file = .ok out)
    (hclear : p.stripsComments = true → ∀ expanded,
      p.definitions.expand p.substitution p.depth t = .ok expanded → Clear (lastLine expanded)) :
    p.validator.validate out file = .ok () := by
  obtain ⟨expanded, hexpanded, hvalid, hout⟩ := process_eq_ok_iff.1 h
  cases hstrips : p.stripsComments with
  | false =>
    rw [hstrips, if_neg Bool.false_ne_true] at hout
    rw [← hout]
    exact hvalid
  | true =>
    -- the validator would take the comments out once more
    have hagain := stripComments_stripComments (hclear hstrips expanded hexpanded)
    rw [hstrips, if_pos rfl] at hout
    rw [← hout, Validator.validate, hagain]
    exact hvalid

/-- A table with one constant. -/
def limited : Definitions := ⟨[⟨"kLimit".toList, "8".toList⟩], []⟩

/-- The standard settings, with comments taken out. -/
def stripping : Config := { Config.standard with stripComments := true }

/-- In the last line, a block goes and a line comment stays, even with a block that is not closed. -/
theorem validate_process_limited :
    ∃ p, ofConfig limited stripping = .ok p ∧
      p.process "f(kLimit); // eval()\n/* eval() */ g(); // see //*x".toList "a.js".toList =
        .ok "f(8);\n g(); // see //*x".toList ∧
      p.validator.validate "f(8);\n g(); // see //*x".toList "a.js".toList = .ok () := by
  refine ⟨_, rfl, ?_, ?_⟩
  · decide +kernel
  · refine validate_process
      (t := "f(kLimit); // eval()\n/* eval() */ g(); // see //*x".toList) (by decide +kernel) ?_
    intro _ expanded hexpanded
    have hline : Except.map lastLine (limited.expand .substring defaultDepth
        "f(kLimit); // eval()\n/* eval() */ g(); // see //*x".toList) =
      .ok "/* eval() */ g(); // see //*x".toList := by decide +kernel
    have hlast : lastLine expanded = "/* eval() */ g(); // see //*x".toList := by
      rw [show limited.expand .substring defaultDepth _ = .ok expanded from hexpanded] at hline
      exact Except.ok.inj hline
    rw [hlast]
    simp [Clear, behind_cons_iff, behind_nil, afterClose?]

/-- **A forbidden construct that comes out of a comment.**  The text is accepted, because nothing but
a block comment is left between the name and the bracket; what is embedded is refused. -/
theorem process_uncovers :
    ∃ p, ofConfig ⟨[], []⟩ stripping = .ok p ∧
      p.process "eval//**/**/(1)".toList "a.js".toList = .ok "eval/**/(1)".toList ∧
      p.validator.validate "eval/**/(1)".toList "a.js".toList =
        .error (.forbidden "a.js".toList "Eval disallowed in natives".toList) := by
  refine ⟨_, rfl, ?_, ?_⟩
  · decide +kernel
  · decide +kernel

end Pipeline

end ScriptEmbed
