import Mathlib
import ScriptEmbed.Proofs.Comments.Trailing

/-!
# Texts without comments

A text is bare when none of the three passes finds anything in it.  Stripping leaves a bare text as
it is, and nearly always gives one.  The exception is a last line in which a closed block opens right
behind a slash: its two slashes are not taken out, as no line end follows, but the block is, and the
slash that is left may then open a block together with what follows.

* `Comments.Bare` — no pass finds anything;
* `Comments.bare_stripComments` — what is left of a text with a clear last line is bare;
* `Comments.stripComments_stripComments` — such a text is stripped for good;
* `Comments.stripComments_idempotent` — **so is a text whose last line holds no two slashes**.
-/

namespace ScriptEmbed.Comments

open Text

variable {t : Text}

/-- None of the three passes finds anything. -/
structure Bare (t : Text) : Prop where
  noLine : NoLine t
  noBlock : NoBlock t
  noTrailing : stripTrailing t = t

/-- A bare text is left alone. -/
theorem Bare.stripComments_eq (h : Bare t) : stripComments t = t := by
  rw [stripComments, stripLine_eq_self h.noLine, stripBlock_eq_self h.noBlock, h.noTrailing]

/-- What is left of a text with a clear last line is bare. -/
theorem bare_stripComments (h : Clear (lastLine t)) : Bare (stripComments t) where
  noLine := noLine_stripTrailing (noLine_stripBlock (noLine_stripLine t))
  noBlock := noBlock_stripTrailing (noBlock_stripBlock (clear_stripLine h))
  noTrailing := stripTrailing_stripTrailing _

/-- A text with a clear last line is stripped for good. -/
theorem stripComments_stripComments (h : Clear (lastLine t)) :
    stripComments (stripComments t) = stripComments t :=
  (bare_stripComments h).stripComments_eq

/-- **A text whose last line holds no two slashes is stripped for good.**  None of the three passes
finds anything in what is left. -/
theorem stripComments_idempotent (h : ¬ ['/', '/'] <:+: lastLine t) :
    NoLine (stripComments t) ∧ NoBlock (stripComments t) ∧ NoTrailing (stripComments t) ∧
      stripComments (stripComments t) = stripComments t := by
  have hbare : Bare (stripComments t) := bare_stripComments (behind_of_not_adjacent h)
  exact ⟨hbare.noLine, hbare.noBlock, noTrailing_stripTrailing _, hbare.stripComments_eq⟩

/-- Openings and ends of comments that do not belong together. -/
def crossed : Text := "a /* b // */ c\n/*/ d */ e //* f\n*/ g /* h".toList

theorem stripComments_idempotent_crossed :
    ¬ ['/', '/'] <:+: lastLine crossed ∧
    stripComments (stripComments crossed) = stripComments crossed := by
  have h : ¬ ['/', '/'] <:+: lastLine crossed := by decide
  exact ⟨h, (stripComments_idempotent h).2.2.2⟩

/-- Where the last line is not clear, stripping may open a new comment. -/
example : stripComments "eval//**/**/(1)".toList = "eval/**/(1)".toList ∧
    stripComments "eval/**/(1)".toList = "eval(1)".toList := by
  constructor <;> cbv

end ScriptEmbed.Comments
