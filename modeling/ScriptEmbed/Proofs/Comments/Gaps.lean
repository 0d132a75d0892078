import Mathlib
import ScriptEmbed.Proofs.Comments.Trailing

/-!
# What is left of a text

Stripping only ever takes characters out, and what it leaves has no blank right before a line end and
no line comment that ends with its line.  In a text without comments it takes out nothing but blanks,
and never all that stand between two characters: those that were apart stay apart, and none are put
apart.

* `Text.ink` — the characters that are not blank, in their order;
* `Text.Gap`, `Text.Parted` — what stands between one of them and the next;
* `Comments.gap_stripTrailing_iff` — the third pass squeezes each gap;
* `Comments.stripComments_leaves` — **what stripping guarantees**.
-/

namespace ScriptEmbed

namespace Text

/-- The characters that are not blank. -/
def ink (t : Text) : Text := t.filter fun c => !isBlank c

/-- Between a character that is not blank, with `n` of its kind before it, and the next one of its
kind stand the blanks `gap`. -/
def Gap (n : Nat) (gap t : Text) : Prop :=
  ∃ x c d y, t = x ++ c :: (gap ++ d :: y) ∧ isBlank c = false ∧ isBlank d = false ∧
    (∀ e ∈ gap, isBlank e = true) ∧ (ink x).length = n

/-- A character that is not blank, with `n` of its kind before it, is set apart from the next. -/
def Parted (n : Nat) (t : Text) : Prop := ∃ gap, gap ≠ [] ∧ Gap n gap t

variable {t : Text}

theorem ink_append (s t : Text) : ink (s ++ t) = ink s ++ ink t := List.filter_append s t

theorem ink_eq_nil_iff : ink t = [] ↔ ∀ c ∈ t, isBlank c = true := by
  simp [ink]

end Text

namespace Comments

open Text

variable {n : Nat} {gap left t : Text}

/-! ### Squeezed gaps -/

theorem squeeze_nil : squeeze [] = [] := rfl

/-- A text of blanks is a single run, if it is not empty. -/
theorem stripTrailing_of_blank (hgap : ∀ e ∈ gap, isBlank e = true) :
    stripTrailing gap = squeeze gap := by
  by_cases hne : gap = []
  · rw [hne]
    exact stripTrailing_nil
  · have happend := stripTrailing_append (u := []) hne hgap fun e he => by cases he
    rwa [stripTrailing_nil, List.append_nil, List.append_nil] at happend

/-- The pass takes out nothing but blanks. -/
theorem ink_stripTrailing (t : Text) : ink (stripTrailing t) = ink t := by
  fun_induction stripTrailing t with
  | case1 => rfl
  | case2 c rest hc ih =>
    have hrun := isBlank_run hc rest
    have hleft : ink (squeeze (c :: rest.takeWhile isBlank)) = [] :=
      ink_eq_nil_iff.2 fun d hd => hrun d ((squeeze_suffix _).subset hd)
    rw [ink_append, ih, hleft, eq_run_append c rest, ink_append, ink_eq_nil_iff.2 hrun]
  | case3 c rest hc ih =>
    show ink ([c] ++ stripTrailing rest) = ink ([c] ++ rest)
    rw [ink_append, ink_append, ih]

/-- The gaps of what is left are those of the text, each squeezed. -/
theorem gap_stripTrailing_iff :
    Gap n left (stripTrailing t) ↔ ∃ gap, Gap n gap t ∧ squeeze gap = left := by
  constructor
  · intro h
    obtain ⟨a, c, d, b, hab, hc, hd, hleft, hn⟩ := h
    obtain ⟨x, y, rfl, rfl, hy⟩ := stripTrailing_split hc hab
    obtain ⟨gap, z, rfl, rfl, rfl⟩ := stripTrailing_split hd hy
    -- the pass takes out blanks only, so that what is blank behind it was blank before
    have hgap : ∀ e ∈ gap, isBlank e = true := by
      rw [← ink_eq_nil_iff, ← ink_stripTrailing, ink_eq_nil_iff]
      exact hleft
    rw [ink_stripTrailing] at hn
    exact ⟨gap, ⟨x, c, d, z, rfl, hc, hd, hgap, hn⟩, (stripTrailing_of_blank hgap).symm⟩
  · intro h
    obtain ⟨gap, ⟨x, c, d, y, rfl, hc, hd, hgap, hn⟩, rfl⟩ := h
    refine ⟨stripTrailing x, c, d, stripTrailing y, ?_, hc, hd, ?_, ?_⟩
    · rw [stripTrailing_append_cons hc, stripTrailing_append_cons hd, stripTrailing_of_blank hgap]
    · exact fun e he => hgap e ((squeeze_suffix gap).subset he)
    · rw [ink_stripTrailing, hn]

/-- No gap is closed, and none is made. -/
theorem parted_stripTrailing_iff : Parted n (stripTrailing t) ↔ Parted n t := by
  constructor
  · intro h
    obtain ⟨left, hne, hleft⟩ := h
    obtain ⟨gap, hgap, rfl⟩ := gap_stripTrailing_iff.1 hleft
    refine ⟨gap, ?_, hgap⟩
    intro hempty
    rw [hempty] at hne
    exact hne squeeze_nil
  · intro h
    obtain ⟨gap, hne, hgap⟩ := h
    exact ⟨squeeze gap, squeeze_ne_nil hne, gap_stripTrailing_iff.2 ⟨gap, hgap, rfl⟩⟩

/-! ### All three passes -/

theorem stripComments_sublist (t : Text) : (stripComments t).Sublist t :=
  ((stripTrailing_sublist _).trans (stripBlock_sublist _)).trans (stripLine_sublist t)

/-- Where neither two slashes nor the opening of a block stand, only the third pass does anything. -/
theorem stripComments_of_not_opened (hline : ¬ ['/', '/'] <:+: t) (hblock : ¬ ['/', '*'] <:+: t) :
    stripComments t = stripTrailing t := by
  rw [stripComments, stripLine_eq_self (behind_of_not_adjacent hline),
    stripBlock_eq_self (behind_of_not_adjacent hblock)]

/-- **What stripping guarantees.**  It takes characters out, leaves no blank right before a line end,
and leaves no two slashes with a line end anywhere behind them.  Where there is neither a line comment
nor a block comment to begin with, all characters that are not blank stay in their order, and each is
set apart from the next if and only if it was before. -/
theorem stripComments_leaves (t : Text) :
    (stripComments t).Sublist t ∧ NoTrailing (stripComments t) ∧ NoLine (stripComments t) ∧
    (¬ ['/', '/'] <:+: t → ¬ ['/', '*'] <:+: t →
      ink (stripComments t) = ink t ∧ ∀ n, Parted n (stripComments t) ↔ Parted n t) := by
  refine ⟨stripComments_sublist t, noTrailing_stripTrailing _, ?_, ?_⟩
  · exact noLine_stripTrailing (noLine_stripBlock (noLine_stripLine t))
  · intro hline hblock
    rw [stripComments_of_not_opened hline hblock]
    exact ⟨ink_stripTrailing t, fun n => parted_stripTrailing_iff⟩

/-- A text without comments, with blanks before line ends and lines that hold nothing else. -/
def looseLines : Text := "f(a / b);  \n\t\n \n\tg( * );\n".toList

theorem stripComments_leaves_looseLines :
    ¬ ['/', '/'] <:+: looseLines ∧ ¬ ['/', '*'] <:+: looseLines ∧
    NoTrailing (stripComments looseLines) ∧ ink (stripComments looseLines) = ink looseLines ∧
    ∀ n, Parted n (stripComments looseLines) ↔ Parted n looseLines := by
  have hline : ¬ ['/', '/'] <:+: looseLines := by decide
  have hblock : ¬ ['/', '*'] <:+: looseLines := by decide
  obtain ⟨-, htrailing, -, hkept⟩ := stripComments_leaves looseLines
  exact ⟨hline, hblock, htrailing, hkept hline hblock⟩

end Comments

end ScriptEmbed
