import Mathlib.Tactic
import ScriptEmbed.Macro.Template

/-!
# Where substitution cuts a text

Both ways of putting arguments into a body cut the body into a piece that is replaced and the text
after it.  This file names the cuts, and from them derives what a law that is kept by pieces needs.

* `Text.eq_append_drop_of_isPrefixOf` — the text at an occurrence is the occurrence and the rest;
* `Text.isPrefixOf_append_cons` — a text is not found across a character that it does not hold;
* `Text.replaceAll_of_ne_nil` — replacing a text that is not empty is replacing its occurrences;
* `Template.eq_gap_append` — a body without tokens is its first gap;
* `Template.eq_gap_append_token` — **any other body is a gap, a token and the rest**.
-/

namespace ScriptEmbed

namespace Text

theorem eq_append_drop_of_isPrefixOf {old : Text} {c : Char} {rest : Text} (hne : old ≠ [])
    (h : old.isPrefixOf (c :: rest) = true) : c :: rest = old ++ rest.drop (old.length - 1) := by
  obtain ⟨tail, htail⟩ := List.isPrefixOf_iff_prefix.1 h
  have hpos := List.length_pos_iff.2 hne
  have hdrop : rest.drop (old.length - 1) = tail := by
    rw [← List.drop_succ_cons (a := c), Nat.sub_add_cancel hpos, ← htail, List.drop_left]
  rw [hdrop, htail]

/-- A text is not found across a character that it does not hold. -/
theorem isPrefixOf_append_cons {old t r : Text} {s : Char} (h : s ∉ old) :
    old.isPrefixOf (t ++ s :: r) = old.isPrefixOf t := by
  induction old generalizing t with
  | nil => simp only [List.isPrefixOf_nil_left]
  | cons a old ih =>
    rw [List.mem_cons, not_or] at h
    obtain ⟨ha, hold⟩ := h
    cases t with
    | nil => simp [List.isPrefixOf_cons_cons, Ne.symm ha]
    | cons b t =>
      rw [List.cons_append, List.isPrefixOf_cons_cons, List.isPrefixOf_cons_cons, ih hold]

theorem replaceAll_of_ne_nil {old : Text} (hne : old ≠ []) (new t : Text) :
    replaceAll old new t = replaceOccurrences old new t := by
  rw [replaceAll, if_neg]
  rw [List.isEmpty_iff]
  exact hne

end Text

namespace Template

open Text

theorem eq_gap_append (body : Text) :
    body = (body.takeWhile fun c => !isNameChar c) ++ body.dropWhile fun c => !isNameChar c :=
  List.takeWhile_append_dropWhile.symm

/-- A body with a token: what stands before the first token, the token, and the rest. -/
theorem eq_gap_append_token {body : Text} {c : Char} {rest : Text}
    (h : (body.dropWhile fun c => !isNameChar c) = c :: rest) :
    body = (body.takeWhile fun c => !isNameChar c) ++ (c :: rest.takeWhile isNameChar) ++
        rest.dropWhile isNameChar ∧
      ∀ b ∈ c :: rest.takeWhile isNameChar, isNameChar b = true := by
  have hc : isNameChar c = true := by
    have hhead := List.head?_dropWhile_not (fun c => !isNameChar c) body
    rw [h] at hhead
    simpa using hhead
  constructor
  · conv_lhs => rw [eq_gap_append body, h,
      ← List.takeWhile_append_dropWhile (p := isNameChar) (l := rest), ← List.cons_append,
      ← List.append_assoc]
  · intro b hb
    rcases List.mem_cons.1 hb with rfl | hb
    · exact hc
    · exact List.all_eq_true.1 List.all_takeWhile b hb

end Template

end ScriptEmbed
