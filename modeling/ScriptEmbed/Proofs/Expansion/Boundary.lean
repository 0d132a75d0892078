import Mathlib.Tactic
import ScriptEmbed.Expansion.Invocations
import ScriptEmbed.Proofs.Definitions.Names
import ScriptEmbed.Proofs.Text.Substitution

/-!
# Names at a place of a text

Whether a constant occurs at a place, or a macro is called there, is decided by the character before
the place and by the text from the place on.  This file says how much of either counts.

* `lastOr_append`, `lastOr_of_ne_nil` — the character before a place, moved along a text;
* `occursAt_append_cons`, `calledAt_append_cons` — **a name, or a call, is not found across a
  character that is no word character**;
* `occursAt_congr`, `calledAt_congr` — of the character before, only its being a word character
  counts.
-/

namespace ScriptEmbed

namespace Text

/-- Where a character ends what is sought and is nowhere else in it, nothing behind the character
counts. -/
theorem isPrefixOf_concat_append_cons {old t r : Text} {s : Char} (h : s ∉ old) :
    (old ++ [s]).isPrefixOf (t ++ s :: r) = (old ++ [s]).isPrefixOf (t ++ [s]) := by
  induction old generalizing t with
  | nil =>
    cases t with
    | nil => simp
    | cons b t => simp [List.isPrefixOf_cons_cons]
  | cons a old ih =>
    rw [List.mem_cons, not_or] at h
    obtain ⟨ha, hold⟩ := h
    cases t with
    | nil => simp [List.isPrefixOf_cons_cons, Ne.symm ha]
    | cons b t =>
      simp only [List.cons_append, List.isPrefixOf_cons_cons, ih hold]

theorem isWordSide_of_not_isWord {s : Char} (hs : isWord s = false) :
    isWordSide (some s) = isWordSide none := hs

theorem isBoundary_congr {l l' r r' : Option Char} (hl : isWordSide l = isWordSide l')
    (hr : isWordSide r = isWordSide r') : isBoundary l r = isBoundary l' r' := by
  rw [isBoundary, isBoundary, hl, hr]

/-- Past the end of a text, a character that is no word character counts like none. -/
theorem isWordSide_head?_append_cons {s : Char} (hs : isWord s = false) (t r : Text) :
    isWordSide (t ++ s :: r).head? = isWordSide t.head? := by
  cases t with
  | nil => exact hs
  | cons c t => rfl

end Text

theorem IsName.not_mem {n : Text} (hn : IsName n) {s : Char} (hs : Text.isWord s = false) :
    s ∉ n := by
  intro hmem
  rw [Text.isWord_of_isNameChar (hn.isNameChar s hmem)] at hs
  cases hs

namespace Expansion

/-! ### The character before a place -/

theorem lastOr_nil (before : Option Char) : lastOr before [] = before := rfl

theorem lastOr_of_ne_nil (before : Option Char) {t : Text} (h : t ≠ []) :
    lastOr before t = t.getLast? := by
  rw [lastOr, List.getLast?_eq_some_getLast h]
  rfl

theorem lastOr_append (before : Option Char) (s t : Text) :
    lastOr before (s ++ t) = lastOr (lastOr before s) t := by
  simp only [lastOr, List.getLast?_append, Option.or_assoc]

theorem lastOr_cons (before : Option Char) (c : Char) (t : Text) :
    lastOr before (c :: t) = lastOr (some c) t :=
  lastOr_append before [c] t

theorem isWordSide_lastOr_congr {b b' : Option Char} (h : Text.isWordSide b = Text.isWordSide b')
    (t : Text) : Text.isWordSide (lastOr b t) = Text.isWordSide (lastOr b' t) := by
  by_cases ht : t = []
  · rw [ht]
    exact h
  · rw [lastOr_of_ne_nil b ht, lastOr_of_ne_nil b' ht]

/-! ### Occurrences of a constant -/

theorem occursAt_congr {n : Text} {b b' : Option Char}
    (h : Text.isWordSide b = Text.isWordSide b') (t : Text) : occursAt n b t = occursAt n b' t := by
  rw [occursAt, occursAt, Text.isBoundary_congr h rfl]

theorem prefix_of_occursAt {n : Text} {before : Option Char} {t : Text}
    (h : occursAt n before t = true) : n <+: t := by
  rw [occursAt, Bool.and_eq_true, Bool.and_eq_true] at h
  exact List.isPrefixOf_iff_prefix.1 h.1.1

/-- A name is not found across a character that is no word character, nor does it see past it. -/
theorem occursAt_append_cons {n : Text} (hn : IsName n) {s : Char} (hs : Text.isWord s = false)
    (before : Option Char) (t r : Text) :
    occursAt n before (t ++ s :: r) = occursAt n before t := by
  rw [occursAt, occursAt, Text.isPrefixOf_append_cons (hn.not_mem hs)]
  cases hp : n.isPrefixOf t with
  | false => simp only [Bool.false_and]
  | true =>
    have hle := (List.isPrefixOf_iff_prefix.1 hp).length_le
    rw [List.drop_append_of_le_length hle,
      Text.isBoundary_congr rfl (Text.isWordSide_head?_append_cons hs t r),
      Text.isBoundary_congr rfl (Text.isWordSide_head?_append_cons hs (t.drop n.length) r)]

/-! ### Calls of a macro -/

theorem calledAt_congr {n : Text} {b b' : Option Char}
    (h : Text.isWordSide b = Text.isWordSide b') (t : Text) : calledAt n b t = calledAt n b' t := by
  rw [calledAt, calledAt, Text.isBoundary_congr h rfl]

theorem calledAt_nil (n : Text) (before : Option Char) : calledAt n before [] = false := by
  cases n <;> rfl

theorem prefix_of_calledAt {n : Text} {before : Option Char} {t : Text}
    (h : calledAt n before t = true) : n ++ ['('] <+: t := by
  rw [calledAt, Bool.and_eq_true] at h
  exact List.isPrefixOf_iff_prefix.1 h.1

theorem length_lt_of_calledAt {n : Text} {before : Option Char} {t : Text}
    (h : calledAt n before t = true) : n.length + 1 ≤ t.length := by
  have hle := (prefix_of_calledAt h).length_le
  rwa [List.length_append] at hle

/-- A call is not found across a character that is neither a word character nor the parenthesis. -/
theorem calledAt_append_cons {n : Text} (hn : IsName n) {s : Char} (hs : Text.isWord s = false)
    (hp : s ≠ '(') (before : Option Char) (t r : Text) :
    calledAt n before (t ++ s :: r) = calledAt n before t := by
  have hmem : s ∉ n ++ ['('] := by
    rw [List.mem_append, List.mem_singleton, not_or]
    exact ⟨hn.not_mem hs, hp⟩
  rw [calledAt, calledAt, Text.isPrefixOf_append_cons hmem,
    Text.isBoundary_congr rfl (Text.isWordSide_head?_append_cons hs t r)]

end Expansion

end ScriptEmbed
