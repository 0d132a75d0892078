import Mathlib
import ScriptEmbed.Config.Basic
import ScriptEmbed.Proofs.Text.Pieces

/-!
# Names in a checked configuration

The check of a configuration looks at the two names that a generated file takes from it.  Both are made
of identifiers, which start with an ASCII letter or a low line and go on with word characters of any
script.  So a name that passes has no quote, no blank and no line end in it, but it need not be ASCII.

* `Validator.exists_ofRules_eq_ok_iff` — rules make a validator when their patterns can be read;
* `Config.check_eq_ok_iff` — what the check asks for, and `Config.check_standard`;
* `Config.isWord_of_isIdentifier`, `Config.isWord_of_isNamespace` — the characters of the names.
-/

namespace ScriptEmbed

/-- Rules make a validator when each of their patterns can be read. -/
theorem Validator.exists_ofRules_eq_ok_iff {pattern? : PatternReader} {rules : List Rule} :
    (∃ v, ofRules rules pattern? = .ok v) ↔ ∀ r ∈ rules, ∃ p, pattern? r.pattern = some p := by
  induction rules with
  | nil => exact iff_of_true ⟨_, rfl⟩ fun r hr => absurd hr List.not_mem_nil
  | cons r rest ih =>
    rw [List.forall_mem_cons, ← ih]
    cases hp : pattern? r.pattern with
    | none => simp [ofRules, hp]
    | some p =>
      cases hrest : ofRules rest pattern? with
      | error e => simp [ofRules, hp, hrest]
      | ok v => simp [ofRules, hp, hrest]

namespace Config

open Text

variable {c : Config} {pattern? : PatternReader} {x : Char} {t : Text} {ps : List Text}

/-- A configuration passes when the definitions file, the namespace and the array can be named so, and
the patterns of all rules can be read. -/
theorem check_eq_ok_iff : c.check pattern? = .ok () ↔
    c.macrosFileName ≠ [] ∧ isNamespace c.namespaceName = true ∧ isArrayName c.arrayName = true ∧
      ∀ r ∈ c.forbidden, ∃ p, pattern? r.pattern = some p := by
  rw [← Validator.exists_ofRules_eq_ok_iff, ← validator, check]
  split_ifs with hfile hspace harray
  · simp [List.isEmpty_iff.1 hfile]
  · rw [Bool.not_eq_true'] at hspace
    simp [hspace]
  · rw [Bool.not_eq_true'] at harray
    simp [harray]
  · have hne : c.macrosFileName ≠ [] := fun h => hfile (List.isEmpty_iff.2 h)
    rw [Bool.not_eq_true', Bool.not_eq_false] at hspace harray
    cases hv : c.validator pattern? with
    | error e => simp
    | ok v => simp [hne, hspace, harray]

/-- What applies where nothing is given passes. -/
theorem check_standard : standard.check = .ok () := rfl

/-- An identifier is made of word characters. -/
theorem isWord_of_isIdentifier (h : isIdentifier t = true) (hx : x ∈ t) : isWord x = true := by
  cases t with
  | nil => cases hx
  | cons a t =>
    rw [isIdentifier, Bool.and_eq_true, Bool.or_eq_true, List.all_eq_true] at h
    rcases List.mem_cons.1 hx with rfl | hx
    · refine isWord_of_isNameChar ?_
      rw [isNameChar, Char.isAlphanum, Bool.or_eq_true, Bool.or_eq_true]
      exact h.1.imp_left .inl
    · exact h.2 x hx

/-- Between single colons stand identifiers, and nothing between the two of a pair. -/
theorem isIdentifier_of_isQualified (h : isQualified ps = true) (ht : t ∈ ps) (hne : t ≠ []) :
    isIdentifier t = true := by
  fun_induction isQualified ps with
  | case1 p => exact List.mem_singleton.1 ht ▸ h
  | case2 p rest ih =>
    rw [Bool.and_eq_true] at h
    rcases List.mem_cons.1 ht with rfl | ht
    · exact h.1
    · rcases List.mem_cons.1 ht with rfl | ht
      · exact absurd rfl hne
      · exact ih h.2 ht
  | case3 => cases h

/-- A namespace is made of colons and word characters. -/
theorem isWord_of_isNamespace (h : isNamespace t = true) (hx : x ∈ t) : x = ':' ∨ isWord x = true := by
  rcases eq_or_mem_pieces ':' hx with rfl | ⟨p, hp, hx⟩
  · exact .inl rfl
  · exact .inr (isWord_of_isIdentifier
      (isIdentifier_of_isQualified h hp (List.ne_nil_of_mem hx)) hx)

theorem isWord_of_isArrayName (h : isArrayName t = true) (hx : x ∈ t) : isWord x = true :=
  isWord_of_isIdentifier (Bool.and_eq_true _ _ ▸ h).1 hx

/-- A name of two parts, with letters that are not ASCII. -/
example : isNamespace "lib::größe".toList = true ∧ isNamespace "lib:größe".toList = false := by
  decide +kernel

end Config

end ScriptEmbed
