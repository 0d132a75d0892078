import ScriptEmbed.Expansion.Arguments
import ScriptEmbed.Proofs.Text.Substitution

/-!
# Balanced brackets

Brackets of all kinds count alike: an opening one adds to the level, a closing one takes from it.
A text is balanced when its level never falls below zero and is zero at the end.

* `level`, `Balanced` — the definition, by prefixes;
* `nesting?` — the level along a text from a given one, or nothing once it would fall below zero;
* `nesting?_eq_some_iff` — **the two agree**;
* `nesting?_append`, `nesting?_balanced_append` — a balanced text can be put in or taken out;
* `nesting?_trim`, `nesting?_replaceAll`, `nesting?_substituteTokens` — **the operations on texts
  keep the level**.
-/

namespace ScriptEmbed.Text

open Arguments

/-! ### Levels -/

/-- A bracket of any kind. -/
def isBracket (c : Char) : Bool := isOpening c || isClosing c

theorem isBracket_eq_false {c : Char} (ho : isOpening c = false) (hc : isClosing c = false) :
    isBracket c = false := by
  rw [isBracket, ho, hc]
  rfl

/-- No character of a class is a bracket when no bracket is in the class. -/
theorem isBracket_eq_false_of_all {p : Char → Bool}
    (hp : ['(', '[', '{', ')', ']', '}'].all (fun b => !p b) = true) {c : Char}
    (h : p c = true) : isBracket c = false := by
  by_contra hb
  rw [Bool.not_eq_false, isBracket, isOpening, isClosing] at hb
  have hmem : c ∈ ['(', '[', '{', ')', ']', '}'] := by
    simpa [or_assoc] using hb
  have hnot := List.all_eq_true.1 hp c hmem
  rw [h] at hnot
  cases hnot

/-- What a character adds to the level. -/
def bracketStep (c : Char) : Int :=
  if isOpening c then 1 else if isClosing c then -1 else 0

/-- Opening brackets less closing ones. -/
def level : Text → Int
  | [] => 0
  | c :: t => bracketStep c + level t

/-- No prefix closes more than it opens, and the text closes all that it opens. -/
def Balanced (t : Text) : Prop := (∀ p, p <+: t → 0 ≤ level p) ∧ level t = 0

/-- The level after a text that starts at level `n`, unless it falls below zero on the way. -/
def nesting? (n : Nat) : Text → Option Nat
  | [] => some n
  | c :: t =>
    if isOpening c then nesting? (n + 1) t
    else if isClosing c then
      match n with
      | 0 => none
      | n + 1 => nesting? n t
    else nesting? n t

@[simp] theorem nesting?_nil (n : Nat) : nesting? n [] = some n := by
  rw [nesting?.eq_def]

theorem nesting?_opening {c : Char} (h : isOpening c = true) (n : Nat) (t : Text) :
    nesting? n (c :: t) = nesting? (n + 1) t := by
  rw [nesting?.eq_def]
  simp only [h, if_true]

theorem nesting?_zero_closing {c : Char} (ho : isOpening c = false) (hc : isClosing c = true)
    (t : Text) : nesting? 0 (c :: t) = none := by
  rw [nesting?.eq_def]
  simp only [ho, hc, Bool.false_eq_true, if_false, if_true]

theorem nesting?_succ_closing {c : Char} (ho : isOpening c = false) (hc : isClosing c = true)
    (n : Nat) (t : Text) : nesting? (n + 1) (c :: t) = nesting? n t := by
  rw [nesting?.eq_def]
  simp only [ho, hc, Bool.false_eq_true, if_false, if_true]

theorem nesting?_other {c : Char} (h : isBracket c = false) (n : Nat) (t : Text) :
    nesting? n (c :: t) = nesting? n t := by
  rw [isBracket, Bool.or_eq_false_iff] at h
  rw [nesting?.eq_def]
  simp only [h, Bool.false_eq_true, if_false]

/-- The level along a text is the one that the prefixes count. -/
theorem nesting?_eq_some_iff {n k : Nat} {t : Text} :
    nesting? n t = some k ↔ (∀ p, p <+: t → 0 ≤ n + level p) ∧ n + level t = k := by
  induction t generalizing n with
  | nil => simp [level, List.prefix_nil]
  | cons c t ih =>
    -- a prefix of the whole is empty, or the first character with a prefix of the rest
    have hfront : (∀ p, p <+: c :: t → 0 ≤ n + level p) ↔
        ∀ p, p <+: t → 0 ≤ n + bracketStep c + level p := by
      constructor
      · intro h p hp
        have := h (c :: p) (List.cons_prefix_cons.2 ⟨rfl, hp⟩)
        rw [level] at this
        omega
      · intro h p hp
        rcases List.prefix_cons_iff.1 hp with rfl | ⟨q, rfl, hq⟩
        · simp [level]
        · have := h q hq
          rw [level]
          omega
    rw [hfront, level]
    by_cases ho : isOpening c = true
    · rw [nesting?_opening ho, ih, bracketStep, if_pos ho]
      push_cast
      simp only [Int.add_assoc]
    · have ho' := Bool.eq_false_iff.2 ho
      by_cases hc : isClosing c = true
      · rw [bracketStep, if_neg ho, if_pos hc]
        cases n with
        | zero =>
          rw [nesting?_zero_closing ho' hc]
          constructor
          · intro h
            cases h
          · rintro ⟨h, _⟩
            have := h [] (List.nil_prefix)
            simp [level] at this
        | succ n =>
          rw [nesting?_succ_closing ho' hc, ih]
          push_cast
          constructor
          · rintro ⟨h, hk⟩
            exact ⟨fun p hp => by have := h p hp; omega, by omega⟩
          · rintro ⟨h, hk⟩
            exact ⟨fun p hp => by have := h p hp; omega, by omega⟩
      · have hb := isBracket_eq_false ho' (Bool.eq_false_iff.2 hc)
        rw [nesting?_other hb, ih, bracketStep, if_neg ho, if_neg hc]
        simp only [Int.add_zero, Int.zero_add]

theorem balanced_iff {t : Text} : Balanced t ↔ nesting? 0 t = some 0 := by
  rw [nesting?_eq_some_iff]
  simp only [Nat.cast_zero, Int.zero_add, Balanced]

instance (t : Text) : Decidable (Balanced t) := decidable_of_iff _ balanced_iff.symm

/-! ### Parts of a text -/

theorem nesting?_append (n : Nat) (s t : Text) :
    nesting? n (s ++ t) = (nesting? n s).bind fun k => nesting? k t := by
  induction s generalizing n with
  | nil => rw [List.nil_append, nesting?_nil, Option.bind_some]
  | cons c s ih =>
    rw [List.cons_append]
    by_cases ho : isOpening c = true
    · rw [nesting?_opening ho, nesting?_opening ho, ih]
    · have ho' := Bool.eq_false_iff.2 ho
      by_cases hc : isClosing c = true
      · cases n with
        | zero => rw [nesting?_zero_closing ho' hc, nesting?_zero_closing ho' hc, Option.bind_none]
        | succ n => rw [nesting?_succ_closing ho' hc, nesting?_succ_closing ho' hc, ih]
      · have hb := isBracket_eq_false ho' (Bool.eq_false_iff.2 hc)
        rw [nesting?_other hb, nesting?_other hb, ih]

/-- A balanced text keeps every level. -/
theorem Balanced.nesting? {s : Text} (h : Balanced s) (n : Nat) : nesting? n s = some n := by
  rw [nesting?_eq_some_iff]
  refine ⟨fun p hp => ?_, ?_⟩
  · have := h.1 p hp
    omega
  · rw [h.2]
    omega

theorem nesting?_balanced_append {s : Text} (h : Balanced s) (n : Nat) (t : Text) :
    nesting? n (s ++ t) = Text.nesting? n t := by
  rw [nesting?_append, h.nesting?, Option.bind_some]

theorem balanced_of_plain {s : Text} (h : ∀ c ∈ s, isBracket c = false) : Balanced s := by
  rw [balanced_iff]
  induction s with
  | nil => exact nesting?_nil 0
  | cons c s ih =>
    rw [nesting?_other (h c List.mem_cons_self)]
    exact ih fun b hb => h b (List.mem_cons_of_mem c hb)

theorem isBracket_of_isNameChar {c : Char} (h : isNameChar c = true) : isBracket c = false :=
  isBracket_eq_false_of_all (p := isNameChar) (by decide) h

theorem isBracket_of_isBlank {c : Char} (h : isBlank c = true) : isBracket c = false :=
  isBracket_eq_false_of_all (p := isBlank) (by decide) h

/-! ### Operations on texts -/

theorem nesting?_trim (n : Nat) (t : Text) : nesting? n (trim t) = nesting? n t := by
  obtain ⟨l, r, ht, hl, hr⟩ := exists_eq_append_trim t
  have hplain : ∀ {s : Text}, allBlank s = true → Balanced s := fun hs =>
    balanced_of_plain fun c hc => isBracket_of_isBlank (List.all_eq_true.1 hs c hc)
  conv_rhs => rw [ht, List.append_assoc, nesting?_balanced_append (hplain hl), nesting?_append]
  simp only [(hplain hr).nesting?, Option.bind_fun_some]

theorem nesting?_replaceOccurrences {old new : Text} (hne : old ≠ [])
    (hold : ∀ c ∈ old, isBracket c = false) (hnew : Balanced new) (n : Nat) (t : Text) :
    nesting? n (replaceOccurrences old new t) = nesting? n t := by
  fun_induction replaceOccurrences old new t generalizing n with
  | case1 => rfl
  | case2 c rest hp ih =>
    rw [nesting?_balanced_append hnew, ih, eq_append_drop_of_isPrefixOf hne hp,
      nesting?_balanced_append (balanced_of_plain hold)]
  | case3 c rest hp ih =>
    rw [← List.singleton_append, nesting?_append, ← List.singleton_append (l := rest),
      nesting?_append]
    simp only [ih]

/-- Replacing a text without brackets by a balanced one keeps the level. -/
theorem nesting?_replaceAll {old new : Text} (hne : old ≠ [])
    (hold : ∀ c ∈ old, isBracket c = false) (hnew : Balanced new) (n : Nat) (t : Text) :
    nesting? n (replaceAll old new t) = nesting? n t := by
  rw [replaceAll_of_ne_nil hne]
  exact nesting?_replaceOccurrences hne hold hnew n t

end ScriptEmbed.Text

namespace ScriptEmbed.Template

open Text

theorem nesting?_substituteAll {bindings : Bindings}
    (hparam : ∀ b ∈ bindings, b.1 ≠ [] ∧ ∀ c ∈ b.1, isBracket c = false)
    (hvalue : ∀ b ∈ bindings, Balanced b.2) (n : Nat) (body : Text) :
    nesting? n (substituteAll bindings body) = nesting? n body := by
  induction bindings generalizing body with
  | nil => rfl
  | cons b bindings ih =>
    obtain ⟨hne, hplain⟩ := hparam b List.mem_cons_self
    have hrest := ih (fun e he => hparam e (List.mem_cons_of_mem b he))
      (fun e he => hvalue e (List.mem_cons_of_mem b he)) (replaceAll b.1 b.2 body)
    rw [nesting?_replaceAll hne hplain (hvalue b List.mem_cons_self)] at hrest
    exact hrest

/-- A token without brackets stands for a balanced text. -/
theorem balanced_tokenValue {bindings : Bindings} (hvalue : ∀ b ∈ bindings, Balanced b.2)
    {token : Text} (htoken : ∀ c ∈ token, isBracket c = false) :
    Balanced (tokenValue bindings token) := by
  rw [tokenValue, Bindings.find?]
  cases hf : List.find? (fun b => b.1 == token) bindings with
  | none => exact balanced_of_plain htoken
  | some b => exact hvalue b (List.mem_of_find?_eq_some hf)

theorem nesting?_substituteTokens {bindings : Bindings} (hvalue : ∀ b ∈ bindings, Balanced b.2)
    (n : Nat) (body : Text) :
    nesting? n (substituteTokens bindings body) = nesting? n body := by
  fun_induction substituteTokens bindings body generalizing n with
  | case1 body gap h =>
    have hbody := eq_gap_append body
    rw [h, List.append_nil] at hbody
    exact congrArg (nesting? n) hbody.symm
  | case2 body gap c rest h ih =>
    obtain ⟨hbody, hname⟩ := eq_gap_append_token h
    -- a token holds no bracket, and neither does what stands for it change the level
    have htoken : ∀ b ∈ c :: rest.takeWhile isNameChar, isBracket b = false := fun b hb =>
      isBracket_of_isNameChar (hname b hb)
    have hkeep := (balanced_tokenValue hvalue htoken).nesting?
    have hplain := (balanced_of_plain htoken).nesting?
    conv_rhs => rw [hbody]
    rw [nesting?_append, nesting?_append, nesting?_append, nesting?_append]
    simp only [hkeep, hplain, ih, gap]

/-- A body keeps its level when arguments without open brackets are put in. -/
theorem nesting?_expand {t : Template} {mode : Substitution} {bindings : Bindings}
    (hparam : ∀ b ∈ bindings, b.1 ≠ [] ∧ ∀ c ∈ b.1, isBracket c = false)
    (hvalue : ∀ b ∈ bindings, Balanced b.2) (n : Nat) :
    nesting? n (t.expand mode bindings) = nesting? n t.body := by
  cases mode with
  | substring => exact nesting?_substituteAll hparam hvalue n t.body
  | token => exact nesting?_substituteTokens hvalue n t.body

end ScriptEmbed.Template
