import ScriptEmbed.Proofs.Text.Substitution
import ScriptEmbed.Text.Blank

/-!
# Closed texts

A text is closed when it ends in a character that is no word character.  No name goes on past the
end of a closed text, so what comes after it can be read on its own.

* `Closed`, `StandsFree` — the text, and a text that stands after a closed one inside another;
* `Closed.of_append_word` — a closed text stays closed when a word is cut off at its front;
* `standsFree_trim` — trimming keeps a text free;
* `Template.closed_expand` — **putting arguments into a closed body gives a closed text**, whatever
  the arguments are.
-/

namespace ScriptEmbed

namespace Text

/-! ### The end of a text -/

/-- The text has a last character, which is no word character. -/
def Closed (t : Text) : Prop := ∃ c, t.getLast? = some c ∧ isWord c = false

instance (t : Text) : Decidable (Closed t) :=
  decidable_of_iff (t.getLast?.any fun c => !isWord c) (by
    rw [Option.any_eq_true]
    simp only [Bool.not_eq_true', Closed])

theorem closed_iff {t : Text} : Closed t ↔ ∃ s c, t = s ++ [c] ∧ isWord c = false := by
  constructor
  · rintro ⟨c, hc, hw⟩
    obtain ⟨s, hs⟩ := List.getLast?_eq_some_iff.1 hc
    exact ⟨s, c, hs, hw⟩
  · rintro ⟨s, c, hs, hw⟩
    exact ⟨c, List.getLast?_eq_some_iff.2 ⟨s, hs⟩, hw⟩

theorem Closed.ne_nil {t : Text} (h : Closed t) : t ≠ [] := by
  rintro rfl
  obtain ⟨c, hc, _⟩ := h
  cases hc

theorem Closed.append_left {t : Text} (h : Closed t) (s : Text) : Closed (s ++ t) := by
  obtain ⟨u, c, rfl, hc⟩ := closed_iff.1 h
  exact closed_iff.2 ⟨s ++ u, c, (List.append_assoc s u [c]).symm, hc⟩

theorem Closed.cons {t : Text} (h : Closed t) (c : Char) : Closed (c :: t) :=
  h.append_left [c]

theorem closed_append_of_ne_nil {t : Text} (ht : t ≠ []) (s : Text) :
    Closed (s ++ t) ↔ Closed t := by
  refine ⟨fun h => ?_, fun h => h.append_left s⟩
  obtain ⟨c, hc, hw⟩ := h
  rw [List.getLast?_append, List.getLast?_eq_some_getLast ht, Option.some_or] at hc
  exact ⟨c, by rw [List.getLast?_eq_some_getLast ht, hc], hw⟩

/-- A text of characters that are no word characters is closed. -/
theorem closed_of_forall {t : Text} (hne : t ≠ []) (h : ∀ c ∈ t, isWord c = false) :
    Closed t :=
  ⟨t.getLast hne, List.getLast?_eq_some_getLast hne, h _ (List.getLast_mem hne)⟩

/-- A closed text stays closed when a word is cut off at its front. -/
theorem Closed.of_append_word {s t : Text} (h : Closed (s ++ t))
    (hs : ∀ c ∈ s, isNameChar c = true) : Closed t := by
  by_cases ht : t = []
  · obtain ⟨c, hc, hw⟩ := h
    rw [ht, List.append_nil] at hc
    rw [isWord_of_isNameChar (hs c (List.mem_of_getLast? hc))] at hw
    cases hw
  · exact (closed_append_of_ne_nil ht s).1 h

/-! ### Texts after a closed text -/

/-- The first text stands in the second, and what stands before it is closed. -/
def StandsFree (v t : Text) : Prop := ∃ l r, Closed l ∧ t = l ++ v ++ r

theorem StandsFree.append_left {v t : Text} (h : StandsFree v t) (s : Text) :
    StandsFree v (s ++ t) := by
  obtain ⟨l, r, hl, rfl⟩ := h
  refine ⟨s ++ l, r, hl.append_left s, ?_⟩
  rw [List.append_assoc, List.append_assoc, List.append_assoc]

/-- No blank character is a word character. -/
theorem isWord_of_isBlank {c : Char} (h : isBlank c = true) : isWord c = false := by
  have hcodes : ∀ n ∈ [9, 10, 11, 12, 13, 0x20, 0x85, 0xA0, 0x1680, 0x2000, 0x2001, 0x2002,
      0x2003, 0x2004, 0x2005, 0x2006, 0x2007, 0x2008, 0x2009, 0x200A, 0x2028, 0x2029, 0x202F,
      0x205F, 0x3000], isWord (Char.ofNat n) = false := by decide +kernel
  simp only [isBlank, Bool.or_eq_true, Bool.and_eq_true, decide_eq_true_eq, beq_iff_eq] at h
  rw [← Char.ofNat_toNat c]
  apply hcodes
  simp only [List.mem_cons, List.not_mem_nil, or_false]
  omega

/-- What stands after a character that is no word character and then blanks, stands free. -/
theorem standsFree_trim {s : Char} (hs : isWord s = false) (l t r : Text) :
    StandsFree (trim t) (l ++ s :: (t ++ r)) := by
  obtain ⟨bl, br, ht, hbl, _⟩ := exists_eq_append_trim t
  have hclosed : Closed (s :: bl) := by
    refine closed_of_forall (List.cons_ne_nil s bl) fun c hc => ?_
    rcases List.mem_cons.1 hc with rfl | hc
    · exact hs
    · exact isWord_of_isBlank (List.all_eq_true.1 hbl c hc)
  refine StandsFree.append_left ⟨s :: bl, br ++ r, hclosed, ?_⟩ l
  conv_lhs => rw [ht]
  simp only [List.cons_append, List.append_assoc]

/-! ### Replacement -/

theorem closed_replaceOccurrences {old : Text} (hne : old ≠ [])
    (hold : ∀ c ∈ old, isNameChar c = true) (new : Text) {t : Text} (h : Closed t) :
    Closed (replaceOccurrences old new t) := by
  fun_induction replaceOccurrences old new t with
  | case1 => exact h
  | case2 c rest hp ih =>
    rw [eq_append_drop_of_isPrefixOf hne hp] at h
    exact (ih (h.of_append_word hold)).append_left new
  | case3 c rest hp ih =>
    by_cases hrest : rest = []
    · rw [hrest, replaceOccurrences, ← hrest]
      exact h
    · exact (ih ((closed_append_of_ne_nil hrest [c]).1 h)).cons c

end Text

namespace Template

open Text

/-! ### Instances of a body -/

theorem closed_substituteAll {bindings : Bindings}
    (hparam : ∀ b ∈ bindings, b.1 ≠ [] ∧ ∀ c ∈ b.1, isNameChar c = true) {body : Text}
    (h : Closed body) : Closed (substituteAll bindings body) := by
  induction bindings generalizing body with
  | nil => exact h
  | cons b bindings ih =>
    obtain ⟨hne, hname⟩ := hparam b List.mem_cons_self
    refine ih (fun e he => hparam e (List.mem_cons_of_mem b he)) ?_
    show Closed (replaceAll b.1 b.2 body)
    rw [replaceAll_of_ne_nil hne]
    exact closed_replaceOccurrences hne hname b.2 h

theorem closed_substituteTokens (bindings : Bindings) {body : Text} (h : Closed body) :
    Closed (substituteTokens bindings body) := by
  fun_induction substituteTokens bindings body with
  | case1 body gap hgap =>
    have hbody := eq_gap_append body
    rw [hgap, List.append_nil] at hbody
    rw [hbody] at h
    exact h
  | case2 body gap c rest hgap ih =>
    obtain ⟨hbody, hname⟩ := eq_gap_append_token hgap
    rw [hbody, List.append_assoc] at h
    have htoken := (closed_append_of_ne_nil (List.cons_ne_nil c _) gap).1 h
    exact (ih (htoken.of_append_word hname)).append_left _

/-- Putting arguments into a closed body gives a closed text. -/
theorem closed_expand {t : Template} (hbody : Closed t.body) {mode : Substitution}
    {bindings : Bindings}
    (hparam : ∀ b ∈ bindings, b.1 ≠ [] ∧ ∀ c ∈ b.1, isNameChar c = true) :
    Closed (t.expand mode bindings) := by
  cases mode with
  | substring => exact closed_substituteAll hparam hbody
  | token => exact closed_substituteTokens bindings hbody

end Template

end ScriptEmbed
