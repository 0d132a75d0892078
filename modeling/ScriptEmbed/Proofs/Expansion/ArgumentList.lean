import ScriptEmbed.Expansion.Arguments
import ScriptEmbed.Proofs.Text.Closed

/-!
# Argument lists

The reader of argument lists takes one character at a time.  This file gives its equation for each
kind of character, and from them:

* `spans?_append`, `parse?_append` — **a closed argument list does not depend on what comes after
  it**;
* `standsFree_of_parse?` — **no word is cut where an argument starts, or the text after the list**.
-/

namespace ScriptEmbed.Arguments

variable {depth : Nat} {c : Char} {t : Text}

/-! ### One character -/

/-- An opening bracket goes one level deeper. -/
theorem spans?_opening (h : isOpening c = true) :
    spans? depth (c :: t) = (spans? (depth + 1) t).map (Spans.push c) := by
  rw [spans?.eq_def]
  simp only [h, if_true]

/-- The closing bracket of the list ends it. -/
theorem spans?_zero_closing (ho : isOpening c = false) (hc : isClosing c = true) :
    spans? 0 (c :: t) = some ⟨[], [], t⟩ := by
  rw [spans?.eq_def]
  simp only [ho, hc, Bool.false_eq_true, if_false, if_true]

/-- A closing bracket inside the list goes back one level. -/
theorem spans?_succ_closing (ho : isOpening c = false) (hc : isClosing c = true) :
    spans? (depth + 1) (c :: t) = (spans? depth t).map (Spans.push c) := by
  rw [spans?.eq_def]
  simp only [ho, hc, Bool.false_eq_true, if_false, if_true]

/-- A comma at the outermost level starts a new part. -/
theorem spans?_comma : spans? 0 (',' :: t) = (spans? 0 t).map Spans.split := by
  rw [spans?.eq_def]
  simp [isOpening, isClosing]

/-- Any other character belongs to the part at hand. -/
theorem spans?_other (ho : isOpening c = false) (hc : isClosing c = false)
    (hcomma : ¬(c = ',' ∧ depth = 0)) :
    spans? depth (c :: t) = (spans? depth t).map (Spans.push c) := by
  rw [spans?.eq_def]
  simp only [ho, hc, hcomma, Bool.false_eq_true, if_false]

/-! ### What comes after the list -/

/-- The parts of a closed argument list do not depend on what comes after it. -/
theorem spans?_append {s : Spans} (h : spans? depth t = some s) (x : Text) :
    spans? depth (t ++ x) = some { s with rest := s.rest ++ x } := by
  fun_induction spans? depth t generalizing s with
  | case1 => cases h
  | case2 depth c t ho ih =>
    obtain ⟨u, hu, rfl⟩ := Option.map_eq_some_iff.1 h
    rw [List.cons_append, spans?_opening ho, ih hu]
    rfl
  | case3 c t ho hc =>
    cases h
    exact spans?_zero_closing (Bool.eq_false_iff.2 ho) hc
  | case4 c t ho hc depth ih =>
    obtain ⟨u, hu, rfl⟩ := Option.map_eq_some_iff.1 h
    rw [List.cons_append, spans?_succ_closing (Bool.eq_false_iff.2 ho) hc, ih hu]
    rfl
  | case5 depth c t ho hc hcomma ih =>
    obtain ⟨rfl, rfl⟩ := hcomma
    obtain ⟨u, hu, rfl⟩ := Option.map_eq_some_iff.1 h
    rw [List.cons_append, spans?_comma, ih hu]
    rfl
  | case6 depth c t ho hc hcomma ih =>
    obtain ⟨u, hu, rfl⟩ := Option.map_eq_some_iff.1 h
    rw [List.cons_append,
      spans?_other (Bool.eq_false_iff.2 ho) (Bool.eq_false_iff.2 hc) hcomma, ih hu]
    rfl

/-- The arguments of a call do not depend on what comes after it. -/
theorem parse?_append {a : Arguments} (h : parse? t = some a) (x : Text) :
    parse? (t ++ x) = some ⟨a.values, a.rest ++ x⟩ := by
  obtain ⟨s, hs, rfl⟩ := Option.map_eq_some_iff.1 h
  rw [parse?, spans?_append hs]
  rfl

/-! ### Where the parts stand -/

/-- An argument is a part without the blanks at its ends. -/
theorem exists_of_mem_values {s : Spans} {v : Text} (h : v ∈ (ofSpans s).values) :
    ∃ p ∈ s.first :: s.others, Text.trim p = v := by
  rw [ofSpans] at h
  split at h
  · cases h
  · exact List.mem_map.1 h

/-- Where the parts of a closed argument list stand in the text: the first at the front, the others
after commas, and the rest of the text after a closing bracket. -/
structure Spans.StandIn (s : Spans) (t : Text) : Prop where
  first : s.first <+: t
  others : ∀ p ∈ s.others, ',' :: p <:+: t
  rest : ∃ c, isClosing c = true ∧ c :: s.rest <:+ t

theorem Spans.StandIn.push {s : Spans} (h : s.StandIn t) (c : Char) :
    (s.push c).StandIn (c :: t) where
  first := List.cons_prefix_cons.2 ⟨rfl, h.first⟩
  others p hp := List.infix_cons (h.others p hp)
  rest := by
    obtain ⟨b, hb, hrest⟩ := h.rest
    exact ⟨b, hb, hrest.trans (List.suffix_cons c t)⟩

theorem Spans.StandIn.split {s : Spans} (h : s.StandIn t) : s.split.StandIn (',' :: t) where
  first := List.nil_prefix
  others p hp := by
    rcases List.mem_cons.1 hp with rfl | hp
    · exact (List.cons_prefix_cons.2 ⟨rfl, h.first⟩).isInfix
    · exact List.infix_cons (h.others p hp)
  rest := by
    obtain ⟨b, hb, hrest⟩ := h.rest
    exact ⟨b, hb, hrest.trans (List.suffix_cons ',' t)⟩

theorem standIn_of_spans? {s : Spans} (h : spans? depth t = some s) : s.StandIn t := by
  fun_induction spans? depth t generalizing s with
  | case1 => cases h
  | case2 depth c t _ ih | case4 c t _ _ depth ih | case6 depth c t _ _ _ ih =>
    obtain ⟨u, hu, rfl⟩ := Option.map_eq_some_iff.1 h
    exact (ih hu).push c
  | case3 c t _ hc =>
    cases h
    exact ⟨List.nil_prefix, by simp, c, hc, List.suffix_refl _⟩
  | case5 depth c t _ _ hcomma ih =>
    obtain ⟨rfl, rfl⟩ := hcomma
    obtain ⟨u, hu, rfl⟩ := Option.map_eq_some_iff.1 h
    exact (ih hu).split

theorem suffix_of_parse? {a : Arguments} (h : parse? t = some a) : a.rest <:+ t := by
  obtain ⟨s, hs, rfl⟩ := Option.map_eq_some_iff.1 h
  obtain ⟨c, _, hrest⟩ := (standIn_of_spans? hs).rest
  exact (List.suffix_cons c s.rest).trans hrest

theorem isWord_of_isClosing {c : Char} (h : isClosing c = true) : Text.isWord c = false := by
  simp only [isClosing, Bool.or_eq_true, beq_iff_eq] at h
  rcases h with (rfl | rfl) | rfl <;> decide

/-- The arguments of a call, and the text after it, stand free in the text from the opening
parenthesis on. -/
theorem standsFree_of_parse? {a : Arguments} (h : parse? t = some a) :
    (∀ v ∈ a.values, Text.StandsFree v ('(' :: t)) ∧ Text.StandsFree a.rest ('(' :: t) := by
  obtain ⟨s, hs, rfl⟩ := Option.map_eq_some_iff.1 h
  have hstand := standIn_of_spans? hs
  constructor
  · intro v hv
    obtain ⟨p, hp, rfl⟩ := exists_of_mem_values hv
    rcases List.mem_cons.1 hp with rfl | hp
    · obtain ⟨r, hr⟩ := hstand.first
      rw [← hr]
      exact Text.standsFree_trim (by decide) [] s.first r
    · obtain ⟨l, r, hlr⟩ := hstand.others p hp
      rw [← hlr, List.append_assoc]
      exact (Text.standsFree_trim (by decide) l p r).append_left ['(']
  · obtain ⟨c, hc, l, hl⟩ := hstand.rest
    have hclosed : Text.Closed ('(' :: (l ++ [c])) :=
      Text.closed_iff.2 ⟨'(' :: l, c, rfl, isWord_of_isClosing hc⟩
    refine ⟨'(' :: (l ++ [c]), [], hclosed, ?_⟩
    rw [← hl, ofSpans]
    simp only [List.cons_append, List.append_assoc, List.nil_append, List.append_nil]

end ScriptEmbed.Arguments
