import Mathlib.Tactic
import ScriptEmbed.Text.Blank

/-!
# Trimmed texts, pieces and lines

Definitions are cut into lines, and parameter lists into names, by the same two operations: a text is
cut at a separator, and blanks are taken from its ends.  This file gives their laws, and says what
the lines of a text are.

* `cut_iff`, `until_iff` — a text is cut behind a run, and before the first of a character;
* `trim_eq_of_trimmed` — **a text with blanks around something trimmed is trimmed to that**;
* `pieces_append_cons`, `not_mem_of_mem_pieces` — a cut at the first separator;
* `lines` — the lines of a text, each without its end;
* `lines_flatMap` — **texts that are written a line each are read back**.
-/

namespace ScriptEmbed.Text

variable {c sep : Char} {l m r s t p : Text}

/-! ### Cuts -/

/-- What is left behind a run does not go on with it. -/
theorem eq_false_of_mem_head?_dropWhile {f : Char → Bool} (h : c ∈ (t.dropWhile f).head?) :
    f c = false := by
  have hhead := List.head?_dropWhile_not f t
  rw [Option.mem_def.1 h] at hhead
  exact hhead

/-- A text is cut behind its longest run of a class: the run, and a rest that does not go on with
it. -/
theorem cut_iff {f : Char → Bool} :
    t.takeWhile f = s ∧ t.dropWhile f = r ↔
      t = s ++ r ∧ (∀ c ∈ s, f c = true) ∧ ∀ c ∈ r.head?, f c = false := by
  constructor
  · rintro ⟨rfl, rfl⟩
    exact ⟨List.takeWhile_append_dropWhile.symm,
      fun c hc => List.all_eq_true.1 List.all_takeWhile c hc,
      fun c hc => eq_false_of_mem_head?_dropWhile hc⟩
  · rintro ⟨rfl, hs, hr⟩
    rw [List.takeWhile_append_of_pos hs, List.dropWhile_append_of_pos hs]
    cases r with
    | nil => exact ⟨List.append_nil s, rfl⟩
    | cons c r =>
      have hc := hr c rfl
      constructor <;> simp [hc]

/-- A text up to the first of a character, and the rest from there on. -/
theorem until_iff {a : Char} : t.takeWhile (· != a) = s ∧ t.dropWhile (· != a) = a :: r ↔
    t = s ++ a :: r ∧ a ∉ s := by
  rw [cut_iff]
  have hs : (∀ c ∈ s, (c != a) = true) ↔ a ∉ s := by
    simp only [bne_iff_ne]
    exact ⟨fun h ha => h a ha rfl, fun h c hc heq => h (heq ▸ hc)⟩
  rw [hs]
  constructor
  · rintro ⟨ht, ha, -⟩
    exact ⟨ht, ha⟩
  · rintro ⟨ht, ha⟩
    refine ⟨ht, ha, fun c hc => ?_⟩
    rw [List.head?_cons, Option.mem_def, Option.some.injEq] at hc
    simp [hc]

/-- The rest from the first of a character on starts with it. -/
theorem eq_of_dropWhile_ne {a : Char} (h : t.dropWhile (· != a) = c :: r) : c = a := by
  have hhead : c ∈ (t.dropWhile (· != a)).head? := by rw [h]; rfl
  simpa using eq_false_of_mem_head?_dropWhile hhead

/-! ### Trimming -/

/-- No blank stands at either end. -/
structure Trimmed (t : Text) : Prop where
  head : ∀ c ∈ t.head?, isBlank c = false
  last : ∀ c ∈ t.getLast?, isBlank c = false

theorem trimStart_of_allBlank (hl : allBlank l = true) (t : Text) :
    trimStart (l ++ t) = trimStart t := by
  rw [trimStart, List.dropWhile_append_of_pos fun c hc => List.all_eq_true.1 hl c hc, trimStart]

theorem trimEnd_of_allBlank (hr : allBlank r = true) (t : Text) : trimEnd (t ++ r) = trimEnd t := by
  rw [trimEnd, List.reverse_append, List.dropWhile_append_of_pos, trimEnd]
  intro c hc
  exact List.all_eq_true.1 hr c (List.mem_reverse.1 hc)

theorem Trimmed.trimEnd_eq (h : Trimmed t) : trimEnd t = t := by
  rcases List.eq_nil_or_concat t with rfl | ⟨t, c, rfl⟩
  · rfl
  · rw [List.concat_eq_append] at h ⊢
    exact trimEnd_concat (h.last c (by simp))

/-- A text with blanks around something trimmed is trimmed to that. -/
theorem trim_eq_of_trimmed (hl : allBlank l = true) (hm : Trimmed m) (hr : allBlank r = true) :
    trim (l ++ m ++ r) = m := by
  rw [trim, List.append_assoc, trimStart_of_allBlank hl]
  cases m with
  | nil =>
    rw [List.nil_append, ← List.append_nil r, trimStart_of_allBlank hr]
    rfl
  | cons c m =>
    rw [List.cons_append, trimStart_of_head (hm.head c rfl), ← List.cons_append,
      trimEnd_of_allBlank hr, hm.trimEnd_eq]

/-- Trimming leaves no blank at either end. -/
theorem trimmed_trim (t : Text) : Trimmed (trim t) where
  head c hc := by
    have hstart : c ∈ (trimStart t).head? := by
      rw [← trimEnd_append_takeWhile (trimStart t)]
      exact List.mem_head?_append_of_mem_head? hc
    exact eq_false_of_mem_head?_dropWhile hstart
  last c hc := by
    rw [trim, trimEnd, List.getLast?_reverse] at hc
    exact eq_false_of_mem_head?_dropWhile hc

/-- Blanks before something trimmed do not count. -/
theorem trim_append_of_trimmed (hl : allBlank l = true) (hm : Trimmed m) : trim (l ++ m) = m := by
  have h := trim_eq_of_trimmed (r := []) hl hm rfl
  rwa [List.append_nil] at h

/-- Blanks at the ends do not count. -/
theorem trim_append_blanks (hl : allBlank l = true) (hr : allBlank r = true) :
    trim (l ++ t ++ r) = trim t := by
  obtain ⟨l', r', ht, hl', hr'⟩ := exists_eq_append_trim t
  conv_lhs => rw [ht]
  rw [show l ++ (l' ++ trim t ++ r') ++ r = (l ++ l') ++ trim t ++ (r' ++ r) by
    simp only [List.append_assoc]]
  refine trim_eq_of_trimmed ?_ (trimmed_trim t) ?_
  · rw [allBlank, List.all_append, ← allBlank, hl, ← allBlank, hl']
    rfl
  · rw [allBlank, List.all_append, ← allBlank, hr', ← allBlank, hr]
    rfl

theorem Trimmed.trim_eq (h : Trimmed t) : trim t = t := trim_append_of_trimmed (l := []) rfl h

/-- Trimming puts nothing in. -/
theorem mem_of_mem_trim (h : c ∈ trim t) : c ∈ t := by
  obtain ⟨l, r, ht, -, -⟩ := exists_eq_append_trim t
  rw [ht]
  exact List.mem_append_left _ (List.mem_append_right _ h)

/-! ### Pieces -/

theorem pieces_of_not_mem (h : sep ∉ t) : pieces sep t = [t] := by
  induction t with
  | nil => rfl
  | cons c t ih =>
    obtain ⟨hc, ht⟩ := not_or.1 (List.mem_cons.not.1 h)
    rw [pieces, if_neg (Ne.symm hc), ih ht]

/-- The first piece ends at the first separator. -/
theorem pieces_append_cons (h : sep ∉ s) (t : Text) :
    pieces sep (s ++ sep :: t) = s :: pieces sep t := by
  induction s with
  | nil => rw [List.nil_append, pieces, if_pos rfl]
  | cons c s ih =>
    obtain ⟨hc, hs⟩ := not_or.1 (List.mem_cons.not.1 h)
    rw [List.cons_append, pieces, if_neg (Ne.symm hc), ih hs]

/-- A law of texts follows when it holds of those without separator, and is kept when a first piece
is put before a text. -/
theorem cut_induction (sep : Char) {P : Text → Prop} (last : ∀ t, sep ∉ t → P t)
    (cut : ∀ s t, sep ∉ s → P t → P (s ++ sep :: t)) (t : Text) : P t := by
  induction hn : t.length using Nat.strong_induction_on generalizing t with
  | _ n ih =>
    by_cases hsep : sep ∈ t
    · obtain ⟨s, r, rfl, hs⟩ := List.eq_append_cons_of_mem hsep
      rw [List.length_append, List.length_cons] at hn
      exact cut s r hs (ih r.length (by omega) r rfl)
    · exact last t hsep

/-- No piece holds the separator. -/
theorem not_mem_of_mem_pieces (h : p ∈ pieces sep t) : sep ∉ p := by
  induction t using cut_induction sep with
  | last t ht =>
    rw [pieces_of_not_mem ht] at h
    exact List.mem_singleton.1 h ▸ ht
  | cut s t hs ih =>
    rw [pieces_append_cons hs] at h
    rcases List.mem_cons.1 h with rfl | h
    · exact hs
    · exact ih h

/-- A piece holds nothing that the text does not. -/
theorem mem_of_mem_pieces (h : p ∈ pieces sep t) (hc : c ∈ p) : c ∈ t := by
  induction t using cut_induction sep with
  | last t ht =>
    rw [pieces_of_not_mem ht] at h
    exact List.mem_singleton.1 h ▸ hc
  | cut s t hs ih =>
    rw [pieces_append_cons hs] at h
    rcases List.mem_cons.1 h with rfl | h
    · exact List.mem_append_left _ hc
    · exact List.mem_append_right _ (List.mem_cons_of_mem _ (ih h))

/-- What stands in a text is the separator, or stands in a piece. -/
theorem eq_or_mem_pieces (sep : Char) (hc : c ∈ t) : c = sep ∨ ∃ p ∈ pieces sep t, c ∈ p := by
  induction t using cut_induction sep with
  | last t ht =>
    rw [pieces_of_not_mem ht]
    exact .inr ⟨t, List.mem_singleton_self t, hc⟩
  | cut s t hs ih =>
    rw [pieces_append_cons hs]
    rcases List.mem_append.1 hc with hc | hc
    · exact .inr ⟨s, List.mem_cons_self, hc⟩
    · rcases List.mem_cons.1 hc with rfl | hc
      · exact .inl rfl
      · exact (ih hc).imp_right fun ⟨p, hp, hcp⟩ => ⟨p, List.mem_cons_of_mem s hp, hcp⟩

/-- What stands in a join stands in the separator or in one of the texts. -/
theorem mem_join {c : Char} {sep : Text} {ps : List Text} (h : c ∈ join sep ps) :
    c ∈ sep ∨ ∃ p ∈ ps, c ∈ p := by
  induction ps using join.induct with
  | case1 => cases h
  | case2 p => exact .inr ⟨p, List.mem_singleton_self p, h⟩
  | case3 p q ps ih =>
    rw [join, List.mem_append, List.mem_append] at h
    rcases h with (h | h) | h
    · exact .inr ⟨p, List.mem_cons_self, h⟩
    · exact .inl h
    · refine (ih h).imp_right fun ⟨r, hr, hc⟩ => ⟨r, List.mem_cons_of_mem p hr, hc⟩

/-! ### Lines -/

/-- The lines of a text.  A line ends with a line feed, and a carriage return right before the line
feed belongs to the end; the last line need not have one. -/
def lines : Text → List Text
  | [] => []
  | '\n' :: t => [] :: lines t
  | '\r' :: '\n' :: t => [] :: lines t
  | c :: t => (c :: (lines t).headD []) :: (lines t).tail

/-- A character that does not end a line belongs to the first line. -/
theorem lines_cons (hc : c ≠ '\n') (hr : c = '\r' → t.head? ≠ some '\n') :
    lines (c :: t) = (c :: (lines t).headD []) :: (lines t).tail := by
  rw [lines.eq_def]
  split
  · contradiction
  · rename_i heq
    exact absurd (List.cons.inj heq).1 hc
  · rename_i heq
    obtain ⟨hcr, rfl⟩ := List.cons.inj heq
    exact absurd rfl (hr hcr)
  · rename_i heq
    obtain ⟨rfl, rfl⟩ := List.cons.inj heq
    rfl

/-- A text without line feed stands at the front of the first line. -/
theorem lines_append (hl : '\n' ∉ l) (hne : l ≠ [])
    (hr : l.getLast? = some '\r' → t.head? ≠ some '\n') :
    lines (l ++ t) = (l ++ (lines t).headD []) :: (lines t).tail := by
  induction l with
  | nil => exact absurd rfl hne
  | cons c l ih =>
    obtain ⟨hc, hl⟩ := not_or.1 (List.mem_cons.not.1 hl)
    cases l with
    | nil => exact lines_cons (Ne.symm hc) fun h => hr (by rw [h]; rfl)
    | cons d l =>
      have hd : (d :: l ++ t).head? ≠ some '\n' := by
        rw [List.cons_append, List.head?_cons, ne_eq, Option.some.injEq]
        exact fun h => hl (h ▸ List.mem_cons_self)
      rw [List.cons_append, lines_cons (Ne.symm hc) fun _ => hd, ih hl (List.cons_ne_nil d l) hr]
      rfl

/-- A last line without end. -/
theorem lines_of_not_mem (ht : '\n' ∉ t) (hne : t ≠ []) : lines t = [t] := by
  have h := lines_append (t := []) ht hne fun _ h => (nomatch h)
  simpa [lines] using h

/-- A line that ends with a carriage return and a line feed. -/
theorem lines_append_return (hl : '\n' ∉ l) (t : Text) :
    lines (l ++ '\r' :: '\n' :: t) = l :: lines t := by
  by_cases hne : l = []
  · rw [hne, List.nil_append, lines]
  · have hhead : ('\r' :: '\n' :: t).head? ≠ some '\n' := by
      rw [List.head?_cons]
      decide
    rw [lines_append hl hne fun _ => hhead, lines, List.headD_cons, List.append_nil, List.tail_cons]

/-- A line that ends with a line feed alone. -/
theorem lines_append_newline (hl : '\n' ∉ l) (hr : l.getLast? ≠ some '\r') (t : Text) :
    lines (l ++ '\n' :: t) = l :: lines t := by
  by_cases hne : l = []
  · rw [hne, List.nil_append, lines]
  · rw [lines_append hl hne fun h => absurd h hr, lines, List.headD_cons, List.append_nil,
      List.tail_cons]

/-- The first line of a text with a line feed. -/
theorem lines_append_cons (hs : '\n' ∉ s) (t : Text) :
    ∃ l, (s = l ∨ s = l ++ ['\r']) ∧ lines (s ++ '\n' :: t) = l :: lines t := by
  by_cases hr : s.getLast? = some '\r'
  · obtain ⟨l, rfl⟩ := List.getLast?_eq_some_iff.1 hr
    refine ⟨l, .inr rfl, ?_⟩
    rw [List.append_assoc]
    exact lines_append_return (fun h => hs (List.mem_append_left _ h)) t
  · exact ⟨s, .inl rfl, lines_append_newline hs hr t⟩

/-- No line holds a line feed. -/
theorem not_mem_of_mem_lines (h : l ∈ lines t) : '\n' ∉ l := by
  induction t using cut_induction '\n' with
  | last t ht =>
    by_cases hne : t = []
    · rw [hne] at h
      cases h
    · rw [lines_of_not_mem ht hne] at h
      exact List.mem_singleton.1 h ▸ ht
  | cut s t hs ih =>
    obtain ⟨l', hl', hlines⟩ := lines_append_cons hs t
    rw [hlines] at h
    rcases List.mem_cons.1 h with rfl | h
    · rcases hl' with rfl | rfl
      · exact hs
      · exact fun h => hs (List.mem_append_left _ h)
    · exact ih h

/-- Texts that are written a line each are read back. -/
theorem lines_flatMap {ls : List Text} (hl : ∀ l ∈ ls, '\n' ∉ l)
    (hr : ∀ l ∈ ls, l.getLast? ≠ some '\r') : lines (ls.flatMap (· ++ ['\n'])) = ls := by
  induction ls with
  | nil => rfl
  | cons l ls ih =>
    obtain ⟨hl, hls⟩ := List.forall_mem_cons.1 hl
    obtain ⟨hr, hrs⟩ := List.forall_mem_cons.1 hr
    rw [List.flatMap_cons, List.append_assoc, List.singleton_append, lines_append_newline hl hr,
      ih hls hrs]

end ScriptEmbed.Text
