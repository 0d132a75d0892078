import Mathlib
import ScriptEmbed.Comments
import ScriptEmbed.Proofs.Text.Pieces

/-!
# The passes over line comments and block comments

What each of the two passes leaves, and what it leaves alone.  Comments are opened and closed by two
characters next to each other, so that the facts about them are facts about neighbours: what stands
behind each pair of slashes, behind each opening of a block, and behind each closing of one.

* `Text.lastLine` — the line that no line end follows;
* `Text.Behind` — a property of what follows each occurrence of two neighbours;
* `Comments.noLine_stripLine`, `Comments.stripLine_eq_self` — behind the first pass no line end
  follows two slashes, and such a text is left alone by it;
* `Comments.Closes`, `Comments.afterClose?_eq_some_iff` — where a block ends;
* `Comments.noLine_stripBlock`, `Comments.noBlock_stripBlock`, `Comments.stripBlock_eq_self` — the
  second pass keeps that, and leaves no closed block where none stands right behind a slash.
-/

namespace ScriptEmbed

namespace Text

/-! ### Last lines -/

/-- What stands behind the last line end, and everything where there is none. -/
def lastLine : Text → Text
  | [] => []
  | c :: t => if c = '\n' ∨ '\n' ∈ t then lastLine t else c :: t

variable {a b s t : Text} {c d x : Char} {P : Text → Prop}

theorem lastLine_of_not_mem (h : '\n' ∉ t) : lastLine t = t := by
  cases t with
  | nil => rfl
  | cons c t =>
    rw [List.mem_cons, not_or] at h
    exact if_neg (not_or.2 ⟨Ne.symm h.1, h.2⟩)

theorem lastLine_append_newline (a b : Text) : lastLine (a ++ '\n' :: b) = lastLine b := by
  induction a with
  | nil => exact if_pos (Or.inl rfl)
  | cons c a ih =>
    have hmem : '\n' ∈ a ++ '\n' :: b := List.mem_append_right _ List.mem_cons_self
    show lastLine (c :: (a ++ '\n' :: b)) = _
    rw [lastLine, if_pos (Or.inr hmem), ih]

theorem lastLine_append_of_not_mem (h : '\n' ∉ s) : lastLine (a ++ s) = lastLine a ++ s := by
  induction a with
  | nil => exact lastLine_of_not_mem h
  | cons c a ih =>
    have hmem : '\n' ∈ a ++ s ↔ '\n' ∈ a := by
      rw [List.mem_append, or_iff_left h]
    show lastLine (c :: (a ++ s)) = _
    simp only [lastLine, hmem]
    split_ifs with hc
    · exact ih
    · rfl

/-! ### Neighbours -/

/-- Wherever `c` and `d` are neighbours, the property holds of what is behind them. -/
def Behind (c d : Char) (P : Text → Prop) (t : Text) : Prop := ∀ a b, t = a ++ c :: d :: b → P b

theorem behind_nil (c d : Char) (P : Text → Prop) : Behind c d P [] := by
  intro a b h
  exact absurd h.symm (List.append_ne_nil_of_right_ne_nil _ (List.cons_ne_nil _ _))

/-- The first character of a text is a neighbour of the second only. -/
theorem behind_cons_iff :
    Behind c d P (x :: t) ↔ (x = c → ∀ b, t = d :: b → P b) ∧ Behind c d P t := by
  constructor
  · intro h
    refine ⟨?_, fun a b hab => h (x :: a) b (congrArg _ hab)⟩
    rintro rfl b rfl
    exact h [] b rfl
  · rintro ⟨hhead, htail⟩ a b hab
    cases a with
    | nil =>
      obtain ⟨hx, ht⟩ := List.cons.inj hab
      exact hhead hx b ht
    | cons y a => exact htail a b (List.cons.inj hab).2

theorem Behind.of_append (h : Behind c d P (s ++ t)) : Behind c d P t :=
  fun a b hab => h (s ++ a) b (by rw [hab, List.append_assoc])

/-- Where two characters are nowhere neighbours, nothing stands behind them. -/
theorem behind_of_not_adjacent (h : ¬ [c, d] <:+: t) : Behind c d P t := by
  intro a b hab
  refine absurd ⟨a, b, ?_⟩ h
  rw [hab, List.append_assoc]
  rfl

end Text

namespace Comments

open Text

variable {r s t : Text} {c : Char}

/-! ### Line comments -/

/-- No line end stands behind two slashes. -/
def NoLine (t : Text) : Prop := Behind '/' '/' (fun b => '\n' ∉ b) t

theorem noLine_of_not_mem (h : '\n' ∉ t) : NoLine t := by
  rintro a b rfl hb
  exact h (List.mem_append_right _ (List.mem_cons_of_mem _ (List.mem_cons_of_mem _ hb)))

/-- A line comment at the front without a line end behind it. -/
theorem not_mem_slashes (h : t.dropWhile (· != '\n') = []) : '\n' ∉ '/' :: '/' :: t := by
  intro hmem
  have hrest : '\n' ∈ t := by simpa using hmem
  exact bne_iff_ne.1 (List.dropWhile_eq_nil_iff.1 h _ hrest) rfl

/-- Where something is left, it starts with the line end. -/
theorem eq_of_dropWhile_eq_cons {head : Char} (h : t.dropWhile (· != '\n') = head :: s) :
    t = t.takeWhile (· != '\n') ++ '\n' :: s := by
  obtain rfl := eq_of_dropWhile_ne h
  exact (until_iff.1 ⟨rfl, h⟩).1

theorem mem_of_dropWhile_eq_cons {head : Char} (h : t.dropWhile (· != '\n') = head :: s) :
    '\n' ∈ t := by
  rw [eq_of_dropWhile_eq_cons h]
  exact List.mem_append_right _ List.mem_cons_self

/-- A text is left alone where no line end stands behind two slashes. -/
theorem stripLine_eq_self (h : NoLine t) : stripLine t = t := by
  fun_induction stripLine t with
  | case1 => rfl
  | case2 rest hrest => rfl
  | case3 rest head after hrest _ _ =>
    exact absurd (mem_of_dropWhile_eq_cons hrest) (h [] rest rfl)
  | case4 c rest hc ih => rw [ih (behind_cons_iff.1 h).2]

theorem stripLine_of_not_mem (h : '\n' ∉ t) : stripLine t = t :=
  stripLine_eq_self (noLine_of_not_mem h)

/-- What is left at the front was there before, if it is no line end. -/
theorem exists_cons_of_stripLine (hc : c ≠ '\n') (h : stripLine t = c :: r) :
    ∃ s, t = c :: s ∧ stripLine s = r := by
  fun_induction stripLine t with
  | case1 => cases h
  | case2 rest hrest =>
    obtain ⟨rfl, rfl⟩ := List.cons.inj h
    have hslash : '\n' ∉ '/' :: rest := fun h => not_mem_slashes hrest (List.mem_cons_of_mem _ h)
    exact ⟨'/' :: rest, rfl, stripLine_of_not_mem hslash⟩
  | case3 rest head after hrest _ _ => exact absurd (List.cons.inj h).1.symm hc
  | case4 x rest hx _ =>
    obtain ⟨rfl, rfl⟩ := List.cons.inj h
    exact ⟨rest, rfl, rfl⟩

/-- No line comment with a line end behind it is left. -/
theorem noLine_stripLine (t : Text) : NoLine (stripLine t) := by
  fun_induction stripLine t with
  | case1 => exact behind_nil _ _ _
  | case2 rest hrest => exact noLine_of_not_mem (not_mem_slashes hrest)
  | case3 rest head after hrest _ ih =>
    exact behind_cons_iff.2 ⟨fun h => absurd h (by decide), ih⟩
  | case4 c rest hc ih =>
    refine behind_cons_iff.2 ⟨?_, ih⟩
    intro hslash b hb
    obtain ⟨s, hs, -⟩ := exists_cons_of_stripLine (by decide) hb
    exact absurd hs (hc s hslash)

theorem stripLine_sublist (t : Text) : (stripLine t).Sublist t := by
  fun_induction stripLine t with
  | case1 => exact .refl _
  | case2 rest hrest => exact .refl _
  | case3 rest head after hrest _ ih =>
    obtain rfl := eq_of_dropWhile_ne hrest
    have hafter : ('\n' :: after).Sublist rest := hrest ▸ List.dropWhile_sublist _
    exact ((ih.cons_cons _).trans hafter).trans (List.suffix_append ['/', '/'] rest).sublist
  | case4 c rest hc ih => exact ih.cons_cons c

theorem mem_newline_stripLine_iff : '\n' ∈ stripLine t ↔ '\n' ∈ t := by
  fun_induction stripLine t with
  | case1 => rfl
  | case2 rest hrest => rfl
  | case3 rest head after hrest _ ih =>
    have hmem := mem_of_dropWhile_eq_cons hrest
    exact iff_of_true List.mem_cons_self (List.mem_cons_of_mem _ (List.mem_cons_of_mem _ hmem))
  | case4 c rest hc ih => rw [List.mem_cons, List.mem_cons, ih]

/-- The last line stays as it is. -/
theorem lastLine_stripLine (t : Text) : lastLine (stripLine t) = lastLine t := by
  fun_induction stripLine t with
  | case1 => rfl
  | case2 rest hrest => rfl
  | case3 rest head after hrest _ ih =>
    have hsplit : '/' :: '/' :: rest =
        ('/' :: '/' :: rest.takeWhile (· != '\n')) ++ '\n' :: after := by
      rw [List.cons_append, List.cons_append, ← eq_of_dropWhile_eq_cons hrest]
    rw [hsplit, lastLine_append_newline, lastLine, if_pos (Or.inl rfl), ih]
  | case4 c rest hc ih =>
    simp only [lastLine, ih, mem_newline_stripLine_iff]
    split_ifs with hline
    · rfl
    · rw [stripLine_of_not_mem fun hmem => hline (Or.inr hmem)]

/-! ### Block comments -/

/-- No block comment is closed. -/
def NoBlock (t : Text) : Prop := Behind '/' '*' (fun b => afterClose? b = none) t

/-- Nothing is closed where no star stands before a slash. -/
theorem afterClose?_eq_none_iff : afterClose? t = none ↔ Behind '*' '/' (fun _ => False) t := by
  fun_induction afterClose? t with
  | case1 => exact iff_of_true rfl (behind_nil _ _ _)
  | case2 rest => exact iff_of_false (Option.some_ne_none _) fun h => h [] rest rfl
  | case3 c rest hc ih =>
    rw [ih, behind_cons_iff]
    exact ⟨fun h => ⟨fun hstar b hb => hc b hstar hb, h⟩, fun h => h.2⟩

theorem afterClose?_eq_none_of_append (h : afterClose? (s ++ t) = none) : afterClose? t = none :=
  afterClose?_eq_none_iff.2 (afterClose?_eq_none_iff.1 h).of_append

theorem noBlock_of_afterClose?_eq_none (h : afterClose? t = none) : NoBlock t := by
  rintro a b rfl
  exact afterClose?_eq_none_of_append (s := a ++ ['/', '*']) (by simpa using h)

/-- A text that closes a block at its end and not before. -/
structure Closes (t : Text) : Prop where
  ends : ['*', '/'] <:+ t
  once : Behind '*' '/' (fun b => b = []) t

theorem Closes.ne_nil (h : Closes t) : t ≠ [] := by
  rintro rfl
  have hlen := h.ends.length_le
  simp at hlen

theorem afterClose?_cons (h : c = '*' → ∀ r, t ≠ '/' :: r) : afterClose? (c :: t) = afterClose? t := by
  rw [afterClose?]
  intro r hc ht
  exact h hc r ht

theorem Closes.afterClose? (h : Closes t) (s : Text) : afterClose? (t ++ s) = some s := by
  fun_induction Comments.afterClose? t with
  | case1 => exact absurd rfl h.ne_nil
  | case2 rest =>
    obtain rfl : rest = [] := h.once [] rest rfl
    rfl
  | case3 c rest hc ih =>
    have hrest : Closes rest := by
      refine ⟨?_, (behind_cons_iff.1 h.once).2⟩
      obtain heq | hsuffix := List.suffix_cons_iff.1 h.ends
      · obtain ⟨rfl, rfl⟩ := List.cons.inj heq
        exact absurd rfl (hc [] rfl)
      · exact hsuffix
    show Comments.afterClose? (c :: (rest ++ s)) = some s
    rw [afterClose?_cons, ih hrest]
    intro hstar r hr
    obtain ⟨e, rest, rfl⟩ := List.exists_cons_of_ne_nil hrest.ne_nil
    obtain ⟨rfl, -⟩ := List.cons.inj hr
    exact hc rest hstar rfl

/-- What is behind the close is behind the first part that closes a block. -/
theorem afterClose?_eq_some_iff :
    afterClose? t = some s ↔ ∃ comment, t = comment ++ s ∧ Closes comment := by
  constructor
  · intro h
    fun_induction Comments.afterClose? t with
    | case1 => cases h
    | case2 rest =>
      obtain rfl := Option.some.inj h
      refine ⟨['*', '/'], rfl, List.suffix_refl _, ?_⟩
      simp [behind_cons_iff, behind_nil]
    | case3 c rest hc ih =>
      obtain ⟨comment, rfl, hcomment⟩ := ih h
      refine ⟨c :: comment, rfl, hcomment.ends.trans (List.suffix_cons c comment), ?_⟩
      refine behind_cons_iff.2 ⟨?_, hcomment.once⟩
      rintro hstar b rfl
      exact absurd rfl (hc (b ++ s) hstar)
  · rintro ⟨comment, rfl, hcomment⟩
    exact hcomment.afterClose? s

theorem stripBlock_sublist (t : Text) : (stripBlock t).Sublist t := by
  fun_induction stripBlock t with
  | case1 => exact .refl _
  | case2 rest hrest => exact .refl _
  | case3 rest after hrest _ ih =>
    obtain ⟨comment, rfl, -⟩ := afterClose?_eq_some_iff.1 hrest
    exact ih.trans (List.suffix_append ('/' :: '*' :: comment) after).sublist
  | case4 c rest hc ih => exact ih.cons_cons c

theorem noBlock_opening (h : afterClose? t = none) : NoBlock ('/' :: '*' :: t) := by
  refine behind_cons_iff.2 ⟨?_, ?_⟩
  · rintro - b hb
    obtain rfl := (List.cons.inj hb).2
    exact h
  · refine behind_cons_iff.2 ⟨fun hstar => absurd hstar (by decide), ?_⟩
    exact noBlock_of_afterClose?_eq_none h

/-- What is left at the front was there before, or stands behind a comment. -/
theorem exists_cons_of_stripBlock (h : stripBlock t = c :: r) :
    (∃ s, t = c :: s) ∨ ∃ s after, t = '/' :: '*' :: s ∧ afterClose? s = some after := by
  fun_induction stripBlock t with
  | case1 => cases h
  | case2 rest hrest =>
    obtain ⟨rfl, -⟩ := List.cons.inj h
    exact Or.inl ⟨_, rfl⟩
  | case3 rest after hrest _ _ => exact Or.inr ⟨rest, after, rfl, hrest⟩
  | case4 c' rest hc _ =>
    obtain ⟨rfl, -⟩ := List.cons.inj h
    exact Or.inl ⟨_, rfl⟩

/-- Taking out blocks puts no line end behind two slashes. -/
theorem noLine_stripBlock (h : NoLine t) : NoLine (stripBlock t) := by
  fun_induction stripBlock t with
  | case1 => exact h
  | case2 rest hrest => exact h
  | case3 rest after hrest _ ih =>
    obtain ⟨comment, rfl, -⟩ := afterClose?_eq_some_iff.1 hrest
    exact ih (Behind.of_append (s := '/' :: '*' :: comment) h)
  | case4 c rest hc ih =>
    refine behind_cons_iff.2 ⟨?_, ih (behind_cons_iff.1 h).2⟩
    -- the slash that is now the neighbour was there before, or a comment was
    rintro rfl b hb hmem
    have hslash : ∃ s, rest = '/' :: s := by
      obtain ⟨s, hs⟩ | ⟨s, -, hs, -⟩ := exists_cons_of_stripBlock hb
      · exact ⟨s, hs⟩
      · exact ⟨_, hs⟩
    obtain ⟨s, rfl⟩ := hslash
    have hsub := (stripBlock_sublist ('/' :: s)).subset (hb ▸ List.mem_cons_of_mem _ hmem)
    have hline : '\n' ∈ s := by simpa using hsub
    exact (behind_cons_iff.1 h).1 rfl s rfl hline

/-- A closed block does not stand right behind a slash. -/
def Clear (t : Text) : Prop :=
  Behind '/' '/' (fun b => ∀ r, b = '*' :: r → afterClose? r = none) t

/-- Taking out blocks leaves no closed block where none stands right behind a slash. -/
theorem noBlock_stripBlock (h : Clear t) : NoBlock (stripBlock t) := by
  fun_induction stripBlock t with
  | case1 => exact behind_nil _ _ _
  | case2 rest hrest => exact noBlock_opening hrest
  | case3 rest after hrest _ ih =>
    obtain ⟨comment, rfl, -⟩ := afterClose?_eq_some_iff.1 hrest
    exact ih (Behind.of_append (s := '/' :: '*' :: comment) h)
  | case4 c rest hc ih =>
    refine behind_cons_iff.2 ⟨?_, ih (behind_cons_iff.1 h).2⟩
    rintro rfl b hb
    obtain ⟨s, hs⟩ | ⟨s, after, hs, hafter⟩ := exists_cons_of_stripBlock hb
    · exact absurd hs (hc s rfl)
    · rw [(behind_cons_iff.1 h).1 rfl _ hs s rfl] at hafter
      cases hafter

/-- A text without a closed block is left alone. -/
theorem stripBlock_eq_self (h : NoBlock t) : stripBlock t = t := by
  fun_induction stripBlock t with
  | case1 => rfl
  | case2 rest hrest => rfl
  | case3 rest after hrest _ _ =>
    rw [h [] rest rfl] at hrest
    cases hrest
  | case4 c rest hc ih => rw [ih (behind_cons_iff.1 h).2]

/-- Behind the first pass, blocks are clear where they are in the last line. -/
theorem clear_stripLine (h : Clear (lastLine t)) : Clear (stripLine t) := by
  rintro a b hab r rfl
  have hline : '\n' ∉ '*' :: r := noLine_stripLine t a ('*' :: r) hab
  have hslashes : '\n' ∉ '/' :: '/' :: '*' :: r := by simpa using hline
  rw [← lastLine_stripLine, hab, lastLine_append_of_not_mem hslashes] at h
  exact h (lastLine a) ('*' :: r) rfl r rfl

end Comments

end ScriptEmbed
