import Mathlib
import ScriptEmbed.Proofs.Comments.Passes

/-!
# Comments in a single scan

Read from the left, a text is code up to the next two slashes or the next opening of a block; the
comment that starts there ends with its line or with its block, and code goes on behind it.  The first
pass reads slashes in all lines alike, those of a block comment too.  That makes a difference only on
the line on which a block comment ends: if two slashes stand there before its end, then the end goes
together with all code behind it.

* `withoutComments` — what a single scan leaves;
* `Comments.blocks` — the block comments that it finds, each with the text behind it;
* `Comments.stripLine_append` — the first pass can be cut where no two slashes stand before the cut;
* `Comments.withoutComments_prefix_stripBlock` — **where block comments end on clear lines, the two
  passes leave all that the single scan leaves**.
-/

namespace ScriptEmbed

open Comments in
/-- A text without comments, found in a single scan.  A block that is not closed is no comment. -/
def withoutComments : Text → Text
  | [] => []
  | '/' :: '/' :: rest =>
    have : (rest.dropWhile (· != '\n')).length ≤ rest.length :=
      (List.dropWhile_sublist (l := rest) _).length_le
    withoutComments (rest.dropWhile (· != '\n'))
  | '/' :: '*' :: rest =>
    match h : afterClose? rest with
    | none => '/' :: '*' :: withoutComments rest
    | some after =>
      have := afterClose?_length h
      withoutComments after
  | c :: rest => c :: withoutComments rest
termination_by t => t.length

namespace Comments

open Text

/-- The closed block comments of a text, each without its opening, and the text behind it. -/
def blocks : Text → List (Text × Text)
  | [] => []
  | '/' :: '/' :: rest =>
    have : (rest.dropWhile (· != '\n')).length ≤ rest.length :=
      (List.dropWhile_sublist (l := rest) _).length_le
    blocks (rest.dropWhile (· != '\n'))
  | '/' :: '*' :: rest =>
    match h : afterClose? rest with
    | none => blocks rest
    | some after =>
      have := afterClose?_length h
      (rest.take (rest.length - after.length), after) :: blocks after
  | _ :: rest => blocks rest
termination_by t => t.length

/-- A block comment ends on a clear line: if the line ends behind it, then no two slashes stand in
the line before its end, nor does a slash follow its own. -/
def EndsClear (comment after : Text) : Prop :=
  '\n' ∈ after → Behind '/' '/' (fun _ => False) (lastLine comment ++ after.take 1)

variable {a b r s t x y : Text} {c d : Char} {P : Text → Prop}

/-! ### The first pass in parts -/

theorem stripLine_newline (t : Text) : stripLine ('\n' :: t) = '\n' :: stripLine t := by
  rw [stripLine]
  intro _ h
  exact absurd h (by decide)

theorem stripLine_cons (h : c = '/' → ∀ r, t ≠ '/' :: r) : stripLine (c :: t) = c :: stripLine t := by
  rw [stripLine]
  intro r hc ht
  exact h hc r ht

theorem not_mem_takeWhile (t : Text) : '\n' ∉ t.takeWhile (· != '\n') := by
  intro h
  have hne := List.mem_takeWhile_imp (p := (· != '\n')) h
  exact bne_iff_ne.1 hne rfl

/-- A line comment with a line end behind it goes. -/
theorem stripLine_slashes (ht : '\n' ∉ t) (s : Text) :
    stripLine ('/' :: '/' :: (t ++ '\n' :: s)) = '\n' :: stripLine s := by
  have hall : ∀ c ∈ t, (c != '\n') = true := fun c hc => bne_iff_ne.2 fun heq => ht (heq ▸ hc)
  have hdrop : (t ++ '\n' :: s).dropWhile (· != '\n') = '\n' :: s := by
    rw [List.dropWhile_append_of_pos hall, List.dropWhile_cons_of_neg (by simp)]
  rw [stripLine]
  split
  next hnil =>
    rw [hdrop] at hnil
    cases hnil
  next head after hcons =>
    rw [hdrop] at hcons
    exact congrArg _ (congrArg _ (List.cons.inj hcons).2.symm)

/-- The first pass makes no new neighbours, line ends apart. -/
theorem behind_stripLine (hc : c ≠ '\n') (hd : d ≠ '\n') (h : Behind c d P t)
    (hP : ∀ y, P y → P (stripLine y)) : Behind c d P (stripLine t) := by
  fun_induction stripLine t with
  | case1 => exact h
  | case2 rest hrest => exact h
  | case3 rest head after hrest _ ih =>
    rw [eq_of_dropWhile_eq_cons hrest] at h
    refine behind_cons_iff.2 ⟨fun heq => absurd heq.symm hc, ih ?_⟩
    exact Behind.of_append (s := '/' :: '/' :: rest.takeWhile (· != '\n') ++ ['\n']) (by simpa using h)
  | case4 x rest hx ih =>
    refine behind_cons_iff.2 ⟨?_, ih (behind_cons_iff.1 h).2⟩
    rintro rfl b hb
    obtain ⟨s, rfl, rfl⟩ := exists_cons_of_stripLine hd hb
    exact hP s ((behind_cons_iff.1 h).1 rfl s rfl)

theorem lastLine_suffix (t : Text) : lastLine t <:+ t := by
  induction t with
  | nil => exact List.suffix_refl _
  | cons c t ih =>
    rw [lastLine]
    split_ifs
    · exact ih.trans (List.suffix_cons c t)
    · exact List.suffix_refl _

/-- A comment that ends on a clear line still does behind its first line end. -/
theorem EndsClear.of_newline (h : EndsClear (a ++ '\n' :: x) y) : EndsClear x y := by
  intro hy
  have hclear := h hy
  rwa [lastLine_append_newline] at hclear

theorem EndsClear.of_cons (h : EndsClear (c :: x) y) : EndsClear x y := by
  intro hy
  have hclear := h hy
  rw [lastLine] at hclear
  split_ifs at hclear with hline
  · exact hclear
  · rw [lastLine_of_not_mem fun hx => hline (Or.inr hx)]
    exact (behind_cons_iff.1 hclear).2

/-- The first pass can be cut at the end of what ends on a clear line. -/
theorem stripLine_append (h : EndsClear x y) : stripLine (x ++ y) = stripLine x ++ stripLine y := by
  fun_induction stripLine x with
  | case1 => rfl
  | case2 rest hrest =>
    have hslashes := not_mem_slashes hrest
    have hy : '\n' ∉ y := by
      intro hy
      have hclear := h hy
      rw [lastLine_of_not_mem hslashes] at hclear
      exact hclear [] (rest ++ y.take 1) rfl
    rw [stripLine_of_not_mem hy, stripLine_of_not_mem]
    rw [List.mem_append, not_or]
    exact ⟨hslashes, hy⟩
  | case3 rest head after hrest _ ih =>
    have hsplit := eq_of_dropWhile_eq_cons hrest
    rw [hsplit] at h
    have hafter : EndsClear after y :=
      EndsClear.of_newline (a := '/' :: '/' :: rest.takeWhile (· != '\n')) h
    have happend : rest ++ y = rest.takeWhile (· != '\n') ++ '\n' :: (after ++ y) := by
      conv_lhs => rw [hsplit]
      rw [List.append_assoc, List.cons_append]
    show stripLine ('/' :: '/' :: (rest ++ y)) = _
    rw [happend, stripLine_slashes (not_mem_takeWhile rest), ih hafter, List.cons_append]
  | case4 c rest hc ih =>
    -- the cut itself may stand between two slashes, but only in the last line
    by_cases hedge : c = '/' ∧ rest = [] ∧ ∃ r, y = '/' :: r
    · obtain ⟨rfl, rfl, r, rfl⟩ := hedge
      have hy : '\n' ∉ '/' :: r := fun hy => h hy [] [] rfl
      have hslash : '\n' ∉ '/' :: '/' :: r := by simpa using hy
      show stripLine ('/' :: '/' :: r) = '/' :: (stripLine [] ++ stripLine ('/' :: r))
      rw [stripLine_of_not_mem hslash, stripLine_of_not_mem hy, stripLine]
      rfl
    · show stripLine (c :: (rest ++ y)) = c :: (stripLine rest ++ stripLine y)
      rw [stripLine_cons, ih h.of_cons]
      intro hslash r hr
      cases rest with
      | nil => exact hedge ⟨hslash, rfl, r, hr⟩
      | cons e rest =>
        obtain ⟨rfl, -⟩ := List.cons.inj hr
        exact hc rest hslash rfl

/-! ### Blocks -/

theorem stripBlock_cons (h : c = '/' → ∀ r, t ≠ '*' :: r) :
    stripBlock (c :: t) = c :: stripBlock t := by
  rw [stripBlock]
  intro r hc ht
  exact h hc r ht

theorem stripBlock_closed (h : afterClose? t = some s) :
    stripBlock ('/' :: '*' :: t) = stripBlock s := by
  rw [stripBlock]
  split
  next hnone =>
    rw [h] at hnone
    cases hnone
  next after hsome =>
    rw [h] at hsome
    rw [Option.some.inj hsome]

theorem afterClose?_stripLine_eq_none (h : afterClose? t = none) :
    afterClose? (stripLine t) = none := by
  rw [afterClose?_eq_none_iff] at h ⊢
  exact behind_stripLine (by decide) (by decide) h fun _ hy => hy.elim

/-- The first pass leaves the end of a block where it closes the block. -/
theorem Closes.stripLine (h : Closes t) : Closes (stripLine t) := by
  obtain ⟨a, rfl⟩ := h.ends
  refine ⟨?_, behind_stripLine (by decide) (by decide) h.once ?_⟩
  · have hlast : lastLine (a ++ ['*', '/']) = lastLine a ++ ['*', '/'] :=
      lastLine_append_of_not_mem (by decide)
    have hsuffix := lastLine_suffix (Comments.stripLine (a ++ ['*', '/']))
    rw [lastLine_stripLine, hlast] at hsuffix
    exact (List.suffix_append _ _).trans hsuffix
  · rintro y rfl
    rw [Comments.stripLine]

/-! ### The two passes and the single scan -/

theorem blocks_open (h : afterClose? t = none) : blocks ('/' :: '*' :: t) = blocks t := by
  rw [blocks]
  split
  next => rfl
  next after hsome =>
    rw [h] at hsome
    cases hsome

theorem blocks_closed (h : Closes t) (s : Text) :
    blocks ('/' :: '*' :: (t ++ s)) = (t, s) :: blocks s := by
  have hclose := h.afterClose? s
  have htake : (t ++ s).take ((t ++ s).length - s.length) = t := by
    rw [List.length_append, Nat.add_sub_cancel, List.take_left]
  rw [blocks]
  split
  next hnone =>
    rw [hclose] at hnone
    cases hnone
  next after hsome =>
    rw [hclose] at hsome
    obtain rfl := Option.some.inj hsome
    rw [htake]

theorem stripLine_opening (t : Text) : stripLine ('/' :: '*' :: t) = '/' :: '*' :: stripLine t := by
  rw [stripLine_cons, stripLine_cons]
  · exact fun h => absurd h (by decide)
  · exact fun _ r h => absurd (List.cons.inj h).1 (by decide)

/-- **Where block comments end on clear lines, the two passes leave all that a single scan leaves.**
What they leave behind that belongs to a line comment without a line end, which ends the scan. -/
theorem withoutComments_prefix_stripBlock (h : ∀ b ∈ blocks t, EndsClear b.1 b.2) :
    withoutComments t <+: stripBlock (stripLine t) := by
  fun_induction withoutComments t with
  | case1 => exact List.nil_prefix
  | case2 rest _ ih =>
    rw [blocks] at h
    cases hdrop : rest.dropWhile (· != '\n') with
    | nil =>
      rw [withoutComments]
      exact List.nil_prefix
    | cons head after =>
      have hsplit := eq_of_dropWhile_eq_cons hdrop
      have hstrip : stripLine ('/' :: '/' :: rest) = stripLine ('\n' :: after) := by
        rw [hsplit, stripLine_slashes (not_mem_takeWhile rest), stripLine_newline]
      rw [hdrop, eq_of_dropWhile_ne hdrop] at ih h
      rw [hstrip, eq_of_dropWhile_ne hdrop]
      exact ih h
  | case3 rest hrest ih =>
    -- no block is closed any more, and the second pass leaves all of it alone
    rw [blocks_open hrest] at h
    have hnone := afterClose?_stripLine_eq_none hrest
    have hstarts := ih h
    rw [stripBlock_eq_self (noBlock_of_afterClose?_eq_none hnone)] at hstarts
    rw [stripLine_opening, stripBlock_eq_self (noBlock_opening hnone)]
    exact List.cons_prefix_cons.2 ⟨rfl, List.cons_prefix_cons.2 ⟨rfl, hstarts⟩⟩
  | case4 rest after hrest _ ih =>
    obtain ⟨comment, rfl, hcomment⟩ := afterClose?_eq_some_iff.1 hrest
    rw [blocks_closed hcomment, List.forall_mem_cons] at h
    rw [stripLine_opening, stripLine_append h.1,
      stripBlock_closed (hcomment.stripLine.afterClose? (stripLine after))]
    exact ih h.2
  | case5 c rest hline hblock ih =>
    have hblocks : blocks (c :: rest) = blocks rest := by
      rw [blocks]
      · exact hline
      · exact hblock
    rw [hblocks] at h
    rw [stripLine_cons fun hc r hr => hline r hc hr, stripBlock_cons]
    · exact List.cons_prefix_cons.2 ⟨rfl, ih h⟩
    · intro hc r hr
      obtain ⟨s, hs, -⟩ := exists_cons_of_stripLine (by decide) hr
      exact hblock s hc hs

end Comments

end ScriptEmbed
