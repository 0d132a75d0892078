import Mathlib
import ScriptEmbed.Proofs.Comments.Passes

/-!
# The third pass over comments

The third pass looks at longest runs of blanks only.  What is left of a run is its end, so that the
pass can be taken apart at each character that is not blank, and does nothing when it is done again.

* `Comments.squeeze_suffix`, `Comments.squeeze_squeeze` — one run;
* `Comments.stripTrailing_append` — the pass on a run and what is behind it;
* `Comments.stripTrailing_append_cons`, `Comments.stripTrailing_split` — the pass commutes with a cut
  at a character that is not blank, in both directions;
* `Comments.behind_stripTrailing` — it makes no new neighbours;
* `Comments.stripTrailing_stripTrailing` — it does not change its own results;
* `Comments.noTrailing_stripTrailing` — it leaves no blank right before a line end.
-/

namespace ScriptEmbed.Comments

open Text

variable {a b r s t u : Text} {c d : Char} {P : Text → Prop}

/-! ### One run -/

theorem exists_eq_append_newline (h : '\n' ∈ t) : ∃ a b, t = a ++ '\n' :: b ∧ '\n' ∉ b := by
  obtain ⟨b, a, hsplit, hb⟩ := List.eq_append_cons_of_mem (List.mem_reverse.2 h)
  refine ⟨a.reverse, b.reverse, ?_, fun hmem => hb (List.mem_reverse.1 hmem)⟩
  have hback := congrArg List.reverse hsplit
  simpa using hback

/-- What is left of a run with a line end behind another blank: its last line end, and what is
behind that. -/
theorem squeeze_of_mem (h : '\n' ∈ r.drop 1) :
    ∃ a b, r = a ++ '\n' :: b ∧ '\n' ∉ b ∧ squeeze r = '\n' :: b := by
  obtain ⟨a, b, rfl, hb⟩ := exists_eq_append_newline (List.mem_of_mem_drop h)
  refine ⟨a, b, rfl, hb, ?_⟩
  have hall : ∀ c ∈ b.reverse, (c != '\n') = true := by
    intro c hc
    exact bne_iff_ne.2 fun heq => hb (heq ▸ List.mem_reverse.1 hc)
  rw [squeeze, if_pos h, List.reverse_append, List.reverse_cons, List.append_assoc,
    List.takeWhile_append_of_pos hall, List.singleton_append, List.takeWhile_cons_of_neg (by simp),
    List.append_nil, List.reverse_reverse]

/-- What is left of a run is its end. -/
theorem squeeze_suffix (r : Text) : squeeze r <:+ r := by
  by_cases h : '\n' ∈ r.drop 1
  · obtain ⟨a, b, hr, -, hsqueeze⟩ := squeeze_of_mem h
    rw [hsqueeze, hr]
    exact List.suffix_append a _
  · rw [squeeze, if_neg h]

theorem squeeze_ne_nil (h : r ≠ []) : squeeze r ≠ [] := by
  by_cases hmem : '\n' ∈ r.drop 1
  · obtain ⟨a, b, -, -, hsqueeze⟩ := squeeze_of_mem hmem
    rw [hsqueeze]
    exact List.cons_ne_nil _ _
  · rw [squeeze, if_neg hmem]
    exact h

/-- The last character of a run stays. -/
theorem getLast?_squeeze (h : r ≠ []) : (squeeze r).getLast? = r.getLast? := by
  obtain ⟨x, hx⟩ := squeeze_suffix r
  obtain ⟨c, hc⟩ := Option.isSome_iff_exists.1 (List.getLast?_isSome.2 (squeeze_ne_nil h))
  have hlast : (x ++ squeeze r).getLast? = some c := by
    rw [List.getLast?_append, hc]
    rfl
  rw [hc, ← hlast, hx]

theorem squeeze_squeeze (r : Text) : squeeze (squeeze r) = squeeze r := by
  by_cases h : '\n' ∈ r.drop 1
  · obtain ⟨a, b, -, hb, hsqueeze⟩ := squeeze_of_mem h
    rw [hsqueeze, squeeze]
    exact if_neg hb
  · have hsame : squeeze r = r := by rw [squeeze, if_neg h]
    rw [hsame, hsame]

/-! ### Cuts -/

@[simp] theorem stripTrailing_nil : stripTrailing [] = [] := by rw [stripTrailing]

theorem stripTrailing_cons (hc : isBlank c = false) (t : Text) :
    stripTrailing (c :: t) = c :: stripTrailing t := by
  rw [stripTrailing, if_neg (by simp [hc])]

theorem stripTrailing_append_of_not_blank (hs : ∀ c ∈ s, isBlank c = false) (t : Text) :
    stripTrailing (s ++ t) = s ++ stripTrailing t := by
  induction s with
  | nil => rfl
  | cons c s ih =>
    obtain ⟨hc, hs⟩ := List.forall_mem_cons.1 hs
    rw [List.cons_append, stripTrailing_cons hc, ih hs, List.cons_append]

/-- A run of blanks up to a character that is not blank, or to the end. -/
theorem stripTrailing_append (hne : r ≠ []) (hr : ∀ c ∈ r, isBlank c = true)
    (hu : ∀ c ∈ u.head?, isBlank c = false) :
    stripTrailing (r ++ u) = squeeze r ++ stripTrailing u := by
  obtain ⟨c, r, rfl⟩ := List.exists_cons_of_ne_nil hne
  obtain ⟨hc, hr⟩ := List.forall_mem_cons.1 hr
  have htake : u.takeWhile isBlank = [] := by
    cases u with
    | nil => rfl
    | cons d u => exact List.takeWhile_cons_of_neg (by simp [hu d rfl])
  have hdrop : u.dropWhile isBlank = u := by
    cases u with
    | nil => rfl
    | cons d u => exact List.dropWhile_cons_of_neg (by simp [hu d rfl])
  show stripTrailing (c :: (r ++ u)) = _
  rw [stripTrailing, if_pos hc, List.takeWhile_append_of_pos hr, List.dropWhile_append_of_pos hr,
    htake, hdrop, List.append_nil]

/-- The blanks at the front of a text that starts with one. -/
theorem isBlank_run (hc : isBlank c = true) (rest : Text) :
    ∀ d ∈ c :: rest.takeWhile isBlank, isBlank d = true :=
  List.forall_mem_cons.2 ⟨hc, fun _ hd => List.mem_takeWhile_imp hd⟩

theorem eq_run_append (c : Char) (rest : Text) :
    c :: rest = (c :: rest.takeWhile isBlank) ++ rest.dropWhile isBlank := by
  rw [List.cons_append, List.takeWhile_append_dropWhile]

/-- The pass commutes with a cut before a character that is not blank. -/
theorem stripTrailing_append_cons (hc : isBlank c = false) (x y : Text) :
    stripTrailing (x ++ c :: y) = stripTrailing x ++ c :: stripTrailing y := by
  fun_induction stripTrailing x with
  | case1 => exact stripTrailing_cons hc y
  | case2 d rest hd ih =>
    have hhead : ∀ e ∈ (rest.dropWhile isBlank ++ c :: y).head?, isBlank e = false := by
      intro e he
      rw [List.head?_append] at he
      cases hrest : (rest.dropWhile isBlank).head? with
      | none =>
        rw [hrest] at he
        obtain rfl := Option.some.inj he
        exact hc
      | some e' =>
        rw [hrest] at he
        exact eq_false_of_mem_head?_dropWhile (hrest.trans he)
    have hsplit : (d :: rest) ++ c :: y =
        (d :: rest.takeWhile isBlank) ++ (rest.dropWhile isBlank ++ c :: y) := by
      rw [← List.append_assoc, ← eq_run_append]
    rw [hsplit, stripTrailing_append (List.cons_ne_nil _ _) (isBlank_run hd rest) hhead, ih,
      List.append_assoc]
  | case3 d rest hd ih =>
    show stripTrailing (d :: (rest ++ c :: y)) = d :: (_ ++ _)
    rw [stripTrailing_cons (by simpa using hd), ih]

theorem stripTrailing_sublist (t : Text) : (stripTrailing t).Sublist t := by
  fun_induction stripTrailing t with
  | case1 => exact .refl _
  | case2 c rest hc ih =>
    have happend := (squeeze_suffix (c :: rest.takeWhile isBlank)).sublist.append ih
    rwa [← eq_run_append] at happend
  | case3 c rest hc ih => exact ih.cons_cons c

/-- The last character of a text stays. -/
theorem getLast?_stripTrailing (t : Text) : (stripTrailing t).getLast? = t.getLast? := by
  fun_induction stripTrailing t with
  | case1 => rfl
  | case2 c rest hc ih =>
    rw [List.getLast?_append, ih, getLast?_squeeze (List.cons_ne_nil _ _), ← List.getLast?_append,
      ← eq_run_append]
  | case3 c rest hc ih => rw [List.getLast?_cons, List.getLast?_cons, ih]

theorem eq_nil_of_stripTrailing_eq_nil (h : stripTrailing t = []) : t = [] := by
  cases t with
  | nil => rfl
  | cons c t =>
    rw [stripTrailing] at h
    split_ifs at h with hc
    exact absurd (List.append_eq_nil_iff.1 h).1 (squeeze_ne_nil (List.cons_ne_nil _ _))

/-- Each character that is not blank stays at its place between what is left on both sides. -/
theorem stripTrailing_split (hc : isBlank c = false) (h : stripTrailing t = a ++ c :: b) :
    ∃ x y, t = x ++ c :: y ∧ stripTrailing x = a ∧ stripTrailing y = b := by
  fun_induction stripTrailing t generalizing a with
  | case1 => exact absurd h.symm (List.append_ne_nil_of_right_ne_nil _ (List.cons_ne_nil _ _))
  | case2 d rest hd ih =>
    have hrun := isBlank_run hd rest
    -- the character is none of those left of the run
    have hcut : ∃ a', a = squeeze (d :: rest.takeWhile isBlank) ++ a' ∧
        stripTrailing (rest.dropWhile isBlank) = a' ++ c :: b := by
      obtain ⟨a', ha, hrest⟩ | ⟨b', hleft, hrest⟩ := List.append_eq_append_iff.1 h
      · exact ⟨a', ha, hrest⟩
      · cases b' with
        | nil => exact ⟨[], by simpa using hleft.symm, hrest.symm⟩
        | cons e b' =>
          obtain ⟨rfl, -⟩ := List.cons.inj hrest
          have hmem : c ∈ squeeze (d :: rest.takeWhile isBlank) :=
            hleft ▸ List.mem_append_right _ List.mem_cons_self
          rw [hrun c ((squeeze_suffix _).subset hmem)] at hc
          cases hc
    obtain ⟨a', rfl, hrest⟩ := hcut
    obtain ⟨x, y, hxy, rfl, rfl⟩ := ih hrest
    refine ⟨d :: rest.takeWhile isBlank ++ x, y, ?_, ?_, rfl⟩
    · rw [List.append_assoc, ← hxy, ← eq_run_append]
    · refine stripTrailing_append (List.cons_ne_nil _ _) hrun fun e he => ?_
      refine eq_false_of_mem_head?_dropWhile (t := rest) ?_
      rw [hxy, List.head?_append, Option.mem_def.1 he]
      rfl
  | case3 d rest hd ih =>
    cases a with
    | nil =>
      obtain ⟨rfl, rfl⟩ := List.cons.inj h
      exact ⟨[], rest, rfl, by rw [stripTrailing], rfl⟩
    | cons e a =>
      obtain ⟨rfl, hrest⟩ := List.cons.inj h
      obtain ⟨x, y, rfl, rfl, rfl⟩ := ih hrest
      exact ⟨d :: x, y, rfl, stripTrailing_cons (by simpa using hd) x, rfl⟩

/-- The pass makes no new neighbours among characters that are not blank. -/
theorem behind_stripTrailing (hc : isBlank c = false) (hd : isBlank d = false)
    (h : Behind c d P t) (hP : ∀ y, P y → P (stripTrailing y)) : Behind c d P (stripTrailing t) := by
  intro a b hab
  obtain ⟨x, y, rfl, -, hy⟩ := stripTrailing_split hc hab
  obtain ⟨x', z, rfl, hx', rfl⟩ := stripTrailing_split (a := []) hd hy
  obtain rfl := eq_nil_of_stripTrailing_eq_nil hx'
  exact hP z (h x z rfl)

theorem isBlank_slash : isBlank '/' = false := by decide

theorem isBlank_star : isBlank '*' = false := by decide

theorem noLine_stripTrailing (h : NoLine t) : NoLine (stripTrailing t) :=
  behind_stripTrailing isBlank_slash isBlank_slash h fun y hy hmem =>
    hy ((stripTrailing_sublist y).subset hmem)

theorem afterClose?_stripTrailing_eq_none (h : afterClose? t = none) :
    afterClose? (stripTrailing t) = none := by
  rw [afterClose?_eq_none_iff] at h ⊢
  exact behind_stripTrailing isBlank_star isBlank_slash h fun _ hy => hy.elim

theorem noBlock_stripTrailing (h : NoBlock t) : NoBlock (stripTrailing t) :=
  behind_stripTrailing isBlank_slash isBlank_star h fun _ => afterClose?_stripTrailing_eq_none

/-- What is left behind a run does not start with a blank. -/
theorem isBlank_of_mem_head?_stripTrailing (h : d ∈ (stripTrailing (t.dropWhile isBlank)).head?) :
    isBlank d = false := by
  cases hrest : t.dropWhile isBlank with
  | nil =>
    rw [hrest, stripTrailing_nil] at h
    cases h
  | cons e rest =>
    have he : isBlank e = false := eq_false_of_mem_head?_dropWhile (by rw [hrest]; rfl)
    rw [hrest, stripTrailing_cons he] at h
    obtain rfl := Option.some.inj h
    exact he

/-- The pass does not change its own results. -/
theorem stripTrailing_stripTrailing (t : Text) : stripTrailing (stripTrailing t) = stripTrailing t := by
  fun_induction stripTrailing t with
  | case1 => exact stripTrailing_nil
  | case2 c rest hc ih =>
    have hrun := isBlank_run hc rest
    rw [stripTrailing_append (squeeze_ne_nil (List.cons_ne_nil _ _))
      (fun d hd => hrun d ((squeeze_suffix _).subset hd))
      (fun d hd => isBlank_of_mem_head?_stripTrailing hd), ih, squeeze_squeeze]
  | case3 c rest hc ih => rw [stripTrailing_cons (by simpa using hc), ih]

/-! ### Blanks before line ends -/

/-- No blank stands right before a line end. -/
def NoTrailing (t : Text) : Prop := ∀ a c b, t = a ++ c :: '\n' :: b → isBlank c = false

theorem noTrailing_of_not_mem (h : '\n' ∉ t.tail) : NoTrailing t := by
  rintro a c b rfl
  refine absurd ?_ h
  cases a with
  | nil => exact List.mem_cons_self
  | cons d a => exact List.mem_append_right _ (List.mem_cons_of_mem _ List.mem_cons_self)

/-- Behind a run comes nothing blank, no line end in particular. -/
theorem NoTrailing.append (hr : NoTrailing r) (hu : NoTrailing u)
    (hhead : ∀ d ∈ u.head?, isBlank d = false) : NoTrailing (r ++ u) := by
  intro a c b hab
  obtain ⟨a', rfl, hrest⟩ | ⟨b', rfl, hrest⟩ := List.append_eq_append_iff.1 hab
  · exact hu a' c b hrest
  · cases b' with
    | nil => exact hu [] c b hrest.symm
    | cons d b' =>
      obtain ⟨rfl, htail⟩ := List.cons.inj hrest
      cases b' with
      | nil =>
        -- the line end would be the first character behind the run
        have hsplit : u = '\n' :: b := htail.symm
        have hnewline : isBlank '\n' = false := hhead '\n' (by rw [hsplit]; rfl)
        exact absurd hnewline (by decide)
      | cons e b' =>
        obtain ⟨rfl, -⟩ := List.cons.inj htail
        exact hr a c b' rfl

/-- Behind its first character, what is left of a run has no line end. -/
theorem not_mem_tail_squeeze (r : Text) : '\n' ∉ (squeeze r).tail := by
  by_cases h : '\n' ∈ r.drop 1
  · obtain ⟨a, b, -, hb, hsqueeze⟩ := squeeze_of_mem h
    rw [hsqueeze]
    exact hb
  · rw [squeeze, if_neg h, ← List.drop_one]
    exact h

/-- The pass leaves no blank right before a line end. -/
theorem noTrailing_stripTrailing (t : Text) : NoTrailing (stripTrailing t) := by
  fun_induction stripTrailing t with
  | case1 => exact noTrailing_of_not_mem List.not_mem_nil
  | case2 c rest hc ih =>
    have hrun := noTrailing_of_not_mem (not_mem_tail_squeeze (c :: rest.takeWhile isBlank))
    exact hrun.append ih fun d hd => isBlank_of_mem_head?_stripTrailing hd
  | case3 c rest hc ih =>
    intro a d b hab
    cases a with
    | nil =>
      obtain ⟨rfl, -⟩ := List.cons.inj hab
      simpa using hc
    | cons e a => exact ih a d b (List.cons.inj hab).2

end ScriptEmbed.Comments
