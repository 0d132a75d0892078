import ScriptEmbed.Definitions.Declaration
import ScriptEmbed.Proofs.Definitions.Names
import ScriptEmbed.Proofs.Text.Pieces

/-!
# The grammar of a line

What may stand on a line of a definitions file is described by how it is put together, without the
readers.  Each reader is held against its part of the description.

* `IsGap`, `Assigned`, `Signed` — gaps, the part from the equals sign on, and the part of a macro;
* `WrittenAs` — the three forms of a line;
* `leading?_eq_some_iff`, `name?_eq_some_iff`, `assigned?_eq_some_iff`, `parameters?_eq_some_iff`,
  `signature?_eq_some_iff` — the readers of the parts;
* `forms`, `writtenAs_of_form` — the readers of the three forms;
* `parse?_eq_some_iff` — **a line is read as a declaration exactly when it is written as one**.
-/

namespace ScriptEmbed.Declaration

open Text

/-! ### How a line is put together -/

/-- Characters that may stand between the parts of a line. -/
def IsGap (g : Text) : Prop := ∀ c ∈ g, isGap c = true

/-- `Assigned v t`: after a gap, an equals sign and a text without semicolon that is `v` once it is
trimmed, then the semicolon that ends the line. -/
def Assigned (v t : Text) : Prop :=
  ∃ g raw, IsGap g ∧ ';' ∉ raw ∧ v = trim raw ∧ t = g ++ '=' :: (raw ++ [';'])

/-- `Signed n ps b t`: the word for a macro, its name, its parameters in parentheses and its
body. -/
def Signed (n ps b t : Text) : Prop :=
  ∃ g h u, IsGap g ∧ g ≠ [] ∧ IsName n ∧ IsGap h ∧ ')' ∉ ps ∧ Assigned b u ∧
    t = "macro".toList ++ (g ++ (n ++ (h ++ '(' :: (ps ++ ')' :: u))))

/-- The three forms of a line. -/
inductive WrittenAs : Declaration → Text → Prop
  | constant {g n v u : Text} : IsGap g → g ≠ [] → IsName n → Assigned v u →
      WrittenAs (.constant n v) ("const".toList ++ (g ++ (n ++ u)))
  | template {n ps b t : Text} : Signed n ps b t → WrittenAs (.template n ps b) t
  | computed {g n ps b u : Text} : IsGap g → g ≠ [] → Signed n ps b u →
      WrittenAs (.computed n ps b) ("python".toList ++ (g ++ u))

theorem Signed.isName {n ps b t : Text} (h : Signed n ps b t) : IsName n := by
  obtain ⟨g, k, u, -, -, hn, -⟩ := h
  exact hn

/-! ### The readers of the parts -/

variable {w t rest n ps b v : Text}

theorem isNameChar_of_isGap {c : Char} (h : isGap c = true) : isNameChar c = false := by
  simp only [isGap, Bool.or_eq_true, beq_iff_eq] at h
  rcases h with ((rfl | rfl) | rfl) | rfl <;> decide

/-- A leading word is read with the whole gap after it. -/
theorem leading?_eq_some_iff : leading? w t = some rest ↔
    ∃ g, IsGap g ∧ g ≠ [] ∧ t = w ++ (g ++ rest) ∧ ∀ c ∈ rest.head?, isGap c = false := by
  constructor
  · intro h
    rw [leading?, Option.ite_none_right_eq_some] at h
    obtain ⟨hw, h⟩ := h
    obtain ⟨u, rfl⟩ := List.isPrefixOf_iff_prefix.1 hw
    rw [List.drop_left] at h
    cases u with
    | nil => cases h
    | cons c u =>
      rw [Option.ite_none_right_eq_some, Option.some.injEq] at h
      obtain ⟨hc, rfl⟩ := h
      obtain ⟨hu, hgap, hrest⟩ := cut_iff.1 ⟨rfl, rfl⟩
      refine ⟨c :: u.takeWhile isGap, List.forall_mem_cons.2 ⟨hc, hgap⟩, List.cons_ne_nil _ _, ?_,
        hrest⟩
      rw [List.cons_append, ← hu]
  · rintro ⟨g, hg, hne, rfl, hrest⟩
    obtain ⟨c, g, rfl⟩ := List.exists_cons_of_ne_nil hne
    obtain ⟨hc, hg⟩ := List.forall_mem_cons.1 hg
    have hword : w.isPrefixOf (w ++ (c :: g ++ rest)) = true :=
      List.isPrefixOf_iff_prefix.2 (List.prefix_append _ _)
    rw [leading?, if_pos hword, List.drop_left]
    simp only [List.cons_append, hc, if_true, (cut_iff.2 ⟨rfl, hg, hrest⟩).2]

/-- A name is read up to the first character that is no name character. -/
theorem name?_eq_some_iff : name? t = some (n, rest) ↔
    IsName n ∧ t = n ++ rest ∧ ∀ c ∈ rest.head?, isNameChar c = false := by
  rw [name?, Option.ite_none_left_eq_some, Option.some.injEq, Prod.mk.injEq, cut_iff,
    List.isEmpty_iff]
  constructor
  · rintro ⟨hne, rfl, hn, hrest⟩
    rw [(cut_iff.2 ⟨rfl, hn, hrest⟩).1] at hne
    exact ⟨⟨hne, hn⟩, rfl, hrest⟩
  · rintro ⟨hn, rfl, hrest⟩
    refine ⟨?_, rfl, hn.isNameChar, hrest⟩
    rw [(cut_iff.2 ⟨rfl, hn.isNameChar, hrest⟩).1]
    exact hn.ne_nil

/-- A gap before a character that is none. -/
theorem dropWhile_gap {g : Text} {a : Char} (hg : IsGap g) (ha : isGap a = false) (u : Text) :
    (g ++ a :: u).dropWhile isGap = a :: u := by
  refine (cut_iff.2 ⟨rfl, hg, fun c hc => ?_⟩).2
  rw [List.head?_cons, Option.mem_def, Option.some.injEq] at hc
  exact hc ▸ ha

/-- What follows a name is read when it is the end of a line. -/
theorem assigned?_eq_some_iff : assigned? t = some v ↔ Assigned v t := by
  constructor
  · intro h
    rw [assigned?] at h
    split at h
    · rename_i u hu
      obtain ⟨ht, hg, -⟩ := cut_iff.1 ⟨rfl, hu⟩
      split at h
      · rename_i c hc
        obtain rfl := eq_of_dropWhile_ne hc
        obtain ⟨hraw, hmem⟩ := until_iff.1 ⟨rfl, hc⟩
        refine ⟨_, _, hg, hmem, (Option.some.inj h).symm, ?_⟩
        rw [← hraw]
        exact ht
      · cases h
    · cases h
  · rintro ⟨g, raw, hg, hraw, rfl, rfl⟩
    obtain ⟨htake, hdrop⟩ :=
      until_iff.2 (⟨rfl, hraw⟩ : raw ++ [';'] = raw ++ ';' :: [] ∧ ';' ∉ raw)
    rw [assigned?, dropWhile_gap hg (by decide)]
    simp only [hdrop, htake]

/-- The parameters of a macro are read up to the first closing parenthesis. -/
theorem parameters?_eq_some_iff : parameters? t = some (ps, rest) ↔
    ∃ g, IsGap g ∧ ')' ∉ ps ∧ t = g ++ '(' :: (ps ++ ')' :: rest) := by
  constructor
  · intro h
    rw [parameters?] at h
    split at h
    · rename_i u hu
      obtain ⟨ht, hg, -⟩ := cut_iff.1 ⟨rfl, hu⟩
      split at h
      · rename_i c rest' hc
        obtain rfl := eq_of_dropWhile_ne hc
        obtain ⟨hps, hmem⟩ := until_iff.1 ⟨rfl, hc⟩
        obtain ⟨rfl, rfl⟩ := Prod.mk.inj (Option.some.inj h)
        refine ⟨_, hg, hmem, ?_⟩
        rw [← hps]
        exact ht
      · cases h
    · cases h
  · rintro ⟨g, hg, hps, rfl⟩
    obtain ⟨htake, hdrop⟩ :=
      until_iff.2 (⟨rfl, hps⟩ : ps ++ ')' :: rest = ps ++ ')' :: rest ∧ ')' ∉ ps)
    rw [parameters?, dropWhile_gap hg (by decide)]
    simp only [hdrop, htake]

/-! ### What the parts start with -/

/-- After a gap comes no name character where something else follows it. -/
theorem head_not_isNameChar {g : Text} {a : Char} (hg : IsGap g) (ha : isNameChar a = false)
    (u : Text) : ∀ c ∈ (g ++ a :: u).head?, isNameChar c = false := by
  intro c hc
  cases g with
  | nil =>
    rw [List.nil_append, List.head?_cons, Option.mem_def, Option.some.injEq] at hc
    exact hc ▸ ha
  | cons d g =>
    rw [List.cons_append, List.head?_cons, Option.mem_def, Option.some.injEq] at hc
    exact hc ▸ isNameChar_of_isGap (hg d List.mem_cons_self)

theorem Assigned.head_not (h : Assigned v t) : ∀ c ∈ t.head?, isNameChar c = false := by
  obtain ⟨g, raw, hg, -, -, rfl⟩ := h
  exact head_not_isNameChar hg (by decide) _

/-- A name does not start with a gap. -/
theorem head_not_isGap (h : IsName n) (u : Text) : ∀ c ∈ (n ++ u).head?, isGap c = false := by
  intro c hc
  obtain ⟨d, n, rfl⟩ := List.exists_cons_of_ne_nil h.ne_nil
  rw [List.cons_append, List.head?_cons, Option.mem_def, Option.some.injEq] at hc
  have hname := h.isNameChar c (hc ▸ List.mem_cons_self)
  by_contra hgap
  rw [Bool.not_eq_false] at hgap
  rw [isNameChar_of_isGap hgap] at hname
  cases hname

theorem Signed.head?_eq (h : Signed n ps b t) : t.head? = some 'm' := by
  obtain ⟨g, k, u, -, -, -, -, -, -, rfl⟩ := h
  rfl

/-- The word for a macro does not start with a gap. -/
theorem Signed.head_not (h : Signed n ps b t) : ∀ c ∈ t.head?, isGap c = false := by
  intro c hc
  obtain rfl : 'm' = c := Option.some.inj (h.head?_eq.symm.trans hc)
  rfl

/-! ### The three forms -/

theorem constant?_eq_some_iff {e : Declaration} : constant? t = some e ↔
    ∃ g n v u, IsGap g ∧ g ≠ [] ∧ IsName n ∧ Assigned v u ∧ e = .constant n v ∧
      t = "const".toList ++ (g ++ (n ++ u)) := by
  simp only [constant?, Option.bind_eq_bind, Option.bind_eq_some_iff, Option.pure_def, Prod.exists,
    leading?_eq_some_iff, name?_eq_some_iff, assigned?_eq_some_iff]
  constructor
  · rintro ⟨_, ⟨g, hg, hne, rfl, -⟩, n, u, ⟨hn, rfl, -⟩, v, hv, he⟩
    exact ⟨g, n, v, u, hg, hne, hn, hv, (Option.some.inj he).symm, rfl⟩
  · rintro ⟨g, n, v, u, hg, hne, hn, hv, rfl, rfl⟩
    exact ⟨_, ⟨g, hg, hne, rfl, head_not_isGap hn u⟩, n, u, ⟨hn, rfl, hv.head_not⟩, v, hv, rfl⟩

/-- The part that both kinds of macro share. -/
theorem signature?_eq_some_iff : signature? t = some (n, ps, b) ↔ Signed n ps b t := by
  simp only [signature?, Option.bind_eq_bind, Option.bind_eq_some_iff, Option.pure_def, Prod.exists,
    leading?_eq_some_iff, name?_eq_some_iff, parameters?_eq_some_iff, assigned?_eq_some_iff]
  constructor
  · rintro ⟨_, ⟨g, hg, hne, rfl, -⟩, n, _, ⟨hn, rfl, -⟩, ps, u, ⟨k, hk, hps, rfl⟩, b, hb, he⟩
    cases he
    exact ⟨g, k, u, hg, hne, hn, hk, hps, hb, rfl⟩
  · rintro ⟨g, k, u, hg, hne, hn, hk, hps, hb, rfl⟩
    exact ⟨_, ⟨g, hg, hne, rfl, head_not_isGap hn _⟩, n, _,
      ⟨hn, rfl, head_not_isNameChar hk (by decide) _⟩, ps, u, ⟨k, hk, hps, rfl⟩, b, hb, rfl⟩

theorem template?_eq_some_iff {e : Declaration} : template? t = some e ↔
    ∃ n ps b, Signed n ps b t ∧ e = .template n ps b := by
  simp only [template?, Option.map_eq_some_iff, Prod.exists, signature?_eq_some_iff]
  constructor
  · rintro ⟨n, ps, b, hs, rfl⟩
    exact ⟨n, ps, b, hs, rfl⟩
  · rintro ⟨n, ps, b, hs, rfl⟩
    exact ⟨n, ps, b, hs, rfl⟩

theorem computed?_eq_some_iff {e : Declaration} : computed? t = some e ↔
    ∃ g n ps b u, IsGap g ∧ g ≠ [] ∧ Signed n ps b u ∧ e = .computed n ps b ∧
      t = "python".toList ++ (g ++ u) := by
  simp only [computed?, Option.bind_eq_bind, Option.bind_eq_some_iff, Option.pure_def, Prod.exists,
    leading?_eq_some_iff, signature?_eq_some_iff]
  constructor
  · rintro ⟨u, ⟨g, hg, hne, rfl, -⟩, n, ps, b, hs, he⟩
    exact ⟨g, n, ps, b, u, hg, hne, hs, (Option.some.inj he).symm, rfl⟩
  · rintro ⟨g, n, ps, b, u, hg, hne, hs, rfl, rfl⟩
    exact ⟨u, ⟨g, hg, hne, rfl, hs.head_not⟩, n, ps, b, hs, rfl⟩

/-- The readers of the three forms, in the order in which they are tried. -/
def forms : List (Text → Option Declaration) := [constant?, template?, computed?]

/-- What any of the forms reads is written on the line. -/
theorem writtenAs_of_form {f : Text → Option Declaration} {e : Declaration} (hf : f ∈ forms)
    (h : f t = some e) : e.WrittenAs t := by
  simp only [forms, List.mem_cons, List.not_mem_nil, or_false] at hf
  rcases hf with rfl | rfl | rfl
  · obtain ⟨g, n, v, u, hg, hne, hn, hv, rfl, rfl⟩ := constant?_eq_some_iff.1 h
    exact .constant hg hne hn hv
  · obtain ⟨n, ps, b, hs, rfl⟩ := template?_eq_some_iff.1 h
    exact .template hs
  · obtain ⟨g, n, ps, b, u, hg, hne, hs, rfl, rfl⟩ := computed?_eq_some_iff.1 h
    exact .computed hg hne hs

/-- What a line is read as is read by one of the forms. -/
theorem exists_form_of_parse? {e : Declaration} (h : parse? t = some e) :
    ∃ f ∈ forms, f t = some e := by
  rw [parse?, Option.or_eq_some_iff, Option.or_eq_some_iff] at h
  rcases h with h | ⟨-, h | ⟨-, h⟩⟩
  · exact ⟨constant?, by simp [forms], h⟩
  · exact ⟨template?, by simp [forms], h⟩
  · exact ⟨computed?, by simp [forms], h⟩

/-- **A line is read as a declaration exactly when it is written as one.** -/
theorem parse?_eq_some_iff {e : Declaration} : parse? t = some e ↔ e.WrittenAs t := by
  -- the first letter tells the three forms apart
  have hconstant : ∀ {e}, constant? t = some e → t.head? = some 'c' := by
    intro e h
    obtain ⟨g, n, v, u, -, -, -, -, -, rfl⟩ := constant?_eq_some_iff.1 h
    rfl
  have htemplate : ∀ {e}, template? t = some e → t.head? = some 'm' := by
    intro e h
    obtain ⟨n, ps, b, hs, -⟩ := template?_eq_some_iff.1 h
    exact hs.head?_eq
  constructor
  · intro h
    obtain ⟨f, hf, hform⟩ := exists_form_of_parse? h
    exact writtenAs_of_form hf hform
  · intro h
    cases h with
    | constant hg hne hn hv =>
      rw [parse?, constant?_eq_some_iff.2 ⟨_, _, _, _, hg, hne, hn, hv, rfl, rfl⟩, Option.some_or]
    | @template n ps b _ hs =>
      have hnone : constant? t = none := by
        refine Option.eq_none_iff_forall_ne_some.2 fun e he => ?_
        exact absurd (hs.head?_eq.symm.trans (hconstant he)) (by decide)
      rw [parse?, hnone, template?_eq_some_iff.2 ⟨_, _, _, hs, rfl⟩, Option.none_or, Option.some_or]
    | @computed g n ps b u hg hne hs =>
      have hhead : ("python".toList ++ (g ++ u)).head? = some 'p' := rfl
      have hfirst : constant? ("python".toList ++ (g ++ u)) = none := by
        refine Option.eq_none_iff_forall_ne_some.2 fun e he => ?_
        exact absurd (hhead.symm.trans (hconstant he)) (by decide)
      have hsecond : template? ("python".toList ++ (g ++ u)) = none := by
        refine Option.eq_none_iff_forall_ne_some.2 fun e he => ?_
        exact absurd (hhead.symm.trans (htemplate he)) (by decide)
      rw [parse?, hfirst, hsecond, computed?_eq_some_iff.2 ⟨_, _, _, _, _, hg, hne, hs, rfl, rfl⟩,
        Option.none_or, Option.none_or]

end ScriptEmbed.Declaration
