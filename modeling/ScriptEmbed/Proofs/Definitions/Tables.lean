import ScriptEmbed.Definitions.Reader
import ScriptEmbed.Proofs.Definitions.LineGrammar
import ScriptEmbed.Proofs.Results

/-!
# What a definitions file defines

A file is read line by line.  The lines that hold something are described one by one: such a line
declares an entry of a table, or it does not.  The file is read when all of them do, and otherwise
the first that does not is reported with its number.

* `IsParamList` — the names that a parameter list stands for;
* `Declares` — the entry that a line declares;
* `Definitions.addLines_eq_ok_iff`, `Definitions.addLines_eq_error_iff` — a run over lines;
* `Line.ofSource_eq`, `Line.numbered_eq_append_cons_iff` — the rows of a file and their numbers;
* `Definitions.wellNamed_ofSource` — **the tables that are read hold well-formed names only**;
* `Definitions.ofSource_lines` — **a file is read line by line, in order, all or nothing, and blank
  lines and comments do not count**.
-/

namespace ScriptEmbed

open Text

/-- Partners are found for a whole list when they are found for each member. -/
theorem exists_forall₂_iff {α β : Type} {R : α → β → Prop} {l : List α} :
    (∃ es, List.Forall₂ R l es) ↔ ∀ a ∈ l, ∃ b, R a b := by
  induction l with
  | nil => exact ⟨fun _ a ha => (nomatch ha), fun _ => ⟨[], .nil⟩⟩
  | cons a l ih =>
    rw [List.forall_mem_cons, ← ih]
    constructor
    · rintro ⟨_, h⟩
      obtain ⟨b, es, hb, hes, rfl⟩ := List.forall₂_cons_left_iff.1 h
      exact ⟨⟨b, hb⟩, es, hes⟩
    · rintro ⟨⟨b, hb⟩, es, hes⟩
      exact ⟨b :: es, .cons hb hes⟩

/-! ### Parameters -/

/-- The names that a parameter list stands for: none if it is blank, and otherwise what stands
between its commas, trimmed.  No name is empty, and all differ. -/
structure IsParamList (t : Text) (ps : List Text) : Prop where
  eq : ps = if allBlank t then [] else (pieces ',' t).map trim
  ne_nil : ∀ p ∈ ps, p ≠ []
  nodup : ps.Nodup

/-- Names that are new and differ are those that are not seen with the first of them. -/
theorem forall_not_mem_cons_iff {p : Text} {seen ps : List Text} :
    (∀ q ∈ ps, q ≠ [] ∧ q ∉ p :: seen) ↔ (∀ q ∈ ps, q ≠ [] ∧ q ∉ seen) ∧ p ∉ ps := by
  constructor
  · intro h
    refine ⟨fun q hq => ⟨(h q hq).1, fun hseen => (h q hq).2 (List.mem_cons_of_mem p hseen)⟩, ?_⟩
    exact fun hp => (h p hp).2 List.mem_cons_self
  · rintro ⟨h, hp⟩ q hq
    refine ⟨(h q hq).1, fun hmem => ?_⟩
    rcases List.mem_cons.1 hmem with rfl | hseen
    · exact hp hq
    · exact (h q hq).2 hseen

/-- Names pass the check when none is empty or seen before and all differ. -/
theorem checkParams_eq_ok_iff {seen ps qs : List Text} : checkParams seen ps = .ok qs ↔
    qs = ps ∧ (∀ p ∈ ps, p ≠ [] ∧ p ∉ seen) ∧ ps.Nodup := by
  induction ps generalizing seen qs with
  | nil =>
    rw [checkParams, Except.ok.injEq]
    exact ⟨fun h => ⟨h.symm, by simp⟩, fun h => h.1.symm⟩
  | cons p ps ih =>
    rw [checkParams, List.forall_mem_cons, List.nodup_cons]
    split
    · rename_i hp
      constructor
      · intro h
        cases h
      · intro h
        exact absurd (List.isEmpty_iff.1 hp) h.2.1.1.1
    · rename_i hp
      split
      · rename_i hseen
        constructor
        · intro h
          cases h
        · intro h
          exact absurd (List.contains_iff_mem.1 hseen) h.2.1.1.2
      · rename_i hseen
        have hp : p ≠ [] := fun h => hp (List.isEmpty_iff.2 h)
        have hseen : p ∉ seen := fun h => hseen (List.contains_iff_mem.2 h)
        rw [map_eq_ok]
        constructor
        · rintro ⟨rs, hrs, rfl⟩
          obtain ⟨rfl, hps, hnodup⟩ := ih.1 hrs
          obtain ⟨hps, hnot⟩ := forall_not_mem_cons_iff.1 hps
          exact ⟨rfl, ⟨⟨hp, hseen⟩, hps⟩, hnot, hnodup⟩
        · rintro ⟨rfl, ⟨-, hps⟩, hnot, hnodup⟩
          exact ⟨ps, ih.2 ⟨rfl, forall_not_mem_cons_iff.2 ⟨hps, hnot⟩, hnodup⟩, rfl⟩

theorem paramNames_eq_ok_iff {t : Text} {ps : List Text} :
    paramNames t = .ok ps ↔ IsParamList t ps := by
  rw [paramNames]
  split
  · rename_i ht
    rw [Except.ok.injEq]
    constructor
    · rintro rfl
      exact ⟨by rw [if_pos ht], by simp, List.nodup_nil⟩
    · intro h
      rw [h.eq, if_pos ht]
  · rename_i ht
    rw [checkParams_eq_ok_iff]
    constructor
    · rintro ⟨rfl, hps, hnodup⟩
      exact ⟨by rw [if_neg ht], fun p hp => (hps p hp).1, hnodup⟩
    · intro h
      have heq := h.eq
      rw [if_neg ht] at heq
      exact ⟨heq, heq ▸ fun p hp => ⟨h.ne_nil p hp, List.not_mem_nil⟩, heq ▸ h.nodup⟩

/-! ### Expressions -/

/-- A computed macro holds what it was compiled from, read and checked. -/
theorem Computed.compile_eq_ok_iff {ps : List Text} {source : Text} {c : Computed} :
    Computed.compile ps source = .ok c ↔ (∀ p ∈ ps, isIdentifier p = true) ∧
      c.params = ps ∧ c.source = source ∧ Expr.parse? source = some c.expr ∧
      c.expr.checkNames ps = .ok () := by
  constructor
  · intro h
    unfold Computed.compile at h
    split at h
    · cases h
    · rename_i hfind
      have hident : ∀ p ∈ ps, isIdentifier p = true := by simpa using hfind
      split at h
      · cases h
      · rename_i e hparse
        split at h
        · cases h
        · rename_i hcheck
          cases h
          exact ⟨hident, rfl, rfl, hparse, hcheck⟩
  · rintro ⟨hident, rfl, rfl, hparse, hcheck⟩
    have hfind : (c.params.find? fun p => !isIdentifier p) = none := by simpa using hident
    simp only [Computed.compile, hfind, hparse, hcheck]

/-! ### Entries -/

/-- An entry of one of the two tables. -/
abbrev TableEntry := Constant ⊕ NamedMacro

/-- The entry that a line declares. -/
inductive Declares (t : Text) : TableEntry → Prop
  | constant {n v : Text} : Declaration.WrittenAs (.constant n v) t → Declares t (.inl ⟨n, v⟩)
  | template {n params b : Text} {ps : List Text} :
      Declaration.WrittenAs (.template n params b) t → IsParamList params ps →
      Declares t (.inr ⟨n, .template ⟨ps, b⟩⟩)
  | computed {n params b : Text} {ps : List Text} {c : Computed} :
      Declaration.WrittenAs (.computed n params b) t → IsParamList params ps →
      Computed.compile ps b = .ok c → Declares t (.inr ⟨n, .computed c⟩)

/-- A line declares an entry. -/
def IsDeclaration (t : Text) : Prop := ∃ e, Declares t e

namespace Definitions

/-- The tables with one more entry at the end of its table. -/
def add (d : Definitions) : TableEntry → Definitions
  | .inl c => d.addConstant c
  | .inr m => d.addMacro m

/-- The tables that list the given entries in order. -/
def ofEntries (es : List TableEntry) : Definitions :=
  ⟨es.filterMap Sum.getLeft?, es.filterMap Sum.getRight?⟩

theorem add_ofEntries (es : List TableEntry) (e : TableEntry) :
    (ofEntries es).add e = ofEntries (es ++ [e]) := by
  cases e with
  | inl c => simp [ofEntries, add, addConstant]
  | inr m => simp [ofEntries, add, addMacro]

/-- All entries, constants first. -/
def entries (d : Definitions) : List TableEntry := d.constants.map .inl ++ d.macros.map .inr

@[simp] theorem ofEntries_entries (d : Definitions) : ofEntries d.entries = d := by
  simp [ofEntries, entries, List.filterMap_map, Function.comp_def]

theorem mem_entries_ofEntries {es : List TableEntry} {e : TableEntry} :
    e ∈ (ofEntries es).entries ↔ e ∈ es := by
  cases e with
  | inl c => simp [ofEntries, entries]
  | inr m => simp [ofEntries, entries]

/-- A line is added exactly when it declares an entry. -/
theorem addLine_eq_ok_iff {d d' : Definitions} {t : Text} :
    d.addLine t = .ok d' ↔ ∃ e, Declares t e ∧ d' = d.add e := by
  constructor
  · intro h
    rw [addLine] at h
    cases hp : Declaration.parse? t with
    | none =>
      rw [hp] at h
      cases h
    | some decl =>
      have hw := Declaration.parse?_eq_some_iff.1 hp
      cases decl with
      | constant n v =>
        simp only [hp, Except.ok.injEq] at h
        exact ⟨_, .constant hw, h.symm⟩
      | template n params b =>
        simp only [hp] at h
        obtain ⟨ps, hps, h⟩ := bind_eq_ok_iff.1 h
        exact ⟨_, .template hw (paramNames_eq_ok_iff.1 hps), (Except.ok.inj h).symm⟩
      | computed n params b =>
        simp only [hp] at h
        obtain ⟨ps, hps, h⟩ := bind_eq_ok_iff.1 h
        cases hc : Computed.compile ps b with
        | error f =>
          rw [hc] at h
          cases h
        | ok c =>
          rw [hc] at h
          exact ⟨_, .computed hw (paramNames_eq_ok_iff.1 hps) hc, (Except.ok.inj h).symm⟩
  · rintro ⟨e, he, rfl⟩
    rw [addLine]
    cases he with
    | constant hw =>
      simp only [Declaration.parse?_eq_some_iff.2 hw]
      rfl
    | template hw hps =>
      simp only [Declaration.parse?_eq_some_iff.2 hw]
      exact bind_eq_ok_iff.2 ⟨_, paramNames_eq_ok_iff.2 hps, rfl⟩
    | computed hw hps hc =>
      simp only [Declaration.parse?_eq_some_iff.2 hw]
      exact bind_eq_ok_iff.2 ⟨_, paramNames_eq_ok_iff.2 hps, by rw [hc]; rfl⟩

/-- A line is refused exactly when it declares nothing. -/
theorem exists_addLine_eq_error_iff {d : Definitions} {t : Text} :
    (∃ f, d.addLine t = .error f) ↔ ¬ IsDeclaration t := by
  cases h : d.addLine t with
  | error f =>
    refine ⟨fun _ ⟨e, he⟩ => ?_, fun _ => ⟨f, rfl⟩⟩
    rw [addLine_eq_ok_iff.2 ⟨e, he, rfl⟩] at h
    cases h
  | ok d' =>
    obtain ⟨e, he, -⟩ := addLine_eq_ok_iff.1 h
    exact ⟨fun ⟨f, hf⟩ => (nomatch hf), fun hno => absurd ⟨e, he⟩ hno⟩

/-! ### Runs over lines -/

theorem addLines_cons_of_ok {d d' : Definitions} {line : Line} (h : d.addLine line.text = .ok d')
    (rest : List Line) : d.addLines (line :: rest) = d'.addLines rest := by
  rw [addLines, h]

theorem addLines_cons_of_error {d : Definitions} {line : Line} {f : LineFault}
    (h : d.addLine line.text = .error f) (rest : List Line) :
    d.addLines (line :: rest) = .error ⟨line, f⟩ := by
  rw [addLines, h]

/-- All lines are added when each declares an entry, and the entries are added in order. -/
theorem addLines_eq_ok_iff {lines : List Line} {es : List TableEntry} {d : Definitions} :
    (ofEntries es).addLines lines = .ok d ↔
      ∃ fs, List.Forall₂ Declares (lines.map Line.text) fs ∧ d = ofEntries (es ++ fs) := by
  induction lines generalizing es with
  | nil =>
    simp only [addLines, Except.ok.injEq, List.map_nil, List.forall₂_nil_left_iff, exists_eq_left,
      List.append_nil]
    exact eq_comm
  | cons line rest ih =>
    constructor
    · intro h
      cases hline : (ofEntries es).addLine line.text with
      | error f => rw [addLines_cons_of_error hline] at h; cases h
      | ok d' =>
        obtain ⟨e, he, rfl⟩ := addLine_eq_ok_iff.1 hline
        rw [addLines_cons_of_ok hline, add_ofEntries, ih] at h
        obtain ⟨fs, hfs, rfl⟩ := h
        exact ⟨e :: fs, .cons he hfs, by rw [List.append_assoc, List.singleton_append]⟩
    · rintro ⟨fs, hfs, rfl⟩
      obtain ⟨e, rest', he, hrest, rfl⟩ := List.forall₂_cons_left_iff.1 hfs
      rw [addLines_cons_of_ok (addLine_eq_ok_iff.2 ⟨e, he, rfl⟩), add_ofEntries, ih]
      exact ⟨rest', hrest, by rw [List.append_assoc, List.singleton_append]⟩

/-- A run stops at the first line that declares nothing. -/
theorem addLines_eq_error_iff {lines : List Line} {d : Definitions} {line : Line} :
    (∃ f, d.addLines lines = .error ⟨line, f⟩) ↔
      ∃ before after, lines = before ++ line :: after ∧
        (∀ l ∈ before, IsDeclaration l.text) ∧ ¬ IsDeclaration line.text := by
  induction lines generalizing d with
  | nil =>
    constructor
    · rintro ⟨f, h⟩
      cases h
    · rintro ⟨before, after, h, -⟩
      simp at h
  | cons first rest ih =>
    cases hline : d.addLine first.text with
    | error f =>
      have hbad := exists_addLine_eq_error_iff.1 ⟨f, hline⟩
      rw [addLines_cons_of_error hline]
      constructor
      · rintro ⟨f', h⟩
        cases h
        exact ⟨[], rest, rfl, by simp, hbad⟩
      · rintro ⟨before, after, h, hgood, -⟩
        cases before with
        | nil =>
          obtain ⟨rfl, rfl⟩ := List.cons.inj h
          exact ⟨f, rfl⟩
        | cons l before =>
          obtain ⟨rfl, -⟩ := List.cons.inj h
          exact absurd (hgood _ List.mem_cons_self) hbad
    | ok d' =>
      obtain ⟨e, he, -⟩ := addLine_eq_ok_iff.1 hline
      rw [addLines_cons_of_ok hline, ih]
      constructor
      · rintro ⟨before, after, rfl, hgood, hbad⟩
        exact ⟨first :: before, after, rfl, List.forall_mem_cons.2 ⟨⟨e, he⟩, hgood⟩, hbad⟩
      · rintro ⟨before, after, h, hgood, hbad⟩
        cases before with
        | nil =>
          obtain ⟨rfl, -⟩ := List.cons.inj h
          exact absurd ⟨e, he⟩ hbad
        | cons l before =>
          obtain ⟨rfl, rfl⟩ := List.cons.inj h
          exact ⟨before, after, rfl, fun l hl => hgood l (List.mem_cons_of_mem _ hl), hbad⟩

/-- A change of numbers changes the number that is reported, and nothing else. -/
theorem addLines_map {f : Line → Line} (hf : ∀ line, (f line).text = line.text) (d : Definitions)
    (lines : List Line) :
    d.addLines (lines.map f) = (d.addLines lines).mapError fun e => ⟨f e.line, e.fault⟩ := by
  induction lines generalizing d with
  | nil => rfl
  | cons line rest ih =>
    rw [List.map_cons]
    have htext := hf line
    cases hline : d.addLine line.text with
    | error fault =>
      rw [addLines_cons_of_error hline, addLines_cons_of_error (htext ▸ hline)]
      rfl
    | ok d' => rw [addLines_cons_of_ok hline, addLines_cons_of_ok (htext ▸ hline), ih]

end Definitions

/-! ### Contents and numbers of lines -/

namespace Line

/-- A carriage return at the end of a line does not count. -/
theorem content_append_return (raw : Text) : content (raw ++ ['\r']) = content raw := by
  rw [content, content, before, before, List.takeWhile_append]
  split
  · rw [List.takeWhile_cons_of_pos (by decide), List.takeWhile_nil]
    have htake : raw.takeWhile (· != '#') = raw :=
      (List.takeWhile_prefix _).eq_of_length ‹_›
    rw [htake]
    exact trim_append_blanks (l := []) (r := ['\r']) rfl (by decide)
  · rfl

/-- A comment does not count. -/
theorem content_comment (raw comment : Text) : content (raw ++ '#' :: comment) = content raw := by
  rw [content, content, before, before, List.takeWhile_append]
  split
  · have htake : raw.takeWhile (· != '#') = raw :=
      (List.takeWhile_prefix _).eq_of_length ‹_›
    rw [htake, List.takeWhile_cons_of_neg (by decide), List.append_nil]
  · rfl

theorem numbered_cons_of_nil {n : Nat} {raw : Text} (h : content raw = []) (rows : List Text) :
    numbered n (raw :: rows) = numbered (n + 1) rows := by
  rw [numbered, h]
  rfl

theorem numbered_cons_of_ne_nil {n : Nat} {raw : Text} (h : content raw ≠ []) (rows : List Text) :
    numbered n (raw :: rows) = ⟨n, content raw⟩ :: numbered (n + 1) rows := by
  rw [numbered]
  exact if_neg fun hempty => h (List.isEmpty_iff.1 hempty)

/-- Only the content of a row counts. -/
theorem numbered_cons_congr {n : Nat} {raw raw' : Text} {rows rows' : List Text}
    (h : content raw = content raw') (hrows : numbered (n + 1) rows = numbered (n + 1) rows') :
    numbered n (raw :: rows) = numbered n (raw' :: rows') := by
  by_cases hnil : content raw = []
  · rw [numbered_cons_of_nil hnil, numbered_cons_of_nil (h ▸ hnil), hrows]
  · rw [numbered_cons_of_ne_nil hnil, numbered_cons_of_ne_nil (h ▸ hnil), h, hrows]

theorem numbered_congr {n : Nat} {rows rows' : List Text}
    (h : rows.map content = rows'.map content) : numbered n rows = numbered n rows' := by
  induction rows generalizing n rows' with
  | nil => rw [List.map_eq_nil_iff.1 h.symm]
  | cons raw rows ih =>
    obtain ⟨raw', rest, rfl, hraw, hrows⟩ := List.map_eq_cons_iff.1 h.symm
    exact numbered_cons_congr hraw.symm (ih hrows.symm)

theorem numbered_append (n : Nat) (xs ys : List Text) :
    numbered n (xs ++ ys) = numbered n xs ++ numbered (n + xs.length) ys := by
  induction xs generalizing n with
  | nil => rfl
  | cons raw xs ih =>
    have hlen : n + 1 + xs.length = n + (raw :: xs).length := by rw [List.length_cons]; omega
    rw [List.cons_append]
    by_cases hnil : content raw = []
    · rw [numbered_cons_of_nil hnil, numbered_cons_of_nil hnil, ih, hlen]
    · rw [numbered_cons_of_ne_nil hnil, numbered_cons_of_ne_nil hnil, ih, hlen, List.cons_append]

/-- Rows that hold nothing give no line. -/
theorem numbered_eq_nil {n : Nat} {rows : List Text} (h : ∀ raw ∈ rows, content raw = []) :
    numbered n rows = [] := by
  induction rows generalizing n with
  | nil => rfl
  | cons raw rows ih =>
    obtain ⟨hraw, hrows⟩ := List.forall_mem_cons.1 h
    rw [numbered_cons_of_nil hraw, ih hrows]

/-- The texts of the lines are the contents of the rows that hold something. -/
theorem map_text_numbered (n : Nat) (rows : List Text) :
    (numbered n rows).map Line.text = (rows.map content).filter (· ≠ []) := by
  induction rows generalizing n with
  | nil => rfl
  | cons raw rows ih =>
    by_cases hnil : content raw = []
    · rw [numbered_cons_of_nil hnil, ih, List.map_cons, List.filter_cons_of_neg (by simp [hnil])]
    · rw [numbered_cons_of_ne_nil hnil, List.map_cons, ih, List.map_cons,
        List.filter_cons_of_pos (by simp [hnil])]

/-- A property of the texts of the lines is one of the rows that hold something. -/
theorem forall_numbered_iff {n : Nat} {rows : List Text} {P : Text → Prop} :
    (∀ line ∈ numbered n rows, P line.text) ↔
      ∀ raw ∈ rows, content raw ≠ [] → P (content raw) := by
  have h : (∀ t ∈ (numbered n rows).map Line.text, P t) ↔
      ∀ t ∈ (rows.map content).filter (· ≠ []), P t := by rw [map_text_numbered]
  simpa [List.forall_mem_map, List.mem_filter] using h

/-- A line stands at the row that its number says. -/
theorem numbered_eq_append_cons_iff {n : Nat} {rows : List Text} {line : Line}
    {front back : List Line} : numbered n rows = front ++ line :: back ↔
      ∃ above raw below, rows = above ++ raw :: below ∧ content raw ≠ [] ∧
        front = numbered n above ∧ line = ⟨n + above.length, content raw⟩ ∧
        back = numbered (n + above.length + 1) below := by
  constructor
  · intro h
    induction rows generalizing n front with
    | nil => simp [numbered] at h
    | cons raw rows ih =>
      by_cases hnil : content raw = []
      · rw [numbered_cons_of_nil hnil] at h
        obtain ⟨above, raw', below, rfl, hne, rfl, rfl, rfl⟩ := ih h
        have hlen : n + 1 + above.length = n + (raw :: above).length := by
          rw [List.length_cons]; omega
        exact ⟨raw :: above, raw', below, rfl, hne, (numbered_cons_of_nil hnil above).symm,
          by rw [hlen], by rw [hlen]⟩
      · rw [numbered_cons_of_ne_nil hnil] at h
        cases front with
        | nil =>
          obtain ⟨rfl, rfl⟩ := List.cons.inj h
          exact ⟨[], raw, rows, rfl, hnil, rfl, rfl, rfl⟩
        | cons l front =>
          obtain ⟨rfl, hrest⟩ := List.cons.inj h
          obtain ⟨above, raw', below, rfl, hne, rfl, rfl, rfl⟩ := ih hrest
          have hlen : n + 1 + above.length = n + (raw :: above).length := by
            rw [List.length_cons]; omega
          exact ⟨raw :: above, raw', below, rfl, hne, (numbered_cons_of_ne_nil hnil above).symm,
            by rw [hlen], by rw [hlen]⟩
  · rintro ⟨above, raw, below, rfl, hne, rfl, rfl, rfl⟩
    rw [numbered_append, numbered_cons_of_ne_nil hne]

/-- The numbers of lines are those of their rows. -/
theorem number_of_mem_numbered {n : Nat} {rows : List Text} {line : Line}
    (h : line ∈ numbered n rows) : n ≤ line.number ∧ line.number < n + rows.length := by
  obtain ⟨front, back, h⟩ := List.append_of_mem h
  obtain ⟨above, raw, below, rfl, -, -, rfl, -⟩ := numbered_eq_append_cons_iff.1 h
  rw [List.length_append, List.length_cons]
  exact ⟨Nat.le_add_right _ _, by simp only; omega⟩

/-- The line after `k` more rows were put behind the first `b`. -/
def moved (b k : Nat) (line : Line) : Line :=
  if line.number ≤ b then line else { line with number := line.number + k }

theorem moved_text (b k : Nat) (line : Line) : (line.moved b k).text = line.text := by
  rw [moved]
  split <;> rfl

theorem numbered_add {n b : Nat} (hb : b < n) (k : Nat) (rows : List Text) :
    numbered (n + k) rows = (numbered n rows).map (moved b k) := by
  induction rows generalizing n with
  | nil => rfl
  | cons raw rows ih =>
    have hrows := ih (Nat.lt_succ_of_lt hb)
    rw [show n + 1 + k = n + k + 1 by omega] at hrows
    by_cases hnil : content raw = []
    · rw [numbered_cons_of_nil hnil, numbered_cons_of_nil hnil, hrows]
    · rw [numbered_cons_of_ne_nil hnil, numbered_cons_of_ne_nil hnil, hrows, List.map_cons, moved,
        if_neg (Nat.not_le.2 hb)]

/-- Rows that hold nothing move the lines behind them. -/
theorem numbered_insert {above inserted below : List Text}
    (h : ∀ raw ∈ inserted, content raw = []) : numbered 1 (above ++ inserted ++ below) =
      (numbered 1 (above ++ below)).map (moved above.length inserted.length) := by
  have hstay : (numbered 1 above).map (moved above.length inserted.length) = numbered 1 above := by
    refine (List.map_congr_left fun line hline => ?_).trans (List.map_id _)
    have hnumber := (number_of_mem_numbered hline).2
    rw [moved, if_pos (by omega), id]
  rw [List.append_assoc, numbered_append, numbered_append, numbered_eq_nil h, List.nil_append,
    numbered_append, List.map_append, hstay, ← numbered_add (by omega)]

/-- The rows of a file are its lines. -/
theorem ofSource_eq (source : Text) : ofSource source = numbered 1 (lines source) := by
  have h : ∀ n, numbered n (pieces '\n' source) = numbered n (lines source) := by
    induction source using cut_induction '\n' with
    | last t ht =>
      intro n
      by_cases hne : t = []
      · rw [hne]
        rfl
      · rw [pieces_of_not_mem ht, lines_of_not_mem ht hne]
    | cut s t hs ih =>
      intro n
      obtain ⟨l, hl, hlines⟩ := lines_append_cons hs t
      rw [pieces_append_cons hs, hlines]
      refine numbered_cons_congr ?_ (ih (n + 1))
      rcases hl with rfl | rfl
      · rfl
      · exact content_append_return l
  exact h 1

end Line

/-! ### Files -/

/-- What the lines of a file hold, in order: each without comment and surrounding blanks, and
those left out of which nothing remains. -/
def contents (source : Text) : List Text :=
  ((lines source).map Line.content).filter (· ≠ [])

theorem mem_contents_iff {source t : Text} :
    t ∈ contents source ↔ ∃ row ∈ lines source, Line.content row ≠ [] ∧ Line.content row = t := by
  rw [contents, List.mem_filter, List.mem_map, decide_eq_true_iff]
  constructor
  · rintro ⟨⟨row, hrow, rfl⟩, hne⟩
    exact ⟨row, hrow, hne, rfl⟩
  · rintro ⟨row, hrow, hne, rfl⟩
    exact ⟨⟨row, hrow, rfl⟩, hne⟩

/-- The first row that holds something but declares nothing, with its number. -/
def Line.IsFirstBad (rows : List Text) (line : Line) : Prop :=
  ∃ above raw below, rows = above ++ raw :: below ∧
    (∀ row ∈ above, Line.content row ≠ [] → IsDeclaration (Line.content row)) ∧
    Line.content raw ≠ [] ∧ ¬ IsDeclaration (Line.content raw) ∧
    line = ⟨above.length + 1, Line.content raw⟩

/-- The error at a line that was moved by rows put in. -/
def LineError.moved (b k : Nat) (e : LineError) : LineError := ⟨e.line.moved b k, e.fault⟩

namespace Definitions

theorem ofSource_eq_addLines (source : Text) :
    ofSource source = empty.addLines (Line.numbered 1 (lines source)) := by
  rw [ofSource, Line.ofSource_eq, ofLines]

/-- The tables list what the lines declare. -/
theorem ofSource_eq_ok_iff {source : Text} {d : Definitions} : ofSource source = .ok d ↔
    ∃ es, List.Forall₂ Declares (contents source) es ∧ d = ofEntries es := by
  rw [ofSource_eq_addLines, contents, ← Line.map_text_numbered 1]
  exact @addLines_eq_ok_iff _ [] d

/-- Every entry is declared by a line. -/
theorem exists_declares_of_mem {source : Text} {d : Definitions} (h : ofSource source = .ok d)
    {e : TableEntry} (he : e ∈ d.entries) : ∃ t ∈ contents source, Declares t e := by
  obtain ⟨es, hes, rfl⟩ := ofSource_eq_ok_iff.1 h
  have hboth : List.Forall₂ (fun t e => t ∈ contents source ∧ Declares t e) (contents source) es :=
    (List.forall₂_and_left _ _).2 ⟨fun _ ht => ht, hes⟩
  exact exists_forall₂_iff.1 ⟨_, hboth.flip⟩ e (mem_entries_ofEntries.1 he)

/-- **The tables that are read from a definitions file are well-named.** -/
theorem wellNamed_ofSource {source : Text} {d : Definitions} (h : ofSource source = .ok d) :
    d.WellNamed := by
  have hentry : ∀ m ∈ d.macros, IsName m.name ∧ ∀ p ∈ m.body.params, p ≠ [] := by
    intro m hm
    obtain ⟨t, -, hdeclares⟩ :=
      exists_declares_of_mem h (List.mem_append_right _ (List.mem_map_of_mem hm))
    cases hdeclares with
    | template hw hps =>
      cases hw with
      | template hs => exact ⟨hs.isName, hps.ne_nil⟩
    | computed hw hps hc =>
      obtain ⟨-, rfl, -⟩ := Computed.compile_eq_ok_iff.1 hc
      cases hw with
      | computed _ _ hs => exact ⟨hs.isName, hps.ne_nil⟩
  refine ⟨fun c hc => ?_, fun m hm => (hentry m hm).1, fun m hm => (hentry m hm).2⟩
  obtain ⟨t, -, hdeclares⟩ :=
    exists_declares_of_mem h (List.mem_append_left _ (List.mem_map_of_mem hc))
  cases hdeclares with
  | constant hw =>
    cases hw with
    | constant _ _ hn _ => exact hn

/-- A file is read when every line that holds something declares an entry. -/
theorem exists_ofSource_eq_ok_iff {source : Text} : (∃ d, ofSource source = .ok d) ↔
    ∀ row ∈ lines source, Line.content row ≠ [] → IsDeclaration (Line.content row) := by
  have hcontents : (∃ d, ofSource source = .ok d) ↔ ∀ t ∈ contents source, IsDeclaration t := by
    refine Iff.trans ?_ exists_forall₂_iff
    constructor
    · rintro ⟨d, hd⟩
      obtain ⟨es, hes, -⟩ := ofSource_eq_ok_iff.1 hd
      exact ⟨es, hes⟩
    · rintro ⟨es, hes⟩
      exact ⟨_, ofSource_eq_ok_iff.2 ⟨es, hes, rfl⟩⟩
  rw [hcontents]
  constructor
  · exact fun h row hrow hne => h _ (mem_contents_iff.2 ⟨row, hrow, hne, rfl⟩)
  · intro h t ht
    obtain ⟨row, hrow, hne, rfl⟩ := mem_contents_iff.1 ht
    exact h row hrow hne

/-- A file is refused at the first line that holds something but declares nothing. -/
theorem exists_ofSource_eq_error_iff {source : Text} {line : Line} :
    (∃ fault, ofSource source = .error ⟨line, fault⟩) ↔ line.IsFirstBad (lines source) := by
  rw [ofSource_eq_addLines, addLines_eq_error_iff]
  constructor
  · rintro ⟨front, back, h, hgood, hbad⟩
    obtain ⟨above, raw, below, hrows, hne, rfl, rfl, -⟩ := Line.numbered_eq_append_cons_iff.1 h
    exact ⟨above, raw, below, hrows, Line.forall_numbered_iff.1 hgood, hne, hbad,
      by rw [Nat.add_comm]⟩
  · rintro ⟨above, raw, below, hrows, hgood, hne, hbad, rfl⟩
    exact ⟨_, _, Line.numbered_eq_append_cons_iff.2 ⟨above, raw, below, hrows, hne, rfl,
      by rw [Nat.add_comm], rfl⟩, Line.forall_numbered_iff.2 hgood, hbad⟩

/-- Lines that hold nothing only move the line of an error. -/
theorem ofSource_insert {source other : Text} {above inserted below : List Text}
    (hsource : lines source = above ++ below) (hother : lines other = above ++ inserted ++ below)
    (h : ∀ raw ∈ inserted, Line.content raw = []) : ofSource other =
      (ofSource source).mapError (LineError.moved above.length inserted.length) := by
  rw [ofSource_eq_addLines, ofSource_eq_addLines, hsource, hother, Line.numbered_insert h,
    addLines_map (Line.moved_text _ _)]
  rfl

/-- Lines count by their contents. -/
theorem ofSource_congr {source other : Text}
    (h : (lines source).map Line.content = (lines other).map Line.content) :
    ofSource source = ofSource other := by
  rw [ofSource_eq_addLines, ofSource_eq_addLines, Line.numbered_congr h]

/-- **A definitions file is read line by line, in order, all or nothing.**  It is read exactly when
every line of it that holds something declares an entry; the tables then list these entries in the
order of the lines.  Otherwise the error names the first line that declares nothing, with its
number among all lines.  Lines put in that hold nothing, and comments put behind lines, change
nothing but the number in an error. -/
theorem ofSource_lines (source : Text) :
    ((∃ d, ofSource source = .ok d) ↔
      ∀ row ∈ lines source, Line.content row ≠ [] → IsDeclaration (Line.content row)) ∧
    (∀ d, ofSource source = .ok d ↔ ∃ es, List.Forall₂ Declares (contents source) es ∧
      d.constants = es.filterMap Sum.getLeft? ∧ d.macros = es.filterMap Sum.getRight?) ∧
    (∀ line, (∃ fault, ofSource source = .error ⟨line, fault⟩) ↔
      line.IsFirstBad (lines source)) ∧
    (∀ other above inserted below, lines source = above ++ below →
      lines other = above ++ inserted ++ below → (∀ raw ∈ inserted, Line.content raw = []) →
      ofSource other =
        (ofSource source).mapError (LineError.moved above.length inserted.length)) ∧
    (∀ other above raw comment below, lines source = above ++ raw :: below →
      lines other = above ++ (raw ++ '#' :: comment) :: below →
      ofSource other = ofSource source) := by
  refine ⟨exists_ofSource_eq_ok_iff, fun d => ?_, fun line => exists_ofSource_eq_error_iff,
    fun other above inserted below hsource hother h => ofSource_insert hsource hother h,
    fun other above raw comment below hsource hother => ofSource_congr ?_⟩
  · rw [ofSource_eq_ok_iff]
    refine exists_congr fun es => and_congr_right fun _ => ?_
    cases d
    rw [ofEntries, mk.injEq]
  · simp only [hsource, hother, List.map_append, List.map_cons, Line.content_comment]

/-- Lines end with and without a carriage return, the last one without an end.  A line put in front
moves the error. -/
theorem ofSource_lines_comment :
    ofSource "const A = 1;\r\nconst B".toList =
      .error ⟨⟨2, "const B".toList⟩, .unrecognised⟩ ∧
    ofSource " # note\nconst A = 1;\r\nconst B".toList =
      (ofSource "const A = 1;\r\nconst B".toList).mapError (LineError.moved 0 1) := by
  refine ⟨by rfl, (ofSource_lines "const A = 1;\r\nconst B".toList).2.2.2.1 _ []
    [" # note".toList] ["const A = 1;".toList, "const B".toList] ?_ ?_ ?_⟩
  · decide
  · decide
  · decide

end Definitions

end ScriptEmbed
