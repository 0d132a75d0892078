import Mathlib
import ScriptEmbed.Proofs.Definitions.Tables

/-!
# Writing tables as a definitions file

A listing of tables can be written as a definitions file: an entry a line, constants first.  Reading
what was written gives the tables back, since everything that reading takes off a name, a parameter
or a body is gone once it was read.

* `Definition.written`, `Definitions.written` — the line of an entry, and the file of a listing;
* `Definition.Writable` — what reading establishes of an entry;
* `Declares.written` — an entry is declared by its own line;
* `Definitions.ofSource_written` — **what is read from a file is read from its listing again**.
-/

namespace ScriptEmbed

open Text

/-! ### Lines of entries -/

namespace Definition

/-- The name of a macro with its parameters. -/
def signature (e : Definition) : Text := e.name ++ '(' :: (join ", ".toList e.params ++ [')'])

/-- The line that declares an entry, up to the equals sign. -/
def head (e : Definition) : Text :=
  match e.kind with
  | .constant => "const ".toList ++ e.name
  | .template => "macro ".toList ++ e.signature
  | .computed => "python macro ".toList ++ e.signature

/-- The line that declares an entry. -/
def written (e : Definition) : Text := e.head ++ (" = ".toList ++ (e.body ++ [';']))

end Definition

/-- The definitions file of a listing, an entry a line. -/
def Definitions.written (d : Definitions) : Text := d.summary.flatMap fun e => e.written ++ ['\n']

/-- The entry as it is listed. -/
def TableEntry.summary : TableEntry → Definition := Sum.elim Constant.summary NamedMacro.summary

theorem Definitions.summary_eq (d : Definitions) : d.summary = d.entries.map TableEntry.summary := by
  simp [Definitions.summary, Definitions.entries, TableEntry.summary, Function.comp_def]

/-! ### What reading establishes -/

/-- Nothing in a text ends a line or starts a comment. -/
def IsPlain (t : Text) : Prop := '#' ∉ t ∧ '\n' ∉ t

theorem IsPlain.mono {s t : Text} (ht : IsPlain t) (h : ∀ c ∈ s, c ∈ t) : IsPlain s :=
  ⟨fun hs => ht.1 (h _ hs), fun hs => ht.2 (h _ hs)⟩

theorem IsPlain.append {s t : Text} (hs : IsPlain s) (ht : IsPlain t) : IsPlain (s ++ t) :=
  ⟨fun h => (List.mem_append.1 h).elim hs.1 ht.1, fun h => (List.mem_append.1 h).elim hs.2 ht.2⟩

instance : DecidablePred IsPlain := fun _ => inferInstanceAs (Decidable (_ ∧ _))

theorem IsName.isPlain {n : Text} (h : IsName n) : IsPlain n :=
  ⟨fun hc => absurd (h.isNameChar _ hc) (by decide), fun hc => absurd (h.isNameChar _ hc) (by decide)⟩

/-- A parameter as a list of parameters gives it. -/
structure IsParam (p : Text) : Prop where
  ne_nil : p ≠ []
  trimmed : Trimmed p
  comma : ',' ∉ p
  paren : ')' ∉ p
  plain : IsPlain p

/-- What reading establishes of an entry, so that its line can be read again. -/
structure Definition.Writable (e : Definition) : Prop where
  name : IsName e.name
  param : ∀ p ∈ e.params, IsParam p
  nodup : e.params.Nodup
  trimmed : Trimmed e.body
  semicolon : ';' ∉ e.body
  plain : IsPlain e.body

/-- What a list of parameters gives are parameters. -/
theorem IsParamList.isParam {t : Text} {ps : List Text} (h : IsParamList t ps) (ht : ')' ∉ t)
    (hplain : IsPlain t) : ∀ p ∈ ps, IsParam p := by
  intro p hp
  have hmem := hp
  rw [h.eq] at hmem
  split at hmem
  · cases hmem
  · obtain ⟨q, hq, rfl⟩ := List.mem_map.1 hmem
    have hof : ∀ c ∈ trim q, c ∈ t := fun c hc => mem_of_mem_pieces hq (mem_of_mem_trim hc)
    exact ⟨h.ne_nil _ hp, trimmed_trim q, fun hc => not_mem_of_mem_pieces hq (mem_of_mem_trim hc),
      fun hc => ht (hof _ hc), hplain.mono hof⟩

namespace Declaration

variable {n ps b v t : Text}

/-- A single blank is a gap. -/
theorem isGap_blank : IsGap [' '] := by
  simp [IsGap, isGap]

theorem Assigned.body (h : Assigned v t) :
    Trimmed v ∧ ';' ∉ v ∧ ∀ c ∈ v, c ∈ t := by
  obtain ⟨g, raw, -, hraw, rfl, rfl⟩ := h
  refine ⟨trimmed_trim raw, fun hc => hraw (mem_of_mem_trim hc), fun c hc => ?_⟩
  have := mem_of_mem_trim hc
  simp [this]

theorem Signed.parts (h : Signed n ps b t) :
    IsName n ∧ ')' ∉ ps ∧ (∀ c ∈ ps, c ∈ t) ∧ Trimmed b ∧ ';' ∉ b ∧ ∀ c ∈ b, c ∈ t := by
  obtain ⟨g, k, u, -, -, hn, -, hps, hb, rfl⟩ := h
  obtain ⟨htrim, hsemi, hmem⟩ := hb.body
  refine ⟨hn, hps, fun c hc => ?_, htrim, hsemi, fun c hc => ?_⟩
  · simp [hc]
  · have := hmem c hc
    simp [this]

end Declaration

/-- What a macro's line gives can be written. -/
theorem Declaration.Signed.writable {n params b t : Text} {ps : List Text}
    (h : Declaration.Signed n params b t) (hps : IsParamList params ps) (ht : IsPlain t)
    (kind : DefinitionKind) : Definition.Writable ⟨kind, n, ps, b⟩ := by
  obtain ⟨hn, hparen, hparams, htrim, hsemi, hbody⟩ := h.parts
  exact ⟨hn, hps.isParam hparen (ht.mono hparams), hps.nodup, htrim, hsemi, ht.mono hbody⟩

/-- What a line declares can be written. -/
theorem Declares.writable {t : Text} {e : TableEntry} (h : Declares t e) (ht : IsPlain t) :
    (TableEntry.summary e).Writable := by
  cases h with
  | constant hw =>
    cases hw with
    | constant _ _ hn hv =>
      obtain ⟨htrim, hsemi, hmem⟩ := hv.body
      refine ⟨hn, fun p hp => absurd hp List.not_mem_nil, List.nodup_nil, htrim, hsemi,
        ht.mono fun c hc => ?_⟩
      have hc := hmem c hc
      simp [hc]
  | template hw hps =>
    cases hw with
    | template hs => exact hs.writable hps ht .template
  | @computed n params b ps c hw hps hc =>
    obtain ⟨cps, source, expr⟩ := c
    obtain ⟨-, rfl, rfl, -, -⟩ := Computed.compile_eq_ok_iff.1 hc
    cases hw with
    | computed _ _ hs =>
      refine hs.writable hps (ht.mono fun c hc => ?_) .computed
      exact List.mem_append_right _ (List.mem_append_right _ hc)

/-! ### Reading the line of an entry -/

/-- Parameters that are joined are read again. -/
theorem map_trim_pieces_join {p : Text} {ps : List Text} (hps : ∀ q ∈ p :: ps, IsParam q) :
    ∀ l, allBlank l = true → ',' ∉ l →
      (pieces ',' (l ++ join ", ".toList (p :: ps))).map trim = p :: ps := by
  induction ps generalizing p with
  | nil =>
    intro l hl hcomma
    have hp := hps p List.mem_cons_self
    rw [join, pieces_of_not_mem (by simp [hcomma, hp.comma]), List.map_singleton,
      trim_append_of_trimmed hl hp.trimmed]
  | cons q ps ih =>
    intro l hl hcomma
    obtain ⟨hp, hps⟩ := List.forall_mem_cons.1 hps
    have hsplit : l ++ join ", ".toList (p :: q :: ps) =
        (l ++ p) ++ ',' :: ([' '] ++ join ", ".toList (q :: ps)) := by simp [join]
    rw [hsplit, pieces_append_cons (by simp [hcomma, hp.comma]), List.map_cons,
      trim_append_of_trimmed hl hp.trimmed, ih hps [' '] (by decide) (by decide)]

theorem isParamList_join {ps : List Text} (hps : ∀ p ∈ ps, IsParam p) (hnodup : ps.Nodup) :
    IsParamList (join ", ".toList ps) ps := by
  refine ⟨?_, fun p hp => (hps p hp).ne_nil, hnodup⟩
  cases ps with
  | nil => rfl
  | cons p ps =>
    have hp := hps p List.mem_cons_self
    obtain ⟨c, p, rfl⟩ := List.exists_cons_of_ne_nil hp.ne_nil
    have hmem : c ∈ join ", ".toList ((c :: p) :: ps) := by cases ps <;> simp [join]
    have hblank : ¬ allBlank (join ", ".toList ((c :: p) :: ps)) = true := fun h => by
      have hc := hp.trimmed.head c rfl
      rw [List.all_eq_true.1 h c hmem] at hc
      cases hc
    rw [if_neg hblank]
    exact (map_trim_pieces_join hps [] rfl List.not_mem_nil).symm

theorem isPlain_join {sep : Text} {ps : List Text} (hsep : IsPlain sep)
    (hps : ∀ p ∈ ps, IsPlain p) : IsPlain (join sep ps) :=
  ⟨fun h => (mem_join h).elim hsep.1 fun ⟨p, hp, hc⟩ => (hps p hp).1 hc,
    fun h => (mem_join h).elim hsep.2 fun ⟨p, hp, hc⟩ => (hps p hp).2 hc⟩

namespace Definition

theorem getLast?_written (e : Definition) : e.written.getLast? = some ';' := by
  rw [Definition.written, ← List.append_assoc, ← List.append_assoc, List.getLast?_concat]

/-- The line of an entry has no blanks at its ends. -/
theorem trimmed_written (e : Definition) : Trimmed e.written := by
  constructor
  · intro c hc
    obtain ⟨kind, name, params, body⟩ := e
    cases kind with
    | constant =>
      obtain rfl : 'c' = c := Option.some.inj hc
      decide
    | template =>
      obtain rfl : 'm' = c := Option.some.inj hc
      decide
    | computed =>
      obtain rfl : 'p' = c := Option.some.inj hc
      decide
  · intro c hc
    rw [getLast?_written, Option.mem_def, Option.some.injEq] at hc
    rw [← hc]
    decide

namespace Writable

variable {e : Definition}

/-- The body stands behind an equals sign with blanks around it. -/
theorem assigned (h : e.Writable) :
    Declaration.Assigned e.body (" = ".toList ++ (e.body ++ [';'])) := by
  have htrim : trim ([' '] ++ e.body) = e.body := trim_append_of_trimmed (by decide) h.trimmed
  exact ⟨[' '], [' '] ++ e.body, Declaration.isGap_blank, by simp [h.semicolon], htrim.symm, rfl⟩

/-- The part of a macro's line from its first word on. -/
theorem signed (h : e.Writable) : Declaration.Signed e.name (join ", ".toList e.params) e.body
    ("macro ".toList ++ e.signature ++ (" = ".toList ++ (e.body ++ [';']))) := by
  refine ⟨[' '], [], _, Declaration.isGap_blank, by simp, h.name, by simp [Declaration.IsGap],
    fun hparen => ?_, h.assigned, by simp [signature]⟩
  rcases mem_join hparen with hsep | ⟨p, hp, hc⟩
  · exact absurd hsep (by decide)
  · exact (h.param p hp).paren hc

/-- The line of an entry neither ends early nor holds a comment. -/
theorem isPlain (h : e.Writable) : IsPlain e.written := by
  have hsignature : IsPlain e.signature := by
    have hjoin := isPlain_join (by decide : IsPlain ", ".toList) fun p hp => (h.param p hp).plain
    rw [signature, ← List.singleton_append]
    exact h.name.isPlain.append ((by decide : IsPlain ['(']).append (hjoin.append (by decide)))
  have hhead : IsPlain e.head := by
    rw [head]
    split
    · exact (by decide : IsPlain _).append h.name.isPlain
    · exact (by decide : IsPlain _).append hsignature
    · exact (by decide : IsPlain _).append hsignature
  exact hhead.append ((by decide : IsPlain _).append (h.plain.append (by decide)))

/-- The line of an entry holds itself. -/
theorem content_written (h : e.Writable) : Line.content e.written = e.written := by
  rw [Line.content, before, (cut_iff.2 ⟨(List.append_nil _).symm, fun c hc => ?_, by simp⟩).1,
    (trimmed_written e).trim_eq]
  rw [bne_iff_ne]
  exact fun heq => h.isPlain.1 (heq ▸ hc)

end Writable

end Definition

/-- **An entry is declared by its own line.** -/
theorem Declares.written {t : Text} {e : TableEntry} (h : Declares t e) (ht : IsPlain t) :
    Declares (TableEntry.summary e).written e := by
  have hw := h.writable ht
  cases h with
  | @constant n v hd =>
    have hline : (TableEntry.summary (.inl ⟨n, v⟩)).written =
        "const".toList ++ ([' '] ++ (n ++ (" = ".toList ++ (v ++ [';'])))) := by
      simp [Definition.written, Definition.head, TableEntry.summary, Constant.summary]
    rw [hline]
    exact .constant (.constant Declaration.isGap_blank (by simp) hw.name hw.assigned)
  | template hd hps => exact .template (.template hw.signed) (isParamList_join hw.param hw.nodup)
  | @computed n params b ps c hd hps hc =>
    obtain ⟨cps, source, expr⟩ := c
    obtain ⟨-, rfl, rfl, -, -⟩ := Computed.compile_eq_ok_iff.1 hc
    have hline : ∀ e : Definition, e.kind = .computed → e.written = "python".toList ++ ([' '] ++
        ("macro ".toList ++ e.signature ++ (" = ".toList ++ (e.body ++ [';'])))) := by
      intro e he
      rw [Definition.written, Definition.head, he]
      simp
    rw [hline _ rfl]
    exact .computed (.computed Declaration.isGap_blank (by simp) hw.signed)
      (isParamList_join hw.param hw.nodup) hc

/-! ### Files -/

namespace Definitions

/-- The file of a listing holds the lines of its entries. -/
theorem contents_written {d : Definitions} (h : ∀ e ∈ d.summary, e.Writable) :
    contents d.written = d.summary.map Definition.written := by
  have hlines : lines d.written = d.summary.map Definition.written := by
    have hnewline : ∀ l ∈ d.summary.map Definition.written, '\n' ∉ l := by
      intro l hl
      obtain ⟨e, he, rfl⟩ := List.mem_map.1 hl
      exact (h e he).isPlain.2
    have hreturn : ∀ l ∈ d.summary.map Definition.written, l.getLast? ≠ some '\r' := by
      intro l hl
      obtain ⟨e, he, rfl⟩ := List.mem_map.1 hl
      rw [Definition.getLast?_written]
      decide
    have hread := lines_flatMap hnewline hreturn
    rwa [List.flatMap_map] at hread
  have hcontent : (d.summary.map Definition.written).map Line.content =
      d.summary.map Definition.written := by
    rw [List.map_map]
    exact List.map_congr_left fun e he => (h e he).content_written
  rw [contents, hlines, hcontent, List.filter_eq_self.2]
  intro t ht
  obtain ⟨e, he, rfl⟩ := List.mem_map.1 ht
  rw [decide_eq_true_iff]
  intro hnil
  have hlast := Definition.getLast?_written e
  rw [hnil] at hlast
  cases hlast

/-- What the lines of a file hold neither ends a line nor starts a comment. -/
theorem isPlain_of_mem_contents {source t : Text} (h : t ∈ contents source) : IsPlain t := by
  obtain ⟨row, hrow, -, rfl⟩ := mem_contents_iff.1 h
  refine ⟨fun hc => ?_, fun hc => ?_⟩
  · have hhash := List.all_eq_true.1 List.all_takeWhile _ (mem_of_mem_trim hc)
    cases hhash
  · exact not_mem_of_mem_lines hrow ((List.takeWhile_prefix _).subset (mem_of_mem_trim hc))

/-- **What is read from a file is read from its listing again.**  The listing is written an entry a
line, and reading it gives the very tables that were listed. -/
theorem ofSource_written {source : Text} {d : Definitions} (h : ofSource source = .ok d) :
    ofSource d.written = .ok d := by
  have hentries : ∀ e ∈ d.entries, (TableEntry.summary e).Writable ∧
      Declares (TableEntry.summary e).written e := by
    intro e he
    obtain ⟨t, ht, hdeclares⟩ := exists_declares_of_mem h he
    have hplain := isPlain_of_mem_contents ht
    exact ⟨hdeclares.writable hplain, hdeclares.written hplain⟩
  have hwritable : ∀ e ∈ d.summary, e.Writable := by
    rw [summary_eq, List.forall_mem_map]
    exact fun e he => (hentries e he).1
  refine ofSource_eq_ok_iff.2 ⟨d.entries, ?_, (ofEntries_entries d).symm⟩
  rw [contents_written hwritable, summary_eq, List.map_map, List.forall₂_map_left_iff,
    List.forall₂_same]
  exact fun e he => (hentries e he).2

/-- A constant, and a computed macro that ignores one of its parameters. -/
def untidy : Definitions :=
  ⟨[⟨['A'], ['1']⟩], [⟨['N'], .computed ⟨[['x'], ['y']], ['x'], .name ['x']⟩⟩]⟩

/-- Blanks, comments and the order of the lines are gone once a file was read. -/
theorem ofSource_written_untidy :
    ofSource "python macro N( x ,y)=x ; # note\r\n\nconst A =\t1;".toList = .ok untidy ∧
      untidy.written = "const A = 1;\npython macro N(x, y) = x;\n".toList ∧
      ofSource untidy.written = .ok untidy := by
  have h : ofSource "python macro N( x ,y)=x ; # note\r\n\nconst A =\t1;".toList =
      .ok untidy := by cbv
  exact ⟨h, rfl, ofSource_written h⟩

end Definitions

end ScriptEmbed
