import ScriptEmbed.Proofs.Definitions.LineGrammar

/-!
# Layouts of a line

The grammar of a line says that there are parts of which a line is made; this file names the parts.
A layout is a line taken apart into everything its form leaves open, gaps included, and it carries
the proofs that its parts are allowed to stand there.  So a line has a form when it is the text of a
layout of that form, and the grammar is unambiguous when no two layouts have the same text.

Parts of one text meet where a run of a class ends or where a character stands for the first time.
Either place is determined by the text, and the parts follow from left to right.

* `Tail`, `Signature`, `Layout` — a line and its parts, `Layout.text`, `Layout.declaration`;
* `writtenAs_iff` — the forms of the grammar are the forms of layouts;
* `cut_unique`, `until_unique` — where two parts meet is determined;
* `Layout.text_injective` — **no line has two layouts**;
* `parse?_iff_layout` — the reader finds the declaration of the layout, whatever form it tries
  first.
-/

namespace ScriptEmbed.Declaration

open Text

/-! ### Lines taken apart -/

/-- From the gap before the equals sign on: what stands up to the semicolon is kept as written. -/
@[ext]
structure Tail where
  gap : Text
  raw : Text
  isGap : IsGap gap
  semicolon : ';' ∉ raw

/-- A macro from its leading word on. -/
@[ext]
structure Signature where
  gap : Text
  name : Text
  before : Text
  params : Text
  tail : Tail
  isGap : IsGap gap
  gap_ne_nil : gap ≠ []
  isName : IsName name
  before_isGap : IsGap before
  parenthesis : ')' ∉ params

/-- A line taken apart: a constant, a template macro, or a computed macro. -/
inductive Layout where
  | constant (gap name : Text) (tail : Tail) (isGap : IsGap gap) (gap_ne_nil : gap ≠ [])
      (isName : IsName name)
  | template (signature : Signature)
  | computed (gap : Text) (signature : Signature) (isGap : IsGap gap) (gap_ne_nil : gap ≠ [])

/-- The tail put together. -/
def Tail.text (l : Tail) : Text := l.gap ++ '=' :: (l.raw ++ [';'])

/-- The macro put together. -/
def Signature.text (s : Signature) : Text :=
  "macro".toList ++ (s.gap ++ (s.name ++ (s.before ++ '(' :: (s.params ++ ')' :: s.tail.text))))

/-- The line put together. -/
def Layout.text : Layout → Text
  | .constant gap name tail _ _ _ => "const".toList ++ (gap ++ (name ++ tail.text))
  | .template signature => signature.text
  | .computed gap signature _ _ => "python".toList ++ (gap ++ signature.text)

/-- What a line of this layout declares. -/
def Layout.declaration : Layout → Declaration
  | .constant _ name tail _ _ _ => .constant name (trim tail.raw)
  | .template s => .template s.name s.params (trim s.tail.raw)
  | .computed _ s _ _ => .computed s.name s.params (trim s.tail.raw)

/-! ### The forms of the grammar -/

variable {t n ps b v : Text}

theorem assigned_iff : Assigned v t ↔ ∃ l : Tail, l.text = t ∧ trim l.raw = v := by
  constructor
  · rintro ⟨g, raw, hg, hraw, rfl, rfl⟩
    exact ⟨⟨g, raw, hg, hraw⟩, rfl, rfl⟩
  · rintro ⟨l, rfl, rfl⟩
    exact ⟨l.gap, l.raw, l.isGap, l.semicolon, rfl, rfl⟩

theorem signed_iff : Signed n ps b t ↔
    ∃ s : Signature, s.text = t ∧ s.name = n ∧ s.params = ps ∧ trim s.tail.raw = b := by
  constructor
  · rintro ⟨g, h, u, hg, hne, hn, hh, hps, hb, rfl⟩
    obtain ⟨l, rfl, rfl⟩ := assigned_iff.1 hb
    exact ⟨⟨g, n, h, ps, l, hg, hne, hn, hh, hps⟩, rfl, rfl, rfl, rfl⟩
  · rintro ⟨s, rfl, rfl, rfl, rfl⟩
    exact ⟨s.gap, s.before, s.tail.text, s.isGap, s.gap_ne_nil, s.isName, s.before_isGap,
      s.parenthesis, assigned_iff.2 ⟨s.tail, rfl, rfl⟩, rfl⟩

/-- A line is written as a declaration when it is the text of a layout that declares it. -/
theorem writtenAs_iff {e : Declaration} :
    e.WrittenAs t ↔ ∃ l : Layout, l.text = t ∧ l.declaration = e := by
  constructor
  · intro h
    cases h with
    | @constant g n v u hg hne hn hv =>
      obtain ⟨l, rfl, rfl⟩ := assigned_iff.1 hv
      exact ⟨.constant g n l hg hne hn, rfl, rfl⟩
    | template hs =>
      obtain ⟨s, rfl, rfl, rfl, rfl⟩ := signed_iff.1 hs
      exact ⟨.template s, rfl, rfl⟩
    | @computed g n ps b u hg hne hs =>
      obtain ⟨s, rfl, rfl, rfl, rfl⟩ := signed_iff.1 hs
      exact ⟨.computed g s hg hne, rfl, rfl⟩
  · rintro ⟨l, rfl, rfl⟩
    cases l with
    | constant gap name tail hg hne hn =>
      exact .constant hg hne hn (assigned_iff.2 ⟨tail, rfl, rfl⟩)
    | template s => exact .template (signed_iff.2 ⟨s, rfl, rfl, rfl, rfl⟩)
    | computed gap s hg hne => exact .computed hg hne (signed_iff.2 ⟨s, rfl, rfl, rfl, rfl⟩)

/-! ### Where two parts meet -/

variable {s s' r r' : Text}

/-- A text has one cut behind its longest run of a class. -/
theorem cut_unique {f : Char → Bool} (h : s ++ r = s' ++ r') (hs : ∀ c ∈ s, f c = true)
    (hr : ∀ c ∈ r.head?, f c = false) (hs' : ∀ c ∈ s', f c = true)
    (hr' : ∀ c ∈ r'.head?, f c = false) : s = s' ∧ r = r' := by
  obtain ⟨htake, hdrop⟩ := cut_iff.2 ⟨rfl, hs, hr⟩
  obtain ⟨htake', hdrop'⟩ := cut_iff.2 ⟨h, hs', hr'⟩
  exact ⟨htake.symm.trans htake', hdrop.symm.trans hdrop'⟩

/-- A text has one cut before the first of a character. -/
theorem until_unique {a : Char} (h : s ++ a :: r = s' ++ a :: r') (hs : a ∉ s) (hs' : a ∉ s') :
    s = s' ∧ r = r' := by
  obtain ⟨htake, hdrop⟩ := until_iff.2 ⟨rfl, hs⟩
  obtain ⟨htake', hdrop'⟩ := until_iff.2 ⟨h, hs'⟩
  exact ⟨htake.symm.trans htake', (List.cons.inj (hdrop.symm.trans hdrop')).2⟩

/-- A gap ends where something else follows. -/
theorem gap_unique {a : Char} (h : s ++ a :: r = s' ++ a :: r') (hs : IsGap s) (hs' : IsGap s')
    (ha : isGap a = false) : s = s' ∧ r = r' := by
  have hfree : ∀ {u}, IsGap u → a ∉ u := fun hu hmem => by
    rw [hu a hmem] at ha
    cases ha
  exact until_unique h (hfree hs) (hfree hs')

/-- A leading gap and the name behind it end where the next part starts. -/
theorem gap_name_unique {g g' n' : Text} (h : g ++ (n ++ r) = g' ++ (n' ++ r')) (hg : IsGap g)
    (hg' : IsGap g') (hn : IsName n) (hn' : IsName n')
    (hr : ∀ c ∈ r.head?, isNameChar c = false) (hr' : ∀ c ∈ r'.head?, isNameChar c = false) :
    g = g' ∧ n = n' ∧ r = r' := by
  obtain ⟨hgap, hrest⟩ := cut_unique h hg (head_not_isGap hn r) hg' (head_not_isGap hn' r')
  exact ⟨hgap, cut_unique hrest hn.isNameChar hr hn'.isNameChar hr'⟩

/-! ### The grammar is unambiguous -/

theorem Tail.head_not (l : Tail) : ∀ c ∈ l.text.head?, isNameChar c = false :=
  head_not_isNameChar l.isGap (by decide) _

theorem Tail.text_injective : Function.Injective Tail.text := by
  intro l l' h
  obtain ⟨hgap, hrest⟩ := gap_unique h l.isGap l'.isGap (by decide)
  exact Tail.ext hgap (until_unique hrest l.semicolon l'.semicolon).1

/-- The word for a macro does not start with a gap. -/
theorem Signature.head_not (s : Signature) : ∀ c ∈ s.text.head?, Declaration.isGap c = false :=
  (signed_iff.2 ⟨s, rfl, rfl, rfl, rfl⟩ : Signed _ _ _ s.text).head_not

theorem Signature.text_injective : Function.Injective Signature.text := by
  intro s s' h
  have hbefore : ∀ s : Signature, ∀ c ∈ (s.before ++ '(' :: (s.params ++ ')' :: s.tail.text)).head?,
      isNameChar c = false := fun s => head_not_isNameChar s.before_isGap (by decide) _
  obtain ⟨hgap, hname, hrest⟩ := gap_name_unique (List.append_cancel_left h) s.isGap s'.isGap
    s.isName s'.isName (hbefore s) (hbefore s')
  obtain ⟨hopen, hrest⟩ := gap_unique hrest s.before_isGap s'.before_isGap (by decide)
  obtain ⟨hparams, htail⟩ := until_unique hrest s.parenthesis s'.parenthesis
  exact Signature.ext hgap hname hopen hparams (Tail.text_injective htail)

/-- **No line has two layouts.** -/
theorem Layout.text_injective : Function.Injective Layout.text := by
  intro l l' h
  -- the first letter tells the three forms apart
  have hhead := congrArg List.head? h
  cases l with
  | constant gap name tail hg hne hn =>
    cases l' with
    | constant gap' name' tail' hg' hne' hn' =>
      obtain ⟨rfl, rfl, htail⟩ := gap_name_unique (List.append_cancel_left h) hg hg' hn hn'
        tail.head_not tail'.head_not
      obtain rfl := Tail.text_injective htail
      rfl
    | _ => exact absurd (Option.some.inj hhead) (by decide)
  | template s =>
    cases l' with
    | template s' => exact congrArg _ (Signature.text_injective h)
    | _ => exact absurd (Option.some.inj hhead) (by decide)
  | computed gap s hg hne =>
    cases l' with
    | computed gap' s' hg' hne' =>
      obtain ⟨rfl, hsignature⟩ := cut_unique (List.append_cancel_left h) hg s.head_not hg'
        s'.head_not
      obtain rfl := Signature.text_injective hsignature
      rfl
    | _ => exact absurd (Option.some.inj hhead) (by decide)

/-! ### The order of the forms -/

/-- The forms may be tried in any order. -/
theorem findSome?_forms {order : List (Text → Option Declaration)} (h : order.Perm forms)
    (t : Text) : order.findSome? (fun f => f t) = parse? t := by
  cases hfound : order.findSome? (fun f => f t) with
  | some e =>
    obtain ⟨f, hf, he⟩ := List.exists_of_findSome?_eq_some hfound
    exact (parse?_eq_some_iff.2 (writtenAs_of_form (h.mem_iff.1 hf) he)).symm
  | none =>
    refine (Option.eq_none_iff_forall_ne_some.2 fun e he => ?_).symm
    obtain ⟨f, hf, hsome⟩ := exists_form_of_parse? he
    rw [List.findSome?_eq_none_iff.1 hfound f (h.mem_iff.2 hf)] at hsome
    cases hsome

/-- A line is read as a declaration exactly when it has a layout that declares it, and not at all
exactly when it has none.  It never has two layouts, and the forms may be tried in any order. -/
theorem parse?_iff_layout (t : Text) :
    (∀ e, parse? t = some e ↔ ∃ l : Layout, l.text = t ∧ l.declaration = e) ∧
      (parse? t = none ↔ ∀ l : Layout, l.text ≠ t) ∧
      (∀ l l' : Layout, l.text = t → l'.text = t → l = l') ∧
      ∀ order : List (Text → Option Declaration), order.Perm forms →
        order.findSome? (fun f => f t) = parse? t := by
  have hread : ∀ e, parse? t = some e ↔ ∃ l : Layout, l.text = t ∧ l.declaration = e :=
    fun e => parse?_eq_some_iff.trans writtenAs_iff
  refine ⟨hread, ?_, fun l l' h h' => Layout.text_injective (h.trans h'.symm),
    fun order horder => findSome?_forms horder t⟩
  rw [Option.eq_none_iff_forall_ne_some]
  constructor
  · exact fun hnone l hl => hnone l.declaration ((hread _).2 ⟨l, hl, rfl⟩)
  · intro hnone e he
    obtain ⟨l, hl, -⟩ := (hread e).1 he
    exact hnone l hl

/-- An equals sign may stand in a value: the line has one layout, and its form may be tried last. -/
theorem parse?_equals_in_value :
    parse? "const k ==1;".toList = some (.constant ['k'] "=1".toList) ∧
      (∃! l : Layout, l.text = "const k ==1;".toList) ∧
      [computed?, template?, constant?].findSome? (fun f => f "const k ==1;".toList) =
        parse? "const k ==1;".toList := by
  obtain ⟨hread, -, hunique, horder⟩ := parse?_iff_layout "const k ==1;".toList
  have hgap : IsGap [' '] := by simp [IsGap, isGap]
  have hname : IsName ['k'] := ⟨by decide, fun c hc => by rw [List.mem_singleton.1 hc]; decide⟩
  let l : Layout := .constant [' '] ['k'] ⟨[' '], "=1".toList, hgap, by decide⟩ hgap (by decide)
    hname
  refine ⟨(hread _).2 ⟨l, rfl, rfl⟩, ⟨l, rfl, fun l' hl' => hunique l' l hl' rfl⟩, horder _ ?_⟩
  exact List.reverse_perm forms

end ScriptEmbed.Declaration
