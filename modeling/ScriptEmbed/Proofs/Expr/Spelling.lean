import Mathlib
import ScriptEmbed.Proofs.Expr.Grammar
import ScriptEmbed.Proofs.Text.Pieces

/-!
# The spelling of tokens

Which texts a list of tokens can be written as, and that the scanner finds the tokens in each.  Any
number of spaces, tabs and line ends may stand between two tokens, and one must stand between two
tokens that are words or numbers.

* `Quoted`, `Token.Spells` — what a token can be written as;
* `Spelled` — **what a list of tokens can be written as**;
* `Token.next?_of_spells` — the scanner finds a token where the text behind it does not go on with
  it;
* `scan?_of_spelled` — **the scanner gives the tokens back**;
* `Token.WellFormed` — the literals and names that can be written;
* `exists_spelled`, `Token.scannable_of_scan?` — all of these can be written, and the scanner finds
  no others but floating-point numbers.
-/

namespace ScriptEmbed

/-! ### Spellings -/

/-- The character of a bracket or separator. -/
def Mark.char : Mark → Char
  | openParen => '('
  | closeParen => ')'
  | openBracket => '['
  | closeBracket => ']'
  | comma => ','

/-- What the contents of a string can be written as before the quote that closes it: a character
other than the quote and the backslash may stand for itself. -/
inductive Quoted (quote : Char) : Text → Text → Prop
  | close : Quoted quote [] [quote]
  | plain {c : Char} {s w : Text} : c ≠ quote → c ≠ '\\' → Quoted quote s w →
      Quoted quote (c :: s) (c :: w)
  | escaped {e c : Char} {s w : Text} : Token.escape? e = some c → Quoted quote s w →
      Quoted quote (c :: s) ('\\' :: e :: w)

namespace Token

/-- A name of an expression: letters, digits and low lines of ASCII without a digit at the front,
and no reserved word. -/
structure IsIdentifier (n : Text) : Prop where
  start : ∃ c ∈ n.head?, isNameStart c = true
  isNameChar : ∀ c ∈ n, Text.isNameChar c = true
  not_reserved : ∀ k : Keyword, k.spelling.toList ≠ n

/-- What a token can be written as. -/
inductive Spells : Token → Text → Prop
  | decimal {i : Int64} {d : Text} : d ≠ [] → (∀ c ∈ d, Decimal.isDigit c = true) →
      i.toInt = Decimal.value d → Spells (.int i) d
  | hexadecimal {i : Int64} {x : Char} {d : Text} : x = 'x' ∨ x = 'X' → d ≠ [] →
      (∀ c ∈ d, isHexDigit c = true) → i.toInt = hexValue d → Spells (.int i) ('0' :: x :: d)
  | str {s w : Text} {quote : Char} : quote = '"' ∨ quote = '\'' → Quoted quote s w →
      Spells (.str s) (quote :: w)
  | name {n : Text} : IsIdentifier n → Spells (.name n) n
  | keyword (k : Keyword) : Spells (.keyword k) k.spelling.toList
  | op {o : BinaryOp} : o.token = .op o → Spells (.op o) o.symbol.toList
  | mark (m : Mark) : Spells (.mark m) [m.char]

/-- Words and numbers, which must not stand side by side. -/
def isWord : Token → Bool
  | .int _ | .float _ | .name _ | .keyword _ => true
  | _ => false

end Token

/-- What a list of tokens can be written as. -/
inductive Spelled : List Token → Text → Prop
  | nil {g : Text} : (∀ c ∈ g, Token.isSpace c = true) → Spelled [] g
  | cons {g w t : Text} {k : Token} {ks : List Token} :
      (∀ c ∈ g, Token.isSpace c = true) → k.Spells w →
      (k.isWord = true → (∃ k' ∈ ks.head?, k'.isWord = true) →
        ∃ c ∈ t.head?, Token.isSpace c = true) →
      Spelled ks t → Spelled (k :: ks) (g ++ (w ++ t))

/-- Behind a token that is no word or number no space is needed. -/
theorem Spelled.cons_of_not_isWord {g w t : Text} {k : Token} {ks : List Token}
    (hg : ∀ c ∈ g, Token.isSpace c = true) (hw : k.Spells w) (hk : k.isWord = false)
    (h : Spelled ks t) : Spelled (k :: ks) (g ++ (w ++ t)) :=
  .cons hg hw (fun hword => absurd (hk.symm.trans hword) Bool.false_ne_true) h

/-! ### Characters -/

namespace Token

theorem isNameChar_of_isNameStart {c : Char} (h : isNameStart c = true) :
    Text.isNameChar c = true := by
  simp only [isNameStart, Text.isNameChar, Char.isAlphanum, Bool.or_eq_true] at h ⊢
  tauto

theorem isNameChar_of_isHexDigit {c : Char} (h : isHexDigit c = true) :
    Text.isNameChar c = true := by
  simp only [isHexDigit, Bool.or_eq_true, Bool.and_eq_true, decide_eq_true_eq, Char.le_def,
    UInt32.le_iff_toNat_le] at h
  simp only [Text.isNameChar, Char.isAlphanum, Char.isAlpha, Char.isUpper, Char.isLower,
    Bool.or_eq_true, Bool.and_eq_true, decide_eq_true_eq, ge_iff_le, UInt32.le_iff_toNat_le]
  have hf : 'f'.val.toNat = 102 := rfl
  have hz : 'z'.val.toNat = 122 := rfl
  have hF : 'F'.val.toNat = 70 := rfl
  have hZ : 'Z'.val.toNat = 90 := rfl
  rcases h with (h | h) | h
  · exact .inl (.inr h)
  · exact .inl (.inl (.inr ⟨h.1, by omega⟩))
  · exact .inl (.inl (.inl ⟨h.1, by omega⟩))

theorem isNameChar_of_isDigit {c : Char} (h : Decimal.isDigit c = true) :
    Text.isNameChar c = true := by
  rw [Decimal.isDigit] at h
  simp [Text.isNameChar, Char.isAlphanum, h]

/-- No name starts with a digit. -/
theorem isDigit_of_isNameStart {c : Char} (h : isNameStart c = true) : c.isDigit = false := by
  rw [Bool.eq_false_iff]
  intro hd
  simp only [isNameStart, Char.isAlpha, Char.isUpper, Char.isLower, Char.isDigit,
    Bool.or_eq_true, Bool.and_eq_true, decide_eq_true_eq, ge_iff_le, UInt32.le_iff_toNat_le,
    beq_iff_eq] at h hd
  have h9 : '9'.val.toNat = 57 := rfl
  have hA : 'A'.val.toNat = 65 := rfl
  have ha : 'a'.val.toNat = 97 := rfl
  rcases h with (h | h) | rfl
  · omega
  · omega
  · exact absurd hd.2 (by decide)

theorem isSpace_of_isNameChar {c : Char} (h : Text.isNameChar c = true) : isSpace c = false := by
  simp only [isSpace, Bool.or_eq_false_iff, beq_eq_false_iff_ne]
  refine ⟨⟨⟨?_, ?_⟩, ?_⟩, ?_⟩ <;> rintro rfl <;> cases h

/-- A space ends every token. -/
theorem ends_of_isSpace {c : Char} (h : isSpace c = true) :
    (Text.isNameChar c = false ∧ c ≠ '.') ∧ c ≠ '=' ∧ c ≠ '/' := by
  simp only [isSpace, Bool.or_eq_true, beq_iff_eq] at h
  rcases h with ((rfl | rfl) | rfl) | rfl <;> decide

/-! ### One token -/

/-- The text behind a token does not go on with it: a word or number ends where no name character
and no point follows, and an operator where none is made longer. -/
def EndsBefore (k : Token) (t : Text) : Prop :=
  ∀ c ∈ t.head?, (k.isWord = true → Text.isNameChar c = false ∧ c ≠ '.') ∧
    ∀ o, k = .op o → c ≠ '=' ∧ c ≠ '/'

variable {t : Text}

theorem EndsBefore.head_not {k : Token} (h : k.EndsBefore t) (hk : k.isWord = true) {p : Char → Bool}
    (hp : ∀ c, p c = true → Text.isNameChar c = true) : ∀ c ∈ t.head?, p c = false := by
  intro c hc
  rw [Bool.eq_false_iff]
  intro hpc
  exact Bool.false_ne_true (((h c hc).1 hk).1.symm.trans (hp c hpc))

theorem decimal?_append {i : Int64} {ds : Text} (hds : ∀ c ∈ ds, Decimal.isDigit c = true)
    (hi : i.toInt = Decimal.value ds) (ht : (int i).EndsBefore t) :
    decimal? (ds ++ t) = some (int i, t) := by
  have hdigit := ht.head_not rfl fun c => isNameChar_of_isDigit
  rw [decimal?]
  obtain ⟨htake, hdrop⟩ := Text.cut_iff.2 ⟨rfl, hds, hdigit⟩
  simp only [htake, hdrop]
  split
  · exact absurd rfl ((ht '.' rfl).1 rfl).2
  · rw [← hi, Word.ofInt?_toInt]
    rfl

theorem number?_eq_decimal? {c : Char} (ht : ∀ x ∈ t.head?, x ≠ 'x' ∧ x ≠ 'X') :
    number? (c :: t) = decimal? (c :: t) := by
  rw [number?.eq_def]
  split
  · rename_i x rest heq
    cases heq
    obtain ⟨hx, hX⟩ := ht x rfl
    simp [hx, hX]
  · rfl

theorem next?_decimal {i : Int64} {ds : Text} (hne : ds ≠ [])
    (hds : ∀ c ∈ ds, Decimal.isDigit c = true) (hi : i.toInt = Decimal.value ds)
    (ht : (int i).EndsBefore t) : next? (ds ++ t) = some (int i, t) := by
  obtain ⟨d, ds, rfl⟩ := List.exists_cons_of_ne_nil hne
  have hd : d.isDigit = true := hds d List.mem_cons_self
  rw [List.cons_append, next?, if_pos hd, number?_eq_decimal?]
  · exact decimal?_append hds hi ht
  · -- neither a digit nor what ends the number makes it one of base sixteen
    intro x hx
    cases ds with
    | nil =>
      have := ht.head_not rfl (fun c hc => hc) x hx
      constructor <;> rintro rfl <;> cases this
    | cons e ds =>
      cases hx
      have := hds x (by simp)
      constructor <;> rintro rfl <;> cases this

theorem next?_hexadecimal {i : Int64} {x : Char} {ds : Text} (hx : x = 'x' ∨ x = 'X')
    (hne : ds ≠ []) (hds : ∀ c ∈ ds, isHexDigit c = true) (hi : i.toInt = hexValue ds)
    (ht : (int i).EndsBefore t) : next? ('0' :: x :: ds ++ t) = some (int i, t) := by
  have hdigit := ht.head_not rfl fun c => isNameChar_of_isHexDigit
  have hx : (x == 'x' || x == 'X') = true := by simpa using hx
  obtain ⟨htake, hdrop⟩ := Text.cut_iff.2 ⟨rfl, hds, hdigit⟩
  show number? ('0' :: x :: (ds ++ t)) = _
  rw [number?]
  simp only [htake, hdrop, hx, ← hi, Word.ofInt?_toInt]
  simp [hne]

theorem next?_name {w : Text} (hstart : ∃ c ∈ w.head?, isNameStart c = true)
    (hw : ∀ c ∈ w, Text.isNameChar c = true) (ht : ∀ c ∈ t.head?, Text.isNameChar c = false) :
    next? (w ++ t) = some (ofWord w, t) := by
  obtain ⟨c, hc, hstart⟩ := hstart
  obtain ⟨u, rfl⟩ := List.head?_eq_some_iff.1 hc
  have hu : ∀ d ∈ u, Text.isNameChar d = true := fun d hd => hw d (List.mem_cons_of_mem c hd)
  obtain ⟨htake, hdrop⟩ := Text.cut_iff.2 ⟨rfl, hu, ht⟩
  rw [List.cons_append, next?, if_neg (by simp [isDigit_of_isNameStart hstart]), if_pos hstart,
    htake, hdrop]

theorem ofWord_spelling (k : Keyword) : ofWord k.spelling.toList = keyword k := by
  cases k <;> rfl

theorem head?_spelling (k : Keyword) :
    ∃ c ∈ k.spelling.toList.head?, isNameStart c = true := by
  cases k <;> exact ⟨_, rfl, rfl⟩

theorem isNameChar_spelling (k : Keyword) :
    ∀ c ∈ k.spelling.toList, Text.isNameChar c = true := by
  have hall : k.spelling.toList.all Text.isNameChar = true := by cases k <;> decide
  exact List.all_eq_true.1 hall

theorem ofWord_of_isIdentifier {n : Text} (h : IsIdentifier n) : ofWord n = name n := by
  have hnone : Keyword.ofSpelling? n = none := by
    rw [Keyword.ofSpelling?, List.find?_eq_none]
    intro k _
    simpa using h.not_reserved k
  rw [ofWord, hnone]

/-- A character of a string other than a backslash stands for itself, unless it closes it. -/
theorem quoted?_cons {quote c : Char} (hc : c ≠ '\\') (t : Text) :
    quoted? quote (c :: t) =
      if c = quote then some ([], t) else (quoted? quote t).map fun p => (c :: p.1, p.2) := by
  rw [quoted?]
  · cases quoted? quote t <;> rfl
  · exact fun e rest heq => absurd heq hc

theorem quoted?_append {quote : Char} (hquote : quote ≠ '\\') {s w : Text} (h : Quoted quote s w)
    (t : Text) : quoted? quote (w ++ t) = some (s, t) := by
  induction h with
  | close => exact (quoted?_cons hquote t).trans (if_pos rfl)
  | plain hc hne _ ih => rw [List.cons_append, quoted?_cons hne, if_neg hc, ih, Option.map_some]
  | escaped he _ ih =>
    rw [List.cons_append, List.cons_append, quoted?, he, ih]
    rfl

theorem next?_str {quote : Char} (hquote : quote = '"' ∨ quote = '\'') {s w : Text}
    (h : Quoted quote s w) (t : Text) : next? (quote :: w ++ t) = some (str s, t) := by
  have hback : quote ≠ '\\' := by rcases hquote with rfl | rfl <;> decide
  have hdigit : ¬ quote.isDigit = true := by rcases hquote with rfl | rfl <;> decide
  have hstart : ¬ isNameStart quote = true := by rcases hquote with rfl | rfl <;> decide
  rw [List.cons_append, next?, if_neg hdigit, if_neg hstart, if_pos hquote,
    quoted?_append hback h, Option.map_some]

theorem next?_op {o : BinaryOp} (ho : o.token = op o) (ht : (op o).EndsBefore t) :
    next? (o.symbol.toList ++ t) = some (op o, t) := by
  cases o with
  | and | or => cases ho
  | lt =>
    show symbol? ('<' :: t) = _
    rw [symbol?]
    rintro rest rfl
    exact ((ht '=' rfl).2 _ rfl).1 rfl
  | gt =>
    show symbol? ('>' :: t) = _
    rw [symbol?]
    rintro rest rfl
    exact ((ht '=' rfl).2 _ rfl).1 rfl
  | div =>
    show symbol? ('/' :: t) = _
    rw [symbol?]
    rintro rest rfl
    exact ((ht '/' rfl).2 _ rfl).2 rfl
  | _ => rfl

theorem next?_mark (m : Mark) (t : Text) : next? ([m.char] ++ t) = some (mark m, t) := by
  cases m <;> rfl

/-- **A token is found** where the text behind it does not go on with it. -/
theorem next?_of_spells {k : Token} {w : Text} (h : k.Spells w) (ht : k.EndsBefore t) :
    next? (w ++ t) = some (k, t) := by
  cases h with
  | decimal hne hds hi => exact next?_decimal hne hds hi ht
  | hexadecimal hx hne hds hi => exact next?_hexadecimal hx hne hds hi ht
  | str hquote hq => exact next?_str hquote hq t
  | name hn =>
    rw [next?_name hn.start hn.isNameChar fun c hc => ((ht c hc).1 rfl).1,
      ofWord_of_isIdentifier hn]
  | keyword k =>
    rw [next?_name (head?_spelling k) (isNameChar_spelling k) fun c hc => ((ht c hc).1 rfl).1,
      ofWord_spelling]
  | op ho => exact next?_op ho ht
  | mark m => exact next?_mark m t

/-! ### First characters -/

/-- What the first character of a token says about the text before it: no space, no more of a word
or number before it unless it is one itself, and no more of an operator where an operand starts. -/
structure FirstChar (k : Token) (c : Char) : Prop where
  isSpace : Token.isSpace c = false
  ends_word : k.isWord = false → Text.isNameChar c = false ∧ c ≠ '.'
  ends_op : (∃ r, k.startRank? = some r) → c ≠ '=' ∧ c ≠ '/'

theorem firstChar_of_isNameChar {k : Token} {c : Char} (hk : k.isWord = true)
    (hc : Text.isNameChar c = true) : k.FirstChar c where
  isSpace := isSpace_of_isNameChar hc
  ends_word h := absurd (hk.symm.trans h) Bool.noConfusion
  ends_op _ := by constructor <;> rintro rfl <;> cases hc

theorem firstChar_op {o : BinaryOp} (ho : o.token = op o) :
    ∃ c u, o.symbol.toList = c :: u ∧ (op o).FirstChar c := by
  cases o with
  | and | or => cases ho
  | add | sub =>
    exact ⟨_, _, rfl, by decide, fun _ => by decide, fun _ => by decide⟩
  | _ =>
    refine ⟨_, _, rfl, by decide, fun _ => by decide, ?_⟩
    rintro ⟨r, hr⟩
    cases hr

theorem Spells.exists_first {k : Token} {w : Text} (h : k.Spells w) :
    ∃ c u, w = c :: u ∧ k.FirstChar c := by
  cases h with
  | decimal hne hds _ =>
    obtain ⟨d, ds, rfl⟩ := List.exists_cons_of_ne_nil hne
    exact ⟨d, ds, rfl,
      firstChar_of_isNameChar rfl (isNameChar_of_isDigit (hds d List.mem_cons_self))⟩
  | hexadecimal => exact ⟨_, _, rfl, firstChar_of_isNameChar rfl rfl⟩
  | str hquote =>
    rcases hquote with rfl | rfl <;>
      exact ⟨_, _, rfl, by decide, fun _ => by decide, fun _ => by decide⟩
  | name hn =>
    obtain ⟨c, hc, -⟩ := hn.start
    obtain ⟨u, rfl⟩ := List.head?_eq_some_iff.1 hc
    exact ⟨c, u, rfl, firstChar_of_isNameChar rfl (hn.isNameChar c List.mem_cons_self)⟩
  | keyword k =>
    obtain ⟨c, hc, hstart⟩ := head?_spelling k
    obtain ⟨u, hu⟩ := List.head?_eq_some_iff.1 hc
    exact ⟨c, u, hu, firstChar_of_isNameChar rfl (isNameChar_of_isNameStart hstart)⟩
  | op ho => exact firstChar_op ho
  | mark m =>
    cases m <;> exact ⟨_, _, rfl, by decide, fun _ => by decide, fun _ => by decide⟩

end Token

/-! ### Lists of tokens -/

theorem scan?_append_of_isSpace {gap : Text} (hgap : ∀ c ∈ gap, Token.isSpace c = true)
    (t : Text) : Token.scan? (gap ++ t) = Token.scan? t := by
  induction gap with
  | nil => rfl
  | cons c gap ih =>
    rw [List.cons_append, Token.scan?, if_pos (hgap c List.mem_cons_self)]
    exact ih fun d hd => hgap d (List.mem_cons_of_mem c hd)

theorem scan?_of_next? {c : Char} {u t : Text} {k : Token} (hc : Token.isSpace c = false)
    (h : Token.next? (c :: u) = some (k, t)) :
    Token.scan? (c :: u) = (Token.scan? t).map (k :: ·) := by
  rw [Token.scan?, if_neg (by simp [hc])]
  split
  · rename_i hnone
    cases hnone.symm.trans h
  · rename_i hsome
    cases hsome.symm.trans h
    rfl

/-- The text of a list of tokens starts with a space or with its first token. -/
theorem Spelled.of_head? {ks : List Token} {t : Text} (h : Spelled ks t) {c : Char}
    (hc : c ∈ t.head?) : Token.isSpace c = true ∨ ∃ k ∈ ks.head?, k.FirstChar c := by
  cases h with
  | nil hgap => exact .inl (hgap c (List.mem_of_mem_head? hc))
  | @cons gap w t k ks hgap hw _ _ =>
    cases gap with
    | nil =>
      obtain ⟨d, u, rfl, hd⟩ := hw.exists_first
      cases hc
      exact .inr ⟨k, rfl, hd⟩
    | cons d gap =>
      cases hc
      exact .inl (hgap c List.mem_cons_self)

/-- A token ends before the text of the next one. -/
theorem Spelled.endsBefore {k : Token} {ks : List Token} {t : Text} (h : Spelled ks t)
    (hgap : k.isWord = true → (∃ k' ∈ ks.head?, k'.isWord = true) →
      ∃ c ∈ t.head?, Token.isSpace c = true)
    (hop : ∀ o, k = .op o → o.token = k ∧ StartsOperand ks) : k.EndsBefore t := by
  intro c hc
  rcases h.of_head? hc with hspace | ⟨k', hk', hfirst⟩
  · have hends := Token.ends_of_isSpace hspace
    exact ⟨fun _ => hends.1, fun _ _ => hends.2⟩
  · refine ⟨fun hk => ?_, fun o ho => ?_⟩
    · cases hword : k'.isWord with
      | false => exact hfirst.ends_word hword
      | true =>
        obtain ⟨d, hd, hspace⟩ := hgap hk ⟨k', hk', hword⟩
        cases Option.mem_unique hc hd
        cases hfirst.isSpace.symm.trans hspace
    · obtain ⟨-, k'', hk'', hstart⟩ := hop o ho
      cases Option.mem_unique hk' hk''
      exact hfirst.ends_op hstart

/-- **The scanner gives the tokens back.** -/
theorem scan?_of_spelled {ks : List Token} {t : Text} (h : Spelled ks t)
    (hop : OperandsFollow ks) : Token.scan? t = some ks := by
  induction h with
  | @nil gap hgap =>
    rw [← List.append_nil gap, scan?_append_of_isSpace hgap, Token.scan?]
  | @cons gap w t k ks hgap hw hsep hks ih =>
    obtain ⟨hk, hop⟩ := hop
    obtain ⟨c, u, rfl, hc⟩ := hw.exists_first
    have hnext := Token.next?_of_spells hw (hks.endsBefore hsep hk)
    rw [List.cons_append] at hnext
    rw [scan?_append_of_isSpace hgap, List.cons_append, scan?_of_next? hc.isSpace hnext, ih hop]
    rfl

/-! ### What can be written -/

namespace Token

/-- The literals and names that can be written: integers from zero, no floating-point numbers, and
identifiers. -/
def WellFormed : Token → Prop
  | .int i => 0 ≤ i.toInt
  | .float _ => False
  | .name n => IsIdentifier n
  | _ => True

/-- The contents of a string and the quote that closes it, with a backslash before each backslash
and each quote. -/
def escape (quote : Char) : Text → Text
  | [] => [quote]
  | c :: s =>
    if c = '\\' ∨ c = quote then '\\' :: c :: escape quote s else c :: escape quote s

theorem quoted_escape {quote : Char} (hquote : quote = '"' ∨ quote = '\'') (s : Text) :
    Quoted quote s (escape quote s) := by
  induction s with
  | nil => exact .close
  | cons c s ih =>
    rw [escape]
    split
    · rename_i hc
      refine .escaped ?_ ih
      rcases hc with rfl | rfl
      · rfl
      · rcases hquote with rfl | rfl <;> rfl
    · rename_i hc
      exact .plain (fun h => hc (.inr h)) (fun h => hc (.inl h)) ih

theorem WellFormed.exists_spells {k : Token} (h : k.WellFormed)
    (hop : ∀ o, k = .op o → o.token = k) : ∃ w, k.Spells w := by
  cases k with
  | int i =>
    refine ⟨Decimal.digits i.toInt.toNat, .decimal (Decimal.digits_ne_nil _) ?_ ?_⟩
    · exact List.all_eq_true.1 (Decimal.all_isDigit_digits _)
    · rw [Decimal.value_digits]
      exact (Int.toNat_of_nonneg h).symm
  | float x => exact h.elim
  | str s => exact ⟨_, .str (.inl rfl) (quoted_escape (.inl rfl) s)⟩
  | name n => exact ⟨n, .name h⟩
  | keyword k => exact ⟨_, .keyword k⟩
  | op o => exact ⟨_, .op (hop o rfl)⟩
  | mark m => exact ⟨_, .mark m⟩

end Token

/-- Tokens that can be written can be written one behind the other, with a space before each. -/
theorem exists_spelled {ks : List Token} (h : ∀ k ∈ ks, k.WellFormed) (hop : OperandsFollow ks) :
    ∃ t, Spelled ks t := by
  suffices hspace : ∃ t, Spelled ks (' ' :: t) by
    obtain ⟨t, ht⟩ := hspace
    exact ⟨_, ht⟩
  induction ks with
  | nil => exact ⟨[], .nil (List.forall_mem_singleton.2 rfl)⟩
  | cons k ks ih =>
    obtain ⟨hk, hop⟩ := hop
    obtain ⟨w, hw⟩ := (h k List.mem_cons_self).exists_spells fun o ho => (hk o ho).1
    obtain ⟨t, ht⟩ := ih (fun k' hk' => h k' (List.mem_cons_of_mem k hk')) hop
    have hgap : ∀ c ∈ [' '], Token.isSpace c = true := List.forall_mem_singleton.2 rfl
    exact ⟨_, .cons hgap hw (fun _ _ => ⟨' ', rfl, rfl⟩) ht⟩

namespace Token

/-- What the scanner can find. -/
def Scannable (k : Token) : Prop := k.WellFormed ∨ ∃ x, k = .float x

variable {t rest : Text} {k : Token}

theorem scannable_int {n : Nat} {i : Int64} (h : Word.ofInt? n = some i) : (int i).Scannable := by
  refine .inl ?_
  rw [WellFormed, Word.toInt_of_ofInt? h]
  exact Int.natCast_nonneg n

theorem scannable_of_decimal? (h : decimal? t = some (k, rest)) : k.Scannable := by
  rw [decimal?] at h
  split at h
  · cases h
    exact .inr ⟨_, rfl⟩
  · obtain ⟨i, hi, h⟩ := Option.map_eq_some_iff.1 h
    cases h
    exact scannable_int hi

theorem scannable_of_number? (h : number? t = some (k, rest)) : k.Scannable := by
  rw [number?.eq_def] at h
  split at h
  · dsimp only at h
    split at h
    · obtain ⟨i, hi, h⟩ := Option.map_eq_some_iff.1 h
      cases h
      exact scannable_int hi
    · exact scannable_of_decimal? h
  · exact scannable_of_decimal? h

theorem scannable_ofWord {w : Text} (hstart : ∃ c ∈ w.head?, isNameStart c = true)
    (hw : ∀ c ∈ w, Text.isNameChar c = true) : (ofWord w).Scannable := by
  rw [ofWord]
  cases hk : Keyword.ofSpelling? w with
  | some k => exact .inl trivial
  | none =>
    refine .inl ⟨hstart, hw, fun k heq => ?_⟩
    have hnone := List.find?_eq_none.1 hk k (by cases k <;> decide)
    simp [heq] at hnone

theorem scannable_of_symbol? (h : symbol? t = some (k, rest)) : k.Scannable := by
  unfold symbol? at h
  split at h <;> cases h <;> exact .inl trivial

theorem scannable_of_next? (h : next? t = some (k, rest)) : k.Scannable := by
  cases t with
  | nil => cases h
  | cons c t =>
    rw [next?] at h
    split at h
    · exact scannable_of_number? h
    · split at h
      · rename_i hstart
        cases h
        refine scannable_ofWord ⟨c, rfl, hstart⟩ fun d hd => ?_
        rcases List.mem_cons.1 hd with rfl | hd
        · exact isNameChar_of_isNameStart hstart
        · exact List.all_eq_true.1 List.all_takeWhile d hd
      · split at h
        · obtain ⟨p, -, h⟩ := Option.map_eq_some_iff.1 h
          cases h
          exact .inl trivial
        · exact scannable_of_symbol? h

/-- **The scanner finds only what can be written**, and floating-point numbers. -/
theorem scannable_of_scan? {ks : List Token} (h : scan? t = some ks) : ∀ k ∈ ks, k.Scannable := by
  fun_induction scan? t generalizing ks with
  | case1 =>
    cases h
    simp
  | case2 c rest _ ih => exact ih h
  | case3 => cases h
  | case4 c rest _ k rest' hnext ih =>
    obtain ⟨ks, hks, h⟩ := Option.map_eq_some_iff.1 h
    cases h
    intro k' hk'
    rcases List.mem_cons.1 hk' with rfl | hk'
    · exact scannable_of_next? hnext
    · exact ih hks k' hk'

end Token

end ScriptEmbed
