import ScriptEmbed.Proofs.Expansion.ArgumentList
import ScriptEmbed.Proofs.Text.Balance
import ScriptEmbed.Proofs.Text.Utf8

/-!
# Splitting an argument list is exact

The reader of argument lists is held against a description of what it reads: parts with commas
between them and a closing bracket after them, where a part is balanced and has no comma outside
its own brackets.  The place of the closing bracket is described by the bytes of the text alone.

* `IsPart`, `ClosesFirst` — what a part is, and the byte at which a list is closed;
* `spans?_append_of_stretch` — the reader walks over a stretch of one part and adds it to that part;
* `spans?_join`, `splitsAt_of_spans?` — joined parts are read back, and what is read was joined;
* `exists_prefix_of_prefix_utf8` — the level along the bytes is one along the characters;
* `scanAt?_exact` — **the arguments at an offset are the trimmed parts up to the first byte that
  closes the list, and reading is inverse to joining**.
-/

namespace ScriptEmbed

/-! ### Levels along bytes -/

namespace Text

/-- What a byte adds to the level of brackets. -/
def byteStep (b : UInt8) : Int :=
  if b = 40 ∨ b = 91 ∨ b = 123 then 1 else if b = 41 ∨ b = 93 ∨ b = 125 then -1 else 0

/-- Opening brackets less closing ones, byte by byte. -/
def byteLevel : List UInt8 → Int
  | [] => 0
  | b :: bs => byteStep b + byteLevel bs

@[simp] theorem byteLevel_append (bs cs : List UInt8) :
    byteLevel (bs ++ cs) = byteLevel bs + byteLevel cs := by
  induction bs with
  | nil => simp [byteLevel]
  | cons b bs ih => simp only [List.cons_append, byteLevel, ih, Int.add_assoc]

/-- From one open bracket before offset `start` on, the byte at offset `e` brings the level down
to zero. -/
def ClosesAt (bytes : List UInt8) (start e : Nat) : Prop :=
  start ≤ e ∧ e < bytes.length ∧ 1 + byteLevel ((bytes.take (e + 1)).drop start) = 0

/-- The first such byte. -/
def ClosesFirst (bytes : List UInt8) (start e : Nat) : Prop :=
  ClosesAt bytes start e ∧ ∀ i < e, ¬ ClosesAt bytes start i

variable {c : Char} {s t : Text} {bs : List UInt8}

@[simp] theorem level_append (s t : Text) : level (s ++ t) = level s + level t := by
  induction s with
  | nil => simp [level]
  | cons c s ih => simp only [List.cons_append, level, ih, Int.add_assoc]

/-- The byte of an ASCII character counts as the character does. -/
theorem byteStep_ofNat_toNat (h : c.toNat < 128) :
    byteStep (UInt8.ofNat c.toNat) = bracketStep c := by
  have hcode : ∀ n < 128, byteStep (UInt8.ofNat n) = bracketStep (Char.ofNat n) := by decide
  rw [hcode _ h, Char.ofNat_toNat]

/-- A byte beyond ASCII is no bracket. -/
theorem byteStep_of_le {b : UInt8} (h : 128 ≤ b) : byteStep b = 0 := by
  have hne : ∀ k : UInt8, k < 128 → b ≠ k := fun k hk hb => UInt8.not_lt.2 h (hb ▸ hk)
  simp [byteStep, hne]

/-- No byte of any other character is ASCII. -/
theorem le_of_mem_utf8EncodeChar (h : 128 ≤ c.toNat) : ∀ b ∈ String.utf8EncodeChar c, 128 ≤ b := by
  have hmin : 128 ≤ c.val.toNat := h
  have hmax := toNat_val_lt c
  have hbyte : ∀ k, 128 ≤ k → k < 256 → 128 ≤ UInt8.ofNat k := by
    intro k hk hlt
    rw [UInt8.le_iff_toNat_le, UInt8.toNat_ofNat_of_lt' hlt]
    exact hk
  rw [String.utf8EncodeChar, if_neg (by omega)]
  split_ifs <;> intro b hb <;> simp only [List.mem_cons, List.not_mem_nil, or_false] at hb
  · rcases hb with rfl | rfl <;> exact hbyte _ (by omega) (by omega)
  · rcases hb with rfl | rfl | rfl <;> exact hbyte _ (by omega) (by omega)
  · rcases hb with rfl | rfl | rfl | rfl <;> exact hbyte _ (by omega) (by omega)

theorem byteLevel_of_le (h : ∀ b ∈ bs, 128 ≤ b) : byteLevel bs = 0 := by
  induction bs with
  | nil => rfl
  | cons b bs ih =>
    obtain ⟨hb, hbs⟩ := List.forall_mem_cons.1 h
    rw [byteLevel, byteStep_of_le hb, ih hbs, Int.add_zero]

/-- A character that is no bracket does not count. -/
theorem bracketStep_of_not_isBracket (h : isBracket c = false) : bracketStep c = 0 := by
  rw [isBracket, Bool.or_eq_false_iff] at h
  simp only [bracketStep, h, Bool.false_eq_true, if_false]

/-- The bytes of a character count as the character does. -/
theorem byteLevel_utf8EncodeChar (c : Char) :
    byteLevel (String.utf8EncodeChar c) = bracketStep c := by
  by_cases hc : c.toNat < 128
  · rw [utf8EncodeChar_of_lt hc, byteLevel, byteLevel, byteStep_ofNat_toNat hc, Int.add_zero]
  · have hb : isBracket c = false :=
      isBracket_eq_false_of_all (p := fun c => !decide (c.toNat < 128)) (by decide) (by simp [hc])
    rw [byteLevel_of_le (le_of_mem_utf8EncodeChar (Nat.le_of_not_lt hc)),
      bracketStep_of_not_isBracket hb]

theorem utf8_append (s t : Text) : utf8 (s ++ t) = utf8 s ++ utf8 t := List.flatMap_append

theorem length_utf8 (t : Text) : (utf8 t).length = byteSize t := by
  induction t with
  | nil => rfl
  | cons c t ih =>
    rw [utf8_cons, List.length_append, ih, String.length_utf8EncodeChar, byteSize_cons]

/-- Along the bytes of a character the level is the one before the character or the one after it. -/
theorem byteLevel_of_prefix_utf8EncodeChar (h : bs <+: String.utf8EncodeChar c) :
    byteLevel bs = 0 ∨ byteLevel bs = bracketStep c := by
  by_cases hc : c.toNat < 128
  · rw [utf8EncodeChar_of_lt hc] at h
    rcases List.prefix_cons_iff.1 h with rfl | ⟨bs', rfl, h'⟩
    · exact .inl rfl
    · rw [List.prefix_nil.1 h', byteLevel, byteLevel, byteStep_ofNat_toNat hc, Int.add_zero]
      exact .inr rfl
  · have hle := le_of_mem_utf8EncodeChar (Nat.le_of_not_lt hc)
    exact .inl (byteLevel_of_le fun b hb => hle b (h.subset hb))

/-- Whatever level is reached along the bytes of a text is reached along its characters. -/
theorem exists_prefix_of_prefix_utf8 (h : bs <+: utf8 t) :
    ∃ p, p <+: t ∧ byteLevel bs = level p := by
  induction t generalizing bs with
  | nil => exact ⟨[], List.nil_prefix, by rw [List.prefix_nil.1 h]; rfl⟩
  | cons c t ih =>
    rw [utf8_cons] at h
    rcases List.prefix_or_prefix_of_prefix h (List.prefix_append _ (utf8 t)) with hchar | ⟨cs, rfl⟩
    · rcases byteLevel_of_prefix_utf8EncodeChar hchar with hz | hc
      · exact ⟨[], List.nil_prefix, hz⟩
      · exact ⟨[c], ⟨t, rfl⟩, by rw [hc, level, level, Int.add_zero]⟩
    · obtain ⟨p, hp, hlevel⟩ := ih ((List.prefix_append_right_inj _).1 h)
      refine ⟨c :: p, List.cons_prefix_cons.2 ⟨rfl, hp⟩, ?_⟩
      rw [byteLevel_append, byteLevel_utf8EncodeChar, hlevel, level]

/-- The bytes of a text count as its characters do. -/
theorem byteLevel_utf8 (t : Text) : byteLevel (utf8 t) = level t := by
  induction t with
  | nil => rfl
  | cons c t ih => rw [utf8_cons, byteLevel_append, byteLevel_utf8EncodeChar, ih, level]

/-- Closing in terms of the text from the offset on. -/
theorem closesAt_iff {before after : Text} {e : Nat} :
    ClosesAt (utf8 (before ++ after)) (byteSize before) (byteSize before + e) ↔
      e < byteSize after ∧ 1 + byteLevel ((utf8 after).take (e + 1)) = 0 := by
  have hcut : ((utf8 (before ++ after)).take (byteSize before + e + 1)).drop (byteSize before) =
      (utf8 after).take (e + 1) := by
    rw [List.drop_take, utf8_append, ← length_utf8, List.drop_left,
      show (utf8 before).length + e + 1 - (utf8 before).length = e + 1 by omega]
  rw [ClosesAt, hcut, length_utf8, byteSize_append]
  constructor
  · rintro ⟨-, hlt, hlevel⟩
    exact ⟨by omega, hlevel⟩
  · rintro ⟨hlt, hlevel⟩
    exact ⟨by omega, by omega, hlevel⟩

end Text

namespace Arguments

open Text

/-! ### Parts -/

/-- A part of an argument list: its brackets are balanced, and no comma stands outside them. -/
structure IsPart (p : Text) : Prop where
  balanced : Balanced p
  comma : ∀ l r, p = l ++ ',' :: r → level l ≠ 0

/-- A stretch of a part that leads from level `n` to level `k`; a comma stands only where the level
is not zero. -/
structure Stretch (n k : Nat) (p : Text) : Prop where
  nesting : nesting? n p = some k
  comma : ∀ l r, p = l ++ ',' :: r → nesting? n l ≠ some 0

theorem isPart_iff {p : Text} : IsPart p ↔ Stretch 0 0 p := by
  have hlevel : ∀ {l r}, Balanced p → p = l ++ ',' :: r →
      (nesting? 0 l = some 0 ↔ level l = 0) := by
    intro l r hp hl
    rw [nesting?_eq_some_iff]
    simp only [Nat.cast_zero, Int.zero_add]
    exact ⟨fun h => h.2, fun h => ⟨fun q hq => hp.1 q (hq.trans ⟨_, hl.symm⟩), h⟩⟩
  constructor
  · intro h
    exact ⟨balanced_iff.1 h.balanced, fun l r hl hn =>
      h.comma l r hl ((hlevel h.balanced hl).1 hn)⟩
  · intro h
    have hp := balanced_iff.2 h.nesting
    exact ⟨hp, fun l r hl hn => h.comma l r hl ((hlevel hp hl).2 hn)⟩

variable {n k : Nat} {c : Char} {p t rest : Text} {s : Spans}

theorem stretch_nil : Stretch 0 0 [] :=
  ⟨nesting?_nil 0, fun l r h => by simp at h⟩

/-- A stretch after its first character. -/
theorem Stretch.tail {m : Nat} (h : Stretch n k (c :: p))
    (hc : ∀ q, nesting? n (c :: q) = nesting? m q) : Stretch m k p :=
  ⟨(hc p).symm.trans h.nesting, fun l r hl hn =>
    h.comma (c :: l) r (by rw [hl]; rfl) ((hc l).trans hn)⟩

/-- A stretch with one more character before it. -/
theorem Stretch.cons {m : Nat} (h : Stretch m k p) (hc : ∀ q, nesting? n (c :: q) = nesting? m q)
    (hcomma : c = ',' → n ≠ 0) : Stretch n k (c :: p) := by
  refine ⟨(hc p).trans h.nesting, fun l r hl hn => ?_⟩
  rcases List.cons_eq_append_iff.1 hl with ⟨rfl, hr⟩ | ⟨l', rfl, hl'⟩
  · rw [nesting?_nil, Option.some.injEq] at hn
    exact hcomma (List.cons.inj hr).1.symm hn
  · exact h.comma l' r hl' ((hc l').symm.trans hn)

/-- Puts a text before the first part. -/
def Spans.prepend (p : Text) (s : Spans) : Spans := { s with first := p ++ s.first }

theorem isOpening_of_isClosing (h : isClosing c = true) : isOpening c = false := by
  simp only [isClosing, Bool.or_eq_true, beq_iff_eq] at h
  rcases h with (rfl | rfl) | rfl <;> decide

/-- The reader walks over a stretch and adds it to the part at hand. -/
theorem spans?_append_of_stretch (h : Stretch n k p) (t : Text) :
    spans? n (p ++ t) = (spans? k t).map (Spans.prepend p) := by
  induction p generalizing n with
  | nil =>
    have hn : n = k := by simpa using h.nesting
    rw [hn, List.nil_append]
    exact Option.map_id'.symm
  | cons c p ih =>
    have hpush : ∀ m, Stretch m k p →
        (spans? m (p ++ t)).map (Spans.push c) = (spans? k t).map (Spans.prepend (c :: p)) := by
      intro m hm
      rw [ih hm, Option.map_map]
      rfl
    rw [List.cons_append]
    by_cases ho : isOpening c = true
    · rw [spans?_opening ho]
      exact hpush _ (h.tail fun q => nesting?_opening ho n q)
    · have ho := Bool.eq_false_iff.2 ho
      by_cases hc : isClosing c = true
      · cases n with
        | zero =>
          have hn := h.nesting
          rw [nesting?_zero_closing ho hc] at hn
          cases hn
        | succ n =>
          rw [spans?_succ_closing ho hc]
          exact hpush _ (h.tail fun q => nesting?_succ_closing ho hc n q)
      · have hc := Bool.eq_false_iff.2 hc
        have hcomma : ¬(c = ',' ∧ n = 0) := by
          rintro ⟨rfl, rfl⟩
          exact h.comma [] p rfl (nesting?_nil 0)
        rw [spans?_other ho hc hcomma]
        exact hpush _ (h.tail fun q => nesting?_other (isBracket_eq_false ho hc) n q)

/-- Joined parts are read back. -/
theorem spans?_join {ps : List Text} (hp : IsPart p) (hps : ∀ q ∈ ps, IsPart q)
    (hc : isClosing c = true) (rest : Text) :
    spans? 0 (join [','] (p :: ps) ++ c :: rest) = some ⟨p, ps, rest⟩ := by
  induction ps generalizing p with
  | nil =>
    rw [join, spans?_append_of_stretch (isPart_iff.1 hp),
      spans?_zero_closing (isOpening_of_isClosing hc) hc, Option.map_some, Spans.prepend,
      List.append_nil]
  | cons q ps ih =>
    obtain ⟨hq, hps⟩ := List.forall_mem_cons.1 hps
    rw [join, List.append_assoc, List.append_assoc, List.singleton_append,
      spans?_append_of_stretch (isPart_iff.1 hp), spans?_comma, ih hq hps, Option.map_some,
      Option.map_some, Spans.split, Spans.prepend, List.append_nil]

/-- `s.SplitsAt n t`: the text `t` is the parts `s` with commas between them and a closing bracket
after them, and `n` brackets are open before the first part. -/
structure Spans.SplitsAt (s : Spans) (n : Nat) (t : Text) : Prop where
  joined : ∃ c, isClosing c = true ∧ t = join [','] (s.first :: s.others) ++ c :: s.rest
  first : Stretch n 0 s.first
  others : ∀ q ∈ s.others, IsPart q

theorem Spans.SplitsAt.push {m : Nat} (h : s.SplitsAt m t)
    (hc : ∀ q, nesting? n (c :: q) = nesting? m q) (hcomma : c = ',' → n ≠ 0) :
    (s.push c).SplitsAt n (c :: t) where
  joined := by
    obtain ⟨b, hb, rfl⟩ := h.joined
    refine ⟨b, hb, ?_⟩
    cases hs : s.others with
    | nil => simp only [Spans.push, hs, join, List.cons_append]
    | cons q qs => simp only [Spans.push, hs, join, List.cons_append]
  first := h.first.cons hc hcomma
  others := h.others

theorem Spans.SplitsAt.split (h : s.SplitsAt 0 t) : s.split.SplitsAt 0 (',' :: t) where
  joined := by
    obtain ⟨b, hb, rfl⟩ := h.joined
    exact ⟨b, hb, rfl⟩
  first := stretch_nil
  others := List.forall_mem_cons.2 ⟨isPart_iff.2 h.first, h.others⟩

/-- What the reader reads was joined. -/
theorem splitsAt_of_spans? (h : spans? n t = some s) : s.SplitsAt n t := by
  fun_induction spans? n t generalizing s with
  | case1 => cases h
  | case2 n c t ho ih =>
    obtain ⟨u, hu, rfl⟩ := Option.map_eq_some_iff.1 h
    refine (ih hu).push (nesting?_opening ho n) ?_
    rintro rfl
    exact absurd ho (by decide)
  | case3 c t ho hc =>
    cases h
    exact ⟨⟨c, hc, rfl⟩, stretch_nil, fun q hq => absurd hq List.not_mem_nil⟩
  | case4 c t ho hc n ih =>
    obtain ⟨u, hu, rfl⟩ := Option.map_eq_some_iff.1 h
    exact (ih hu).push (nesting?_succ_closing (Bool.eq_false_iff.2 ho) hc n)
      fun _ => Nat.succ_ne_zero n
  | case5 n c t ho hc hcomma ih =>
    obtain ⟨rfl, rfl⟩ := hcomma
    obtain ⟨u, hu, rfl⟩ := Option.map_eq_some_iff.1 h
    exact (ih hu).split
  | case6 n c t ho hc hcomma ih =>
    obtain ⟨u, hu, rfl⟩ := Option.map_eq_some_iff.1 h
    have hb := isBracket_eq_false (Bool.eq_false_iff.2 ho) (Bool.eq_false_iff.2 hc)
    exact (ih hu).push (nesting?_other hb n) fun heq hn => hcomma ⟨heq, hn⟩

/-- A part is what is read as the only part of a list. -/
theorem isPart_iff_spans? : IsPart p ↔ spans? 0 (p ++ [')']) = some ⟨p, [], []⟩ := by
  constructor
  · intro h
    have hothers : ∀ q ∈ ([] : List Text), IsPart q := fun q hq => (nomatch hq)
    exact spans?_join h hothers rfl []
  · intro h
    exact isPart_iff.2 (splitsAt_of_spans? h).first

instance (p : Text) : Decidable (IsPart p) := decidable_of_iff _ isPart_iff_spans?.symm

/-- Where the list is not closed, the level does not fall to that of the list. -/
theorem nesting?_of_spans?_eq_none (h : spans? n t = none) : ∃ k, nesting? n t = some k := by
  fun_induction spans? n t with
  | case1 n => exact ⟨n, nesting?_nil n⟩
  | case2 n c t ho ih =>
    rw [nesting?_opening ho]
    exact ih (Option.map_eq_none_iff.1 h)
  | case3 => cases h
  | case4 c t ho hc n ih =>
    rw [nesting?_succ_closing (Bool.eq_false_iff.2 ho) hc]
    exact ih (Option.map_eq_none_iff.1 h)
  | case5 n c t ho hc hcomma ih =>
    obtain ⟨rfl, rfl⟩ := hcomma
    rw [nesting?_other (by decide)]
    exact ih (Option.map_eq_none_iff.1 h)
  | case6 n c t ho hc hcomma ih =>
    rw [nesting?_other (isBracket_eq_false (Bool.eq_false_iff.2 ho) (Bool.eq_false_iff.2 hc))]
    exact ih (Option.map_eq_none_iff.1 h)

/-! ### Offsets -/

theorem dropBytes_append (before after : Text) :
    dropBytes (byteSize before) (before ++ after) = after := by
  induction before with
  | nil =>
    rw [byteSize_nil, List.nil_append, dropBytes]
  | cons c before ih =>
    obtain ⟨n, hn⟩ := Nat.exists_eq_succ_of_ne_zero (Nat.ne_of_gt c.utf8Size_pos)
    rw [byteSize_cons, List.cons_append, hn, Nat.succ_add, Nat.succ_eq_add_one, dropBytes, hn,
      show n + byteSize before + 1 - (n + 1) = byteSize before by omega, ih]

theorem scanAt?_append (before after : Text) :
    scanAt? (before ++ after) (byteSize before) = (parse? after).map fun a =>
      (a.values, byteSize (before ++ after) - byteSize a.rest) := by
  rw [scanAt?, dropBytes_append]

theorem utf8Size_of_isClosing (h : isClosing c = true) : c.utf8Size = 1 := by
  simp only [isClosing, Bool.or_eq_true, beq_iff_eq] at h
  rcases h with (rfl | rfl) | rfl <;> decide

theorem balanced_join {ps : List Text} (h : ∀ p ∈ ps, IsPart p) : Balanced (join [','] ps) := by
  have hcomma : Balanced [','] := by decide
  induction ps with
  | nil => exact balanced_iff.2 (nesting?_nil 0)
  | cons p ps ih =>
    obtain ⟨hp, hps⟩ := List.forall_mem_cons.1 h
    cases ps with
    | nil => exact hp.balanced
    | cons q ps =>
      rw [join, balanced_iff, List.append_assoc, nesting?_balanced_append hp.balanced,
        nesting?_balanced_append hcomma, ← balanced_iff]
      exact ih hps

/-- A closing bracket after a balanced text is the first byte that closes the list. -/
theorem closesFirst_of_balanced {inner : Text} (h : Balanced inner) (hc : isClosing c = true)
    (before rest : Text) :
    ClosesFirst (utf8 (before ++ (inner ++ c :: rest))) (byteSize before)
      (byteSize before + byteSize inner) := by
  have hbytes : utf8 (inner ++ c :: rest) = utf8 (inner ++ [c]) ++ utf8 rest := by
    rw [← utf8_append, List.append_assoc, List.singleton_append]
  have hlength : (utf8 (inner ++ [c])).length = byteSize inner + 1 := by
    rw [length_utf8, byteSize_append, byteSize_cons, utf8Size_of_isClosing hc, byteSize_nil]
  have hstep : bracketStep c = -1 := by
    simp only [bracketStep, isOpening_of_isClosing hc, hc, Bool.false_eq_true, if_false, if_true]
  constructor
  · rw [closesAt_iff, hbytes, List.take_left' hlength, byteLevel_utf8, level_append, h.2, level,
      hstep, level, byteSize_append, byteSize_cons, utf8Size_of_isClosing hc]
    omega
  · intro i hi hcloses
    obtain ⟨j, rfl⟩ := Nat.exists_eq_add_of_le hcloses.1
    obtain ⟨-, hlevel⟩ := closesAt_iff.1 hcloses
    -- so far inside the list, where no prefix goes below level zero
    have hinner : (utf8 (inner ++ c :: rest)).take (j + 1) = (utf8 inner).take (j + 1) := by
      rw [utf8_append, List.take_append_of_le_length (by rw [length_utf8]; omega)]
    obtain ⟨p, hp, hbyte⟩ := exists_prefix_of_prefix_utf8 (List.take_prefix (j + 1) (utf8 inner))
    have hge := h.1 p hp
    rw [hinner, hbyte] at hlevel
    omega

/-- Where a byte closes the list, the reader finds its end. -/
theorem isSome_scanAt?_of_closesAt {before after : Text} {e : Nat}
    (h : ClosesAt (utf8 (before ++ after)) (byteSize before) e) :
    (scanAt? (before ++ after) (byteSize before)).isSome = true := by
  rw [scanAt?_append, Option.isSome_map, parse?, Option.isSome_map, Option.isSome_iff_ne_none]
  intro hnone
  obtain ⟨k, hk⟩ := nesting?_of_spans?_eq_none hnone
  obtain ⟨j, rfl⟩ := Nat.exists_eq_add_of_le h.1
  obtain ⟨-, hlevel⟩ := closesAt_iff.1 h
  obtain ⟨p, hp, hbyte⟩ := exists_prefix_of_prefix_utf8 (List.take_prefix (j + 1) (utf8 after))
  have hge := (nesting?_eq_some_iff.1 hk).1 p hp
  rw [hbyte] at hlevel
  omega

/-- The arguments that parts stand for. -/
def ofParts (parts : List Text) : List Text :=
  if parts.map trim = [[]] then [] else parts.map trim

/-- Every part stands between two offsets of the joined text. -/
theorem exists_eq_append_of_mem_join {ps : List Text} (h : p ∈ ps) :
    ∃ l r, join [','] ps = l ++ p ++ r := by
  induction ps with
  | nil => cases h
  | cons q ps ih =>
    cases ps with
    | nil =>
      rw [List.mem_singleton.1 h]
      exact ⟨[], [], by rw [join, List.nil_append, List.append_nil]⟩
    | cons a ps =>
      rcases List.mem_cons.1 h with rfl | h
      · exact ⟨[], [','] ++ join [','] (a :: ps), by rw [join, List.nil_append, List.append_assoc]⟩
      · obtain ⟨l, r, hl⟩ := ih h
        refine ⟨q ++ [','] ++ l, r, ?_⟩
        rw [join, hl]
        simp only [List.append_assoc]

/-- An argument is a slice of the list. -/
theorem exists_slice_of_mem_ofParts {ps : List Text} {a : Text} (h : a ∈ ofParts ps) :
    ∃ l r, join [','] ps = l ++ a ++ r := by
  rw [ofParts] at h
  split at h
  · cases h
  · obtain ⟨p, hp, rfl⟩ := List.mem_map.1 h
    obtain ⟨l, r, hl⟩ := exists_eq_append_of_mem_join hp
    obtain ⟨l', r', hp', -⟩ := exists_eq_append_trim p
    refine ⟨l ++ l', r' ++ r, ?_⟩
    rw [hl]
    conv_lhs => rw [hp']
    simp only [List.append_assoc]

/-- Trimmed parts are the arguments that they stand for, a single empty one aside. -/
theorem ofParts_of_trim {args : List Text} (h : ∀ a ∈ args, trim a = a) (hne : args ≠ [[]]) :
    ofParts args = args := by
  rw [ofParts, List.map_congr_left h, List.map_id', if_neg hne]

/-- The list after `before` consists of the given parts, and the byte at offset `e` closes it. -/
structure ListedAt (before after : Text) (parts : List Text) (e : Nat) : Prop where
  closes : ClosesFirst (utf8 (before ++ after)) (byteSize before) e
  bytes : ((utf8 (before ++ after)).take e).drop (byteSize before) = utf8 (join [','] parts)
  offset : e = byteSize (before ++ join [','] parts)
  ne_nil : parts ≠ []
  isPart : ∀ p ∈ parts, IsPart p

theorem listedAt_join {before : Text} {ps : List Text} (hne : ps ≠ []) (hps : ∀ q ∈ ps, IsPart q)
    (hc : isClosing c = true) (rest : Text) :
    ListedAt before (join [','] ps ++ c :: rest) ps (byteSize (before ++ join [','] ps)) where
  closes := by
    rw [byteSize_append]
    exact closesFirst_of_balanced (balanced_join hps) hc before rest
  bytes := by
    rw [← List.append_assoc, utf8_append, List.take_left' (length_utf8 _), utf8_append,
      List.drop_left' (length_utf8 _)]
  offset := rfl
  ne_nil := hne
  isPart := hps

/-- Joined parts are read at any offset, whatever comes after the list. -/
theorem scanAt?_join {ps : List Text} (hne : ps ≠ []) (hps : ∀ q ∈ ps, IsPart q)
    (hc : isClosing c = true) (before rest : Text) :
    scanAt? (before ++ (join [','] ps ++ c :: rest)) (byteSize before) =
      some (ofParts ps, byteSize (before ++ join [','] ps) + 1) := by
  obtain ⟨p, ps, rfl⟩ := List.exists_cons_of_ne_nil hne
  obtain ⟨hp, hps⟩ := List.forall_mem_cons.1 hps
  have hstop : byteSize (before ++ (join [','] (p :: ps) ++ c :: rest)) - byteSize rest =
      byteSize (before ++ join [','] (p :: ps)) + 1 := by
    simp only [byteSize_append, byteSize_cons, utf8Size_of_isClosing hc]
    omega
  rw [scanAt?_append, parse?, spans?_join hp hps hc, Option.map_some, Option.map_some, ← hstop]
  rfl

/-- Arguments that are read are parts that were joined. -/
theorem exists_parts_of_scanAt? {before after : Text} {args : List Text} {stop : Nat}
    (h : scanAt? (before ++ after) (byteSize before) = some (args, stop)) :
    ∃ parts c rest, parts ≠ [] ∧ (∀ p ∈ parts, IsPart p) ∧ isClosing c = true ∧
      after = join [','] parts ++ c :: rest := by
  rw [scanAt?_append, parse?, Option.map_map] at h
  obtain ⟨s, hs, -⟩ := Option.map_eq_some_iff.1 h
  have hsplit := splitsAt_of_spans? hs
  obtain ⟨c, hc, hafter⟩ := hsplit.joined
  exact ⟨s.first :: s.others, c, s.rest, List.cons_ne_nil _ _,
    List.forall_mem_cons.2 ⟨isPart_iff.2 hsplit.first, hsplit.others⟩, hc, hafter⟩

/-- **Splitting is exact.**  At an offset of a text the list is closed exactly when some byte from
there on brings the level down to zero.  It then consists of the parts up to the first such byte,
and the arguments are these parts trimmed, whatever comes after that byte.  Trimmed parts that are
joined are read back as they were, a single empty one aside. -/
theorem scanAt?_exact (before after : Text) :
    ((scanAt? (before ++ after) (byteSize before)).isSome = true ↔
      ∃ e, ClosesAt (utf8 (before ++ after)) (byteSize before) e) ∧
    (∀ args stop, scanAt? (before ++ after) (byteSize before) = some (args, stop) →
      ∃ parts c rest e, after = join [','] parts ++ c :: rest ∧ ListedAt before after parts e ∧
        stop = e + 1 ∧ args = ofParts parts ∧
        (∀ a ∈ args, ∃ l r, before ++ after = l ++ a ++ r ∧ byteSize before ≤ byteSize l ∧
          byteSize (l ++ a) ≤ e) ∧
        ∀ other, scanAt? (before ++ (join [','] parts ++ c :: other)) (byteSize before) =
          some (args, stop)) ∧
    (∀ args : List Text, (∀ a ∈ args, trim a = a ∧ IsPart a) → args ≠ [[]] →
      scanAt? (before ++ (join [','] args ++ ')' :: after)) (byteSize before) =
        some (args, byteSize (before ++ join [','] args) + 1)) := by
  refine ⟨⟨fun h => ?_, fun ⟨e, he⟩ => isSome_scanAt?_of_closesAt he⟩, fun args stop h => ?_,
    fun args hargs hne => ?_⟩
  · obtain ⟨⟨args, stop⟩, h⟩ := Option.isSome_iff_exists.1 h
    obtain ⟨parts, c, rest, hne, hparts, hc, rfl⟩ := exists_parts_of_scanAt? h
    exact ⟨_, (listedAt_join hne hparts hc rest).closes.1⟩
  · obtain ⟨parts, c, rest, hne, hparts, hc, rfl⟩ := exists_parts_of_scanAt? h
    rw [scanAt?_join hne hparts hc, Option.some.injEq, Prod.mk.injEq] at h
    obtain ⟨rfl, rfl⟩ := h
    refine ⟨parts, c, rest, _, rfl, listedAt_join hne hparts hc rest, rfl, rfl, fun a ha => ?_,
      scanAt?_join hne hparts hc before⟩
    obtain ⟨l, r, hl⟩ := exists_slice_of_mem_ofParts ha
    refine ⟨before ++ l, r ++ c :: rest, ?_, ?_, ?_⟩
    · simp only [hl, List.append_assoc]
    · rw [byteSize_append]
      omega
    · rw [hl]
      simp only [byteSize_append]
      omega
  · cases args with
    | nil =>
      -- no argument is written as one empty part
      have hempty : ∀ q ∈ [([] : Text)], IsPart q := by decide
      exact scanAt?_join (List.cons_ne_nil _ _) hempty rfl before after
    | cons a as =>
      rw [scanAt?_join (List.cons_ne_nil a as) (fun q hq => (hargs q hq).2) rfl,
        ofParts_of_trim (fun q hq => (hargs q hq).1) hne]

/-- Brackets nest, an argument is empty, another is no ASCII text, and brackets follow the list. -/
theorem scanAt?_exact_nested :
    let args := ["f(a, [b])".toList, [], "'é'".toList]
    (∀ a ∈ args, trim a = a ∧ IsPart a) ∧ args ≠ [[]] ∧
    scanAt? ("F(".toList ++ (join [','] args ++ ')' :: " + G(✓)".toList)) (byteSize "F(".toList) =
      some (args, 18) ∧
    ∃ e, ClosesAt (utf8 ("F(".toList ++ (join [','] args ++ ')' :: " + G(✓)".toList)))
      (byteSize "F(".toList) e := by
  intro args
  have hargs : ∀ a ∈ args, trim a = a ∧ IsPart a := by decide
  have hne : args ≠ [[]] := by decide
  have hread := (scanAt?_exact "F(".toList " + G(✓)".toList).2.2 args hargs hne
  have hcloses := (scanAt?_exact "F(".toList (join [','] args ++ ')' :: " + G(✓)".toList)).1
  exact ⟨hargs, hne, hread, hcloses.1 (by rw [hread]; rfl)⟩

end Arguments

end ScriptEmbed
