import Mathlib
import ScriptEmbed.Build.Cpp

/-!
# Bytes of a text

A generated file is made of bytes, and a refusal names one of them.  The bytes of a text are those
of its characters in UTF-8; a byte is ASCII when it is below 128.

* `Text.utf8` — the bytes of a text; `Text.utf8_injective` — they determine it;
* `Text.IsAscii` — no byte beyond ASCII, which holds for characters below 128;
* `Text.FirstBeyond` — the place and value of the first byte beyond ASCII;
* `Cpp.checkAscii_eq_error_iff` — a refusal names the first module that has such a byte, and the
  first such byte in it.
-/

namespace ScriptEmbed

namespace Text

/-- The bytes of a text in UTF-8. -/
def utf8 (t : Text) : List UInt8 := t.flatMap String.utf8EncodeChar

/-- All bytes of the text are ASCII. -/
def IsAscii (t : Text) : Prop := ∀ b ∈ utf8 t, b < 128

/-- The first byte beyond ASCII stands at the given offset and has the given value. -/
def FirstBeyond (bytes : List UInt8) (offset : Nat) (byte : UInt8) : Prop :=
  (∀ b ∈ bytes.take offset, b < 128) ∧ bytes[offset]? = some byte ∧ 128 ≤ byte

variable {c : Char} {s t : Text} {bytes : List UInt8} {i j : Nat} {b b' : UInt8}

@[simp] theorem utf8_cons (c : Char) (t : Text) :
    utf8 (c :: t) = String.utf8EncodeChar c ++ utf8 t := rfl

/-- The bytes of a text determine it. -/
theorem utf8_injective : Function.Injective utf8 := by
  intro s t h
  have hs : (List.utf8Encode s).utf8Decode? = some s.toArray := List.utf8Decode?_utf8Encode
  have ht : (List.utf8Encode t).utf8Decode? = some t.toArray := List.utf8Decode?_utf8Encode
  have hbytes : List.utf8Encode s = List.utf8Encode t := congrArg List.toByteArray h
  rw [hbytes, ht] at hs
  exact (Array.toList_inj.2 (Option.some.inj hs)).symm

/-! ### Single characters -/

/-- An ASCII character is one byte, its code. -/
theorem utf8EncodeChar_of_lt (h : c.toNat < 128) :
    String.utf8EncodeChar c = [UInt8.ofNat c.toNat] := by
  have hle : c.val.toNat ≤ 0x7f := by
    have hc : c.val.toNat < 128 := h
    omega
  rw [String.utf8EncodeChar, if_pos hle]
  rfl

/-- The code of an ASCII character is a byte below 128. -/
theorem ofNat_toNat_lt (h : c.toNat < 128) : UInt8.ofNat c.toNat < 128 := by
  rw [UInt8.lt_iff_toNat_lt, UInt8.toNat_ofNat_of_lt' (show c.toNat < 256 by omega)]
  exact h

theorem toNat_val_lt (c : Char) : c.val.toNat < 0x110000 := by
  have h := c.valid
  simp only [UInt32.isValidChar, Nat.isValidChar] at h
  omega

/-- The first byte of any other character is the one that a refusal names, and beyond ASCII. -/
theorem utf8EncodeChar_of_le (h : 128 ≤ c.toNat) :
    ∃ b rest, String.utf8EncodeChar c = b :: rest ∧ b.toNat = Cpp.leadByte c ∧ 128 ≤ b := by
  have hmin : 128 ≤ c.val.toNat := h
  have hmax := toNat_val_lt c
  -- UTF-8 and `leadByte` split the characters at the same places
  have hfirst : (String.utf8EncodeChar c).head? = some (UInt8.ofNat (Cpp.leadByte c)) ∧
      128 ≤ Cpp.leadByte c ∧ Cpp.leadByte c < 256 := by
    by_cases h₂ : c.val.toNat < 0x800
    · have hlead : Cpp.leadByte c = c.val.toNat / 64 % 0x20 + 0xc0 := by
        rw [Cpp.leadByte, if_neg (Nat.not_lt.2 h), if_pos (show c.toNat < 0x800 from h₂)]
        show 0xC0 + c.val.toNat / 0x40 = _
        omega
      refine ⟨?_, by omega, by omega⟩
      rw [String.utf8EncodeChar, if_neg (by omega), if_pos (by omega), hlead, List.head?_cons]
    · by_cases h₃ : c.val.toNat < 0x10000
      · have hlead : Cpp.leadByte c = c.val.toNat / 4096 % 0x10 + 0xe0 := by
          rw [Cpp.leadByte, if_neg (Nat.not_lt.2 h), if_neg (show ¬ c.toNat < 0x800 from h₂),
            if_pos (show c.toNat < 0x10000 from h₃)]
          show 0xE0 + c.val.toNat / 0x1000 = _
          omega
        refine ⟨?_, by omega, by omega⟩
        rw [String.utf8EncodeChar, if_neg (by omega), if_neg (by omega), if_pos (by omega), hlead,
          List.head?_cons]
      · have hlead : Cpp.leadByte c = c.val.toNat / 262144 % 0x08 + 0xf0 := by
          rw [Cpp.leadByte, if_neg (Nat.not_lt.2 h), if_neg (show ¬ c.toNat < 0x800 from h₂),
            if_neg (show ¬ c.toNat < 0x10000 from h₃)]
          show 0xF0 + c.val.toNat / 0x40000 = _
          omega
        refine ⟨?_, by omega, by omega⟩
        rw [String.utf8EncodeChar, if_neg (by omega), if_neg (by omega), if_neg (by omega), hlead,
          List.head?_cons]
  obtain ⟨hhead, hbeyond, hbyte⟩ := hfirst
  obtain ⟨rest, hrest⟩ := List.head?_eq_some_iff.1 hhead
  refine ⟨_, rest, hrest, UInt8.toNat_ofNat_of_lt' hbyte, ?_⟩
  rw [UInt8.le_iff_toNat_le, UInt8.toNat_ofNat_of_lt' hbyte]
  exact hbeyond

/-! ### Texts -/

theorem isAscii_cons_iff : IsAscii (c :: t) ↔ c.toNat < 128 ∧ IsAscii t := by
  have hc : (∀ b ∈ String.utf8EncodeChar c, b < 128) ↔ c.toNat < 128 := by
    constructor
    · intro h
      by_contra hge
      obtain ⟨b, rest, hb, -, hbeyond⟩ := utf8EncodeChar_of_le (Nat.le_of_not_lt hge)
      have hlt := h b (hb ▸ List.mem_cons_self)
      rw [UInt8.lt_iff_toNat_lt] at hlt
      rw [UInt8.le_iff_toNat_le] at hbeyond
      omega
    · intro h b hb
      rw [utf8EncodeChar_of_lt h, List.mem_singleton] at hb
      rw [hb]
      exact ofNat_toNat_lt h
  show (∀ b ∈ utf8 (c :: t), b < 128) ↔ _
  rw [utf8_cons, List.forall_mem_append, hc]
  rfl

/-- A text is ASCII when its characters are. -/
theorem isAscii_iff : IsAscii t ↔ ∀ c ∈ t, c.toNat < 128 := by
  induction t with
  | nil => exact ⟨fun _ c hc => absurd hc List.not_mem_nil, fun _ b hb => absurd hb List.not_mem_nil⟩
  | cons c t ih => rw [isAscii_cons_iff, ih, List.forall_mem_cons]

instance (t : Text) : Decidable (IsAscii t) :=
  decidable_of_iff (t.all (fun c => decide (c.toNat < 128)) = true) <| by
    rw [isAscii_iff, List.all_eq_true]
    exact forall₂_congr fun _ _ => decide_eq_true_iff

/-- The bytes of an ASCII text are the codes of its characters. -/
theorem IsAscii.utf8_eq (h : IsAscii t) : (utf8 t).map UInt8.toNat = t.map Char.toNat := by
  induction t with
  | nil => rfl
  | cons c t ih =>
    obtain ⟨hc, ht⟩ := isAscii_cons_iff.1 h
    rw [utf8_cons, utf8EncodeChar_of_lt hc, List.map_append, ih ht, List.map_cons,
      UInt8.toNat_ofNat_of_lt' (show c.toNat < 256 by omega)]
    rfl

/-- There is at most one first byte beyond ASCII. -/
theorem FirstBeyond.unique (h : FirstBeyond bytes i b) (h' : FirstBeyond bytes j b') :
    i = j ∧ b = b' := by
  have hle : ∀ {i j : Nat} {b b' : UInt8}, FirstBeyond bytes i b → FirstBeyond bytes j b' →
      i ≤ j := by
    intro i j b b' hi hj
    by_contra hlt
    have hmem : b' ∈ bytes.take i := by
      refine List.mem_of_getElem? (i := j) ?_
      rw [List.getElem?_take_of_lt (by omega)]
      exact hj.2.1
    exact absurd (hi.1 b' hmem) (UInt8.not_lt.2 hj.2.2)
  have hij : i = j := Nat.le_antisymm (hle h h') (hle h' h)
  subst hij
  exact ⟨rfl, Option.some.inj (h.2.1.symm.trans h'.2.1)⟩

end Text

namespace Cpp

open Text

variable {c : Char} {t : Text} {start offset : Nat} {ms : List EmbeddedModule} {e : NonAscii}

theorem firstNonAscii?_eq_none_iff (start : Nat) (t : Text) :
    firstNonAscii? start t = none ↔ IsAscii t := by
  induction t generalizing start with
  | nil => exact ⟨fun _ b hb => absurd hb List.not_mem_nil, fun _ => rfl⟩
  | cons c t ih =>
    rw [firstNonAscii?, isAscii_cons_iff]
    split_ifs with hc
    · rw [ih]
      exact ⟨fun h => ⟨hc, h⟩, fun h => h.2⟩
    · exact ⟨fun h => (nomatch h), fun h => absurd h.1 hc⟩

theorem firstBeyond_of_firstNonAscii? (h : firstNonAscii? start t = some (offset, c)) :
    ∃ i b, offset = start + i ∧ b.toNat = leadByte c ∧ FirstBeyond (utf8 t) i b := by
  induction t generalizing start with
  | nil => cases h
  | cons a t ih =>
    rw [firstNonAscii?] at h
    split_ifs at h with ha
    · obtain ⟨i, b, hoffset, hb, hbefore, hat, hbeyond⟩ := ih h
      refine ⟨i + 1, b, by omega, hb, ?_, ?_, hbeyond⟩
      · rw [utf8_cons, utf8EncodeChar_of_lt ha, List.singleton_append, List.take_succ_cons]
        intro b hb
        rcases List.mem_cons.1 hb with rfl | hb
        · exact ofNat_toNat_lt ha
        · exact hbefore b hb
      · rw [utf8_cons, utf8EncodeChar_of_lt ha, List.singleton_append]
        exact hat
    · cases h
      obtain ⟨b, rest, hchar, hb, hbeyond⟩ := utf8EncodeChar_of_le (Nat.le_of_not_lt ha)
      refine ⟨0, b, rfl, hb, ?_, ?_, hbeyond⟩
      · intro b hb
        cases hb
      · rw [utf8_cons, hchar]
        rfl

end Cpp

/-- The refusal is about the first module that is not ASCII, and tells the place and value of the
first byte beyond ASCII in it. -/
def NonAscii.NamesFirst (e : NonAscii) (ms : List EmbeddedModule) : Prop :=
  ∃ before m after byte, ms = before ++ m :: after ∧ (∀ k ∈ before, k.text.IsAscii) ∧
    e.id = m.id ∧ Text.FirstBeyond m.text.utf8 e.offset byte ∧ e.byte = byte.toNat

namespace Cpp

open Text

variable {m : EmbeddedModule} {ms : List EmbeddedModule} {e : NonAscii}

theorem checkAscii_cons_of_isAscii (h : m.text.IsAscii) : checkAscii (m :: ms) = checkAscii ms := by
  rw [checkAscii, (firstNonAscii?_eq_none_iff 0 m.text).2 h]

/-- A module that is not ASCII is refused at its first byte beyond ASCII. -/
theorem checkAscii_cons_of_not_isAscii (h : ¬ m.text.IsAscii) (ms : List EmbeddedModule) :
    ∃ i b, checkAscii (m :: ms) = .error ⟨m.id, i, b.toNat⟩ ∧ FirstBeyond m.text.utf8 i b := by
  cases hfound : firstNonAscii? 0 m.text with
  | none => exact absurd ((firstNonAscii?_eq_none_iff 0 m.text).1 hfound) h
  | some p =>
    obtain ⟨offset, c⟩ := p
    obtain ⟨i, b, hoffset, hb, hfirst⟩ := firstBeyond_of_firstNonAscii? hfound
    obtain rfl : offset = i := by omega
    refine ⟨offset, b, ?_, hfirst⟩
    rw [checkAscii, hfound, hb]

theorem checkAscii_eq_ok_iff : checkAscii ms = .ok () ↔ ∀ m ∈ ms, m.text.IsAscii := by
  induction ms with
  | nil =>
    exact ⟨fun _ m hm => absurd hm List.not_mem_nil, fun _ => rfl⟩
  | cons m ms ih =>
    rw [List.forall_mem_cons]
    by_cases hm : m.text.IsAscii
    · rw [checkAscii_cons_of_isAscii hm, ih]
      exact ⟨fun h => ⟨hm, h⟩, fun h => h.2⟩
    · obtain ⟨i, b, herror, -⟩ := checkAscii_cons_of_not_isAscii hm ms
      rw [herror]
      exact ⟨fun h => (nomatch h), fun h => absurd h.1 hm⟩

/-- A refusal names the first module that is not ASCII, and its first byte beyond ASCII. -/
theorem checkAscii_eq_error_iff : checkAscii ms = .error e ↔ e.NamesFirst ms := by
  induction ms with
  | nil =>
    constructor
    · intro h
      cases h
    · rintro ⟨before, m, after, byte, hms, -⟩
      exact absurd hms.symm (List.append_ne_nil_of_right_ne_nil _ (List.cons_ne_nil _ _))
  | cons m ms ih =>
    by_cases hm : m.text.IsAscii
    · rw [checkAscii_cons_of_isAscii hm, ih]
      constructor
      · rintro ⟨before, k, after, byte, rfl, hbefore, hfirst⟩
        exact ⟨m :: before, k, after, byte, rfl, List.forall_mem_cons.2 ⟨hm, hbefore⟩, hfirst⟩
      · rintro ⟨before, k, after, byte, hms, hbefore, hid, hfirst, hbyte⟩
        cases before with
        | nil =>
          obtain ⟨rfl, -⟩ := List.cons.inj hms
          exact absurd (hm _ (List.mem_of_getElem? hfirst.2.1)) (UInt8.not_lt.2 hfirst.2.2)
        | cons a before =>
          obtain ⟨-, rfl⟩ := List.cons.inj hms
          exact ⟨before, k, after, byte, rfl, (List.forall_mem_cons.1 hbefore).2, hid, hfirst, hbyte⟩
    · obtain ⟨i, b, herror, hfound⟩ := checkAscii_cons_of_not_isAscii hm ms
      rw [herror]
      constructor
      · intro h
        cases h
        exact ⟨[], m, ms, b, rfl, fun k hk => absurd hk List.not_mem_nil, rfl, hfound, rfl⟩
      · rintro ⟨before, k, after, byte, hms, hbefore, hid, hfirst, hbyte⟩
        cases before with
        | nil =>
          obtain ⟨rfl, -⟩ := List.cons.inj hms
          obtain ⟨hi, hb⟩ := hfound.unique hfirst
          rw [hi, hb, ← hid, ← hbyte]
        | cons a before =>
          obtain ⟨rfl, -⟩ := List.cons.inj hms
          exact absurd (List.forall_mem_cons.1 hbefore).1 hm

end Cpp

end ScriptEmbed
