import Mathlib
import ScriptEmbed.Proofs.Number.Division
import ScriptEmbed.Proofs.Text.Pieces

/-!
# Numerals of whole numbers

A whole number is written in digits, with at most one sign before them.  Reading multiplies by ten and
adds at each digit; what a numeral stands for is the sum of its digits by their places, counted from the
last one.  This file says which texts are read, as what, and that writing is one way of spelling.

* `Decimal.place`, `Decimal.value_eq_place` — the number that digits stand for by their places;
* `Decimal.Numeral` — a text is a numeral of a whole number;
* `Decimal.readInt?_eq_some_iff` — **what is read are the numerals, and each as its number**;
* `Decimal.numeral_ofInt` — what is written is a numeral, the one of the least number included;
* `Word.read?_eq_some_iff` — the same of words; `Word.exists_toInt_eq_iff` — which numbers are words.
-/

namespace ScriptEmbed

namespace Decimal

variable {c : Char} {t ds : Text} {i : Int} {n : Nat}

/-! ### Digits and their places -/

/-- The number that digits stand for: the last one counts once, and each other one ten times as much
as the one behind it. -/
def place (ds : Text) : Nat := Nat.ofDigits 10 (ds.reverse.map digitValue)

/-- Reading digits from the front gives the number that they stand for by their places. -/
theorem value_eq_place (ds : Text) : value ds = place ds := by
  induction ds using List.reverseRecOn with
  | nil => rfl
  | append_singleton ds c ih =>
    rw [value_concat, ih, place, place, List.reverse_concat, List.map_cons, Nat.ofDigits_cons,
      Nat.add_comm]

/-- At least one digit, and nothing else. -/
structure Digits (ds : Text) : Prop where
  ne_nil : ds ≠ []
  all : ∀ c ∈ ds, isDigit c = true

theorem digits_spec (n : Nat) : Digits (digits n) :=
  ⟨digits_ne_nil n, List.all_eq_true.1 (all_isDigit_digits n)⟩

theorem place_digits (n : Nat) : place (digits n) = n := by
  rw [← value_eq_place, value_digits]

theorem readNat?_eq_some_iff : readNat? t = some n ↔ Digits t ∧ place t = n := by
  rw [readNat?, Option.ite_none_left_eq_some, Option.some.injEq, value_eq_place]
  refine and_congr_left fun _ => ?_
  rw [Bool.or_eq_true, not_or, Bool.not_eq_true', Bool.not_eq_false, List.isEmpty_iff,
    List.all_eq_true]
  exact ⟨fun h => ⟨h.1, h.2⟩, fun h => ⟨h.ne_nil, h.all⟩⟩

/-! ### Signs -/

/-- The text is a numeral of a whole number: digits, or a sign and digits. -/
inductive Numeral : Text → Int → Prop
  | unsigned {ds : Text} (h : Digits ds) : Numeral ds (place ds)
  | plus {ds : Text} (h : Digits ds) : Numeral ('+' :: ds) (place ds)
  | minus {ds : Text} (h : Digits ds) : Numeral ('-' :: ds) (-(place ds : Int))

/-- What begins with a digit is read without a sign. -/
theorem readInt?_of_digits (h : Digits ds) : readInt? ds = (readNat? ds).map Int.ofNat := by
  rw [readInt?]
  · rintro t rfl
    exact absurd (h.all '+' List.mem_cons_self) (by decide)
  · rintro t rfl
    exact absurd (h.all '-' List.mem_cons_self) (by decide)

theorem readInt?_minus (t : Text) :
    readInt? ('-' :: t) = (readNat? t).map fun n : Nat => -(n : Int) := by
  rw [readInt?]
  cases readNat? t with
  | none => rfl
  | some n => rfl

/-- The numerals are what is read, and each is read as its number. -/
theorem readInt?_eq_some_iff : readInt? t = some i ↔ Numeral t i := by
  constructor
  · intro h
    fun_cases readInt? t with
    | case1 t =>
      obtain ⟨n, hn, rfl⟩ := Option.map_eq_some_iff.1 h
      obtain ⟨hds, rfl⟩ := readNat?_eq_some_iff.1 hn
      exact .plus hds
    | case2 t =>
      rw [readInt?_minus] at h
      obtain ⟨n, hn, rfl⟩ := Option.map_eq_some_iff.1 h
      obtain ⟨hds, rfl⟩ := readNat?_eq_some_iff.1 hn
      exact .minus hds
    | case3 =>
      rw [readInt?] at h
      · obtain ⟨n, hn, rfl⟩ := Option.map_eq_some_iff.1 h
        obtain ⟨hds, rfl⟩ := readNat?_eq_some_iff.1 hn
        exact .unsigned hds
      all_goals assumption
  · intro h
    cases h with
    | unsigned hds =>
      rw [readInt?_of_digits hds, readNat?_eq_some_iff.2 ⟨hds, rfl⟩]
      rfl
    | plus hds =>
      rw [readInt?, readNat?_eq_some_iff.2 ⟨hds, rfl⟩]
      rfl
    | minus hds =>
      rw [readInt?_minus, readNat?_eq_some_iff.2 ⟨hds, rfl⟩]
      rfl

/-- What is written for a whole number is a numeral of it. -/
theorem numeral_ofInt (i : Int) : Numeral (ofInt i) i := by
  have hplace : ((place (digits i.natAbs) : Nat) : Int) = i.natAbs := by rw [place_digits]
  rw [ofInt]
  split_ifs with hi
  · have hminus := Numeral.minus (digits_spec i.natAbs)
    rwa [hplace, Int.ofNat_natAbs_of_nonpos (Int.le_of_lt hi), Int.neg_neg] at hminus
  · have hplain := Numeral.unsigned (digits_spec i.natAbs)
    rwa [hplace, Int.natAbs_of_nonneg (Int.not_lt.1 hi)] at hplain

/-- Leading zeros and a plus sign do not count. -/
example : readInt? "+0042".toList = some 42 ∧ readInt? "-0".toList = some 0 := by decide

/-! ### Blanks around a numeral -/

theorem isBlank_of_isDigit (h : isDigit c = true) : Text.isBlank c = false := by
  have hbounds : 48 ≤ c.toNat ∧ c.toNat ≤ 57 := by
    simp only [isDigit, Char.isDigit, Bool.and_eq_true, decide_eq_true_eq, ge_iff_le,
      UInt32.le_iff_toNat_le] at h
    exact h
  simp only [Text.isBlank, Bool.or_eq_false_iff, Bool.and_eq_false_iff, decide_eq_false_iff_not,
    beq_eq_false_iff_ne]
  omega

theorem Digits.trimmed (h : Digits ds) : Text.Trimmed ds where
  head c hc := isBlank_of_isDigit (h.all c (List.mem_of_mem_head? hc))
  last c hc := isBlank_of_isDigit (h.all c (List.mem_of_mem_getLast? hc))

/-- No blank stands at either end of a numeral. -/
theorem Numeral.trimmed (h : Numeral t i) : Text.Trimmed t := by
  -- behind a sign the last character is that of the digits
  have hsign : ∀ {s : Char} {ds : Text}, Text.isBlank s = false → Digits ds →
      Text.Trimmed (s :: ds) := by
    intro s ds hs hds
    refine ⟨fun c hc => ?_, fun c hc => ?_⟩
    · rw [List.head?_cons, Option.mem_def, Option.some.injEq] at hc
      exact hc ▸ hs
    · rw [List.getLast?_cons_of_ne_nil hds.ne_nil] at hc
      exact hds.trimmed.last c hc
  cases h with
  | unsigned hds => exact hds.trimmed
  | plus hds => exact hsign rfl hds
  | minus hds => exact hsign rfl hds

end Decimal

/-! ### Words -/

namespace Word

variable {t : Text} {a : Int64} {i : Int}

/-- A word is read from the numerals of its value. -/
theorem read?_eq_some_iff : read? t = some a ↔ Decimal.Numeral t a.toInt := by
  rw [read?, Option.bind_eq_some_iff]
  constructor
  · rintro ⟨i, hi, ha⟩
    rw [toInt_of_ofInt? ha]
    exact Decimal.readInt?_eq_some_iff.1 hi
  · intro h
    exact ⟨a.toInt, Decimal.readInt?_eq_some_iff.2 h, ofInt?_toInt a⟩

/-- The whole numbers between the bounds are the values of words. -/
theorem exists_toInt_eq_iff : (∃ a : Int64, a.toInt = i) ↔ Fits i := by
  constructor
  · rintro ⟨a, rfl⟩
    exact fits_toInt a
  · intro h
    cases hword : ofInt? i with
    | none => exact absurd h (ofInt?_eq_none_iff.1 hword)
    | some a => exact ⟨a, toInt_of_ofInt? hword⟩

/-- What is written for a word, with blanks around it, is read as that word. -/
theorem read?_trim_numeral {l r : Text} (hl : Text.allBlank l = true) (hr : Text.allBlank r = true)
    (a : Int64) : read? (Text.trim (l ++ numeral a ++ r)) = some a := by
  have hnumeral : Decimal.Numeral (numeral a) a.toInt := Decimal.numeral_ofInt a.toInt
  rw [Text.trim_eq_of_trimmed hl hnumeral.trimmed hr]
  exact read?_eq_some_iff.2 hnumeral

end Word

end ScriptEmbed
