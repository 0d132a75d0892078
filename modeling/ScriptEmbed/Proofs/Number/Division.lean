import Mathlib
import ScriptEmbed.Number.Word

/-!
# Division of words

The machine divides toward zero; the corrections behind it make the quotient round down and give the
rest the sign of the divisor.  Everything is measured by the values of words, that is, by arithmetic
of whole numbers, where the quotient rounded down is the floor of a rational number.

* `Word.Fits`, `Word.ofInt?_eq_none_iff` — the whole numbers that are values of words;
* `Word.floor_div_eq_iff`, `Word.floor_div_eq_tdiv` — the quotient that is rounded down, by its rest
  and from the quotient that is rounded toward zero;
* `Word.stepsExact` — **no step of a division that is made leaves the words**;
* `Word.floorDiv?_eq`, `Word.floorMod?_eq` — quotient and rest are exact; the rest is absent where the
  quotient of the two words is no word.
-/

namespace ScriptEmbed.Word

variable {a b : Int64} {i j q : Int}

/-! ### Values of words -/

/-- The whole numbers that words stand for. -/
def Fits (i : Int) : Prop := -2 ^ 63 ≤ i ∧ i < 2 ^ 63

theorem fits_toInt (a : Int64) : Fits a.toInt := ⟨a.le_toInt, a.toInt_lt⟩

theorem ofInt?_eq_none_iff : ofInt? i = none ↔ ¬ Fits i := by
  constructor
  · intro h hfits
    rw [ofInt?, if_pos ⟨hfits.1, Int.le_of_lt_add_one hfits.2⟩] at h
    cases h
  · intro h
    rw [Option.eq_none_iff_forall_ne_some]
    intro r hr
    exact h (toInt_of_ofInt? hr ▸ fits_toInt r)

theorem toInt_add_of_fits (h : Fits (a.toInt + b.toInt)) : (a + b).toInt = a.toInt + b.toInt := by
  rw [Int64.toInt_add]
  exact Int.bmod_eq_of_le h.1 h.2

theorem toInt_sub_of_fits (h : Fits (a.toInt - b.toInt)) : (a - b).toInt = a.toInt - b.toInt := by
  rw [Int64.toInt_sub]
  exact Int.bmod_eq_of_le h.1 h.2

theorem toInt_ne_zero (h : b ≠ 0) : b.toInt ≠ 0 := fun hzero => h (Int64.toInt_inj.1 hzero)

theorem lt_zero_iff : a < 0 ↔ a.toInt < 0 := Int64.lt_iff_toInt_lt

theorem mod_eq_zero_iff : a % b = 0 ↔ a.toInt.tmod b.toInt = 0 := by
  rw [← Int64.toInt_inj, Int64.toInt_mod]
  rfl

/-! ### Rounding of quotients -/

/-- The quotient rounded down leaves a rest between zero and the divisor. -/
theorem floor_div_eq_iff (hj : j ≠ 0) : ⌊(i : ℚ) / j⌋ = q ↔
    (0 ≤ i - j * q ∧ i - j * q < j) ∨ (j < i - j * q ∧ i - j * q ≤ 0) := by
  have hsucc : j * (q + 1) = j * q + j := by ring
  rw [Int.floor_eq_iff]
  rcases lt_or_gt_of_ne hj with hneg | hpos
  · have hneg' : (j : ℚ) < 0 := by exact_mod_cast hneg
    rw [le_div_iff_of_neg hneg', div_lt_iff_of_neg hneg', mul_comm, mul_comm _ (j : ℚ)]
    norm_cast
    rw [hsucc]
    omega
  · have hpos' : 0 < (j : ℚ) := by exact_mod_cast hpos
    rw [le_div_iff₀ hpos', div_lt_iff₀ hpos', mul_comm, mul_comm _ (j : ℚ)]
    norm_cast
    rw [hsucc]
    omega

theorem natAbs_tmod_lt (i : Int) (hj : j ≠ 0) : (i.tmod j).natAbs < j.natAbs := by
  rw [Int.natAbs_tmod]
  exact Nat.mod_lt _ (Int.natAbs_pos.2 hj)

/-- The rest of a division toward zero lies on the side of the dividend. -/
theorem tmod_sign (i j : Int) : (0 ≤ i → 0 ≤ i.tmod j) ∧ (i ≤ 0 → i.tmod j ≤ 0) := by
  constructor
  · exact Int.tmod_nonneg j
  · intro hi
    have hneg := Int.tmod_nonneg j (Int.neg_nonneg_of_nonpos hi)
    rw [Int.neg_tmod] at hneg
    exact Int.nonpos_of_neg_nonneg hneg

/-- Rounding down goes one below rounding toward zero, where there is a rest and the signs differ. -/
theorem floor_div_eq_tdiv (hj : j ≠ 0) : ⌊(i : ℚ) / j⌋ =
    if i.tmod j ≠ 0 ∧ (i < 0 ↔ 0 < j) then i.tdiv j - 1 else i.tdiv j := by
  have hsplit := Int.mul_tdiv_add_tmod i j
  have hlt := natAbs_tmod_lt i hj
  obtain ⟨hnonneg, hnonpos⟩ := tmod_sign i j
  rw [floor_div_eq_iff hj]
  split_ifs with h
  · have hpred : j * (i.tdiv j - 1) = j * i.tdiv j - j := by ring
    rw [hpred]
    omega
  · omega

/-- Where a rest is left the divisor is at least two, so that the quotient has room to go down. -/
theorem fits_tdiv_sub_one (a : Int64) (hj : j ≠ 0) (h : a.toInt.tmod j ≠ 0) :
    Fits (a.toInt.tdiv j - 1) := by
  have hlt := natAbs_tmod_lt a.toInt hj
  have hhalf : (a.toInt.tdiv j).natAbs ≤ a.toInt.natAbs / 2 := by
    rw [Int.natAbs_tdiv]
    exact Nat.div_le_div_left (by omega) (by decide)
  have hfits := fits_toInt a
  rw [Fits] at hfits ⊢
  omega

/-- The rest and the divisor are on opposite sides of zero. -/
theorem fits_tmod_add (b : Int64) (hb : b.toInt ≠ 0) (h : i < 0 ↔ 0 < b.toInt) :
    Fits (i.tmod b.toInt + b.toInt) := by
  have hlt := natAbs_tmod_lt i hb
  obtain ⟨hnonneg, hnonpos⟩ := tmod_sign i b.toInt
  have hfits := fits_toInt b
  rw [Fits] at hfits ⊢
  omega

/-! ### The steps of a division -/

theorem overflowsDiv_iff : overflowsDiv a b = true ↔ a = Int64.minValue ∧ b = -1 := by
  simp [overflowsDiv]

theorem roundsUp_iff (hb : b ≠ 0) :
    roundsUp a b = true ↔ a.toInt.tmod b.toInt ≠ 0 ∧ (a.toInt < 0 ↔ 0 < b.toInt) := by
  have hzero := toInt_ne_zero hb
  simp only [roundsUp, Bool.and_eq_true, bne_iff_ne, ne_eq, mod_eq_zero_iff, lt_zero_iff,
    decide_eq_decide]
  omega

/-- The rest is corrected in the same cases as the quotient. -/
theorem roundsUp_eq (hb : b ≠ 0) :
    (a % b != 0 && (decide (a % b < 0) != decide (b < 0))) = roundsUp a b := by
  have hzero := toInt_ne_zero hb
  obtain ⟨hnonneg, hnonpos⟩ := tmod_sign a.toInt b.toInt
  rw [Bool.eq_iff_iff, roundsUp_iff hb]
  simp only [Bool.and_eq_true, bne_iff_ne, ne_eq, mod_eq_zero_iff, lt_zero_iff, decide_eq_decide,
    Int64.toInt_mod]
  omega

/-- The steps of a division have the values that they have on whole numbers. -/
structure StepsExact (a b : Int64) : Prop where
  quotient : (a / b).toInt = a.toInt.tdiv b.toInt
  rest : (a % b).toInt = a.toInt.tmod b.toInt
  lowered : roundsUp a b = true → (a / b - 1).toInt = (a / b).toInt - 1
  raised : (a % b != 0 && (decide (a % b < 0) != decide (b < 0))) = true →
    (a % b + b).toInt = (a % b).toInt + b.toInt

theorem toInt_div (h : overflowsDiv a b = false) : (a / b).toInt = a.toInt.tdiv b.toInt := by
  by_cases ha : a = Int64.minValue
  · refine Int64.toInt_div_of_ne_right a b ?_
    intro hb
    rw [overflowsDiv_iff.2 ⟨ha, hb⟩] at h
    cases h
  · exact Int64.toInt_div_of_ne_left a b ha

/-- No step of a division that is made leaves the words. -/
theorem stepsExact (hb : b ≠ 0) (h : overflowsDiv a b = false) : StepsExact a b where
  quotient := toInt_div h
  rest := Int64.toInt_mod a b
  lowered hup := by
    refine toInt_sub_of_fits ?_
    rw [toInt_div h]
    exact fits_tdiv_sub_one a (toInt_ne_zero hb) ((roundsUp_iff hb).1 hup).1
  raised hup := by
    rw [roundsUp_eq hb] at hup
    refine toInt_add_of_fits ?_
    rw [Int64.toInt_mod]
    exact fits_tmod_add b (toInt_ne_zero hb) ((roundsUp_iff hb).1 hup).2

/-! ### Quotient and rest -/

/-- The only quotient that is no word. -/
theorem floor_div_of_overflowsDiv (h : overflowsDiv a b = true) :
    ⌊(a.toInt : ℚ) / b.toInt⌋ = 2 ^ 63 := by
  obtain ⟨rfl, rfl⟩ := overflowsDiv_iff.1 h
  rw [Int64.toInt_minValue, show (-1 : Int64).toInt = -1 from rfl]
  norm_num

/-- The quotient is rounded down, and absent where that is no word. -/
theorem floorDiv?_eq (hb : b ≠ 0) : floorDiv? a b = ofInt? ⌊(a.toInt : ℚ) / b.toInt⌋ := by
  rw [floorDiv?]
  split_ifs with hover hup
  · rw [floor_div_of_overflowsDiv hover]
    rfl
  · have hsteps := stepsExact hb (Bool.eq_false_iff.2 hover)
    rw [floor_div_eq_tdiv (toInt_ne_zero hb), if_pos ((roundsUp_iff hb).1 hup), ← hsteps.quotient,
      ← hsteps.lowered hup, ofInt?_toInt]
  · have hsteps := stepsExact hb (Bool.eq_false_iff.2 hover)
    rw [floor_div_eq_tdiv (toInt_ne_zero hb), if_neg (mt (roundsUp_iff hb).2 hup),
      ← hsteps.quotient, ofInt?_toInt]

/-- The exact rest is between zero and the divisor, so that it is a word. -/
theorem fits_floor_rest (a : Int64) (hb : b ≠ 0) :
    Fits (a.toInt - b.toInt * ⌊(a.toInt : ℚ) / b.toInt⌋) := by
  have hrest := (floor_div_eq_iff (i := a.toInt) (toInt_ne_zero hb)).1 rfl
  have hfits := fits_toInt b
  rw [Fits] at hfits ⊢
  omega

/-- The exact rest is smaller than the divisor and on the same side of zero. -/
theorem floor_rest_cases (i : Int) (hj : j ≠ 0) : i - j * ⌊(i : ℚ) / j⌋ = 0 ∨
    (i - j * ⌊(i : ℚ) / j⌋).sign = j.sign ∧ |i - j * ⌊(i : ℚ) / j⌋| < |j| := by
  generalize hrest : i - j * ⌊(i : ℚ) / j⌋ = rest
  have hbetween := (floor_div_eq_iff (i := i) hj).1 rfl
  rw [hrest] at hbetween
  by_cases hzero : rest = 0
  · exact Or.inl hzero
  · refine Or.inr ?_
    rcases hbetween with ⟨hnonneg, hlt⟩ | ⟨hlt, hnonpos⟩
    · rw [Int.sign_eq_one_of_pos (by omega), Int.sign_eq_one_of_pos (by omega)]
      refine ⟨rfl, ?_⟩
      rw [abs_of_nonneg hnonneg, abs_of_pos (by omega)]
      exact hlt
    · rw [Int.sign_eq_neg_one_of_neg (by omega), Int.sign_eq_neg_one_of_neg (by omega)]
      refine ⟨rfl, ?_⟩
      rw [abs_of_nonpos hnonpos, abs_of_neg (by omega)]
      exact neg_lt_neg hlt

/-- The rest belongs to the quotient that is rounded down, where the machine divides at all. -/
theorem floorMod?_eq (hb : b ≠ 0) (h : overflowsDiv a b = false) :
    floorMod? a b = ofInt? (a.toInt - b.toInt * ⌊(a.toInt : ℚ) / b.toInt⌋) := by
  have hsteps := stepsExact hb h
  have hsplit := Int.mul_tdiv_add_tmod a.toInt b.toInt
  rw [floorMod?, if_neg (Bool.eq_false_iff.1 h), floor_div_eq_tdiv (toInt_ne_zero hb)]
  by_cases hup : roundsUp a b = true
  · have hvalue : a.toInt - b.toInt * (a.toInt.tdiv b.toInt - 1) = (a % b + b).toInt := by
      rw [hsteps.raised (roundsUp_eq hb ▸ hup), hsteps.rest, mul_sub]
      omega
    rw [if_pos ((roundsUp_iff hb).1 hup), hvalue, ofInt?_toInt]
    exact if_pos (roundsUp_eq hb ▸ hup)
  · have hvalue : a.toInt - b.toInt * a.toInt.tdiv b.toInt = (a % b).toInt := by
      rw [hsteps.rest]
      omega
    rw [if_neg (mt (roundsUp_iff hb).2 hup), hvalue, ofInt?_toInt]
    exact if_neg (roundsUp_eq hb ▸ hup)

end ScriptEmbed.Word
