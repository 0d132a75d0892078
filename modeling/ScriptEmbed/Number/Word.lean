import ScriptEmbed.Number.Decimal

/-!
# Sixty-four bit arithmetic

Integers of the macro language are signed words of sixty-four bits. An operation has a result
exactly when that result is a word; quotients are rounded down and a remainder has the sign of
the divisor.

* `Word.ofInt?` — the word with a given value;
* `Word.add?`, `Word.sub?`, `Word.mul?`, `Word.neg?`, `Word.abs?` — exact or absent;
* `Word.floorDiv?`, `Word.floorMod?` — by way of the truncating machine operations.
-/

namespace ScriptEmbed.Word

/-- The word with the given value, where there is one. -/
def ofInt? (i : Int) : Option Int64 :=
  if Int64.minValue.toInt ≤ i ∧ i ≤ Int64.maxValue.toInt then some (Int64.ofInt i) else none

theorem ofInt?_toInt (a : Int64) : ofInt? a.toInt = some a := by
  rw [ofInt?, if_pos ⟨a.minValue_le_toInt, a.toInt_le⟩, Int64.ofInt_toInt]

theorem toInt_of_ofInt? {i : Int} {a : Int64} (h : ofInt? i = some a) : a.toInt = i := by
  rw [ofInt?, Option.ite_none_right_eq_some] at h
  obtain ⟨⟨hmin, hmax⟩, h⟩ := h
  cases h
  exact Int64.toInt_ofInt_of_le hmin (Int.lt_add_one_of_le hmax)

/-- The numeral of a word. -/
def numeral (a : Int64) : Text := Decimal.ofInt a.toInt

/-- The word that a numeral stands for: an optional sign, then digits. -/
def read? (t : Text) : Option Int64 := (Decimal.readInt? t).bind ofInt?

/-! ### Exact operations -/

/-- The sum, where it is a word. -/
def add? (a b : Int64) : Option Int64 := ofInt? (a.toInt + b.toInt)

/-- The difference, where it is a word. -/
def sub? (a b : Int64) : Option Int64 := ofInt? (a.toInt - b.toInt)

/-- The product, where it is a word. -/
def mul? (a b : Int64) : Option Int64 := ofInt? (a.toInt * b.toInt)

/-- The opposite, where it is a word. -/
def neg? (a : Int64) : Option Int64 := ofInt? (-a.toInt)

/-- The distance from zero, where it is a word. -/
def abs? (a : Int64) : Option Int64 := ofInt? a.toInt.natAbs

/-! ### Division

The machine operations round toward zero, and both fail on the quotient of the least word by
minus one, which is no word. The corrections below make the quotient round down. -/

/-- The only quotient by a number other than zero that is no word. -/
def overflowsDiv (a b : Int64) : Bool := a == Int64.minValue && b == -1

/-- The truncating division leaves a remainder and the operands differ in sign, so that the
exact quotient lies below the truncated one. -/
def roundsUp (a b : Int64) : Bool := a % b != 0 && (decide (a < 0) != decide (b < 0))

/-- The quotient rounded down, for a divisor other than zero. -/
def floorDiv? (a b : Int64) : Option Int64 :=
  if overflowsDiv a b then none
  else if roundsUp a b then some (a / b - 1)
  else some (a / b)

/-- The remainder with the sign of the divisor, for a divisor other than zero. It is absent
where the machine's division fails. -/
def floorMod? (a b : Int64) : Option Int64 :=
  if overflowsDiv a b then none
  else
    let r := a % b
    if r != 0 && (decide (r < 0) != decide (b < 0)) then some (r + b) else some r

end ScriptEmbed.Word
