import ScriptEmbed.Text.Blank

/-!
# Decimal numerals

Whole numbers are written in base ten without separators, and read back by position.

* `Decimal.digits` / `Decimal.value` — a natural number and its numeral;
* `Decimal.value_digits` — reading a numeral gives the number back;
* `Decimal.ofInt` — the numeral of an integer, `-` before a negative one;
* `Decimal.readInt?` — an optional sign and at least one digit.
-/

namespace ScriptEmbed.Decimal

/-! ### Natural numbers -/

/-- An ASCII decimal digit. -/
def isDigit (c : Char) : Bool := c.isDigit

/-- The character of a digit below ten. -/
def digitChar (d : Nat) : Char := Char.ofNat (48 + d)

/-- The value of a digit character. -/
def digitValue (c : Char) : Nat := c.toNat - 48

theorem digitValue_digitChar {d : Nat} (h : d < 10) : digitValue (digitChar d) = d := by
  have all : ∀ e ∈ List.range 10, digitValue (digitChar e) = e := by decide
  exact all d (List.mem_range.mpr h)

theorem isDigit_digitChar {d : Nat} (h : d < 10) : isDigit (digitChar d) = true := by
  have all : ∀ e ∈ List.range 10, isDigit (digitChar e) = true := by decide
  exact all d (List.mem_range.mpr h)

/-- The numeral of a natural number, without leading zeros. -/
def digits (n : Nat) : Text :=
  if n < 10 then [digitChar n] else digits (n / 10) ++ [digitChar (n % 10)]
termination_by n
decreasing_by omega

/-- The number that a string of digits stands for. -/
def value (t : Text) : Nat := t.foldl (fun n c => 10 * n + digitValue c) 0

theorem value_concat (t : Text) (c : Char) : value (t ++ [c]) = 10 * value t + digitValue c := by
  simp [value]

/-- Reading a numeral gives the number back. -/
theorem value_digits (n : Nat) : value (digits n) = n := by
  fun_induction digits n with
  | case1 n h => simp [value, digitValue_digitChar h]
  | case2 n h ih =>
    rw [value_concat, ih, digitValue_digitChar (Nat.mod_lt _ (by omega))]
    omega

theorem digits_ne_nil (n : Nat) : digits n ≠ [] := by
  rw [digits]
  split <;> simp

theorem all_isDigit_digits (n : Nat) : (digits n).all isDigit = true := by
  fun_induction digits n with
  | case1 n h => simp [isDigit_digitChar h]
  | case2 n h ih =>
    simp only [List.all_append, ih, List.all_cons, List.all_nil, Bool.and_true, Bool.true_and]
    exact isDigit_digitChar (Nat.mod_lt _ (by omega))

/-! ### Integers -/

/-- The numeral of an integer. -/
def ofInt (i : Int) : Text :=
  if i < 0 then '-' :: digits i.natAbs else digits i.natAbs

/-- At least one digit and nothing else. -/
def readNat? (t : Text) : Option Nat :=
  if t.isEmpty || !t.all isDigit then none else some (value t)

/-- An optional sign, then at least one digit. -/
def readInt? : Text → Option Int
  | '+' :: t => (readNat? t).map Int.ofNat
  | '-' :: t => (readNat? t).map fun n => -(n : Int)
  | t => (readNat? t).map Int.ofNat

theorem readNat?_digits (n : Nat) : readNat? (digits n) = some n := by
  simp [readNat?, digits_ne_nil, all_isDigit_digits, value_digits]

end ScriptEmbed.Decimal
