import ScriptEmbed.Number.Decimal

/-!
# Reading floating-point numbers

A floating-point numeral is an optional sign, then digits with at most one point among, before
or after them, then an optional exponent; or one of the words for infinity and for no number,
in any case. It is read as the nearest floating-point number.

* `FloatReading.Numeral` — digits and a power of ten;
* `FloatReading.unsigned?` — the numeral of a text without sign;
* `FloatReading.read?` — the number of a text.
-/

namespace ScriptEmbed.FloatReading

/-- The number `mantissa * 10 ^ power`, written with `count` digits from the first that is
not zero. -/
structure Numeral where
  mantissa : Nat
  count : Nat
  power : Int

/-- The numeral with the given digits before and after the point. -/
def Numeral.ofDigits (whole fraction : Text) (exponent : Int) : Numeral :=
  let ds := whole ++ fraction
  { mantissa := Decimal.value ds
    count := (ds.dropWhile (· == '0')).length
    power := exponent - fraction.length }

/-- The nearest floating-point number. Beyond the range of the format the result is infinite
or zero, whatever the digits. -/
def Numeral.nearest (n : Numeral) : Float :=
  let top := (n.count : Int) + n.power
  if n.mantissa = 0 then 0.0
  else if top > 310 then 1.0 / 0.0
  else if top < -330 then 0.0
  else Float.ofScientific n.mantissa (n.power < 0) n.power.natAbs

/-- The exponent part: nothing, or `e` with an optional sign and digits. -/
def exponent? : Text → Option Int
  | [] => some 0
  | c :: t => if c == 'e' || c == 'E' then Decimal.readInt? t else none

/-- The numeral of a text without sign. -/
def unsigned? (t : Text) : Option Numeral :=
  let whole := t.takeWhile Decimal.isDigit
  let rest := t.dropWhile Decimal.isDigit
  match rest with
  | '.' :: r =>
    let fraction := r.takeWhile Decimal.isDigit
    if whole.isEmpty && fraction.isEmpty then none
    else (exponent? (r.dropWhile Decimal.isDigit)).map (Numeral.ofDigits whole fraction)
  | _ =>
    if whole.isEmpty then none else (exponent? rest).map (Numeral.ofDigits whole [])

/-- The number without sign that a word or numeral stands for. -/
def magnitude? (t : Text) : Option Float :=
  let word := t.map Char.toLower
  if word == "inf".toList || word == "infinity".toList then some (1.0 / 0.0)
  else if word == "nan".toList then some (0.0 / 0.0)
  else (unsigned? t).map Numeral.nearest

/-- The number of a text with an optional sign. -/
def read? : Text → Option Float
  | '+' :: t => magnitude? t
  | '-' :: t => (magnitude? t).map (- ·)
  | t => magnitude? t

end ScriptEmbed.FloatReading
