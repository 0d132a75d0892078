/-!
# Binary floating point

A finite floating-point number is a whole number of binary units: `m * 2 ^ q` with a sign.
Exact rules on such numbers are computed on `m` and `q`.

* `Binary64.Parts` — sign, significand and exponent;
* `Binary64.parts` — the parts of a number;
* `Binary64.remainder` — the exact remainder of truncated division.
-/

namespace ScriptEmbed.Binary64

/-- The number `significand * 2 ^ exponent`, with a sign. -/
structure Parts where
  negative : Bool
  significand : Nat
  exponent : Int
  deriving DecidableEq, Repr

/-- The biased exponent field. -/
def exponentField (x : Float) : Nat := ((x.toBits >>> 52) &&& 0x7FF).toNat

/-- The fraction field. -/
def fractionField (x : Float) : Nat := (x.toBits &&& 0xFFFFFFFFFFFFF).toNat

/-- The sign bit. -/
def isNegative (x : Float) : Bool := x.toBits >>> 63 == 1

/-- The parts of a finite number. Subnormal numbers have no hidden bit. -/
def parts (x : Float) : Parts :=
  let e := exponentField x
  if e = 0 then ⟨isNegative x, fractionField x, -1074⟩
  else ⟨isNegative x, Nat.pow 2 52 + fractionField x, (e : Int) - 1075⟩

/-- The whole number of units `2 ^ unit` in a number whose exponent is no less. -/
def Parts.unitsOf (p : Parts) (unit : Int) : Nat :=
  p.significand * Nat.pow 2 (p.exponent - unit).toNat

/-- The exact remainder of the division of `a` by `b` rounded toward zero. It has the sign of
`a` and is smaller than `b`; both are taken as whole numbers of the smaller of their units. -/
def remainder (a b : Float) : Float :=
  if a.isNaN || a.isInf || b.isNaN then 0.0 / 0.0
  else if b.isInf then a
  else
    let p := parts a
    let q := parts b
    let unit := min p.exponent q.exponent
    let r := (Float.ofNat (p.unitsOf unit % q.unitsOf unit)).scaleB unit
    if p.negative then -r else r

/-- The remainder with the sign of the divisor. -/
def floorRemainder (a b : Float) : Float :=
  let r := remainder a b
  if r != 0.0 && (decide (r < 0.0) != decide (b < 0.0)) then r + b else r

end ScriptEmbed.Binary64
