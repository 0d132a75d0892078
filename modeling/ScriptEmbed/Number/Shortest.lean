import ScriptEmbed.Number.Binary64
import ScriptEmbed.Number.Decimal

/-!
# Shortest decimal texts of floating-point numbers

A number is written with the fewest digits that read back as that number, and of those the
digits nearest to it; of two equally near the larger. The notation is positional throughout:
no exponent, and no point in a whole number.

* `Shortest.Interval` — a value and the bounds of the reals that round to it;
* `Shortest.nearest?` — the nearest point of a decimal grid within an interval;
* `Shortest.digitsOf` — the first grid with such a point, from one digit to seventeen;
* `Shortest.text` — the decimal text.
-/

namespace ScriptEmbed.Shortest

/-- A positive real `value / unit` with the bounds between which every real rounds to it; the
bounds themselves do when `closed` holds. -/
structure Interval where
  value : Nat
  low : Nat
  high : Nat
  unit : Nat
  closed : Bool

/-- The interval of `m * 2 ^ q`, in quarters of a unit. Below a power of two the neighbouring
numbers are half as far apart. -/
def interval (m : Nat) (q : Int) : Interval :=
  let scale := Nat.pow 2 (q - 2).toNat
  let below := if m = Nat.pow 2 52 ∧ q > -1074 then 1 else 2
  { value := 4 * m * scale
    low := (4 * m - below) * scale
    high := (4 * m + 2) * scale
    unit := Nat.pow 2 (2 - q).toNat
    closed := m % 2 == 0 }

namespace Interval

/-- The fraction `num / den` lies in the interval. -/
def contains (i : Interval) (num den : Nat) : Bool :=
  let x := num * i.unit
  if i.closed then i.low * den ≤ x && x ≤ i.high * den
  else i.low * den < x && x < i.high * den

/-- The number of digits before the point, or minus the number of zeros after it. -/
def magnitude (i : Interval) : Int :=
  if i.unit ≤ i.value then (Decimal.digits (i.value / i.unit)).length
  else leadingZeros 400 (10 * i.value)
where
  /-- Minus the number of zeros after the point of `scaled / (10 * unit)`. -/
  leadingZeros : Nat → Nat → Int
    | 0, _ => 0
    | n + 1, scaled => if i.unit ≤ scaled then 0 else leadingZeros n (10 * scaled) - 1

end Interval

/-- Of the two points of the grid with step `10 ^ place` around the value, the nearest that
lies in the interval, as a multiple of the step. -/
def nearest? (i : Interval) (place : Int) : Option Nat :=
  let up := Nat.pow 10 place.toNat
  let down := Nat.pow 10 (-place).toNat
  let n := i.value * down / (i.unit * up)
  let fits := fun k => i.contains (k * up) down
  let fromBelow := 2 * i.value * down < (2 * n + 1) * (i.unit * up)
  match fits n, fits (n + 1) with
  | true, true => some (if fromBelow then n else n + 1)
  | true, false => some n
  | false, true => some (n + 1)
  | false, false => none

/-- The point `n * 10 ^ place` without a final zero. Only ten steps of the coarsest grid, for a
value just below a power of ten, have one. -/
def withoutZero (n : Nat) (place : Int) : Nat × Int :=
  if n % 10 = 0 then (n / 10, place + 1) else (n, place)

/-- The digits and the place of the last one, on the first grid that has a point in the
interval. Seventeen digits always suffice. -/
def digitsOf (i : Interval) : Nat × Int := go 17 1
where
  /-- Tries `count` digits and more, at most `tries` grids. -/
  go : Nat → Nat → Nat × Int
    | 0, _ => (0, 0)
    | tries + 1, count =>
      let place := i.magnitude - count
      match nearest? i place with
      | some n => withoutZero n place
      | none => go tries (count + 1)

/-- The positional text of `n * 10 ^ place`. -/
def positional (n : Nat) (place : Int) : Text :=
  let ds := Decimal.digits n
  let zeros := fun k => List.replicate k '0'
  if 0 ≤ place then ds ++ zeros place.toNat
  else
    let fraction := place.natAbs
    if ds.length ≤ fraction then '0' :: '.' :: (zeros (fraction - ds.length) ++ ds)
    else ds.take (ds.length - fraction) ++ '.' :: ds.drop (ds.length - fraction)

/-- The text of a floating-point number. -/
def text (x : Float) : Text :=
  if x.isNaN then ['N', 'a', 'N']
  else
    let size :=
      if x.isInf then ['i', 'n', 'f']
      else
        let p := Binary64.parts x
        if p.significand = 0 then ['0']
        else
          let d := digitsOf (interval p.significand p.exponent)
          positional d.1 d.2
    if Binary64.isNegative x then '-' :: size else size

end ScriptEmbed.Shortest
