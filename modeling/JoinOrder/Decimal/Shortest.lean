/-!
# Shortest decimal text of a float

A float stands for every real that rounds to it: those within half a unit of its last place, the two
ends included exactly when its significand is even. Of all decimals in that interval the text is one
with the fewest digits, and of those the nearest to the float; a tie goes to the larger.

## How the decimal is found

A decimal with last digit at `10 ^ p` is a multiple of `10 ^ p`, and if any multiple lies in the
interval then so does one of the two next to the float. So the multiples next to the float are tried
for one `p` after the other, downwards from a power above the float; the first that lies in the
interval has the fewest digits. All of it is exact arithmetic on natural numbers.

## Notation

No exponent is ever written, and an integral value has no decimal point.
-/

namespace JoinOrder.Decimal

/-- A positive number `value / unit` with the interval `[low / unit, high / unit]` around it. -/
structure Interval where
  /-- The numerator of the lower end. -/
  low : Nat
  /-- The numerator of the number. -/
  value : Nat
  /-- The numerator of the upper end. -/
  high : Nat
  /-- The common denominator. -/
  unit : Nat
  /-- Both ends belong to the interval. -/
  closed : Bool

namespace Interval

/-- The reals that round to the float `significand * 2 ^ exponent`. Where the significand is the
least of its binade, the neighbour below is half as far away as the one above. -/
def ofBinary (significand : Nat) (exponent : Int) (isLeast : Bool) : Interval :=
  let scale := Nat.pow 2 (exponent - 2).toNat
  { low := (4 * significand - if isLeast then 1 else 2) * scale
    value := 4 * significand * scale
    high := (4 * significand + 2) * scale
    unit := Nat.pow 2 (2 - exponent).toNat
    closed := significand % 2 = 0 }

/-- The decimal `digits * 10 ^ power` lies in the interval. -/
def holds (i : Interval) (digits : Nat) (power : Int) : Bool :=
  let x := digits * Nat.pow 10 power.toNat * i.unit
  let ten := Nat.pow 10 (-power).toNat
  if i.closed then i.low * ten ≤ x && x ≤ i.high * ten else i.low * ten < x && x < i.high * ten

/-- The multiple of `10 ^ power` in the interval next to its number, if there is one. -/
def onGrid? (i : Interval) (power : Int) : Option Nat :=
  let num := i.value * Nat.pow 10 (-power).toNat
  let den := i.unit * Nat.pow 10 power.toNat
  let below := num / den
  match i.holds below power, i.holds (below + 1) power with
  | true, true => if 2 * (num % den) < den then some below else some (below + 1)
  | true, false => some below
  | false, true => some (below + 1)
  | false, false => none

/-- The shortest decimal of an interval with last digit at `power` or below, given how many powers
to try. -/
def shortestFrom (i : Interval) : (tries : Nat) → (power : Int) → Nat × Int
  | 0, power => (i.value * Nat.pow 10 (-power).toNat / (i.unit * Nat.pow 10 power.toNat), power)
  | tries + 1, power =>
    match i.onGrid? power with
    | some digits => (digits, power)
    | none => i.shortestFrom tries (power - 1)

end Interval

/-- A power of ten above every number below `2 ^ binary`; `0.30103` exceeds the logarithm of two. -/
def powerAbove (binary : Int) : Int :=
  if binary ≥ 0 then binary * 30103 / 100000 + 1 else binary * 30102 / 100000 + 1

/-- The digits and the power of the last digit of the shortest decimal of a positive float. Seventeen
digits always suffice, and the power to start from has at most two too many. -/
def shortest (significand : Nat) (exponent : Int) (isLeast : Bool) : Nat × Int :=
  (Interval.ofBinary significand exponent isLeast).shortestFrom 20
    (powerAbove (exponent + significand.log2 + 1))

/-- A fraction's digits without the zeros that end it. -/
def trimZeros (digits : List Char) : List Char := (digits.reverse.dropWhile (· = '0')).reverse

/-- The positional text of `digits * 10 ^ power`. -/
def positional (digits : Nat) (power : Int) : String :=
  if power ≥ 0 then toString (digits * Nat.pow 10 power.toNat)
  else
    let places := (-power).toNat
    let whole := digits / Nat.pow 10 places
    let part := Nat.toDigits 10 (digits % Nat.pow 10 places)
    let fraction := trimZeros (List.replicate (places - part.length) '0' ++ part)
    if fraction.isEmpty then toString whole else toString whole ++ "." ++ String.ofList fraction

/-- The text of a float. -/
def text (x : Float) : String :=
  let bits := x.toBits.toNat
  let sign := if bits / Nat.pow 2 63 = 0 then "" else "-"
  let biased := bits / Nat.pow 2 52 % Nat.pow 2 11
  let fraction := bits % Nat.pow 2 52
  if biased = 2047 then
    if fraction = 0 then sign ++ "inf" else "NaN"
  else if biased = 0 then
    if fraction = 0 then sign ++ "0"
    else
      let (digits, power) := shortest fraction (-1074) false
      sign ++ positional digits power
  else
    let (digits, power) :=
      shortest (fraction + Nat.pow 2 52) ((biased : Int) - 1075) (fraction = 0 && biased > 1)
    sign ++ positional digits power

end JoinOrder.Decimal
