/-!
# Reading floats

The text of a float is a sign, digits with at most one point among them, and an exponent; all but the
digits may be left out. Infinity and not-a-number are words. The float read is the nearest to the
decimal, an even significand first.

Exponents far beyond the range of floats are cut off before the power is formed, so the work stays
within reason for every text.
-/

namespace JoinOrder.Decimal

/-- The number of a text that is nothing but digits. -/
def natOf? (digits : List Char) : Option Nat :=
  if digits.isEmpty || !digits.all Char.isDigit then none
  else some (digits.foldl (fun n c => 10 * n + (c.toNat - '0'.toNat)) 0)

/-- The float nearest to `value * 10 ^ power`, where `value` has `count` digits without a leading
zero. The decimal lies between the powers of ten at `power + count - 1` and `power + count`. -/
def nearest (value count : Nat) (power : Int) : Float :=
  if value = 0 || power + count < -400 then 0.0
  else if power + count > 400 then 1.0 / 0.0
  else Float.ofScientific value (power < 0) power.natAbs

/-- The exponent a text ends with; an empty one is zero. -/
def exponent? : List Char → Option Int
  | [] => some 0
  | mark :: rest =>
    if mark = 'e' || mark = 'E' then
      match rest with
      | '-' :: digits => (natOf? digits).map fun n => -(n : Int)
      | '+' :: digits => (natOf? digits).map fun n => (n : Int)
      | digits => (natOf? digits).map fun n => (n : Int)
    else none

/-- The float of a text without a sign. -/
def unsigned? (text : List Char) : Option Float := do
  let word := (String.ofList text).toLower
  if word = "inf" || word = "infinity" then return 1.0 / 0.0
  if word = "nan" then return 0.0 / 0.0
  let whole := text.takeWhile Char.isDigit
  let rest := text.dropWhile Char.isDigit
  let (fraction, rest) := match rest with
    | '.' :: rest => (rest.takeWhile Char.isDigit, rest.dropWhile Char.isDigit)
    | rest => ([], rest)
  let digits := whole ++ fraction
  let value ← natOf? digits
  let exponent ← exponent? rest
  let count := (digits.dropWhile (· = '0')).length
  return nearest value count (exponent - fraction.length)

/-- The float of a text. -/
def ofText? (text : String) : Option Float :=
  match text.toList with
  | '-' :: rest => (unsigned? rest).map fun x => -x
  | '+' :: rest => unsigned? rest
  | rest => unsigned? rest

end JoinOrder.Decimal
