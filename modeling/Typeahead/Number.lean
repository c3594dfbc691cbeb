/-!
Numbers of configurations and documents. Whole numbers have any size. Numbers with a fraction or an
exponent are values of the binary64 format, kept exactly; the sign of zero is not kept. A number is
written as it was given: a whole number by its digits, a binary64 value by the fewest digits that read
back as the same value.
-/

namespace Typeahead

/-- A value of the binary64 format. -/
inductive Binary64 where
  | finite (x : Rat)
  | infinite (negative : Bool)
  | undefined
  deriving DecidableEq

namespace Binary64

/-- The power of a base with any integer exponent. -/
def power (base : Nat) (e : Int) : Rat :=
  if 0 ≤ e then (base.pow e.toNat : Rat) else 1 / (base.pow (-e).toNat : Rat)

/-- The nearest whole number; of two, the even one. -/
def nearestEven (x : Rat) : Int :=
  let low := x.floor
  let rest := x - (low : Rat)
  if rest < 1 / 2 then low
  else if 1 / 2 < rest then low + 1
  else if low % 2 = 0 then low else low + 1

/-- The exponent of the last place of the binary64 values near a positive number. -/
def lastPlace (x : Rat) : Int :=
  let e := (x.num.natAbs.log2 : Int) - (x.den.log2 : Int) - 52
  max (-1074) (if x < power 2 (e + 52) then e - 1 else e)

/-- The binary64 value nearest to a number, the even one of two. -/
def round (x : Rat) : Binary64 :=
  if x = 0 then .finite 0
  else
    let size := if x < 0 then -x else x
    let e := lastPlace size
    let rounded := (nearestEven (size / power 2 e) : Rat) * power 2 e
    if power 2 1024 ≤ rounded then .infinite (decide (x < 0))
    else .finite (if x < 0 then -rounded else rounded)

/-- The value of a decimal numeral `digits · 10 ^ exponent`. Numerals far beyond the range of the
format are settled by their size. -/
def ofDecimal (negative : Bool) (digits : Nat) (exponent : Int) : Binary64 :=
  let size : Int := (Nat.toDigits 10 digits).length + exponent
  if digits = 0 || size < -400 then .finite 0
  else if 400 < size then .infinite negative
  else
    let x := (digits : Rat) * power 10 exponent
    round (if negative then -x else x)

/-- The exponent `p` with `10 ^ (p - 1) ≤ x < 10 ^ p`, searched upwards from a lower bound. -/
def decimalExponent (x : Rat) (p : Int) : Nat → Int
  | 0 => p
  | fuel + 1 => if x < power 10 p then p else decimalExponent x (p + 1) fuel

/-- The digits of a positive value on the grid of `count` significant digits, if one of the two
neighbours on the grid reads back as the value: the nearer one that does, the even one of two. With
them comes the place of the point before them, which moves where the neighbour is a power of ten. -/
def onGrid? (x : Rat) (p : Int) (count : Nat) : Option (List Char × Int) :=
  let grid := power 10 (p - count)
  let low := (x / grid).floor
  let digits? := [nearestEven (x / grid), low, low + 1].find? fun (n : Int) =>
    decide (round ((n : Rat) * grid) = .finite x)
  digits?.map fun n =>
    let digits := Nat.toDigits 10 n.toNat
    (digits, p + digits.length - count)

/-- The fewest digits that read back as a positive value, and the place of the point before them. -/
def shortest (x : Rat) : List Char × Int :=
  let guess := ((x.num.natAbs.log2 : Int) - (x.den.log2 : Int) - 1) * 30103 / 100000
  let p := decimalExponent x guess 4
  let (digits, p) := ((List.range' 1 17).findSome? (onGrid? x p)).getD ([], p)
  ((digits.reverse.dropWhile (· = '0')).reverse, p)

end Binary64

/-- How a binary64 value is laid out: positionally while the point lies within the limits, else with
an exponent of at least the given number of digits. -/
structure Layout where
  least : Int
  most : Int
  exponentDigits : Nat

/-- A point beyond four leading zeros or sixteen digits is written by an exponent of two digits. -/
def Number.layout : Layout := ⟨-3, 16, 2⟩

/-- Lays out digits with the point before them moved by `p` places. -/
def Layout.write (l : Layout) (digits : List Char) (p : Int) : String :=
  if l.least ≤ p && p ≤ l.most then
    if p ≤ 0 then "0." ++ String.ofList (List.replicate (-p).toNat '0' ++ digits)
    else
      let whole := digits.take p.toNat
      let fraction := digits.drop p.toNat
      String.ofList (whole ++ List.replicate (p.toNat - whole.length) '0') ++ "." ++
        (if fraction.isEmpty then "0" else String.ofList fraction)
  else
    let e := p - 1
    let size := Nat.toDigits 10 e.natAbs
    let padded := List.replicate (l.exponentDigits - size.length) '0' ++ size
    let fraction := digits.drop 1
    String.ofList (digits.take 1) ++ (if fraction.isEmpty then "" else "." ++ String.ofList fraction) ++
      (if e < 0 then "e-" else "e+") ++ String.ofList padded

/-- A number: whole, or of the binary64 format. The two are told apart because they are written
differently. -/
inductive Number where
  | whole (n : Int)
  | real (x : Binary64)
  deriving DecidableEq

namespace Number

/-- The number as a text. -/
def text : Number → String
  | .whole n => toString n
  | .real (.finite x) =>
    if x = 0 then "0.0"
    else
      let (digits, p) := Binary64.shortest (if x < 0 then -x else x)
      (if x < 0 then "-" else "") ++ layout.write digits p
  | .real (.infinite negative) => if negative then "-inf" else "inf"
  | .real .undefined => "nan"

/-- The exact value of a finite number. -/
def value? : Number → Option Rat
  | .whole n => some n
  | .real (.finite x) => some x
  | .real _ => none

/-- Whether a whole number fits a word of 64 bits with a sign, the least one left out. -/
def fitsWord (n : Int) : Bool := n.natAbs < 9223372036854775808

/-- The binary64 value of a number. -/
def toReal : Number → Number
  | .whole n => .real (Binary64.round n)
  | .real x => .real x

/-- Whether the number is at least `bound`; an undefined number is not. -/
def atLeast (bound : Rat) : Number → Bool
  | .whole n => bound ≤ n
  | .real (.finite x) => bound ≤ x
  | .real (.infinite negative) => !negative
  | .real .undefined => false

/-- Whether the number is above `bound`; an undefined number is not. -/
def above (bound : Rat) : Number → Bool
  | .whole n => bound < n
  | .real (.finite x) => bound < x
  | .real (.infinite negative) => !negative
  | .real .undefined => false

end Number

end Typeahead
