/-
  The shortest decimal that reads back as a number of double precision.

  Decimals with one digit, two digits and so on are tried. On each grid, only the two
  neighbours of the number can be among the decimals that read back, if any is; the nearer one
  is taken, and of two that are equally near the even one. Seventeen digits always suffice.
-/
import SuperForward.Decimal.Double

namespace SuperForward.Decimal

/-- A decimal: its digits as a whole number, times a power of ten. -/
structure Numeral where
  digits : Nat
  exponent : Int
  deriving DecidableEq, Repr

namespace Shortest

/-- The fraction of two whole numbers. -/
structure Fraction where
  numerator : Nat
  denominator : Nat

/-- A whole number times a power of two. -/
def timesPower (n : Nat) (exponent : Int) : Fraction :=
  match exponent with
  | .ofNat e => ⟨n * .pow 2 e, 1⟩
  | .negSucc e => ⟨n, .pow 2 (e + 1)⟩

/-- A whole number times a power of ten. -/
def ofNumeral (n : Numeral) : Fraction :=
  match n.exponent with
  | .ofNat e => ⟨n.digits * .pow 10 e, 1⟩
  | .negSucc e => ⟨n.digits, .pow 10 (e + 1)⟩

/-- The first fraction is less than the second. -/
def less (a b : Fraction) : Bool := a.numerator * b.denominator < b.numerator * a.denominator

/-- The first fraction is not greater than the second. -/
def atMost (a b : Fraction) : Bool := !less b a

/-- The decimal lies among the numbers that are read as `mantissa * 2 ^ exponent`. In quarters
of a unit, they reach two up, and two down, or one down where the numbers below are twice as
dense; the ends belong to them if the mantissa is even. -/
def readsBack (mantissa : Nat) (exponent : Int) (n : Numeral) : Bool :=
  let below := if mantissa == Double.fullMantissa && Double.leastExponent < exponent then 1 else 2
  let low := timesPower (4 * mantissa - below) (exponent - 2)
  let high := timesPower (4 * mantissa + 2) (exponent - 2)
  let value := ofNumeral n
  if mantissa % 2 == 0 then atMost low value && atMost value high
  else less low value && less value high

/-- How many powers of ten a grid lies away from a fraction: the fraction in units of
`10 ^ exponent`, as a whole number and what is left. -/
def onGrid (value : Fraction) (exponent : Int) : Nat × Fraction :=
  let (n, d) := match exponent with
    | .ofNat e => (value.numerator, value.denominator * .pow 10 e)
    | .negSucc e => (value.numerator * .pow 10 (e + 1), value.denominator)
  (n / d, ⟨n % d, d⟩)

/-- The decimal on a grid that reads back, if there is one. -/
def onGrid? (mantissa : Nat) (exponent gridExponent : Int) : Option Numeral :=
  let (floor, rest) := onGrid (timesPower mantissa exponent) gridExponent
  let lower : Numeral := ⟨floor, gridExponent⟩
  let upper : Numeral := ⟨floor + 1, gridExponent⟩
  let twice := 2 * rest.numerator
  let lowerFirst := twice < rest.denominator || (twice == rest.denominator && floor % 2 == 0)
  let (first, second) := if lowerFirst then (lower, upper) else (upper, lower)
  if readsBack mantissa exponent first then some first
  else if readsBack mantissa exponent second then some second
  else none

/-- The power of ten of the first digit of a fraction, or one more, searched downwards. -/
def orderFrom (value : Fraction) : (turns : Nat) → Int → Int
  | 0, order => order
  | turns + 1, order =>
    if (onGrid value order).1 == 0 then orderFrom value turns (order - 1) else order

/-- Tries the grids for so many digits and more. -/
def search (mantissa : Nat) (exponent order : Int) : (turns digits : Nat) → Numeral
  | 0, digits => ⟨(onGrid (timesPower mantissa exponent) (order - digits)).1, order - digits⟩
  | turns + 1, digits =>
    match onGrid? mantissa exponent (order + 1 - digits) with
    | some n => n
    | none => search mantissa exponent order turns (digits + 1)

/-- The shortest decimal that reads back as a positive number. -/
def numeral (mantissa : Nat) (exponent : Int) : Numeral :=
  search mantissa exponent (orderFrom (timesPower mantissa exponent) 700 309) 17 1

end Shortest

/-! ## Writing -/

/-- How numbers are written: which orders of magnitude are written without an exponent, from
the first digit's place before the point to the last one. -/
structure Style where
  leastPlain : Int
  greatestPlain : Int

/-- Digits without zeros at their end, and the power of ten that makes up for these. -/
def dropZeros : (turns : Nat) → Numeral → Numeral
  | 0, n => n
  | turns + 1, n =>
    if n.digits != 0 && n.digits % 10 == 0 then dropZeros turns ⟨n.digits / 10, n.exponent + 1⟩
    else n

/-- An exponent with its sign and at least two digits. -/
def exponentText (e : Int) : String :=
  let digits := toString e.natAbs
  (if e < 0 then "-" else "+") ++ (if digits.length < 2 then "0" ++ digits else digits)

/-- A decimal in a style; a number without an exponent has a digit after the point. -/
def Style.write (style : Style) (n : Numeral) : String :=
  let n := dropZeros 400 n
  let digits := Nat.toDigits 10 n.digits
  let point : Int := digits.length + n.exponent
  if style.leastPlain ≤ point && point ≤ style.greatestPlain then
    if point ≤ 0 then
      "0." ++ String.ofList (List.replicate (-point).toNat '0' ++ digits)
    else if digits.length ≤ point.toNat then
      String.ofList (digits ++ List.replicate (point.toNat - digits.length) '0') ++ ".0"
    else
      String.ofList (digits.take point.toNat) ++ "." ++ String.ofList (digits.drop point.toNat)
  else
    let tail := match digits.drop 1 with
      | [] => ""
      | more => "." ++ String.ofList more
    String.ofList (digits.take 1) ++ tail ++ "e" ++ exponentText (point - 1)

namespace Double

/-- A number as its shortest decimal; numbers that are no decimals go by their names. -/
def write (style : Style) : Double → String
  | .notANumber => "NaN"
  | .infinite negative => (if negative then "-" else "") ++ "Infinity"
  | .finite negative mantissa exponent =>
    let sign := if negative then "-" else ""
    if mantissa == 0 then sign ++ "0.0"
    else sign ++ style.write (Shortest.numeral mantissa exponent)

end Double

end SuperForward.Decimal
