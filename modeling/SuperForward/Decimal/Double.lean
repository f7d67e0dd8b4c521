/-
  Numbers of double precision: a sign and a whole number of at most 53 binary digits times a
  power of two.

  A decimal stands for the nearest such number; of two that are equally near, for the even one.
-/
namespace SuperForward.Decimal

/-- A number of double precision. The magnitude is `mantissa * 2 ^ exponent`; unless the
exponent is the least one, the mantissa has all its 53 digits. -/
inductive Double where
  | finite (negative : Bool) (mantissa : Nat) (exponent : Int)
  | infinite (negative : Bool)
  | notANumber
  deriving DecidableEq, Repr, Inhabited

namespace Double

/-- The least exponent. -/
def leastExponent : Int := -1074

/-- The greatest exponent. -/
def greatestExponent : Int := 971

/-- The smallest mantissa with all its digits. -/
def fullMantissa : Nat := .pow 2 52

/-- A quotient rounded to the nearest whole number, halves to the even one. -/
def roundedQuotient (numerator denominator : Nat) : Nat :=
  let quotient := numerator / denominator
  let twice := 2 * (numerator % denominator)
  if denominator < twice || (denominator == twice && quotient % 2 == 1) then quotient + 1
  else quotient

/-- A quotient divided by a power of two, as a quotient. -/
def scaled (numerator denominator : Nat) (exponent : Int) : Nat × Nat :=
  match exponent with
  | .ofNat e => (numerator, denominator * .pow 2 e)
  | .negSucc e => (numerator * .pow 2 (e + 1), denominator)

/-- The greatest exponent with which a quotient has at least 53 binary digits. -/
def exponentFor (numerator denominator : Nat) : Int :=
  let guess : Int := (Nat.log2 numerator : Int) - Nat.log2 denominator - 52
  let (n, d) := scaled numerator denominator guess
  if n / d < fullMantissa then guess - 1 else guess

/-- The number nearest to a positive quotient. -/
def ofQuotient (negative : Bool) (numerator denominator : Nat) : Double :=
  let exponent := max leastExponent (exponentFor numerator denominator)
  let (n, d) := scaled numerator denominator exponent
  let mantissa := roundedQuotient n d
  let (mantissa, exponent) :=
    if mantissa == 2 * fullMantissa then (fullMantissa, exponent + 1) else (mantissa, exponent)
  if greatestExponent < exponent then .infinite negative
  else .finite negative mantissa exponent

/-- The number of decimal digits. -/
def digitCount (n : Nat) : Nat := (Nat.toDigits 10 n).length

/-- The number nearest to `digits * 10 ^ exponent`. Beyond what any number of double precision
reaches, no power is worked out. -/
def ofDecimal (negative : Bool) (digits : Nat) (exponent : Int) : Double :=
  let order := (digitCount digits : Int) + exponent
  if digits == 0 || order < -330 then .finite negative 0 leastExponent
  else if 320 < order then .infinite negative
  else match exponent with
    | .ofNat e => ofQuotient negative (digits * .pow 10 e) 1
    | .negSucc e => ofQuotient negative digits (.pow 10 (e + 1))

/-- The number is zero, of either sign. -/
def isZero : Double → Bool
  | .finite _ mantissa _ => mantissa == 0
  | _ => false

end Double

end SuperForward.Decimal
