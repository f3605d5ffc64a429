/-!
# Binary64 numbers as exact data

A 64-bit binary floating-point number is held decoded, as a sign, a mantissa and a power of
two. Comparing, reading and writing such a number is then integer arithmetic, with nothing
rounded on the way.

## Main definitions

* `Binary64.ofRatio`: the number nearest to a quotient, a tie going to the even mantissa;
* `Binary64.scaled`: a finite number as a whole multiple of the smallest positive one, which
  is the view that equality and order are defined on.
-/

namespace DatalogFragments

/--
A binary64 number. In `finite negative m e` the number is `± m · 2 ^ e`, with
`m < 2 ^ 53`, `-1074 ≤ e`, and `2 ^ 52 ≤ m` unless `e = -1074`.
-/
inductive Binary64 where
  | nan
  | infinite (negative : Bool)
  | finite (negative : Bool) (mantissa : Nat) (exponent : Int)
  deriving DecidableEq, Repr

/-- A power of two with an exponent that is not negative. -/
def twoTo (e : Int) : Nat := Nat.pow 2 e.toNat

/-- A power of ten with an exponent that is not negative. -/
def tenTo (e : Int) : Nat := Nat.pow 10 e.toNat

/-- The quotient rounded to the nearest natural number, a tie going to the even one. -/
def roundedQuotient (num den : Nat) : Nat :=
  let q := num / den
  let r := num % den
  if 2 * r < den then q
  else if 2 * r = den then (if q % 2 = 0 then q else q + 1)
  else q + 1

namespace Binary64

/-- The least exponent of a finite number. -/
def minExponent : Int := -1074

/-- The greatest exponent of a finite number. -/
def maxExponent : Int := 971

/-- Zero with the given sign. -/
def zero (negative : Bool) : Binary64 := .finite negative 0 minExponent

/-- The fraction `num / den` divided by `2 ^ e`, as a fraction. -/
def unitFraction (num den : Nat) (e : Int) : Nat × Nat :=
  if 0 ≤ e then (num, den * twoTo e) else (num * twoTo (-e), den)

/--
The exponent at which the fraction has a mantissa of 53 bits, or the least exponent if the
fraction is smaller than that.
-/
def exponentOf (num den : Nat) : Int :=
  let guess := max minExponent ((num.log2 : Int) - den.log2 - 53)
  let (n, d) := unitFraction num den guess
  if n / d < twoTo 53 then guess else guess + 1

/-- The binary64 number nearest to `± num / den`, a tie going to the even mantissa. -/
def ofRatio (negative : Bool) (num den : Nat) : Binary64 :=
  if num = 0 then zero negative
  else
    let e := exponentOf num den
    let (n, d) := unitFraction num den e
    let m := roundedQuotient n d
    let (m, e) := if m = twoTo 53 then (twoTo 52, e + 1) else (m, e)
    if maxExponent < e then .infinite negative else .finite negative m e

/--
The number nearest to `± digits · 10 ^ power`. A power far outside the range of finite
numbers is settled by its size alone.
-/
def ofDecimal (negative : Bool) (digits : Nat) (power : Int) : Binary64 :=
  if digits = 0 then zero negative
  else
    let magnitude := power + ((Nat.toDigits 10 digits).length : Int)
    if 400 < magnitude then .infinite negative
    else if magnitude < -400 then zero negative
    else if 0 ≤ power then ofRatio negative (digits * tenTo power) 1
    else ofRatio negative digits (tenTo (-power))

/-- The number one as a multiple of `2 ^ -1074`. -/
def unitsOfOne : Nat := twoTo 1074

/-- A finite number as a multiple of `2 ^ -1074`. -/
def scaled (negative : Bool) (mantissa : Nat) (exponent : Int) : Int :=
  let units : Int := mantissa * twoTo (exponent - minExponent)
  if negative then -units else units

/-- Equality as numbers: the two zeros are equal, and a nan equals nothing. -/
def sameNumber : Binary64 → Binary64 → Bool
  | .infinite n, .infinite n' => n == n'
  | .finite n m e, .finite n' m' e' => scaled n m e == scaled n' m' e'
  | _, _ => false

/-- Whether the number is the given integer. -/
def isInteger : Binary64 → Int → Bool
  | .finite n m e, i => scaled n m e == i * unitsOfOne
  | _, _ => false

/-- The strict order on numbers; a nan is below and above nothing. -/
def below : Binary64 → Binary64 → Bool
  | .infinite n, .infinite n' => n && !n'
  | .infinite n, .finite .. => n
  | .finite .., .infinite n => !n
  | .finite n m e, .finite n' m' e' => decide (scaled n m e < scaled n' m' e')
  | _, _ => false

/-- Whether the number is below the integer, compared exactly. -/
def belowInt : Binary64 → Int → Bool
  | .infinite n, _ => n
  | .finite n m e, i => decide (scaled n m e < i * unitsOfOne)
  | .nan, _ => false

/-- Whether the integer is below the number, compared exactly. -/
def intBelow : Int → Binary64 → Bool
  | _, .infinite n => !n
  | i, .finite n m e => decide (i * unitsOfOne < scaled n m e)
  | _, .nan => false

/-- The number with the other sign. -/
def negated : Binary64 → Binary64
  | .nan => .nan
  | .infinite n => .infinite (!n)
  | .finite n m e => .finite (!n) m e

/-- The number nearest to a whole multiple of `2 ^ -1074`. -/
def ofScaled (units : Int) : Binary64 :=
  ofRatio (decide (units < 0)) units.natAbs unitsOfOne

/-- The sum of two numbers, rounded to the nearest number. -/
def plus : Binary64 → Binary64 → Binary64
  | .finite n m e, .finite n' m' e' => ofScaled (scaled n m e + scaled n' m' e')
  | .infinite n, .finite .. => .infinite n
  | .finite .., .infinite n => .infinite n
  | .infinite n, .infinite n' => if n = n' then .infinite n else .nan
  | _, _ => .nan

/-- The product with a positive natural number, rounded to the nearest number. -/
def times (x : Binary64) (k : Nat) : Binary64 :=
  match x with
  | .finite n m e => ofScaled (scaled n m e * k)
  | y => y

/-- Whether the number is one of the two zeros. -/
def isZero : Binary64 → Bool
  | .finite _ m _ => m == 0
  | _ => false

end Binary64

end DatalogFragments
