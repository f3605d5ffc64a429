import DatalogFragments.Number.Binary64

/-!
# Decimal text of binary64 numbers

A number is written with the fewest significant digits that read back as the same number; of
the candidates with that many digits the nearest is taken, a tie going to the even last digit.
Numbers from `10 ^ -4` up to `10 ^ 16` are written positionally, all others with an exponent
of at least two digits.

## Main definitions

* `Binary64.shortest`: the digits and the position of the point;
* `Binary64.text`: the written form;
* `Binary64.fixed`: the form with a given number of decimal places;
* `Binary64.read?`: reads a written number.
-/

namespace DatalogFragments

/-- The decimal digits of a natural number. -/
def digitsOf (n : Nat) : List Char := Nat.toDigits 10 n

/-- The decimal text of an integer. -/
def intText (i : Int) : String :=
  if i < 0 then String.ofList ('-' :: digitsOf i.natAbs) else String.ofList (digitsOf i.natAbs)

namespace Binary64

/-! ## The interval of reals that round to a number -/

/--
The reals that round to `m · 2 ^ e`, as numerators over one denominator: lower end, the number
itself, upper end, denominator. The ends belong to the interval iff `m` is even. The lower
gap is half as wide where the mantissa is the least one of its exponent.
-/
def roundingInterval (m : Nat) (e : Int) : Nat × Nat × Nat × Nat :=
  let narrow := m = twoTo 52 ∧ minExponent < e
  let low := if narrow then 4 * m - 1 else 4 * m - 2
  if 0 ≤ e then
    let s := twoTo e
    (low * s, 4 * m * s, (4 * m + 2) * s, 4)
  else
    (low, 4 * m, 4 * m + 2, 4 * twoTo (-e))

/-- The number of digits before the decimal point of `num / den` (negative or zero below 1/10). -/
def pointPosition (num den : Nat) : Int :=
  let fits := fun (d : Int) =>
    if 0 ≤ d then decide (num < den * tenTo d) else decide (num * tenTo (-d) < den)
  let guess : Int := ((num.log2 : Int) - den.log2) * 30103 / 100000
  if fits (guess - 1) then guess - 1
  else if fits guess then guess
  else if fits (guess + 1) then guess + 1
  else guess + 2

/--
The point of the decimal grid `10 ^ power` that lies in the interval and is nearest to the
number, if one of the two neighbours of the number lies in it.
-/
def gridPoint? (m : Nat) (e : Int) (power : Int) : Option Nat :=
  let (lo, mid, hi, den) := roundingInterval m e
  let (step, factor) := if 0 ≤ power then (den * tenTo power, 1) else (den, tenTo (-power))
  let (lo, mid, hi) := (lo * factor, mid * factor, hi * factor)
  let inside := fun (c : Nat) =>
    if m % 2 = 0 then decide (lo ≤ c * step) && decide (c * step ≤ hi)
    else decide (lo < c * step) && decide (c * step < hi)
  let down := mid / step
  let up := down + 1
  match inside down && down != 0, inside up with
  | true, true =>
    let below := mid - down * step
    let above := up * step - mid
    if below < above then some down
    else if above < below then some up
    else if down % 2 = 0 then some down else some up
  | true, false => some down
  | false, true => some up
  | false, false => none

/-- The first grid with a point in the interval, tried from one digit on. -/
def firstGridPoint (m : Nat) (e : Int) (point : Int) : Nat → Nat → Nat × Int
  | _, 0 => (0, 0)
  | count, tries + 1 =>
    let power := point - count
    match gridPoint? m e power with
    | some c => (c, power)
    | none => firstGridPoint m e point (count + 1) tries

/-- Drops trailing zeros of a digit list, last digit first. -/
def dropZeros : List Char → List Char
  | '0' :: rest => dropZeros rest
  | cs => cs

/--
The shortest digits of `m · 2 ^ e` (with `m` positive) that read back, without trailing
zeros, and the number of digits that stand before the decimal point.
-/
def shortest (m : Nat) (e : Int) : List Char × Int :=
  let (_, mid, _, den) := roundingInterval m e
  let (c, power) := firstGridPoint m e (pointPosition mid den) 1 17
  let digits := digitsOf c
  ((dropZeros digits.reverse).reverse, power + digits.length)

/-! ## Written forms -/

/-- Positional notation: at least one digit on each side of the point. -/
def positional (digits : List Char) (point : Int) : List Char :=
  if point ≤ 0 then
    '0' :: '.' :: (List.replicate (-point).toNat '0' ++ digits)
  else
    let whole := digits.take point.toNat
    let zeros := List.replicate (point.toNat - digits.length) '0'
    let rest := digits.drop point.toNat
    whole ++ zeros ++ '.' :: (if rest.isEmpty then ['0'] else rest)

/-- Exponent notation: one digit before the point, an exponent of at least two digits. -/
def scientific (digits : List Char) (point : Int) : List Char :=
  let power := point - 1
  let mark := if power < 0 then '-' else '+'
  let size := digitsOf power.natAbs
  let size := if size.length < 2 then '0' :: size else size
  match digits with
  | [] => []
  | [d] => d :: 'e' :: mark :: size
  | d :: rest => d :: '.' :: (rest ++ 'e' :: mark :: size)

/-- The written form of a number. -/
def text : Binary64 → String
  | .nan => "nan"
  | .infinite n => if n then "-inf" else "inf"
  | .finite n m e =>
    let body :=
      if m = 0 then ['0', '.', '0']
      else
        let (digits, point) := shortest m e
        if -4 < point ∧ point ≤ 16 then positional digits point else scientific digits point
    String.ofList (if n then '-' :: body else body)

/-- A natural number with `places` of its digits after the point. -/
def placed (places : Nat) (n : Nat) : List Char :=
  let digits := digitsOf n
  let digits := List.replicate (places + 1 - digits.length) '0' ++ digits
  let whole := digits.take (digits.length - places)
  if places = 0 then whole else whole ++ '.' :: digits.drop (digits.length - places)

/-- The form with a fixed number of decimal places, a tie going to the even last digit. -/
def fixed (places : Nat) : Binary64 → String
  | .nan => "nan"
  | .infinite n => if n then "-inf" else "inf"
  | .finite n m e =>
    let (num, den) := if 0 ≤ e then (m * twoTo e, 1) else (m, twoTo (-e))
    let body := placed places (roundedQuotient (num * tenTo places) den)
    String.ofList (if n then '-' :: body else body)

/-! ## Reading -/

/--
A run of digits and the text after it. A single underscore may stand between two digits;
`after` tells whether the character before was a digit.
-/
def digitRun (after : Bool) : List Char → List Char × List Char
  | [] => ([], [])
  | c :: rest =>
    if c.isDigit then
      let (ds, tail) := digitRun true rest
      (c :: ds, tail)
    else if c = '_' && after && (rest.head?.any Char.isDigit) then digitRun false rest
    else ([], c :: rest)

/-- The number that decimal digits stand for. -/
def natOfDigits (cs : List Char) : Nat :=
  cs.foldl (fun n c => 10 * n + (c.toNat - '0'.toNat)) 0

/-- An optional sign, and whether it is a minus. -/
def signOf : List Char → Bool × List Char
  | '-' :: rest => (true, rest)
  | '+' :: rest => (false, rest)
  | cs => (false, cs)

/-- The exponent part at the end of a number; nothing else may follow. -/
def exponentPart? : List Char → Option Int
  | [] => some 0
  | c :: rest =>
    if c = 'e' ∨ c = 'E' then
      let (negative, rest) := signOf rest
      match digitRun false rest with
      | ([], _) => none
      | (ds, []) => some (if negative then -(natOfDigits ds : Int) else natOfDigits ds)
      | (_, _ :: _) => none
    else none

/-- An unsigned decimal number: digits with an optional point and exponent. -/
def readMagnitude? (negative : Bool) (cs : List Char) : Option Binary64 :=
  let (whole, rest) := digitRun false cs
  let (fraction, rest) :=
    match rest with
    | '.' :: tail => digitRun false tail
    | _ => ([], rest)
  if whole.isEmpty && fraction.isEmpty then none
  else (exponentPart? rest).map fun power =>
    ofDecimal negative (natOfDigits (whole ++ fraction)) (power - fraction.length)

/-- Spaces and control blanks that may surround a number. -/
def isBlank (c : Char) : Bool :=
  c = ' ' || (9 ≤ c.toNat && c.toNat ≤ 13) || (28 ≤ c.toNat && c.toNat ≤ 31)

/-- Reads a number: decimal, or one of the words for infinity and nan in any case. -/
def read? (s : String) : Option Binary64 :=
  let cs := ((s.toList.dropWhile isBlank).reverse.dropWhile isBlank).reverse
  let (negative, body) := signOf cs
  let word := String.ofList (body.map Char.toLower)
  if word = "inf" ∨ word = "infinity" then some (.infinite negative)
  else if word = "nan" then some .nan
  else readMagnitude? negative body

end Binary64

end DatalogFragments
