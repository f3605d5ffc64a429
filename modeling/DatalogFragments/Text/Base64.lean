/-!
# Octets as text

Three octets are written as four characters of an alphabet of 64; where octets are missing at
the end, the sign `=` fills up. Written text has lines of 76 characters.

## Main definitions

* `Base64.encode`: the written text of octets;
* `Base64.decode?`: the octets of a text, in which characters outside the alphabet are skipped.
-/

namespace DatalogFragments.Base64

/-- The characters for the numbers below 64. -/
def alphabet : List Char :=
  "ABCDEFGHIJKLMNOPQRSTUVWXYZabcdefghijklmnopqrstuvwxyz0123456789+/".toList

/-- The character for a number below 64. -/
def letter (n : Nat) : Char := alphabet.getD n '='

/-- Octets as characters, without line breaks. -/
def letters : List UInt8 → List Char
  | [] => []
  | [a] =>
    let n := a.toNat * 16
    [letter (n / 64), letter (n % 64), '=', '=']
  | [a, b] =>
    let n := (a.toNat * 256 + b.toNat) * 4
    [letter (n / 4096), letter (n / 64 % 64), letter (n % 64), '=']
  | a :: b :: c :: rest =>
    let n := (a.toNat * 256 + b.toNat) * 256 + c.toNat
    letter (n / 262144) :: letter (n / 4096 % 64) :: letter (n / 64 % 64) :: letter (n % 64)
      :: letters rest

/-- The most characters of a written line. -/
def lineWidth : Nat := 76

/-- Characters in lines; `room` more fit on the current one. -/
def inLines : Nat → List Char → List Char
  | _, [] => ['\n']
  | 0, c :: cs => '\n' :: c :: inLines (lineWidth - 1) cs
  | room + 1, c :: cs => c :: inLines room cs

/-- The written text of octets, every line with its end. -/
def encode (octets : List UInt8) : List Char :=
  if octets.isEmpty then [] else inLines lineWidth (letters octets)

/-- The octets of a text; `pending` are the numbers of an incomplete group, `fill` counts `=`. -/
def decodeFrom : List Nat → Nat → List Char → Option (List UInt8)
  | pending, _, [] => if pending.isEmpty then some [] else none
  | pending, fill, c :: cs =>
    if c = '=' then
      if 2 ≤ pending.length ∧ 4 ≤ pending.length + fill + 1 then some []
      else decodeFrom pending (if 2 ≤ pending.length then fill + 1 else fill) cs
    else
      match alphabet.idxOf? c, pending with
      | none, _ => decodeFrom pending fill cs
      | some n, [] => decodeFrom [n] 0 cs
      | some n, [a] => (decodeFrom [a, n] 0 cs).map fun os => (a * 4 + n / 16).toUInt8 :: os
      | some n, [a, b] =>
        (decodeFrom [a, b, n] 0 cs).map fun os => (b % 16 * 16 + n / 4).toUInt8 :: os
      | some n, _ :: _ :: d :: _ => (decodeFrom [] 0 cs).map fun os => (d % 4 * 64 + n).toUInt8 :: os

/-- The octets of a text. -/
def decode? (cs : List Char) : Option (List UInt8) := decodeFrom [] 0 cs

end DatalogFragments.Base64
