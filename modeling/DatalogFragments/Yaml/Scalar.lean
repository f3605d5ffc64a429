import DatalogFragments.Text.Base64
import DatalogFragments.Text.Hexadecimal
import DatalogFragments.Value.Equality
import DatalogFragments.Yaml.Token
import DatalogFragments.Yaml.Tag

/-!
# Scalars of a YAML document

A plain scalar is null, a boolean, a number, a point in time or a text, by its form alone:

* `yes`, `on` and `true` and their opposites are booleans;
* an integer is decimal, binary (`0b1`), octal (`017`), hexadecimal (`0x1F`) or made of digits
  to the base sixty (`1:30`), and underscores may group its digits;
* a floating-point number has a point, and its exponent a sign;
* `2001-12-14` is a date, and a time of day may follow.

## Main definitions

* `Tag.ofPlain`: the tag of a plain scalar;
* `scalarValue`: the value of a scalar with a tag.
-/

namespace DatalogFragments.Yaml

/-! ## The forms of plain scalars -/

/-- Whether the text is one of the words. -/
def isWord (words : List String) (cs : List Char) : Bool := words.any fun w => w.toList == cs

/-- A word in lower case, capitalised and in upper case. -/
def threeCases (lower capitalised upper : String) : List String := [lower, capitalised, upper]

/-- The words for the booleans. -/
def boolWords : List String :=
  threeCases "yes" "Yes" "YES" ++ threeCases "no" "No" "NO" ++ threeCases "true" "True" "TRUE"
    ++ threeCases "false" "False" "FALSE" ++ threeCases "on" "On" "ON"
    ++ threeCases "off" "Off" "OFF"

/-- The words for null; the empty text is one of them. -/
def nullWords : List String := ["~", ""] ++ threeCases "null" "Null" "NULL"

/-- A decimal digit or an underscore. -/
def isGrouped (c : Char) : Bool := c.isDigit || c = '_'

/-- The text without an optional sign. -/
def unsigned (cs : List Char) : List Char := (Binary64.signOf cs).2

/-- Digits to the base sixty: one or two decimal digits, the first of two below six. -/
def isSixtieth : List Char → Bool
  | [d] => d.isDigit
  | [d, e] => d.isDigit && d.toNat < '6'.toNat && e.isDigit
  | _ => false

/-- A first part and at least one digit to the base sixty, separated by colons. -/
def isSexagesimal (first : List Char → Bool) (cs : List Char) : Bool :=
  match cs.splitOn ':' with
  | whole :: part :: parts => first whole && (part :: parts).all isSixtieth
  | _ => false

/-- A digit other than zero, and digits. -/
def isDecimal : List Char → Bool
  | d :: rest => d.isDigit && d != '0' && rest.all isGrouped
  | [] => false

/-- A digit, and digits. -/
def startsWithDigit : List Char → Bool
  | d :: rest => d.isDigit && rest.all isGrouped
  | [] => false

/-- Whether the text is nonempty and satisfies a predicate throughout. -/
def allOf (p : Char → Bool) (cs : List Char) : Bool := !cs.isEmpty && cs.all p

/-- The form of an integer. -/
def isInt (cs : List Char) : Bool :=
  match unsigned cs with
  | '0' :: 'b' :: digits => allOf (fun c => c = '0' || c = '1' || c = '_') digits
  | '0' :: 'x' :: digits => allOf (fun c => (hexValue? c).isSome || c = '_') digits
  | '0' :: digits => digits.all fun c => ('0' ≤ c && c ≤ '7') || c = '_'
  | body => isDecimal body || isSexagesimal isDecimal body

/-- The form of an optional exponent, which has a sign. -/
def isSignedExponent : List Char → Bool
  | [] => true
  | e :: sign :: digits =>
    (e = 'e' || e = 'E') && (sign = '+' || sign = '-') && allOf Char.isDigit digits
  | _ => false

/-- The form of a fraction behind its point, with an optional exponent. -/
def isFraction (cs : List Char) : Bool := isSignedExponent (cs.dropWhile isGrouped)

/-- The form of a whole part, a point and what may follow it. -/
def isDecimalFloat (cs : List Char) : Bool :=
  match cs.span (· != '.') with
  | (whole, '.' :: rest) =>
    (startsWithDigit whole && isFraction rest)
      || (isSexagesimal startsWithDigit whole && rest.all isGrouped)
  | _ => false

/-- The form of a floating-point number. -/
def isFloat (cs : List Char) : Bool :=
  isDecimalFloat (unsigned cs)
    || isWord (threeCases ".inf" ".Inf" ".INF") (unsigned cs)
    || isWord (threeCases ".nan" ".NaN" ".NAN") cs
    || (match cs with
        | '.' :: d :: rest => d.isDigit && isFraction rest
        | _ => false)

/-! ## Points in time -/

/-- The number of a given count of decimal digits in front. -/
def fixedDigits? (count : Nat) (cs : List Char) : Option (Nat × List Char) :=
  let digits := cs.take count
  if digits.length = count && digits.all Char.isDigit then
    some (Binary64.natOfDigits digits, cs.drop count)
  else none

/-- The number of one or two decimal digits in front, two if possible. -/
def shortDigits? (cs : List Char) : Option (Nat × List Char) :=
  (fixedDigits? 2 cs).or (fixedDigits? 1 cs)

/-- What stands behind a character. -/
def behind? (c : Char) : List Char → Option (List Char)
  | d :: rest => if d = c then some rest else none
  | [] => none

/-- Year, month and day, separated by hyphens. -/
def readDay? (cs : List Char) : Option (Date × List Char) := do
  let (year, cs) ← fixedDigits? 4 cs
  let cs ← behind? '-' cs
  let (month, cs) ← shortDigits? cs
  let cs ← behind? '-' cs
  let (day, cs) ← shortDigits? cs
  return (⟨year, month, day⟩, cs)

/-- A space or a tab. -/
def isGapChar (c : Char) : Bool := c = ' ' || c = '\t'

/-- The text behind the letter or the blanks between date and time of day. -/
def behindDay? : List Char → Option (List Char)
  | [] => none
  | c :: rest =>
    if c = 'T' ∨ c = 't' then some rest
    else if isGapChar c then some (rest.dropWhile isGapChar)
    else none

/-- Microseconds: six digits behind a point, of which the missing ones are zero. -/
def readMicroseconds (cs : List Char) : Nat × List Char :=
  match cs with
  | '.' :: rest =>
    let digits := (rest.takeWhile Char.isDigit).take 6
    let padded := digits ++ List.replicate (6 - digits.length) '0'
    (Binary64.natOfDigits padded, rest.dropWhile Char.isDigit)
  | _ => (0, cs)

/-- The offset in minutes behind a sign; minutes may be left out. -/
def readOffset? (cs : List Char) : Option Int := do
  let (hours, rest) ← shortDigits? cs
  match rest with
  | [] => return hours * 60
  | ':' :: rest =>
    let (minutes, rest) ← fixedDigits? 2 rest
    if rest.isEmpty then return hours * 60 + minutes else none
  | _ => none

/-- An optional offset from universal time at the end of the text. -/
def readZone? (cs : List Char) : Option (Option Int) :=
  if cs.isEmpty then some none
  else
    match cs.dropWhile isGapChar with
    | ['Z'] => some (some 0)
    | '+' :: rest => (readOffset? rest).map some
    | '-' :: rest => (readOffset? rest).map fun minutes => some (-minutes)
    | _ => none

/-- A time of day with an optional offset, on a given day. -/
def readTime? (date : Date) (cs : List Char) : Option Moment := do
  let cs ← behindDay? cs
  let (hour, cs) ← shortDigits? cs
  let cs ← behind? ':' cs
  let (minute, cs) ← fixedDigits? 2 cs
  let cs ← behind? ':' cs
  let (second, cs) ← fixedDigits? 2 cs
  let (microsecond, cs) := readMicroseconds cs
  let zone ← readZone? cs
  return { date, hour, minute, second, microsecond, zone }

/-- A date, or a date with a time of day; neither has to exist in the calendar. -/
def readTimestamp? (cs : List Char) : Option (Date × Option Moment) := do
  let (date, rest) ← readDay? cs
  if rest.isEmpty then return (date, none)
  let moment ← readTime? date rest
  return (date, some moment)

/-- The form of a point in time; a date alone has all its digits. -/
def isTimestamp (cs : List Char) : Bool :=
  match readTimestamp? cs with
  | some (_, none) => cs.length == 10
  | some (_, some _) => true
  | none => false

/-! ## Tags -/

/-- The tag of a plain scalar. -/
def Tag.ofPlain (text : String) : Tag :=
  let cs := text.toList
  if isWord boolWords cs then .bool
  else if isFloat cs then .float
  else if isInt cs then .int
  else if text = "<<" then .merge
  else if isWord nullWords cs then .null
  else if isTimestamp cs then .timestamp
  else if text = "=" then .default
  else .text

/-! ## Values -/

/-- The boolean of a word, in any case. -/
def boolValue (text : String) : Except Fault Value :=
  let cs := text.toList.map Char.toLower
  if isWord ["yes", "true", "on"] cs then .ok (.bool true)
  else if isWord ["no", "false", "off"] cs then .ok (.bool false)
  else .error (.entryMissing text)

/-- The text without the blanks around it. -/
def trimmed (cs : List Char) : List Char :=
  ((cs.dropWhile Binary64.isBlank).reverse.dropWhile Binary64.isBlank).reverse

/-- The number that digits to a base up to sixteen stand for. -/
def digitsToBase? (base : Nat) (cs : List Char) : Option Nat :=
  if cs.isEmpty then none
  else cs.foldlM (fun n c => do
    let d ← hexValue? c
    if d < base then return base * n + d else none) 0

/-- An integer to a base, with an optional sign and blanks around it. -/
def readInt? (base : Nat) (cs : List Char) : Option Int :=
  let (negative, digits) := Binary64.signOf (trimmed cs)
  (digitsToBase? base digits).map fun n => if negative then -n else n

/-- The number of digits to the base sixty, the most significant first. -/
def sexagesimalInt? (parts : List (List Char)) : Option Int :=
  parts.foldlM (fun n part => (readInt? 10 part).map fun d => 60 * n + d) 0

/-- The integer of an unsigned text without underscores. -/
def readMagnitude? (cs : List Char) : Option Int :=
  match cs with
  | '0' :: 'b' :: digits => readInt? 2 digits
  | '0' :: 'x' :: digits => readInt? 16 digits
  | '0' :: _ => readInt? 8 cs
  | _ => if cs.contains ':' then sexagesimalInt? (cs.splitOn ':') else readInt? 10 cs

/-- A number without its sign and underscores, and whether it is negative; it has to have text. -/
def signedBody (text : String) : Except Fault (Bool × List Char) :=
  let cs := text.toList.filter (· != '_')
  if cs.isEmpty then .error .emptyNumber else .ok (Binary64.signOf cs)

/-- The integer of a text. -/
def intValue (text : String) : Except Fault Value := do
  let (negative, body) ← signedBody text
  if body.isEmpty then throw .emptyNumber
  match readMagnitude? body with
  | some n => return .int (if negative then -n else n)
  | none => throw .wrongContent

/--
The number of digits to the base sixty, the least significant first, each to be multiplied by
`unit`; every step is rounded.
-/
def sexagesimalFloat (sum : Binary64) (unit : Nat) : List Binary64 → Binary64
  | [] => sum
  | digit :: rest => sexagesimalFloat (sum.plus (digit.times unit)) (60 * unit) rest

/-- The floating-point number of an unsigned text without underscores. -/
def floatMagnitude? (cs : List Char) : Option Binary64 :=
  let cs := cs.map Char.toLower
  if cs == ".inf".toList then some (.infinite false)
  else if cs == ".nan".toList then some .nan
  else if cs.contains ':' then do
    let digits ← (cs.splitOn ':').mapM fun part => Binary64.read? (String.ofList part)
    return sexagesimalFloat (.zero false) 1 digits.reverse
  else Binary64.read? (String.ofList cs)

/-- The floating-point number of a text. -/
def floatValue (text : String) : Except Fault Value := do
  let (negative, body) ← signedBody text
  match floatMagnitude? body with
  | some x => return .float (if negative then x.negated else x)
  | none => throw .wrongContent

/-- The octets that a text encodes. -/
def bytesValue (text : String) : Except Fault Value :=
  if text.toList.all fun c => c.toNat < 0x80 then
    match Base64.decode? text.toList with
    | some octets => .ok (.bytes octets)
    | none => malformed
  else malformed

/-- The date or moment of a text, which has to exist in the calendar. -/
def timestampValue (text : String) : Except Fault Value :=
  match readTimestamp? text.toList with
  | none => .error .notTimestamp
  | some (date, none) => if date.exists? then .ok (.date date) else .error .wrongContent
  | some (_, some moment) => if moment.exists? then .ok (.moment moment) else .error .wrongContent

/-- The value of a scalar with a tag. -/
def scalarValue (tag : Tag) (text : String) : Except Fault Value :=
  match tag with
  | .null => .ok .null
  | .bool => boolValue text
  | .int => intValue text
  | .float => floatValue text
  | .text => .ok (.text text)
  | .bytes => bytesValue text
  | .timestamp => timestampValue text
  | _ => malformed

end DatalogFragments.Yaml
