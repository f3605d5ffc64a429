import DatalogFragments.Failure
import DatalogFragments.Text.Hexadecimal
import DatalogFragments.Value.Equality

/-!
# Reading JSON text

A JSON text is read as plain data. A number with a fraction or an exponent is a
floating-point number, any other one an integer; the words `NaN`, `Infinity` and `-Infinity`
are numbers too. Of several entries with one key the last one counts, in the place of the first.

## Main definitions

* `Json.read`: the value of a text.
-/

namespace DatalogFragments.Json

/-- Stops: the text is no JSON. -/
def malformed {α : Type} : Except Fault α := .error .malformedJson

/-- The text after blanks. -/
def skipBlanks (cs : List Char) : List Char :=
  cs.dropWhile fun c => c = ' ' || c = '\t' || c = '\n' || c = '\r'

/-! ## Texts -/

/-- A code unit of four hexadecimal digits. -/
def unit? : List Char → Option (Nat × List Char)
  | a :: b :: c :: d :: rest => (hexNumber? [a, b, c, d]).map fun n => (n, rest)
  | _ => none

/-- Whether a code unit opens a pair of two. -/
def opensPair (n : Nat) : Bool := 0xD800 ≤ n && n < 0xDC00

/-- Whether a code unit closes a pair of two. -/
def closesPair (n : Nat) : Bool := 0xDC00 ≤ n && n < 0xE000

/-- The character of a code unit; half of a pair stands for the replacement character. -/
def unitChar (n : Nat) : Char :=
  if opensPair n || closesPair n then Char.ofNat 0xFFFD else Char.ofNat n

/-- The character that a letter behind a backslash stands for. -/
def escaped? : Char → Option Char
  | '"' => some '"'
  | '\\' => some '\\'
  | '/' => some '/'
  | 'b' => some (Char.ofNat 8)
  | 'f' => some (Char.ofNat 12)
  | 'n' => some '\n'
  | 'r' => some '\r'
  | 't' => some '\t'
  | _ => none

/-- The character or pair of units behind `\u`, and the text after it. -/
def codeEscape? (cs : List Char) : Option (Char × List Char) :=
  match unit? cs with
  | none => none
  | some (high, rest) =>
    match rest with
    | '\\' :: 'u' :: rest' =>
      match unit? rest' with
      | some (low, tail) =>
        if opensPair high && closesPair low then
          some (Char.ofNat (0x10000 + (high - 0xD800) * 0x400 + (low - 0xDC00)), tail)
        else some (unitChar high, rest)
      | none => some (unitChar high, rest)
    | _ => some (unitChar high, rest)

/-- Characters up to the closing quote, read with `fuel` steps at most. -/
def readChars : Nat → List Char → Except Fault (List Char × List Char)
  | 0, _ => malformed
  | _ + 1, [] => malformed
  | _ + 1, '"' :: rest => .ok ([], rest)
  | fuel + 1, '\\' :: 'u' :: rest =>
    match codeEscape? rest with
    | none => malformed
    | some (c, rest) => do
      let (content, tail) ← readChars fuel rest
      return (c :: content, tail)
  | fuel + 1, '\\' :: c :: rest =>
    match escaped? c with
    | none => malformed
    | some d => do
      let (content, tail) ← readChars fuel rest
      return (d :: content, tail)
  | fuel + 1, c :: rest =>
    if c.toNat < 0x20 || c = '\\' then malformed
    else do
      let (content, tail) ← readChars fuel rest
      return (c :: content, tail)

/-- The text behind an opening quote. -/
def readText (cs : List Char) : Except Fault (String × List Char) := do
  let (content, rest) ← readChars (cs.length + 1) cs
  return (String.ofList content, rest)

/-! ## Numbers -/

/-- The digits in front of a text. -/
def digits (cs : List Char) : List Char × List Char := (cs.takeWhile Char.isDigit, cs.dropWhile Char.isDigit)

/-- A fraction: a point and digits. -/
def fraction (cs : List Char) : List Char × List Char :=
  match cs with
  | '.' :: rest =>
    match digits rest with
    | ([], _) => ([], cs)
    | (ds, tail) => ('.' :: ds, tail)
  | _ => ([], cs)

/-- An exponent: a letter, an optional sign and digits. -/
def exponent (cs : List Char) : List Char × List Char :=
  match cs with
  | c :: rest =>
    if c = 'e' ∨ c = 'E' then
      let (sign, body) :=
        match rest with
        | '+' :: r => (['+'], r)
        | '-' :: r => (['-'], r)
        | r => ([], r)
      match digits body with
      | ([], _) => ([], cs)
      | (ds, tail) => (c :: (sign ++ ds), tail)
    else ([], cs)
  | [] => ([], cs)

/-- The whole part: a single zero, or digits that do not start with one. -/
def wholePart (cs : List Char) : List Char × List Char :=
  match cs with
  | '0' :: rest => (['0'], rest)
  | _ => digits cs

/-- A number; its sign was read. -/
def readNumber (negative : Bool) (cs : List Char) : Except Fault (Value × List Char) :=
  let (whole, rest) := wholePart cs
  if whole.isEmpty then malformed
  else
    let (frac, rest) := fraction rest
    let (exp, rest) := exponent rest
    if frac.isEmpty && exp.isEmpty then
      let n : Int := Binary64.natOfDigits whole
      .ok (.int (if negative then -n else n), rest)
    else
      match Binary64.readMagnitude? negative (whole ++ frac ++ exp) with
      | some x => .ok (.float x, rest)
      | none => malformed

/-! ## Values -/

/-- The words of the notation, with their values. -/
def words : List (String × Value) :=
  [("null", .null), ("true", .bool true), ("false", .bool false), ("NaN", .float .nan),
    ("Infinity", .float (.infinite false)), ("-Infinity", .float (.infinite true))]

/-- A word in front of a text. -/
def readWord? (cs : List Char) : Option (Value × List Char) :=
  words.findSome? fun (word, value) =>
    let letters := word.toList
    if letters.isPrefixOf cs then some (value, cs.drop letters.length) else none

/-- A word or a number. -/
def readAtom (cs : List Char) : Except Fault (Value × List Char) :=
  match readWord? cs with
  | some found => .ok found
  | none =>
    match cs with
    | '-' :: rest => readNumber true rest
    | _ => readNumber false cs

mutual

/-- A value, read with `fuel` nested steps at most. -/
def readValue : Nat → List Char → Except Fault (Value × List Char)
  | 0, _ => malformed
  | fuel + 1, cs =>
    match cs with
    | '"' :: rest => do
      let (s, rest) ← readText rest
      return (.text s, rest)
    | '[' :: rest =>
      match skipBlanks rest with
      | ']' :: rest => .ok (.list [], rest)
      | rest => do
        let (items, rest) ← readItems fuel rest
        return (.list items, rest)
    | '{' :: rest =>
      match skipBlanks rest with
      | '}' :: rest => .ok (.mapping [], rest)
      | rest => do
        let (entries, rest) ← readEntries fuel rest
        return (.mapping (Value.entriesOf entries), rest)
    | cs => readAtom cs

/-- Items up to the closing bracket. -/
def readItems : Nat → List Char → Except Fault (List Value × List Char)
  | 0, _ => malformed
  | fuel + 1, cs => do
    let (item, rest) ← readValue fuel cs
    match skipBlanks rest with
    | ']' :: rest => return ([item], rest)
    | ',' :: rest =>
      let (items, rest) ← readItems fuel (skipBlanks rest)
      return (item :: items, rest)
    | _ => malformed

/-- Entries up to the closing brace. -/
def readEntries : Nat → List Char → Except Fault (Entries × List Char)
  | 0, _ => malformed
  | fuel + 1, cs =>
    match cs with
    | '"' :: rest => do
      let (key, rest) ← readText rest
      match skipBlanks rest with
      | ':' :: rest =>
        let (value, rest) ← readValue fuel (skipBlanks rest)
        match skipBlanks rest with
        | '}' :: rest => return ([(.text key, value)], rest)
        | ',' :: rest =>
          let (entries, rest) ← readEntries fuel (skipBlanks rest)
          return ((.text key, value) :: entries, rest)
        | _ => malformed
      | _ => malformed
    | _ => malformed

end

/-- The value of a JSON text; nothing but blanks may stand around it. -/
def read (text : String) : Except Fault Value := do
  let cs := text.toList
  let (value, rest) ← readValue (cs.length + 1) (skipBlanks cs)
  if (skipBlanks rest).isEmpty then return value else malformed

end DatalogFragments.Json
