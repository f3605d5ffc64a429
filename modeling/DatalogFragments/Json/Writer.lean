import DatalogFragments.Failure
import DatalogFragments.Value.Order

/-!
# JSON text of values

Values are written on one line in ASCII: entries in the order of their keys, a space after
every comma and colon, every other character escaped by its code. Keys that are numbers,
booleans or null are written as texts, once they have been ordered. The numbers that JSON does
not know are written `NaN` and `Infinity`.

## Main definitions

* `Json.quoted`: a text between double quotes;
* `Value.json`: the text of a value.
-/

namespace DatalogFragments

namespace Json

/-- A code unit of 16 bits by its code. -/
def unitEscape (n : Nat) : List Char := codeEscape 'u' 4 n

/-- How a character is written between double quotes. -/
def escapeChar (c : Char) : List Char :=
  if c = '"' then ['\\', '"']
  else if c = '\\' then ['\\', '\\']
  else if c = '\n' then ['\\', 'n']
  else if c = '\r' then ['\\', 'r']
  else if c = '\t' then ['\\', 't']
  else if c.toNat = 8 then ['\\', 'b']
  else if c.toNat = 12 then ['\\', 'f']
  else if 0x20 ≤ c.toNat ∧ c.toNat < 0x7F then [c]
  else if c.toNat < 0x10000 then unitEscape c.toNat
  else
    let n := c.toNat - 0x10000
    unitEscape (0xD800 + n / 0x400) ++ unitEscape (0xDC00 + n % 0x400)

/-- A text between double quotes. -/
def quoted (s : String) : String :=
  String.ofList ('"' :: (s.toList.flatMap escapeChar ++ ['"']))

/-- A number with the words for what JSON does not know. -/
def floatText : Binary64 → String
  | .nan => "NaN"
  | .infinite n => if n then "-Infinity" else "Infinity"
  | x => x.text

/-- The text that a key is written as. -/
def keyText : Value → Except Fault String
  | .text s => .ok s
  | .null => .ok "null"
  | .bool b => .ok (if b then "true" else "false")
  | .int i => .ok (intText i)
  | .float x => .ok (floatText x)
  | _ => .error .wrongShape

/-- Written entries, each with its key, in the order of the keys. -/
def inOrder (entries : List (Value × String)) : Except Fault (List String) :=
  match Value.sortedByKey? Prod.fst entries with
  | none => .error .wrongShape
  | some sorted => .ok (sorted.map Prod.snd)

end Json

namespace Value

mutual

/-- The JSON text of a value; only plain data has one. -/
def json : Value → Except Fault String
  | .null => .ok "null"
  | .bool b => .ok (if b then "true" else "false")
  | .int i => .ok (intText i)
  | .float x => .ok (Json.floatText x)
  | .text s => .ok (Json.quoted s)
  | .list xs => do
    let texts ← jsonAll xs
    return bracketed "[" "]" texts
  | .tuple xs => do
    let texts ← jsonAll xs
    return bracketed "[" "]" texts
  | .mapping es => do
    let entries ← jsonEntries es
    let texts ← Json.inOrder entries
    return bracketed "\x7b" "\x7d" texts
  | _ => .error .wrongShape

/-- The JSON text of every value. -/
def jsonAll : List Value → Except Fault (List String)
  | [] => .ok []
  | x :: xs => do
    let text ← json x
    let texts ← jsonAll xs
    return text :: texts

/-- Every entry as written, with its key. -/
def jsonEntries : List (Value × Value) → Except Fault (List (Value × String))
  | [] => .ok []
  | (k, v) :: rest => do
    let key ← Json.keyText k
    let value ← json v
    let entries ← jsonEntries rest
    return (k, Json.quoted key ++ ": " ++ value) :: entries

end

end Value

end DatalogFragments
