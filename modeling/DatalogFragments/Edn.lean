import DatalogFragments.Failure
import DatalogFragments.Listing

/-!
# Query text

Clauses and values are written in the data notation that query engines read: symbols and
keywords by name, sequences in parentheses, vectors and lists in brackets, mappings in braces,
sets in braces behind a hash with their members in code-point order of the text. An
interpreter's limits on the depth of a recursion and on the digits of an integer are left out.

## Main definitions

* `Edn.quoted`: a text between double quotes;
* `Edn.unquote?`: reads a quoted text back;
* `Value.edn`, `Term.edn`: the written form of a value and of a clause.

## Main results

* `Edn.unquote?_escape`: what was escaped reads back, whatever follows.
-/

namespace DatalogFragments

namespace Edn

/-! ## Quoted text -/

/-- How a character is written between double quotes. -/
def escapeChar : Char → List Char
  | '\\' => ['\\', '\\']
  | '"' => ['\\', '"']
  | '\n' => ['\\', 'n']
  | '\t' => ['\\', 't']
  | c => [c]

/-- How characters are written between double quotes. -/
def escape (cs : List Char) : List Char := cs.flatMap escapeChar

/-- A text between double quotes. -/
def quoted (s : String) : String := String.ofList ('"' :: (escape s.toList ++ ['"']))

/-- The character that a letter behind a backslash stands for. -/
def escaped? : Char → Option Char
  | '\\' => some '\\'
  | '"' => some '"'
  | 'n' => some '\n'
  | 't' => some '\t'
  | _ => none

/-- Reads characters up to the closing quote: the content, and what follows the quote. -/
def unquote? : List Char → Option (List Char × List Char)
  | [] => none
  | '"' :: rest => some ([], rest)
  | '\\' :: c :: rest =>
    match escaped? c, unquote? rest with
    | some d, some (content, tail) => some (d :: content, tail)
    | _, _ => none
  | c :: rest =>
    match unquote? rest with
    | some (content, tail) => some (c :: content, tail)
    | none => none

/-- A written character reads back in front of anything that reads. -/
theorem unquote?_escapeChar (c : Char) (rest : List Char) :
    unquote? (escapeChar c ++ rest) =
      (unquote? rest).map fun read => (c :: read.1, read.2) := by
  unfold escapeChar
  split <;> cases h : unquote? rest <;> simp_all [unquote?, escaped?]

/-- What was escaped reads back, whatever follows the closing quote. -/
theorem unquote?_escape (cs rest : List Char) :
    unquote? (escape cs ++ '"' :: rest) = some (cs, rest) := by
  induction cs with
  | nil => rfl
  | cons c cs ih =>
    simp only [escape, List.flatMap_cons, List.append_assoc, unquote?_escapeChar] at ih ⊢
    simp [ih]

/-- Texts of items, separated by spaces. -/
def spaced (texts : List String) : String := joinTexts " " texts

end Edn

/-! ## Values and clauses -/

mutual

/-- The written form of a value. -/
def Value.edn : Value → Except Fault String
  | .null => .ok "nil"
  | .bool b => .ok (if b then "true" else "false")
  | .int i => .ok (intText i)
  | .float x => .ok x.text
  | .text s => .ok (Edn.quoted s)
  | .keyword k => .ok k
  | .list xs => do
    let texts ← Value.ednAll xs
    return "[" ++ Edn.spaced texts ++ "]"
  | .tuple xs => do
    let texts ← Value.ednAll xs
    return "[" ++ Edn.spaced texts ++ "]"
  | .set xs => do
    let texts ← Value.ednAll xs
    return "#\x7b" ++ Edn.spaced (sortTexts texts) ++ "\x7d"
  | .frozenSet xs => do
    let texts ← Value.ednAll xs
    return "#\x7b" ++ Edn.spaced (sortTexts texts) ++ "\x7d"
  | .mapping es => do
    let texts ← Value.ednEntries es
    return "\x7b" ++ joinTexts ", " texts ++ "\x7d"
  | .term t => t.edn
  | .misnamed .. => .error .wrongShape
  | v => .error (.notRenderable v)

/-- The written form of every value. -/
def Value.ednAll : List Value → Except Fault (List String)
  | [] => .ok []
  | x :: xs => do
    let text ← x.edn
    let texts ← Value.ednAll xs
    return text :: texts

/-- The written form of every entry. -/
def Value.ednEntries : List (Value × Value) → Except Fault (List String)
  | [] => .ok []
  | (k, v) :: rest => do
    let key ← k.edn
    let value ← v.edn
    let texts ← Value.ednEntries rest
    return (key ++ " " ++ value) :: texts

/-- The written form of a clause. -/
def Term.edn : Clause → Except Fault String
  | .sym s => .ok s.name
  | .seq xs _ => do
    let texts ← Term.ednItems xs
    return "(" ++ Edn.spaced texts ++ ")"
  | .vec xs _ => do
    let texts ← Term.ednItems xs
    return "[" ++ Edn.spaced texts ++ "]"
  | .lit v _ => v.edn
  | .stray v => v.edn

/-- The written form of every item. -/
def Term.ednItems : List Clause → Except Fault (List String)
  | [] => .ok []
  | t :: ts => do
    let text ← t.edn
    let texts ← Term.ednItems ts
    return text :: texts

end

end DatalogFragments
