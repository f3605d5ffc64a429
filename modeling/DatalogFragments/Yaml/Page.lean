import DatalogFragments.Yaml.Cursor
import DatalogFragments.Yaml.Scalar

/-!
# Written scalars

A scalar is written plain where that reads back as the same text, else between single quotes,
and between double quotes where it has characters that need an escape. Lines are broken at
single spaces once they are longer than 80 characters.

## Main definitions

* `Page`: what was written so far;
* `Style`, `Style.of`: how a scalar is written;
* `Page.scalar`: writes a scalar.
-/

namespace DatalogFragments.Yaml

/-! ## Pages -/

/-- What was written so far, and the number of characters of the last line. -/
structure Page where
  text : String := ""
  column : Nat := 0

namespace Page

/-- Writes characters. -/
def put (cs : List Char) (p : Page) : Page :=
  ⟨p.text ++ String.ofList cs, p.column + cs.length⟩

/-- Ends the line. -/
def endLine (p : Page) : Page := ⟨p.text.push '\n', 0⟩

/-- Ends the line and indents the next one. -/
def startLine (indent : Nat) (p : Page) : Page :=
  p.endLine.put (List.replicate indent ' ')

/-- Spaces up to a column. -/
def fillTo (column : Nat) (p : Page) : Page := p.put (List.replicate (column - p.column) ' ')

/-- The column behind which lines are broken. -/
def width : Nat := 80

end Page

/-! ## Styles -/

/-- How a scalar is written. -/
inductive Style where
  | plain
  | singleQuoted
  | doubleQuoted
  | literal
  deriving DecidableEq, Repr

/-- Whether a character needs an escape: all but line feeds and printable ASCII. -/
def needsEscape (c : Char) : Bool := !(c = '\n' || (' ' ≤ c && c ≤ '~'))

/-- Whether one character directly follows the other somewhere. -/
def hasPair (first second : Char) : List Char → Bool
  | a :: b :: rest => (a = first && b = second) || hasPair first second (b :: rest)
  | _ => false

/-- Whether the text has a colon in front of a blank or at the end. -/
def hasKeyMark : List Char → Bool
  | [] => false
  | c :: rest => (c = ':' && rest.head?.all isBlank) || hasKeyMark rest

/-- Whether the text starts with a mark of the structure. -/
def startsWithMark (cs : List Char) : Bool :=
  match cs with
  | [] => false
  | c :: rest =>
    "#,[]\x7b\x7d&*!|>'\"%@\x60".toList.contains c
      || ((c = '-' || c = '?') && rest.head?.all isBlank)
      || "---".toList.isPrefixOf cs || "...".toList.isPrefixOf cs

/-- Whether the text starts or ends with a space or line feed. -/
def hasOuterBlank (cs : List Char) : Bool :=
  cs.head?.any (fun c => c = ' ' || c = '\n') || cs.getLast?.any fun c => c = ' ' || c = '\n'

/-- Whether the characters can stand without quotes in a block collection. -/
def allowsPlain (cs : List Char) : Bool :=
  !(hasOuterBlank cs || cs.any needsEscape || cs.contains '\n' || startsWithMark cs
    || hasKeyMark cs || hasPair ' ' '#' cs)

/-- Whether the characters can stand between single quotes. -/
def allowsSingleQuoted (cs : List Char) : Bool :=
  !(cs.any needsEscape || hasPair '\n' ' ' cs || hasPair ' ' '\n' cs)

/-- How a scalar with a tag is written. -/
def Style.of (tag : Tag) (text : String) : Style :=
  let cs := text.toList
  if Tag.ofPlain text = tag && allowsPlain cs then .plain
  else if tag = .bytes then (if cs.isEmpty then .doubleQuoted else .literal)
  else if allowsSingleQuoted cs then .singleQuoted
  else .doubleQuoted

/-! ## Writing -/

/-- The escape of a character between double quotes. -/
def escapeChar (c : Char) : List Char :=
  match c.toNat with
  | 0 => ['\\', '0']
  | 7 => ['\\', 'a']
  | 8 => ['\\', 'b']
  | 9 => ['\\', 't']
  | 10 => ['\\', 'n']
  | 11 => ['\\', 'v']
  | 12 => ['\\', 'f']
  | 13 => ['\\', 'r']
  | 27 => ['\\', 'e']
  | 34 => ['\\', '"']
  | 92 => ['\\', '\\']
  | 0x85 => ['\\', 'N']
  | 0xA0 => ['\\', '_']
  | 0x2028 => ['\\', 'L']
  | 0x2029 => ['\\', 'P']
  | n =>
    let digits := fun (width : Nat) => (hexDigits width n).map Char.toUpper
    if n < 0x100 then '\\' :: 'x' :: digits 2
    else if n < 0x10000 then '\\' :: 'u' :: digits 4
    else '\\' :: 'U' :: digits 8

/-- Whether a character is escaped between double quotes. -/
def isEscaped (c : Char) : Bool := c = '"' || c = '\\' || c = '\n' || needsEscape c

/-- Runs of spaces, of line feeds and of other characters. -/
def runs (cs : List Char) : List (List Char) :=
  let kind := fun (c : Char) => if c = ' ' then 0 else if c = '\n' then 1 else 2
  cs.splitBy fun a b => kind a == kind b

namespace Page

/-- Writes a run of a plain scalar; a single space is where a long line is broken. -/
def plainRun (indent : Nat) (breaks : Bool) (p : Page) (run : List Char) : Page :=
  if run == [' '] && breaks && width < p.column then p.startLine indent else p.put run

/-- Writes a plain scalar. -/
def plain (indent : Nat) (breaks : Bool) (cs : List Char) (p : Page) : Page :=
  (runs cs).foldl (plainRun indent breaks) p

/-- Ends as many lines as there are line feeds, and indents the next one. -/
def lineFeeds (indent : Nat) (run : List Char) (p : Page) : Page :=
  (run.foldl (fun p _ => p.endLine) p).startLine indent

/-- Writes the runs of a scalar between single quotes; `first` tells that none was written. -/
def singleQuotedRuns (indent : Nat) (breaks : Bool) (first : Bool) : List (List Char) → Page → Page
  | [], p => p
  | run :: rest, p =>
    let p :=
      if run == [' '] && breaks && !first && !rest.isEmpty && width < p.column then
        p.startLine indent
      else if run.head? = some '\n' then p.lineFeeds indent run
      else p.put (run.flatMap fun c => if c = '\'' then ['\'', '\''] else [c])
    singleQuotedRuns indent breaks false rest p

/-- Writes a scalar between single quotes. -/
def singleQuoted (indent : Nat) (breaks : Bool) (cs : List Char) (p : Page) : Page :=
  (singleQuotedRuns indent breaks true (runs cs) (p.put ['\''])).put ['\'']

/--
Writes the characters of a scalar between double quotes; `pending` are those read but not yet
written. A long line ends with a backslash, in front of a space or behind an escape, and a
space at the start of a line is marked by a backslash.
-/
def doubleQuotedRest (indent : Nat) (breaks : Bool) (first : Bool) (pending : List Char) :
    List Char → Page → Page
  | [], p => p.put pending
  | c :: rest, p =>
    let escapes := isEscaped c
    let p := if escapes then (p.put pending).put (escapeChar c) else p
    let pending := if escapes then [] else pending
    let reached := if escapes then p.column - 1 else p.column + pending.length
    let mayBreak := c = ' ' || pending.isEmpty
    let left := if escapes then [] else [c]
    if breaks && !first && !rest.isEmpty && mayBreak && width < reached then
      let p := (p.put (pending ++ ['\\'])).startLine indent
      let p := if (left ++ rest).head? = some ' ' then p.put ['\\'] else p
      doubleQuotedRest indent breaks false left rest p
    else doubleQuotedRest indent breaks false (pending ++ left) rest p

/-- Writes a scalar between double quotes. -/
def doubleQuoted (indent : Nat) (breaks : Bool) (cs : List Char) (p : Page) : Page :=
  (doubleQuotedRest indent breaks true [] cs (p.put ['"'])).put ['"']

/-- Writes the lines of a scalar that ends with a line feed, each on a line of its own. -/
def literal (indent : Nat) (cs : List Char) (p : Page) : Page :=
  let lines := (cs.splitOn '\n').dropLast
  lines.foldl (fun p line => (p.startLine indent).put line) (p.put ['|'])

/-- Writes a scalar; further lines are indented, and lines are broken where `breaks` holds. -/
def scalar (indent : Nat) (breaks : Bool) (tag : Tag) (text : String) (p : Page) : Page :=
  let cs := text.toList
  match Style.of tag text with
  | .plain => p.plain indent breaks cs
  | .singleQuoted => p.singleQuoted indent breaks cs
  | .doubleQuoted => p.doubleQuoted indent breaks cs
  | .literal => p.literal indent cs

end Page

end DatalogFragments.Yaml
