/-!
# Positions in a YAML text

A cursor is the text that is left to read together with the line and column it starts at.

## Main definitions

* `isBreak`, `isBlank`, `isAdmitted`: classes of characters;
* `Cursor.next`, `Cursor.skip`, `Cursor.takeWhile`: reading forward;
* `Cursor.takeBreak`: reading a line break;
* `Cursor.atMarker`: the marks that separate documents.
-/

namespace DatalogFragments.Yaml

/-! ## Characters -/

/-- Next line, a line break beside the line feed and the carriage return. -/
def nextLine : Char := Char.ofNat 0x85

/-- Line separator: a line break that folding keeps. -/
def lineSeparator : Char := Char.ofNat 0x2028

/-- Paragraph separator: a line break that folding keeps. -/
def paragraphSeparator : Char := Char.ofNat 0x2029

/-- The mark in front of a text that tells the order of octets. -/
def byteOrderMark : Char := Char.ofNat 0xFEFF

/-- Whether a character ends a line. -/
def isBreak (c : Char) : Bool :=
  c = '\n' || c = '\r' || c = nextLine || c = lineSeparator || c = paragraphSeparator

/-- Spaces, tabs and line breaks. -/
def isBlank (c : Char) : Bool := c = ' ' || c = '\t' || isBreak c

/-- Letters, digits, the hyphen and the underscore of ASCII. -/
def isWordChar (c : Char) : Bool := c.isAlphanum || c = '-' || c = '_'

/-- Whether a text may contain the character at all. -/
def isAdmitted (c : Char) : Bool :=
  let n := c.toNat
  n = 9 || n = 10 || n = 13 || (0x20 ≤ n && n ≤ 0x7E) || n = 0x85 ||
    (0xA0 ≤ n && n ≤ 0xD7FF) || (0xE000 ≤ n && n ≤ 0xFFFD) || 0x10000 ≤ n

/-! ## Cursors -/

/-- The text that is left to read, and where it starts. -/
structure Cursor where
  rest : List Char
  line : Nat := 0
  column : Nat := 0
  index : Nat := 0

namespace Cursor

/-- The character after the given number of others. -/
def peek (c : Cursor) (n : Nat) : Option Char := c.rest[n]?

/-- Whether nothing is left. -/
def atEnd (c : Cursor) : Bool := c.rest.isEmpty

/-- Whether one of the given characters comes next. -/
def atOneOf (c : Cursor) (chars : List Char) : Bool := c.rest.head?.any chars.contains

/-- Whether the text ends or is blank after the given number of characters. -/
def blankAt (c : Cursor) (n : Nat) : Bool := (c.peek n).all isBlank

/-- One character further. A carriage return in front of a line feed does not end the line. -/
def next (c : Cursor) : Cursor :=
  match c.rest with
  | [] => c
  | d :: rest =>
    if isBreak d && !(d = '\r' && rest.head? == some '\n') then
      ⟨rest, c.line + 1, 0, c.index + 1⟩
    else if d = byteOrderMark then ⟨rest, c.line, c.column, c.index + 1⟩
    else ⟨rest, c.line, c.column + 1, c.index + 1⟩

/-- Several characters further. -/
def skip : Nat → Cursor → Cursor
  | 0, c => c
  | n + 1, c => skip n c.next

/-- The characters in front that satisfy a predicate, and the cursor behind them. -/
def takeWhile (p : Char → Bool) (c : Cursor) : List Char × Cursor :=
  let taken := c.rest.takeWhile p
  (taken, c.skip taken.length)

/-- The cursor behind the characters that satisfy a predicate. -/
def dropWhile (p : Char → Bool) (c : Cursor) : Cursor := (c.takeWhile p).2

/-- The cursor behind spaces, but not beyond a column. -/
def indentTo (column : Nat) (c : Cursor) : Cursor :=
  let spaces := (c.rest.takeWhile (· = ' ')).length
  c.skip (min spaces (column - c.column))

/-- The cursor behind a comment, if one comes next. -/
def skipComment (c : Cursor) : Cursor :=
  if c.peek 0 = some '#' then c.dropWhile (fun d => !isBreak d) else c

/--
A line break, as it counts in a text: a line feed for every kind of break, except that the two
separators stand for themselves. There is none if another character comes next.
-/
def takeBreak (c : Cursor) : List Char × Cursor :=
  match c.rest with
  | '\r' :: '\n' :: _ => (['\n'], c.skip 2)
  | d :: _ =>
    if d = lineSeparator ∨ d = paragraphSeparator then ([d], c.next)
    else if isBreak d then (['\n'], c.next)
    else ([], c)
  | [] => ([], c)

/-- Whether a line break comes next. -/
def atBreak (c : Cursor) : Bool := (c.peek 0).any isBreak

/-- Whether the three characters, followed by a blank or the end, come next. -/
def atTriple (d : Char) (c : Cursor) : Bool := c.rest.take 3 == [d, d, d] && c.blankAt 3

/-- Whether a mark that separates documents comes next. -/
def atMarker (c : Cursor) : Bool := c.atTriple '-' || c.atTriple '.'

end Cursor

end DatalogFragments.Yaml
