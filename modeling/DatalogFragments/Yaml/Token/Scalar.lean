import DatalogFragments.Text.Hexadecimal
import DatalogFragments.Yaml.Cursor
import DatalogFragments.Yaml.Token

/-!
# Scalars in a YAML text

A scalar is plain, stands between single or double quotes, or is a block of indented lines.
Within quotes and in plain scalars a single line break is folded into a space, and of several
line breaks the first one is dropped.

## Main definitions

* `readQuoted`: a scalar between quotes;
* `readPlain`: a plain scalar;
* `readBlock`: a block scalar.
-/

namespace DatalogFragments.Yaml

/-! ## Scalars between quotes -/

/-- The character that a letter behind a backslash stands for. -/
def escaped? : Char → Option Char
  | '0' => some (Char.ofNat 0)
  | 'a' => some (Char.ofNat 7)
  | 'b' => some (Char.ofNat 8)
  | 't' => some '\t'
  | '\t' => some '\t'
  | 'n' => some '\n'
  | 'v' => some (Char.ofNat 11)
  | 'f' => some (Char.ofNat 12)
  | 'r' => some '\r'
  | 'e' => some (Char.ofNat 27)
  | ' ' => some ' '
  | '"' => some '"'
  | '\\' => some '\\'
  | '/' => some '/'
  | 'N' => some nextLine
  | '_' => some (Char.ofNat 0xA0)
  | 'L' => some lineSeparator
  | 'P' => some paragraphSeparator
  | _ => none

/-- The number of hexadecimal digits that follow a letter behind a backslash. -/
def codeWidth? : Char → Option Nat
  | 'x' => some 2
  | 'u' => some 4
  | 'U' => some 8
  | _ => none

/-- The character of a code given by hexadecimal digits. -/
def charOfDigits (digits : List Char) : Except Fault Char :=
  match hexNumber? digits with
  | none => malformed
  | some n =>
    if 0x110000 ≤ n then .error .wrongContent
    else if 0xD800 ≤ n ∧ n < 0xE000 then .ok (Char.ofNat 0xFFFD)
    else .ok (Char.ofNat n)

/-- Line breaks with the blanks around them; a mark between documents may not follow. -/
def quotedBreaks : Nat → Cursor → Except Fault (List Char × Cursor)
  | 0, _ => malformed
  | fuel + 1, c =>
    if c.atMarker then malformed
    else
      let c := c.dropWhile fun d => d = ' ' || d = '\t'
      match c.takeBreak with
      | ([], _) => .ok ([], c)
      | (lineBreak, c) => do
        let (more, c) ← quotedBreaks fuel c
        return (lineBreak ++ more, c)

/-- What a backslash between double quotes stands for. -/
def readEscape (fuel : Nat) (c : Cursor) : Except Fault (List Char × Cursor) :=
  match c.peek 0 with
  | none => malformed
  | some d =>
    match escaped? d, codeWidth? d with
    | some e, _ => .ok ([e], c.next)
    | none, some width =>
      let digits := c.next.rest.take width
      if digits.length = width then do
        let e ← charOfDigits digits
        return ([e], c.next.skip width)
      else malformed
    | none, none =>
      if isBreak d then quotedBreaks fuel c.takeBreak.2 else malformed

/-- Characters between quotes up to a blank, the closing quote or the end of the text. -/
def quotedWord (double : Bool) : Nat → Cursor → Except Fault (List Char × Cursor)
  | 0, _ => malformed
  | fuel + 1, c =>
    match c.peek 0 with
    | none => .ok ([], c)
    | some d =>
      if !double && d = '\'' && c.peek 1 = some '\'' then do
        let (more, c) ← quotedWord double fuel (c.skip 2)
        return ('\'' :: more, c)
      else if double && d = '\\' then do
        let (content, c) ← readEscape fuel c.next
        let (more, c) ← quotedWord double fuel c
        return (content ++ more, c)
      else if isBlank d || d = (if double then '"' else '\'') then .ok ([], c)
      else do
        let (more, c) ← quotedWord double fuel c.next
        return (d :: more, c)

/-- Folds a line break and the breaks after it: one break is a space, of more the first goes. -/
def folded (lineBreak more : List Char) : List Char :=
  if lineBreak == ['\n'] then (if more.isEmpty then [' '] else more) else lineBreak ++ more

/-- Blanks between quotes, folded if they contain a line break. -/
def quotedBlanks (fuel : Nat) (c : Cursor) : Except Fault (List Char × Cursor) :=
  let (spaces, c) := c.takeWhile fun d => d = ' ' || d = '\t'
  if c.atEnd then malformed
  else
    match c.takeBreak with
    | ([], _) => .ok (spaces, c)
    | (lineBreak, c) => do
      let (more, c) ← quotedBreaks fuel c
      return (folded lineBreak more, c)

/-- Words and blanks up to the closing quote. -/
def quotedWords (double : Bool) : Nat → Cursor → Except Fault (List Char × Cursor)
  | 0, _ => malformed
  | fuel + 1, c => do
    let (word, c) ← quotedWord double (fuel + 1) c
    if c.peek 0 = some (if double then '"' else '\'') then return (word, c.next)
    else
      let (blanks, c) ← quotedBlanks fuel c
      let (more, c) ← quotedWords double fuel c
      return (word ++ blanks ++ more, c)

/-- A scalar between quotes; the cursor is at the opening one. -/
def readQuoted (double : Bool) (c : Cursor) : Except Fault (Token × Cursor) := do
  let (content, c) ← quotedWords double (c.rest.length + 1) c.next
  return (.scalar (String.ofList content) false, c)

/-! ## Plain scalars -/

/-- The characters of a plain scalar up to a blank, a mark of the structure or the end. -/
def plainWord (inFlow : Bool) : List Char → List Char
  | [] => []
  | d :: rest =>
    if isBlank d then []
    else if d = ':' && rest.head?.all (fun e => isBlank e || (inFlow && ",[]\x7b\x7d".toList.contains e))
    then []
    else if inFlow && ",?[]\x7b\x7d".toList.contains d then []
    else d :: plainWord inFlow rest

/-- What follows a word of a plain scalar. -/
structure PlainGap where
  /-- The blanks as they count if the scalar goes on. -/
  blanks : List Char
  /-- Whether a line ended. -/
  lineEnded : Bool
  cursor : Cursor

/--
Line breaks and spaces at the start of lines within a plain scalar; there are none if a mark
between documents is met.
-/
def plainBreaks : Nat → Cursor → Option (List Char) × Cursor
  | 0, c => (none, c)
  | fuel + 1, c =>
    match c.takeBreak with
    | ([], _) => if c.peek 0 = some ' ' then plainBreaks fuel c.next else (some [], c)
    | (lineBreak, c) =>
      if c.atMarker then (none, c)
      else
        match plainBreaks fuel c with
        | (some more, c) => (some (lineBreak ++ more), c)
        | (none, c) => (none, c)

/-- The blanks behind a word of a plain scalar. -/
def plainGap (fuel : Nat) (c : Cursor) : PlainGap :=
  let (spaces, c) := c.takeWhile (· = ' ')
  match c.takeBreak with
  | ([], _) => ⟨spaces, false, c⟩
  | (lineBreak, c) =>
    if c.atMarker then ⟨[], true, c⟩
    else
      match plainBreaks fuel c with
      | (some more, c) => ⟨folded lineBreak more, true, c⟩
      | (none, c) => ⟨[], true, c⟩

/--
The words of a plain scalar, whether a line ended behind the last one, and the cursor. A
scalar outside flow collections ends where a line is indented less than `indent`.
-/
def plainWords (inFlow : Bool) (indent : Int) : Nat → Cursor → List Char × Bool × Cursor
  | 0, c => ([], false, c)
  | fuel + 1, c =>
    let word := plainWord inFlow c.rest
    let gap := plainGap fuel (c.skip word.length)
    let c := gap.cursor
    let ends := gap.blanks.isEmpty || c.peek 0 = some '#' || (!inFlow && (c.column : Int) < indent)
      || (plainWord inFlow c.rest).isEmpty
    if ends then (word, gap.lineEnded, c)
    else
      let (more, lineEnded, c) := plainWords inFlow indent fuel c
      (word ++ gap.blanks ++ more, lineEnded, c)

/-- A plain scalar, whether a line ended behind it, and the cursor. -/
def readPlain (inFlow : Bool) (indent : Int) (c : Cursor) : Token × Bool × Cursor :=
  let (content, lineEnded, c) := plainWords inFlow indent (c.rest.length + 1) c
  (.scalar (String.ofList content) true, lineEnded, c)

/-! ## Block scalars -/

/-- What becomes of the line breaks at the end of a block scalar. -/
inductive Chomping where
  /-- All of them go. -/
  | strip
  /-- One of them stays. -/
  | clip
  /-- All of them stay. -/
  | keep
  deriving DecidableEq

/-- The mark for the treatment of line breaks at the end. -/
def chomping? (c : Cursor) : Option (Chomping × Cursor) :=
  match c.peek 0 with
  | some '+' => some (.keep, c.next)
  | some '-' => some (.strip, c.next)
  | _ => none

/-- The mark for the indentation, a digit other than zero. -/
def increment? (c : Cursor) : Except Fault (Option (Nat × Cursor)) :=
  match c.peek 0 with
  | some d =>
    if d = '0' then malformed
    else if d.isDigit then .ok (some (d.toNat - '0'.toNat, c.next))
    else .ok none
  | none => .ok none

/-- The two marks behind the indicator of a block scalar, in any order. -/
def blockHeader (c : Cursor) : Except Fault (Chomping × Option Nat × Cursor) :=
  match chomping? c with
  | some (chomping, c) => do
    match ← increment? c with
    | some (n, c) => return (chomping, some n, c)
    | none => return (chomping, none, c)
  | none => do
    match ← increment? c with
    | none => return (.clip, none, c)
    | some (n, c) =>
      match chomping? c with
      | some (chomping, c) => return (chomping, some n, c)
      | none => return (.clip, some n, c)

/-- The rest of a line that holds nothing but spaces and a comment. -/
def skipLineEnd (c : Cursor) : Except Fault Cursor :=
  let c := (c.dropWhile (· = ' ')).skipComment
  if c.atEnd || c.atBreak then .ok c.takeBreak.2 else malformed

/-- Line breaks, each followed by spaces up to the indentation. -/
def blockBreaks (indent : Nat) : Nat → Cursor → List Char × Cursor
  | 0, c => ([], c)
  | fuel + 1, c =>
    let c := c.indentTo indent
    match c.takeBreak with
    | ([], _) => ([], c)
    | (lineBreak, c) =>
      let (more, c) := blockBreaks indent fuel c
      (lineBreak ++ more, c)

/-- The blank lines in front of a block scalar, and the greatest column they reach. -/
def blockLead : Nat → Cursor → List Char × Nat × Cursor
  | 0, c => ([], 0, c)
  | fuel + 1, c =>
    match c.takeBreak with
    | ([], _) =>
      if c.peek 0 = some ' ' then
        let (breaks, column, c') := blockLead fuel c.next
        (breaks, max c.next.column column, c')
      else ([], 0, c)
    | (lineBreak, c) =>
      let (breaks, column, c) := blockLead fuel c
      (lineBreak ++ breaks, column, c)

/-- The content of a block scalar without its last line break, and what follows the content. -/
structure BlockLines where
  content : List Char
  lastBreak : List Char
  breaks : List Char
  cursor : Cursor

/-- Whether a line starts with a space or a tab. -/
def startsBlank (c : Cursor) : Bool := c.atOneOf [' ', '\t']

/--
The lines of a block scalar at an indentation; `breaks` are the line breaks before them. In a
folded scalar a line break between two lines that do not start with a blank is folded.
-/
def blockLines (folds : Bool) (indent : Nat) : Nat → List Char → Cursor → BlockLines
  | 0, breaks, c => ⟨[], [], breaks, c⟩
  | fuel + 1, breaks, c =>
    if c.column = indent && !c.atEnd then
      let indented := startsBlank c
      let (line, c) := c.takeWhile fun d => !isBreak d
      let (lineBreak, c) := c.takeBreak
      let (more, c) := blockBreaks indent (fuel + 1) c
      if c.column = indent && !c.atEnd then
        let joint :=
          if folds && lineBreak == ['\n'] && !indented && !startsBlank c then
            (if more.isEmpty then [' '] else [])
          else lineBreak
        let lines := blockLines folds indent fuel more c
        { lines with content := breaks ++ line ++ joint ++ lines.content }
      else ⟨breaks ++ line, lineBreak, more, c⟩
    else ⟨[], [], breaks, c⟩

/-- A block scalar in a collection of the given indentation; the cursor is at its indicator. -/
def readBlock (folds : Bool) (indent : Int) (c : Cursor) : Except Fault (Token × Cursor) := do
  let fuel := c.rest.length + 1
  let (chomping, increment, c) ← blockHeader c.next
  let atLineEnd := c.atEnd || c.peek 0 = some ' ' || c.atBreak
  if !atLineEnd then malformed else
  let c ← skipLineEnd c
  let least := max 1 (indent + 1).toNat
  let (breaks, column, c) :=
    match increment with
    | some n =>
      let column := least + n - 1
      let (breaks, c) := blockBreaks column fuel c
      (breaks, column, c)
    | none =>
      let (breaks, reached, c) := blockLead fuel c
      (breaks, max least reached, c)
  let lines := blockLines folds column fuel breaks c
  let ending :=
    match chomping with
    | .strip => []
    | .clip => lines.lastBreak
    | .keep => lines.lastBreak ++ lines.breaks
  return (.scalar (String.ofList (lines.content ++ ending)) false, lines.cursor)

end DatalogFragments.Yaml
