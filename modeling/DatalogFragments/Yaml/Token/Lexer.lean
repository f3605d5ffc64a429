import DatalogFragments.Yaml.Token.Scalar

/-!
# From YAML text to tokens

Tokens are read from left to right. A key of a mapping is recognised by the colon behind it,
so a token that may turn out to start a key is kept in mind, and its announcement is put in
front of it when the colon is met. Outside flow collections the columns of items and keys
open block collections, and a smaller column closes them.

## Main definitions

* `Lexer`: the tokens so far and what is known about open collections and possible keys;
* `Lexer.step`: reads what comes next;
* `Token.ofText`: the tokens of a text.
-/

namespace DatalogFragments.Yaml

/-- A token that may turn out to start a key. -/
structure PossibleKey where
  /-- The nesting of flow collections. -/
  depth : Nat
  /-- The number of tokens in front of it. -/
  position : Nat
  /-- Whether nothing but a key can stand here. -/
  required : Bool
  start : Cursor

/-- The tokens so far, latest first, and what is known about the text that is left. -/
structure Lexer where
  cursor : Cursor
  tokens : List Token := []
  /-- The column of the innermost block collection; -1 outside of all. -/
  indent : Int := -1
  outerIndents : List Int := []
  /-- The nesting of flow collections. -/
  depth : Nat := 0
  keyAllowed : Bool := true
  possibleKeys : List PossibleKey := []

namespace Lexer

/-- Whether the text that is left belongs to a flow collection. -/
def inFlow (s : Lexer) : Bool := s.depth != 0

/-- Adds a token. -/
def push (t : Token) (s : Lexer) : Lexer := { s with tokens := t :: s.tokens }

/-- Adds a token for the given number of characters. -/
def pushMark (t : Token) (width : Nat) (s : Lexer) : Lexer :=
  { s with tokens := t :: s.tokens, cursor := s.cursor.skip width }

/-- Puts a token in front of the ones from a position on. -/
def insert (t : Token) (position : Nat) (s : Lexer) : Lexer :=
  { s with tokens := s.tokens.insertIdx (s.tokens.length - position) t }

/-! ## Possible keys -/

/-- Whether a key started too far back: on another line, or more than 1024 characters ago. -/
def isStale (s : Lexer) (k : PossibleKey) : Bool :=
  k.start.line != s.cursor.line || 1024 < s.cursor.index - k.start.index

/-- Forgets keys that satisfy a predicate; a required key may not be missed. -/
def forget (p : PossibleKey → Bool) (s : Lexer) : Except Fault Lexer :=
  if s.possibleKeys.any fun k => p k && k.required then malformed
  else .ok { s with possibleKeys := s.possibleKeys.filter fun k => !p k }

/-- Forgets keys that started too far back. -/
def forgetStale (s : Lexer) : Except Fault Lexer := s.forget s.isStale

/-- Forgets the possible key of the current flow collection. -/
def forgetHere (s : Lexer) : Except Fault Lexer := s.forget fun k => k.depth == s.depth

/-- Keeps in mind that a key may start here, and does not allow another one right behind. -/
def noteKey (s : Lexer) : Except Fault Lexer := do
  if !s.keyAllowed then return s
  let s ← s.forgetHere
  let key : PossibleKey :=
    { depth := s.depth
      position := s.tokens.length
      required := !s.inFlow && s.indent == (s.cursor.column : Int)
      start := s.cursor }
  return { s with possibleKeys := key :: s.possibleKeys }

/-! ## Indentation -/

/-- Closes the block collections that are indented more than a column. -/
def closeBlocks (column : Int) (s : Lexer) : List Int → Lexer
  | [] => s
  | outer :: rest =>
    if column < s.indent then
      closeBlocks column
        { s with indent := outer, outerIndents := rest, tokens := .closeBlock :: s.tokens } rest
    else s

/-- Closes block collections; within flow collections indentation does not count. -/
def unwind (column : Int) (s : Lexer) : Lexer :=
  if s.inFlow then s else closeBlocks column s s.outerIndents

/-- Opens a block collection if the column is indented more, with its token at a position. -/
def openBlock (column : Nat) (t : Token) (position : Nat) (s : Lexer) : Lexer :=
  if !s.inFlow && s.indent < (column : Int) then
    { s.insert t position with indent := column, outerIndents := s.indent :: s.outerIndents }
  else s

/-- Opens a block collection at the current column if it is indented more. -/
def openBlockHere (t : Token) (s : Lexer) : Lexer :=
  s.openBlock s.cursor.column t s.tokens.length

/-! ## Between tokens -/

/-- Skips spaces, comments and line breaks. A key may start on a new line. -/
def skipToToken : Nat → Lexer → Lexer
  | 0, s => s
  | fuel + 1, s =>
    let c := (s.cursor.dropWhile (· = ' ')).skipComment
    match c.takeBreak with
    | ([], _) => { s with cursor := c }
    | (_, c) => skipToToken fuel { s with cursor := c, keyAllowed := s.keyAllowed || !s.inFlow }

/-- Skips the mark at the very beginning of a text. -/
def skipByteOrderMark (s : Lexer) : Lexer :=
  if s.cursor.index = 0 && s.cursor.peek 0 = some byteOrderMark then
    { s with cursor := s.cursor.next }
  else s

/-! ## Directives -/

/-- A decimal number. -/
def readNumber (c : Cursor) : Except Fault (Nat × Cursor) :=
  match c.takeWhile Char.isDigit with
  | ([], _) => malformed
  | (digits, c) => .ok (Binary64.natOfDigits digits, c)

/-- Whether the text ends here, or a space or line break comes next. -/
def atGap (c : Cursor) : Bool := c.atEnd || c.peek 0 = some ' ' || c.atBreak

/-- The name of an abbreviation for tags: an exclamation mark, or a word between two. -/
def readHandle (c : Cursor) : Except Fault (String × Cursor) :=
  if c.peek 0 != some '!' then malformed
  else if c.peek 1 = some ' ' then .ok ("!", c.next)
  else
    let (word, c) := c.next.takeWhile isWordChar
    if c.peek 0 = some '!' then .ok (String.ofList ('!' :: (word ++ ['!'])), c.next) else malformed

/-- Whether a character may stand in a tag. -/
def isTagChar (c : Char) : Bool := c.isAlphanum || "-;/?:@&=+$,_.!~*'()[]".toList.contains c

/-- Octets written as percent signs with two hexadecimal digits each. -/
def readOctets : Nat → Cursor → Except Fault (List UInt8 × Cursor)
  | 0, _ => malformed
  | fuel + 1, c =>
    if c.peek 0 != some '%' then .ok ([], c)
    else
      let digits := c.next.rest.take 2
      match hexNumber? digits with
      | some n =>
        if digits.length = 2 then do
          let (octets, c) ← readOctets fuel (c.skip 3)
          return (n.toUInt8 :: octets, c)
        else malformed
      | none => malformed

/-- The characters of a tag; at least one is needed. -/
def tagChars : Nat → Cursor → Except Fault (List Char × Cursor)
  | 0, _ => malformed
  | fuel + 1, c =>
    match c.takeWhile isTagChar with
    | ([], _) =>
      if c.peek 0 = some '%' then do
        let (octets, c) ← readOctets fuel c
        match String.fromUTF8? ⟨octets.toArray⟩ with
        | some text =>
          let (more, c) ← tagChars fuel c
          return (text.toList ++ more, c)
        | none => malformed
      else .ok ([], c)
    | (chars, c) => do
      let (more, c) ← tagChars fuel c
      return (chars ++ more, c)

/-- The text of a tag or of a part of one. -/
def readTagText (c : Cursor) : Except Fault (String × Cursor) := do
  let (chars, c') ← tagChars (c.rest.length + 1) c
  if c'.index = c.index then malformed else return (String.ofList chars, c')

/-- The version of the notation: two numbers around a point. -/
def readVersion (c : Cursor) : Except Fault (Directive × Cursor) := do
  let (major, c) ← readNumber (c.dropWhile (· = ' '))
  if c.peek 0 != some '.' then malformed else
  let (_, c) ← readNumber c.next
  if atGap c then return (.version major, c) else malformed

/-- An abbreviation and what it stands for. -/
def readAbbreviation (c : Cursor) : Except Fault (Directive × Cursor) := do
  let (name, c) ← readHandle (c.dropWhile (· = ' '))
  if c.peek 0 != some ' ' then malformed else
  let (replacement, c) ← readTagText (c.dropWhile (· = ' '))
  if atGap c then return (.handle name replacement, c) else malformed

/-- A directive; the cursor is at the percent sign. -/
def readDirective (c : Cursor) : Except Fault (Token × Cursor) := do
  let (name, c) := c.next.takeWhile isWordChar
  if name.isEmpty || !atGap c then malformed else
  let (directive, c) ←
    if name == "YAML".toList then readVersion c
    else if name == "TAG".toList then readAbbreviation c
    else pure (.reserved, c.dropWhile fun d => !isBreak d)
  let c ← skipLineEnd c
  return (.directive directive, c)

/-! ## Names and tags -/

/-- The name of an anchor or of a reference to one; the cursor is at the indicator. -/
def readName (c : Cursor) : Except Fault (String × Cursor) :=
  let (name, c) := c.next.takeWhile isWordChar
  if name.isEmpty || !(c.blankAt 0 || c.atOneOf "?:,]\x7d%@\x60".toList) then malformed
  else .ok (String.ofList name, c)

/-- Whether the characters up to the next gap contain an exclamation mark. -/
def hasHandle (c : Cursor) : Bool :=
  (c.rest.takeWhile fun d => d != ' ' && !isBreak d).contains '!'

/-- The two parts of a tag; the cursor is at the exclamation mark. -/
def readTagParts (c : Cursor) : Except Fault (Option String × String × Cursor) :=
  if c.peek 1 = some '<' then do
    let (text, c) ← readTagText (c.skip 2)
    if c.peek 0 = some '>' then return (none, text, c.next) else malformed
  else if c.blankAt 1 then .ok (none, "!", c.next)
  else do
    let (handle, c) ← if hasHandle c.next then readHandle c else pure ("!", c.next)
    let (text, c) ← readTagText c
    return (some handle, text, c)

/-- A tag; a gap has to follow. -/
def readTag (c : Cursor) : Except Fault (Token × Cursor) := do
  let (handle, suffix, c) ← readTagParts c
  if atGap c then return (.tag handle suffix, c) else malformed

/-! ## Steps -/

/-- A mark between documents or a directive ends all block collections. -/
def beginDocumentPart (s : Lexer) : Except Fault Lexer := do
  let s ← (s.unwind (-1)).forgetHere
  return { s with keyAllowed := false }

/-- Opens a flow collection. -/
def openFlow (t : Token) (s : Lexer) : Except Fault Lexer := do
  let s ← s.noteKey
  return { s.pushMark t 1 with depth := s.depth + 1, keyAllowed := true }

/-- Closes a flow collection. -/
def closeFlow (t : Token) (s : Lexer) : Except Fault Lexer := do
  if s.depth = 0 then malformed else
  let s ← s.forgetHere
  return { s.pushMark t 1 with depth := s.depth - 1, keyAllowed := false }

/-- The comma between items of a flow collection. -/
def stepComma (s : Lexer) : Except Fault Lexer := do
  let s ← s.forgetHere
  return { s.pushMark .comma 1 with keyAllowed := true }

/-- The hyphen in front of an item. -/
def stepItem (s : Lexer) : Except Fault Lexer := do
  if !s.inFlow && !s.keyAllowed then malformed else
  let s ← (s.openBlockHere .openBlockSequence).forgetHere
  return { s.pushMark .item 1 with keyAllowed := true }

/-- The question mark in front of a key. -/
def stepKey (s : Lexer) : Except Fault Lexer := do
  if !s.inFlow && !s.keyAllowed then malformed else
  let s ← (s.openBlockHere .openBlockMapping).forgetHere
  return { s.pushMark .key 1 with keyAllowed := !s.inFlow }

/-- The colon in front of a value. What started as a possible key is one. -/
def stepValue (s : Lexer) : Except Fault Lexer := do
  match s.possibleKeys.find? fun k => k.depth == s.depth with
  | some k =>
    let s := { s with possibleKeys := s.possibleKeys.filter fun l => l.depth != s.depth }
    let s := (s.insert .key k.position).openBlock k.start.column .openBlockMapping k.position
    return { s.pushMark .value 1 with keyAllowed := false }
  | none =>
    if !s.inFlow && !s.keyAllowed then malformed else
    let s ← (s.openBlockHere .openBlockMapping).forgetHere
    return { s.pushMark .value 1 with keyAllowed := !s.inFlow }

/-- A token that may start a key. -/
def stepKeyed (s : Lexer) (read : Cursor → Except Fault (Token × Cursor)) : Except Fault Lexer := do
  let s ← s.noteKey
  let (t, c) ← read s.cursor
  return { s.push t with cursor := c, keyAllowed := false }

/-- A block scalar. -/
def stepBlock (folds : Bool) (s : Lexer) : Except Fault Lexer := do
  let s ← s.forgetHere
  let (t, c) ← readBlock folds s.indent s.cursor
  return { s.push t with cursor := c, keyAllowed := true }

/-- A plain scalar. A key may start behind it if it ended with its line. -/
def stepPlain (s : Lexer) : Except Fault Lexer := do
  let s ← s.noteKey
  let (t, lineEnded, c) := readPlain s.inFlow (s.indent + 1) s.cursor
  return { s.push t with cursor := c, keyAllowed := lineEnded }

/-- Whether a plain scalar may start with the character at the cursor. -/
def startsPlain (s : Lexer) (d : Char) : Bool :=
  !(isBlank d || "-?:,[]\x7b\x7d#&*!|>'\"%@\x60".toList.contains d) ||
    (!s.cursor.blankAt 1 && (d = '-' || (!s.inFlow && (d = '?' || d = ':'))))

/-- Reads the token that starts with a character. -/
def stepAt (s : Lexer) (d : Char) : Except Fault Lexer :=
  let c := s.cursor
  let marks := s.inFlow || c.blankAt 1
  if d = '%' && c.column = 0 then do
    let s ← s.beginDocumentPart
    let (t, c) ← readDirective s.cursor
    return { s.push t with cursor := c }
  else if c.column = 0 && c.atMarker then do
    let s ← s.beginDocumentPart
    return s.pushMark (if d = '-' then .documentStart else .documentEnd) 3
  else if d = '[' then s.openFlow .openSequence
  else if d = '\x7b' then s.openFlow .openMapping
  else if d = ']' then s.closeFlow .closeSequence
  else if d = '\x7d' then s.closeFlow .closeMapping
  else if d = ',' then s.stepComma
  else if d = '-' && c.blankAt 1 then s.stepItem
  else if d = '?' && marks then s.stepKey
  else if d = ':' && marks then s.stepValue
  else if d = '*' then
    s.stepKeyed fun c => (readName c).map fun (name, c) => (.alias name, c)
  else if d = '&' then
    s.stepKeyed fun c => (readName c).map fun (name, c) => (.anchor name, c)
  else if d = '!' then s.stepKeyed readTag
  else if d = '|' && !s.inFlow then s.stepBlock false
  else if d = '>' && !s.inFlow then s.stepBlock true
  else if d = '\'' then s.stepKeyed (readQuoted false)
  else if d = '"' then s.stepKeyed (readQuoted true)
  else if s.startsPlain d then s.stepPlain
  else malformed

/-- Reads what comes next; nothing is left to be done at the end of the text. -/
def step (s : Lexer) : Except Fault (Lexer × Bool) := do
  let s := s.skipByteOrderMark
  let s ← (s.skipToToken (s.cursor.rest.length + 1)).forgetStale
  let s := s.unwind s.cursor.column
  match s.cursor.peek 0 with
  | none =>
    let s ← (s.unwind (-1)).forgetHere
    return (s, true)
  | some d =>
    let s ← s.stepAt d
    return (s, false)

/-- Steps until the end of the text. -/
def run : Nat → Lexer → Except Fault (List Token)
  | 0, _ => malformed
  | fuel + 1, s => do
    let (s, done) ← s.step
    if done then return s.tokens.reverse else run fuel s

end Lexer

/-- The tokens of a text. -/
def Token.ofText (text : String) : Except Fault (List Token) :=
  let cs := text.toList
  if cs.all isAdmitted then Lexer.run (cs.length + 1) { cursor := { rest := cs } } else malformed

end DatalogFragments.Yaml
