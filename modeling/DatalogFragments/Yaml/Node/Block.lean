import DatalogFragments.Yaml.Node
import DatalogFragments.Yaml.Page

/-!
# Nodes as YAML text

Collections are written in block form, one item or entry to a line, and empty ones as `[]` and
`{}`. A key that is short and fits on a line stands in front of a colon; any other key
stands behind a question mark, and its value on a line of its own.

## Main definitions

* `Node.isShortKey`: whether a key stands in front of a colon;
* `Node.write`: writes a node on a page;
* `Node.text`: the text of a node.
-/

namespace DatalogFragments.Yaml.Node

/-- Whether a node is an empty collection. -/
def isEmptyCollection : Node → Bool
  | .scalar .. => false
  | .sequence _ items => items.isEmpty
  | .mapping _ entries => entries.isEmpty

/-- The most characters of a short key and its tag, whether the tag is written or not. -/
def keyWidth : Nat := 127

/-- Whether a key stands in front of a colon: not empty, on one line, and short; a carriage
return counts as part of a line. -/
def isShortKey (key : Node) : Bool :=
  let tagWidth := key.tag.shorthand.length
  match key with
  | .scalar _ text =>
    let cs := text.toList
    !cs.isEmpty && !cs.any (fun c => c != '\r' && isBreak c) && tagWidth + cs.length ≤ keyWidth
  | _ => key.isEmptyCollection && tagWidth ≤ keyWidth

/-- The tag of a node as far as it is written: what a node looks like is not said. -/
def writtenTag (tag : Tag) : List Char :=
  match tag with
  | .bytes | .set => ' ' :: tag.shorthand.toList
  | _ => []

/-- Whether a node is a sequence with items, which needs no indentation as the value of a key. -/
def isSequence : Node → Bool
  | .sequence _ items => !items.isEmpty
  | _ => false

/--
Moves to the place of an item or entry: behind the mark of the collection around it for the
first one, if it may stand there, else on a line of its own.
-/
def moveTo (indent : Nat) (inline : Bool) (p : Page) : Page :=
  if inline then p.fillTo indent else p.startLine indent

/-- Writes a short key; its lines are not broken. -/
def writeKey (key : Node) (p : Page) : Page :=
  match key with
  | .scalar tag text => p.scalar 0 false tag text
  | .sequence .. => p.put ['[', ']']
  | .mapping .. => p.put ['\x7b', '\x7d']

mutual

/--
Writes a node behind a mark. Its lines have the given indentation; `inline` tells that the
first item or entry may stand on the same line.
-/
def write (indent : Nat) (inline : Bool) : Node → Page → Page
  | .scalar tag text, p => (p.put (writtenTag tag ++ [' '])).scalar indent true tag text
  | .sequence tag items, p =>
    if items.isEmpty then p.put (writtenTag tag ++ [' ', '[', ']'])
    else writeItems indent inline items (p.put (writtenTag tag))
  | .mapping tag entries, p =>
    if entries.isEmpty then p.put (writtenTag tag ++ [' ', '\x7b', '\x7d'])
    else writeEntries indent (inline && (writtenTag tag).isEmpty) entries (p.put (writtenTag tag))

/-- Writes the items of a sequence. -/
def writeItems (indent : Nat) (inline : Bool) : List Node → Page → Page
  | [], p => p
  | item :: rest, p =>
    let p := write (indent + 2) true item ((moveTo indent inline p).put ['-'])
    writeItems indent false rest p

/-- Writes the entries of a mapping. -/
def writeEntries (indent : Nat) (inline : Bool) : List (Node × Node) → Page → Page
  | [], p => p
  | (key, value) :: rest, p =>
    let p := moveTo indent inline p
    let p :=
      if key.isShortKey then
        let inner := if value.isSequence then indent else indent + 2
        write inner false value ((writeKey key p).put [':'])
      else
        let p := (write (indent + 2) true key (p.put ['?'])).startLine indent
        write (indent + 2) true value (p.put [':'])
    writeEntries indent false rest p

end

/-- The text of a node. -/
def text (node : Node) : String :=
  match node with
  | .scalar tag content => (({} : Page).scalar 2 true tag content).endLine.text
  | .sequence _ [] => "[]\n"
  | .mapping _ [] => "\x7b\x7d\n"
  | _ => (write 0 true node {}).endLine.text

end DatalogFragments.Yaml.Node
