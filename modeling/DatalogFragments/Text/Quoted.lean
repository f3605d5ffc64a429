import DatalogFragments.Number.Decimal
import DatalogFragments.Text.Hexadecimal
import DatalogFragments.Text.Printable

/-!
# Quoted text

Text and octets are shown between quotation marks. Single marks are used, unless the content
has a single mark and no double one. Printable characters stand for themselves; the mark in use
and the backslash are escaped, and every other character is written by its code.

## Main definitions

* `quotedText`: a text between quotation marks;
* `quotedBytes`: octets between quotation marks.
-/

namespace DatalogFragments

/-- A backslash, a letter and a code of the given width. -/
def codeEscape (letter : Char) (width n : Nat) : List Char :=
  '\\' :: letter :: hexDigits width n

/-- The quotation mark for a content. -/
def quoteMark (hasSingle hasDouble : Bool) : Char :=
  if hasSingle && !hasDouble then '"' else '\''

/-- How a character is written between the given marks. -/
def quotedChar (mark c : Char) : List Char :=
  if c = mark ∨ c = '\\' then ['\\', c]
  else if c = '\n' then ['\\', 'n']
  else if c = '\r' then ['\\', 'r']
  else if c = '\t' then ['\\', 't']
  else if isPrintable c then [c]
  else if c.toNat < 0x100 then codeEscape 'x' 2 c.toNat
  else if c.toNat < 0x10000 then codeEscape 'u' 4 c.toNat
  else codeEscape 'U' 8 c.toNat

/-- A text between quotation marks. -/
def quotedText (s : String) : String :=
  let cs := s.toList
  let mark := quoteMark (cs.contains '\'') (cs.contains '"')
  String.ofList (mark :: (cs.flatMap (quotedChar mark) ++ [mark]))

/-- How an octet is written between the given marks. -/
def quotedByte (mark : Char) (b : UInt8) : List Char :=
  let c := Char.ofNat b.toNat
  if c = mark ∨ c = '\\' then ['\\', c]
  else if c = '\n' then ['\\', 'n']
  else if c = '\r' then ['\\', 'r']
  else if c = '\t' then ['\\', 't']
  else if 0x20 ≤ b.toNat ∧ b.toNat < 0x7F then [c]
  else codeEscape 'x' 2 b.toNat

/-- Octets between quotation marks, with a letter in front. -/
def quotedBytes (octets : List UInt8) : String :=
  let mark := quoteMark (octets.contains 39) (octets.contains 34)
  String.ofList ('b' :: mark :: (octets.flatMap (quotedByte mark) ++ [mark]))

end DatalogFragments
