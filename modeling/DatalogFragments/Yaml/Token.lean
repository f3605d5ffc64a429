import DatalogFragments.Failure

/-!
# Tokens of a YAML text

The structure of a text, as a sequence of marks and scalars. Indentation is made explicit: a
block collection has an opening and a closing token, and every key of a mapping is announced.
-/

namespace DatalogFragments.Yaml

/-- An instruction in front of a document. -/
inductive Directive where
  /-- The major version of the notation. -/
  | version (major : Nat)
  /-- An abbreviation for the beginning of tags. -/
  | handle (name replacement : String)
  /-- Anything else; it is ignored. -/
  | reserved

/-- A mark or a scalar. -/
inductive Token where
  | directive (d : Directive)
  | documentStart
  | documentEnd
  | openBlockSequence
  | openBlockMapping
  | closeBlock
  | openSequence
  | closeSequence
  | openMapping
  | closeMapping
  /-- The hyphen in front of an item of a block sequence. -/
  | item
  /-- The comma between items of a flow collection. -/
  | comma
  | key
  | value
  | alias (name : String)
  | anchor (name : String)
  /-- A tag in two parts; the first one is the name of an abbreviation. -/
  | tag (handle : Option String) (suffix : String)
  | scalar (text : String) (isPlain : Bool)

/-- Stops: the text is no YAML document. -/
def malformed {α : Type} : Except Fault α := .error .malformedYaml

end DatalogFragments.Yaml
