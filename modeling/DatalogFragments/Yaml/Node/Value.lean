import DatalogFragments.Value.Order
import DatalogFragments.Yaml.Node
import DatalogFragments.Yaml.Scalar

/-!
# Nodes and values

A mapping takes over the entries of the mappings under the key `<<`; its own entries, and those
of mappings that come first, count more. In the other direction, entries are put into the order
of their keys where the keys have one, and tuples become sequences.

## Main definitions

* `Node.toValue`: the value that a node stands for;
* `Node.ofValue`: the node for a value.
-/

namespace DatalogFragments.Yaml.Node

/-! ## From nodes to values -/

/-- Entries that a mapping takes over, and its own ones. -/
structure Entries where
  taken : DatalogFragments.Entries := []
  own : DatalogFragments.Entries := []

/-- All entries; the own ones count more. -/
def Entries.all (es : Entries) : DatalogFragments.Entries := es.taken ++ es.own

/-- The pairs of a list in which every value is a mapping with one entry. -/
def singlePairs : List (Option DatalogFragments.Entries) → Except Fault (List Value)
  | [] => .ok []
  | some [(k, v)] :: rest => do
    let pairs ← singlePairs rest
    return .tuple [k, v] :: pairs
  | _ :: _ => malformed

/-- A mapping or the set of its keys, from its entries. -/
def collected (tag : Tag) (es : DatalogFragments.Entries) : Except Fault Value :=
  match tag with
  | .mapping => .ok (.mapping (Value.entriesOf es))
  | .set => .ok (.set (Value.membersOf (es.map Prod.fst)))
  | _ => malformed

mutual

/-- The value that a node stands for. -/
def toValue : Node → Except Fault Value
  | .scalar tag text => scalarValue tag text
  | .sequence tag items =>
    match tag with
    | .list => do
      let values ← toValues items
      return .list values
    | .orderedMapping | .pairs => do
      let entries ← entriesOfEach items
      let pairs ← singlePairs entries
      return .list pairs
    | _ => malformed
  | .mapping tag entries =>
    match tag with
    | .mapping | .set => do
      let es ← entriesOf entries
      collected tag es.all
    | _ => do
      let text ← defaultText entries
      scalarValue tag text

/-- The values that nodes stand for. -/
def toValues : List Node → Except Fault (List Value)
  | [] => .ok []
  | n :: ns => do
    let v ← toValue n
    let vs ← toValues ns
    return v :: vs

/-- The entries of a mapping, with those that it takes over. -/
def entriesOf : List (Node × Node) → Except Fault Entries
  | [] => .ok {}
  | (key, value) :: rest => do
    if key.tag = .merge then
      let taken ← takenOver value
      let es ← entriesOf rest
      return { es with taken := taken ++ es.taken }
    else
      let k ← keyValue key
      let v ← toValue value
      let es ← entriesOf rest
      return { es with own := (k, v) :: es.own }

/-- The value of a key, which is no collection; the key for the default is a text. -/
def keyValue : Node → Except Fault Value
  | .scalar .default text => .ok (.text text)
  | .scalar tag text => scalarValue tag text
  | .sequence .. => malformed
  | .mapping tag entries =>
    match tag with
    | .mapping | .set => malformed
    | _ => do
      let text ← defaultText entries
      scalarValue tag text

/-- The entries of a mapping, or of several of which the first counts most. -/
def takenOver : Node → Except Fault DatalogFragments.Entries
  | .mapping _ entries => do
    let es ← entriesOf entries
    return es.all
  | .sequence _ items => do
    let lists ← mergedEach items
    return lists
  | .scalar .. => malformed

/-- The entries of mappings, those of the last one first. -/
def mergedEach : List Node → Except Fault DatalogFragments.Entries
  | [] => .ok []
  | .mapping _ entries :: rest => do
    let es ← entriesOf entries
    let later ← mergedEach rest
    return later ++ es.all
  | _ :: _ => malformed

/-- The entries of every node that is a mapping; each key and value counts once. -/
def entriesOfEach : List Node → Except Fault (List (Option DatalogFragments.Entries))
  | [] => .ok []
  | .mapping _ entries :: rest => do
    let es ← plainEntries entries
    let more ← entriesOfEach rest
    return some es :: more
  | _ :: rest => do
    let more ← entriesOfEach rest
    return none :: more

/-- The entries of a mapping as they are written. -/
def plainEntries : List (Node × Node) → Except Fault DatalogFragments.Entries
  | [] => .ok []
  | (key, value) :: rest => do
    let k ← toValue key
    let v ← toValue value
    let es ← plainEntries rest
    return (k, v) :: es

/-- The text of the scalar under the default key. -/
def defaultText : List (Node × Node) → Except Fault String
  | [] => malformed
  | (key, value) :: rest =>
    if key.tag = .default then
      match value with
      | .scalar _ text => .ok text
      | .mapping _ entries => defaultText entries
      | .sequence .. => malformed
    else defaultText rest

end

/-! ## From values to nodes -/

/-- The text of a floating-point number: it has a point, and words for what is no number. -/
def floatText : Binary64 → String
  | .nan => ".nan"
  | .infinite negative => if negative then "-.inf" else ".inf"
  | x =>
    let cs := x.text.toList
    if cs.contains '.' then x.text
    else
      let (mantissa, exponent) := cs.span (· != 'e')
      String.ofList (mantissa ++ ['.', '0'] ++ exponent)

/-- Nodes of entries in the order of their keys, which stand in front, if they have one. -/
def inOrder (entries : List (Value × Node × Node)) : List (Node × Node) :=
  ((Value.sortedByKey? Prod.fst entries).getD entries).map Prod.snd

mutual

/-- The node for a value; only plain data has one. -/
def ofValue : Value → Except Fault Node
  | .null => .ok (.scalar .null "null")
  | .bool b => .ok (.scalar .bool (if b then "true" else "false"))
  | .int i => .ok (.scalar .int (intText i))
  | .float x => .ok (.scalar .float (floatText x))
  | .text s => .ok (.scalar .text s)
  | .bytes bs => .ok (.scalar .bytes (String.ofList (Base64.encode bs)))
  | .date d => .ok (.scalar .timestamp d.iso)
  | .moment m => .ok (.scalar .timestamp (m.iso " "))
  | .list xs => do
    let items ← ofValues xs
    return .sequence .list items
  | .tuple xs => do
    let items ← ofValues xs
    return .sequence .list items
  | .mapping es => do
    let entries ← ofEntries es
    return .mapping .mapping (inOrder entries)
  | .set xs => do
    let entries ← ofMembers xs
    return .mapping .set (inOrder entries)
  | _ => malformed

/-- The nodes for values. -/
def ofValues : List Value → Except Fault (List Node)
  | [] => .ok []
  | v :: vs => do
    let n ← ofValue v
    let ns ← ofValues vs
    return n :: ns

/-- The nodes for entries, with the keys. -/
def ofEntries : List (Value × Value) → Except Fault (List (Value × Node × Node))
  | [] => .ok []
  | (k, v) :: rest => do
    let key ← ofValue k
    let value ← ofValue v
    let entries ← ofEntries rest
    return (k, key, value) :: entries

/-- The nodes for members of a set, which are keys without a value. -/
def ofMembers : List Value → Except Fault (List (Value × Node × Node))
  | [] => .ok []
  | v :: vs => do
    let key ← ofValue v
    let entries ← ofMembers vs
    return (v, key, .scalar .null "null") :: entries

end

end DatalogFragments.Yaml.Node
