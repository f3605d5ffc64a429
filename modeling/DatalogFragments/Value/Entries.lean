import DatalogFragments.Failure
import DatalogFragments.Listing
import DatalogFragments.Value.Equality

/-!
# Values as mappings, lists and keys

Operations that need a value of a certain shape and stop with a fault if it has another one.
-/

namespace DatalogFragments.Value

/-- The pairs that the items of a collection are. -/
def pairsOf : List Value → Except Fault Entries
  | [] => .ok []
  | item :: rest =>
    match item.elements? with
    | none => .error .wrongShape
    | some [k, v] =>
      if k.isKey then do
        let es ← pairsOf rest
        return (k, v) :: es
      else .error .wrongShape
    | some _ => .error .wrongContent

/-- The entries of a mapping, or those that a collection of pairs makes. -/
def asEntries : Value → Except Fault Entries
  | .mapping es => .ok es
  | v =>
    match v.elements? with
    | none => .error .wrongShape
    | some items => do
      let es ← pairsOf items
      return entriesOf es

/-- What an iteration over the value yields. -/
def asElements (v : Value) : Except Fault (List Value) :=
  match v.elements? with
  | some items => .ok items
  | none => .error .wrongShape

/-- The entries of a mapping. -/
def asMapping : Value → Except Fault Entries
  | .mapping es => .ok es
  | _ => .error .notMapping

/-- The values that can be keys, each once; others are refused. -/
def asKeys (values : List Value) : Except Fault (List Value) :=
  if values.all isKey then .ok (firstsBy id values) else .error .wrongShape

end DatalogFragments.Value
