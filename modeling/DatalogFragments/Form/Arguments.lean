import DatalogFragments.Form

/-!
# Arguments of binding forms

The shape of an argument is checked when it is bound. A collection form takes any collection, a
tuple form one of its own arity. Elements are inspected in lists and tuples; a one-pass source
is taken as it is, and so are the members of a set, which have no positions.

## Main definitions

* `Form.checkArgument`: refuses an argument that does not have the shape of a form.
-/

namespace DatalogFragments

namespace Value

/-- Whether the value is a collection: text, octets and mappings are not. -/
def isCollection : Value → Bool
  | .list _ | .tuple _ | .set _ | .frozenSet _ | .stream _ => true
  | _ => false

/-- The elements of a list or tuple. -/
def positions? : Value → Option (List Value)
  | .list xs | .tuple xs => some xs
  | _ => none

/-- The number of members of a collection, unless it is a one-pass source. -/
def size? : Value → Option Nat
  | .list xs | .tuple xs | .set xs | .frozenSet xs => some xs.length
  | _ => none

end Value

namespace Form

mutual

/-- Refuses an argument that does not have the shape of the form. -/
def checkArgument : Form → Value → Except Fault Unit
  | .sym _, _ => .ok ()
  | .stray _, _ => .ok ()
  | .coll f, v =>
    if !v.isCollection then
      refuse (.collectionExpected (render (.coll f)) v) ((symbols f).map .ofName) []
    else if f.isSymbol then .ok ()
    else (v.positions?.getD []).forM (checkArgument f)
  | .tup fs, v =>
    if !v.isCollection then
      refuse (.sequenceExpected (render (.tup fs)) v) ((symbolsOf fs).map .ofName) []
    else if v.size?.any (· != fs.length) then
      refuse (.arityMismatch fs.length (v.size?.getD 0)) ((symbolsOf fs).map .ofName) []
    else checkArguments fs (v.positions?.getD [])

/-- Checks arguments against forms position by position. -/
def checkArguments : List Form → List Value → Except Fault Unit
  | [], _ => .ok ()
  | f :: fs, vs =>
    match vs with
    | [] => .ok ()
    | v :: vs => do
      checkArgument f v
      checkArguments fs vs

end

end Form

end DatalogFragments
