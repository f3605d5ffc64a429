import DatalogFragments.Term.Symbols
import DatalogFragments.Value.Entries
import DatalogFragments.Value.Identity

/-!
# Walks over clauses

A walk applies a function to every node, items before the composite that holds them, and
rebuilds the composites. Display information survives: what the function returns gets the
information of the node it was given, with its own entries over it. A walk stops where
information would have to be handed on that has no entries.

## Main definitions

* `Term.inherit`: hands on display information;
* `Term.postwalk`: the walk;
* `Term.substitute`: replaces symbols, all at once.
-/

namespace DatalogFragments

namespace Value

/-- The entries that an outcome brings along; no or empty display information brings none. -/
def broughtAlong : Option Value → Except Fault Entries
  | some own => if own.isTruthy then own.asEntries else .ok []
  | none => .ok []

/--
The display information of an outcome: that of the node, with its own entries over it. Where the
node has none, or the outcome has the very information of the node, it stays as it is. A value
has no identity of its own, so information with the same parts is taken to be the very one.
-/
def inheritInfo (given own : Option Value) : Except Fault (Option Value) :=
  match given with
  | none => .ok own
  | some info =>
    if own = some info then .ok own
    else do
      let entries ← info.asEntries
      let added ← broughtAlong own
      return some (.mapping (overlaid entries added))

end Value

namespace Term

/--
Hands the display information of a node on to what the node became. An item that is no term
takes none; nor has it any to hand on to a term.
-/
def inherit (node result : Clause) : Except Fault Clause :=
  match result, node with
  | .stray v, _ => .ok (.stray v)
  | _, .stray _ => .error .notMapping
  | _, _ => do return result.withInfo (← Value.inheritInfo node.info? result.info?)

theorem inherit_sym (s r : Name) :
    inherit (.sym s) (.sym r) = do return .sym ⟨r.name, ← Value.inheritInfo s.info r.info⟩ :=
  rfl

mutual

/-- Applies a function to every node, from the leaves up, and keeps display information. -/
def postwalk (fn : Clause → Clause) : Clause → Except Fault Clause
  | .sym s => inherit (.sym s) (fn (.sym s))
  | .seq xs i => do inherit (.seq xs i) (fn (.seq (← postwalkAll fn xs) i))
  | .vec xs i => do inherit (.vec xs i) (fn (.vec (← postwalkAll fn xs) i))
  | .lit v i => inherit (.lit v i) (fn (.lit v i))
  | .stray v => inherit (.stray v) (fn (.stray v))

/-- Walks every item. -/
def postwalkAll (fn : Clause → Clause) : List Clause → Except Fault (List Clause)
  | [] => .ok []
  | t :: ts => do return (← postwalk fn t) :: (← postwalkAll fn ts)

end

theorem postwalkAll_eq_mapM (fn : Clause → Clause) (ts : List Clause) :
    postwalkAll fn ts = ts.mapM (postwalk fn) := by
  induction ts with
  | nil => rfl
  | cons t ts ih => rw [postwalkAll, ih, List.mapM_cons]

/-! ## Substitution -/

mutual

/--
Replaces every symbol that the map knows. A replacement is not looked at again, and it
inherits the display information of the node it stands for. Literals are left as they are.
-/
def substitute (m : String → Option Clause) : Clause → Except Fault Clause
  | .sym s =>
    match m s.name with
    | some t => inherit (.sym s) t
    | none => .ok (.sym s)
  | .seq xs i => do return .seq (← substituteAll m xs) i
  | .vec xs i => do return .vec (← substituteAll m xs) i
  | .lit v i => .ok (.lit v i)
  | .stray v => .ok (.stray v)

/-- Replaces symbols in every term. -/
def substituteAll (m : String → Option Clause) : List Clause → Except Fault (List Clause)
  | [] => .ok []
  | t :: ts => do return (← substitute m t) :: (← substituteAll m ts)

end

theorem substituteAll_eq_mapM (m : String → Option Clause) (ts : List Clause) :
    substituteAll m ts = ts.mapM (substitute m) := by
  induction ts with
  | nil => rfl
  | cons t ts ih => rw [substituteAll, ih, List.mapM_cons]

end Term

end DatalogFragments
