import DatalogFragments.Fragment.Construction
import DatalogFragments.FreshName
import DatalogFragments.Term.Walk

/-!
# Renaming of private variables

The private variables of a fragment are renamed to fresh names, so that they never unify with
variables of another fragment. The new names have no display information: every occurrence
keeps its own.

## Main definitions

* `Renaming`: old names with their new ones;
* `Fragment.privateRenaming`: fresh names for the private variables of a fragment;
* `Fragment.renamePrivate`: the fragment under the renaming for its position in a query.
-/

namespace DatalogFragments

/-- Old names, each with its new one. -/
abbrev Renaming := List (String × String)

namespace Renaming

/-- The renaming as a replacement of symbols in clauses. -/
def clauseMap (r : Renaming) (name : String) : Option Clause :=
  (r.lookup name).map Term.named

/-- The renaming as a replacement of symbols in binding forms. -/
def formMap (r : Renaming) (name : String) : Option Form :=
  (r.lookup name).map fun new => .sym (Symbol.plain new)

/-- A symbol under the renaming. -/
def rename (r : Renaming) (s : Name) : Name :=
  match r.lookup s.name with
  | some new => Symbol.plain new
  | none => s

/-- A name under the renaming. -/
def renameText (r : Renaming) (name : String) : String := (r.lookup name).getD name

/-- Clauses under the renaming. -/
def renameClauses (r : Renaming) (clauses : List Clause) : Except Fault (List Clause) :=
  clauses.mapM (Term.substitute r.clauseMap)

/-- Bindings under the renaming; arguments stay as they are. -/
def renameLets (r : Renaming) (lets : List (Form × Value)) : List (Form × Value) :=
  lets.map fun pair => (pair.1.substitute r.formMap, pair.2)

end Renaming

namespace Fragment

/--
Fresh names for the private variables in order, and the taken names afterwards. The base for a
new name is made from the position of the variable and its name.
-/
def privateRenaming (f : Fragment) (base : Nat → String → String) (taken : List String) :
    Renaming × List String :=
  let names := f.privateSymbols.map Symbol.name
  let (new, taken) := freshNames (names.mapIdx base) taken
  (names.zip new, taken)

/-- The fragment with its private variables renamed. -/
def underRenaming (f : Fragment) (r : Renaming) : Except Fault Fragment := do
  let clauses ← r.renameClauses f.clauses
  return { f with
    clauses
    lets := r.renameLets f.lets
    mustLet := f.mustLet.map r.rename }

/-- The fresh names for a position in a query, and the taken names afterwards. -/
def sliceRenaming (f : Fragment) (slice : Int) (taken : List String) : Renaming × List String :=
  f.privateRenaming (fun position name => privateBase name slice position) taken

/--
Renames the private variables for a position in a query. Fresh names avoid the taken names
and are added to them.
-/
def renamePrivate (f : Fragment) (slice : Int) (taken : List String) :
    Except Fault (Fragment × List String) := do
  let (r, taken) := f.sliceRenaming slice taken
  if r.isEmpty then return (f, taken)
  let g ← f.underRenaming r
  let g ← g.checked
  return (g, taken)

end Fragment

end DatalogFragments
