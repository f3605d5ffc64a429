import DatalogFragments.Form
import DatalogFragments.Listing
import DatalogFragments.Term.Symbols
import DatalogFragments.Value.Equality

/-!
# Fragments

A fragment is one independently authored piece of a query. It contributes clauses, provides
symbols for unification by other fragments, requires symbols that some other fragment has to
provide, and carries its own arguments. All its other variables are private.

Every symbol of a fragment has one role, in this order of precedence: *provide*, *require*,
*let*, *owned*.

## Main definitions

* `Fragment`: the parts of a fragment;
* `Fragment.freeSymbols`, `bindableSymbols`, `privateSymbols`, …: the derived classification;
* `Fragment.roles`: the role of every symbol;
* `usedNames`: every name that occurs in fragments.
-/

namespace DatalogFragments

/--
One piece of a query. The name is `null` for an unnamed fragment, and any value but null, zero
or an empty one in `locked` locks it.
-/
structure Fragment where
  name : Value := .null
  clauses : List Clause := []
  provide : List Name := []
  require : List Name := []
  lets : List (Form × Value) := []
  mustLet : List Name := []
  selectivity : Int := 0
  locked : Value := .bool false
  extra : Entries := []

/-- What a symbol is to a fragment. -/
inductive Role where
  | provide | require | bound | owned
  deriving DecidableEq, Repr

/-- The word for a role. -/
def Role.word : Role → String
  | .provide => "provide"
  | .require => "require"
  | .bound => "let"
  | .owned => "owned"

/-- Whether a symbol of that name is in the list. -/
def Symbol.isIn (s : Name) (names : List Name) : Bool :=
  names.any fun t => t.name == s.name

/-- Symbols by name, each once, in the order of their first occurrence. -/
def distinctNames (names : List Name) : List Name := firstsBy Symbol.name names

namespace Fragment

/-- Whether the bindings are frozen. -/
def isLocked (f : Fragment) : Bool := f.locked.isTruthy

/-- The name shown for the fragment. -/
def label (f : Fragment) : Value :=
  match f.name with
  | .null => .text "<unnamed>"
  | name => name

/-- Variables and specials of the clauses, in the order of their first occurrence. -/
def freeSymbols (f : Fragment) : List Name :=
  (Term.firstSymbols f.clauses).filter Symbol.isDeclarable

/-- The symbols that can be bound here: free or provided, and not required. -/
def bindableSymbols (f : Fragment) : List Name :=
  (distinctNames (f.freeSymbols ++ f.provide)).filter fun s => !s.isIn f.require

/-- The symbols that the bindings bind. -/
def letSymbols (f : Fragment) : List Name := f.lets.flatMap fun pair => pair.1.symbols

/-- The role of a symbol. -/
def roleOf (f : Fragment) (s : Name) : Role :=
  if s.isIn f.provide then .provide
  else if s.isIn f.require then .require
  else if s.isIn f.letSymbols then .bound
  else .owned

/-- The role of every symbol of the fragment. -/
def roles (f : Fragment) : List (Name × Role) :=
  (distinctNames (f.freeSymbols ++ f.provide ++ f.require ++ f.letSymbols)).map fun s =>
    (s, f.roleOf s)

/-- Free symbols that are neither exposed nor bound. -/
def ownedSymbols (f : Fragment) : List Name :=
  f.freeSymbols.filter fun s => f.roleOf s == .owned

/-- Variables of the fragment that it does not expose. -/
def privateSymbols (f : Fragment) : List Name :=
  (distinctNames (f.freeSymbols ++ f.letSymbols)).filter fun s =>
    s.isVariable && !s.isIn f.provide && !s.isIn f.require

/-- Must-let variables without a binding. -/
def unboundMustLet (f : Fragment) : List Name :=
  f.mustLet.filter fun s => !s.isIn f.letSymbols

/-- Every symbol that occurs in the fragment or is declared by it. -/
def usedSymbols (f : Fragment) : List Name :=
  Term.symbolsOf f.clauses ++ f.provide ++ f.require ++ f.mustLet ++ f.letSymbols

/-- Equality of fragments, part by part. -/
def same (f g : Fragment) : Bool :=
  f.name.same g.name
    && Value.sameTerms f.clauses g.clauses
    && f.provide.map Symbol.name == g.provide.map Symbol.name
    && f.require.map Symbol.name == g.require.map Symbol.name
    && Value.sameItems (f.lets.map fun p => p.1.toValue) (g.lets.map fun p => p.1.toValue)
    && Value.sameItems (f.lets.map Prod.snd) (g.lets.map Prod.snd)
    && f.mustLet.map Symbol.name == g.mustLet.map Symbol.name
    && f.selectivity == g.selectivity
    && f.locked.same g.locked
    && (Value.mapping f.extra).same (.mapping g.extra)

end Fragment

/-- Every name that occurs in, or is declared by, fragments. -/
def usedNames (fragments : List Fragment) : List String :=
  firstsBy id ((fragments.flatMap Fragment.usedSymbols).map Symbol.name)

end DatalogFragments
