import DatalogFragments.Term.Symbols
import DatalogFragments.Value

/-!
# Specials implied by clauses

A positional data pattern asks the default datasource, and a rule invocation uses the default
ruleset, unless an explicit datasource or ruleset stands in front. The nested forms `not`,
`or` and `and` hand on what their clauses imply; the join forms do so after their header. A
clause whose first item is an expression implies nothing.

## Main definitions

* `Term.impliedSpecials`: the specials that a list of clauses implies, in order;
* `Term.misnamedHead?`: a symbol without a text name that stands where a name is needed.
-/

namespace DatalogFragments.Term

/-- Forms whose items are all clauses. -/
def nestedForms : List String := ["not", "or", "and"]

/-- Forms whose items are clauses after a header. -/
def joinForms : List String := ["not-join", "or-join"]

/-- The specials implied by a pattern with the given items. -/
def patternSpecials (explicitSource : Bool) : List Clause → List String
  | [] => []
  | .seq .. :: _ => []
  | .stray .null :: _ => []
  | .sym s :: _ => if s.isDatasource || explicitSource then [] else [defaultDatasource]
  | _ :: _ => if explicitSource then [] else [defaultDatasource]

mutual

/-- The specials implied by a clause; `explicitSource` tells that a datasource was named. -/
def clauseSpecials (explicitSource : Bool) : Clause → List String
  | .vec xs _ => patternSpecials explicitSource xs
  | .seq xs _ => callSpecials explicitSource true xs
  | .sym _ | .lit .. | .stray _ => []

/-- The specials implied by a call; a datasource in first place is taken as named. -/
def callSpecials (explicitSource atStart : Bool) : List Clause → List String
  | .sym s :: rest =>
    if atStart && s.isDatasource then callSpecials true false rest
    else if s.isRuleset then []
    else if nestedForms.contains s.name then bodySpecials explicitSource rest
    else if joinForms.contains s.name then joinSpecials explicitSource rest
    else [defaultRuleset]
  | _ => []

/-- The specials implied by the clauses after the header of a join form. -/
def joinSpecials (explicitSource : Bool) : List Clause → List String
  | [] => []
  | _ :: body => bodySpecials explicitSource body

/-- The specials implied by clauses, with repetitions. -/
def bodySpecials (explicitSource : Bool) : List Clause → List String
  | [] => []
  | t :: ts => clauseSpecials explicitSource t ++ bodySpecials explicitSource ts

end

/-- The specials that a list of clauses implies, in the order of their first occurrence. -/
def impliedSpecials (clauses : List Clause) : List String :=
  firstsBy id (bodySpecials false clauses)

/-! ## Names that are no text -/

/-- The name of a symbol whose name is no text. -/
def misnamed? : Clause → Option Value
  | .stray (.misnamed n _) => some n
  | _ => none

mutual

/-- The first symbol without a text name that the search for specials comes across. -/
def misnamedHead? : Clause → Option Value
  | .vec xs _ => xs.head?.bind misnamed?
  | .seq xs _ => misnamedCall? true xs
  | .sym _ | .lit .. | .stray _ => none

/-- The same within a call. -/
def misnamedCall? (atStart : Bool) : List Clause → Option Value
  | .stray (.misnamed n _) :: _ => some n
  | .sym s :: rest =>
    if atStart && s.isDatasource then misnamedCall? false rest
    else if s.isRuleset then none
    else if nestedForms.contains s.name then misnamedBody? rest
    else if joinForms.contains s.name then misnamedJoin? rest
    else none
  | _ => none

/-- The same after the header of a join form. -/
def misnamedJoin? : List Clause → Option Value
  | [] => none
  | _ :: body => misnamedBody? body

/-- The same in a list of clauses. -/
def misnamedBody? : List Clause → Option Value
  | [] => none
  | t :: ts => (misnamedHead? t).or (misnamedBody? ts)

end

mutual

/-- The names of all symbols of a clause whose names are no text. -/
def misnamedNames : Clause → List Value
  | .stray (.misnamed n _) => [n]
  | .seq xs _ => misnamedNamesOf xs
  | .vec xs _ => misnamedNamesOf xs
  | .sym _ | .lit .. | .stray _ => []

/-- The same for clauses. -/
def misnamedNamesOf : List Clause → List Value
  | [] => []
  | t :: ts => misnamedNames t ++ misnamedNamesOf ts

end

end DatalogFragments.Term
