import DatalogFragments.Fragment.Renaming

/-!
# Disjunctions of fragments

Bound fragments are merged into a single fragment whose only clause is

    (or-join [[required …] provided …] arm …)

with one arm per branch. Within an arm the bindings of the branch become
`[(ground value) form]` clauses in front of its own clauses, and its private variables are
renamed so that no arm shares one with another arm. The result is locked: its bindings live
inside the clause.

## Main definitions

* `Branch`: what is offered as a branch;
* `branchArm`: a branch as an arm;
* `disjunctionHeader`: required and provided variables of the header;
* `disjunction`: the merged fragment.
-/

namespace DatalogFragments

/-- What is offered as a branch of a disjunction. -/
inductive Branch where
  | fragment (f : Fragment)
  | other (v : Value)

/-! ## Admissible branches -/

/-- Stops with a failure about the branch at an index. -/
def refuseBranch (index : Nat) (f : Fragment) (cause : Cause) (unmet : List Name) :
    Except Fault Unit :=
  .error (.failure
    { cause
      fragment := some f.snapshot
      unmet := unmet.map .ofName
      context := [(.text "branch_index", .int index)] })

/-- Provided symbols that neither occur in the clauses nor are bound. -/
def escapingSymbols (f : Fragment) : List Name :=
  f.provide.filter fun s => !s.isIn f.freeSymbols && !s.isIn f.letSymbols

/--
Refuses a fragment with unbound must-let variables, with specials that it provides or binds,
or with provided variables that it never binds.
-/
def checkBranch (index : Nat) (f : Fragment) : Except Fault Unit :=
  match f.unboundMustLet with
  | _ :: _ => refuseBranch index f (.branchUnbound f.name) f.unboundMustLet
  | [] =>
    match (f.provide ++ f.letSymbols).filter Symbol.isSpecial with
    | s :: ss => refuseBranch index f (.branchSpecials f.name) (distinctNames (s :: ss))
    | [] =>
      match escapingSymbols f with
      | [] => .ok ()
      | escaping => refuseBranch index f (.branchEscapes f.name) escaping

/-- The fragments among branches; anything else is refused, as is an inadmissible fragment. -/
def admittedBranches : Nat → List Branch → Except Fault (List Fragment)
  | _, [] => .ok []
  | index, .other v :: _ =>
    refuse (.branchNotFragment index v) [] [(.text "branch_index", .int index)]
  | index, .fragment f :: rest => do
    checkBranch index f
    let fs ← admittedBranches (index + 1) rest
    return f :: fs

/-! ## Arms -/

/-- A binding as a clause. -/
def groundClause (form : Form) (value : Value) : Clause :=
  .vector [.sequence [.named "ground", .literal value], form.render]

/-- The fresh names for an arm, and the taken names afterwards. -/
def armRenaming (index : Int) (f : Fragment) (taken : List String) : Renaming × List String :=
  f.privateRenaming (fun _ name => armBase name index) taken

/-- Bindings and clauses of a branch, under the renaming of its arm. -/
def armClauses (f : Fragment) (r : Renaming) : Except Fault (List Clause) := do
  let clauses ← r.renameClauses f.clauses
  return (r.renameLets f.lets).map (fun pair => groundClause pair.1 pair.2) ++ clauses

/-- Several clauses as one. -/
def joinedClause : List Clause → Clause
  | [c] => c
  | cs => .sequence (.named "and" :: cs)

/-- A branch as an arm, and the taken names afterwards. -/
def branchArm (index : Int) (f : Fragment) (taken : List String) :
    Except Fault (Clause × List String) := do
  let (r, taken) := armRenaming index f taken
  let clauses ← armClauses f r
  return (joinedClause clauses, taken)

/-- Branches as arms, counted from an index. -/
def branchArms (index : Nat) (taken : List String) : List Fragment → Except Fault (List Clause)
  | [] => .ok []
  | f :: rest => do
    let (arm, taken) ← branchArm index f taken
    let arms ← branchArms (index + 1) taken rest
    return arm :: arms

/-! ## Header and result -/

/-- Required variables of branches, and provided symbols that no branch requires. -/
def disjunctionHeader (branches : List Fragment) : List Name × List Name :=
  let required := distinctNames ((branches.flatMap Fragment.require).filter Symbol.isVariable)
  let provided := distinctNames
    ((branches.flatMap Fragment.provide).filter fun s => !s.isIn required)
  (required, provided)

/-- The header as a clause: required variables stand in a vector of their own. -/
def headerClause (required provided : List Name) : Clause :=
  let group := if required.isEmpty then [] else [Term.vector (required.map Term.sym)]
  .vector (group ++ provided.map Term.sym)

/-- The names of branches as they appear in the name of the disjunction. -/
def branchNames (branches : List Fragment) : Except Fault (List String) :=
  branches.mapM fun f =>
    match f.name with
    | .null => .ok "_"
    | .text s => .ok s
    | _ => .error .wrongShape

/-- Merges bound fragments into one locked fragment. -/
def disjunction (branches : List Branch) : Except Fault Fragment := do
  if branches.isEmpty then refuse .noBranches [] [] else
  let fragments ← admittedBranches 0 branches
  let (required, provided) := disjunctionHeader fragments
  if required.isEmpty && provided.isEmpty then
    refuse .nothingExposed [] [(.text "branches", .list (fragments.map Fragment.label))] else
  let arms ← branchArms 0 (usedNames fragments) fragments
  let clause := Term.sequence (.named "or-join" :: headerClause required provided :: arms)
  let names ← branchNames fragments
  let require := distinctNames (fragments.flatMap Fragment.require)
  Fragment.ofConfig
    { clauses := [.term clause]
      name := .text ("or(" ++ joinTexts " " names ++ ")")
      provide := provided.map .ofName
      require := require.map .ofName
      locked := .bool true }

end DatalogFragments
