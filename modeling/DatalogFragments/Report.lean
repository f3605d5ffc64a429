import DatalogFragments.Query
import DatalogFragments.Term.Metrics

/-!
# Reports on lists of fragments

A report lists everything that is notable about a list of fragments at once: what is provided
and by whom, requirements and must-let variables with a gap, names of private variables that
several fragments use, the size of the clauses, and warnings. It refuses nothing.

## Main definitions

* `Report`: the findings; tables are in the order of first entry, sets in code-point order;
* `Report.ofSlices`: the report on a list of fragments.
-/

namespace DatalogFragments

/-- Texts with a list of texts each, in the order of first entry. -/
abbrev Table := List (String × List String)

/-- Appends an item to the row of a key; a new row comes last. -/
def Table.append (key item : String) : Table → Table
  | [] => [(key, [item])]
  | (k, items) :: rest =>
    if k = key then (k, items ++ [item]) :: rest else (k, items) :: Table.append key item rest

/-- Sets the row of a key, in the place of an earlier row of that key; a new row comes last. -/
def Table.put (key : String) (items : List String) : Table → Table
  | [] => [(key, items)]
  | (k, old) :: rest =>
    if k = key then (k, items) :: rest else (k, old) :: Table.put key items rest

/-- The table that setting rows one after the other leaves. -/
def Table.ofRows (rows : List (String × List String)) : Table :=
  rows.foldl (fun table row => table.put row.1 row.2) []

/-- The findings on a list of fragments. -/
structure Report where
  totalSlices : Nat := 0
  totalClauses : Nat := 0
  totalParameters : Nat := 0
  lockedSlices : Nat := 0
  providedBy : Table := []
  unsatisfied : Table := []
  unboundMustLet : Table := []
  unusedProvides : List String := []
  ownedVars : Table := []
  sharedPrivateNames : List String := []
  maxClauseDepth : Nat := 0
  avgClauseDepth : Binary64 := .zero false
  totalTermNodes : Nat := 0
  warnings : List String := []

namespace Report

/-- Adds a warning unless it is there. -/
def addWarning (message : String) (r : Report) : Report :=
  if r.warnings.contains message then r else { r with warnings := r.warnings ++ [message] }

/-- The label of a fragment in a list: its index and its name. -/
def sliceLabel (index : Nat) (f : Fragment) : String :=
  intText index ++ ":" ++ f.name.labelText

/-- The fragments of a list with their labels. -/
def labelled (slices : List Fragment) : List (String × Fragment) :=
  slices.zipIdx.map fun (f, index) => (sliceLabel index f, f)

/-- Every provided name with the labels of the fragments that provide it. -/
def providersOf (slices : List Fragment) : Table :=
  (labelled slices).foldl
    (fun table (label, f) =>
      f.provide.foldl (fun table s => Table.append s.name label table) table)
    []

/-- The row of a fragment with a list of names. -/
def sliceRow (index : Nat) (f : Fragment) (names : List Name) : String × List String :=
  (sliceLabel index f, names.map Symbol.name)

/-- The rows of fragments for which a list of names is not empty. -/
def gapsOf (slices : List Fragment) (gaps : Nat → Fragment → List Name) : Table :=
  .ofRows (slices.zipIdx.filterMap fun (f, index) =>
    match gaps index f with
    | [] => none
    | names => some (sliceRow index f names))

/-- The owned variables of every fragment. -/
def ownedOf (slices : List Fragment) : Table :=
  .ofRows (slices.zipIdx.map fun (f, index) => sliceRow index f f.ownedSymbols)

/-- Provided names that no fragment requires, in code-point order. -/
def unusedOf (slices : List Fragment) : List String :=
  let required := slices.flatMap Fragment.require
  let unused := (slices.flatMap Fragment.provide).filter fun s => !s.isIn required
  sortTexts (firstsBy id (unused.map Symbol.name))

/-- Names that are private to more than one fragment, in code-point order. -/
def sharedOf (slices : List Fragment) : List String :=
  let names := slices.flatMap fun f => f.privateSymbols.map Symbol.name
  sortTexts ((firstsBy id names).filter fun n => 1 < names.count n)

/-- Names that more than one fragment has; they have to be texts. -/
def duplicateNames (slices : List Fragment) : Except Fault (List String) := do
  let names := (slices.map Fragment.name).filter fun n =>
    match n with
    | .null => false
    | _ => true
  let duplicates := names.filter fun n => 1 < (names.filter n.same).length
  let texts ← duplicates.mapM fun n =>
    match n with
    | .text s => .ok s
    | _ => .error Fault.wrongShape
  return sortTexts (firstsBy id texts)

/-- The warning for a row of names. -/
def rowWarning (what : String) (row : String × List String) : String :=
  what ++ " in " ++ row.1 ++ ": " ++ joinTexts ", " row.2

/-- The warnings about gaps, empty fragments, duplicate names and depth. -/
def warningsOf (r : Report) (slices : List Fragment) (duplicates : List String) : List String :=
  r.unsatisfied.map (rowWarning "Unsatisfied requirements")
    ++ r.unboundMustLet.map (rowWarning "Unbound must-let variables")
    ++ (labelled slices).filterMap (fun (label, f) =>
        if f.clauses.isEmpty && f.lets.isEmpty then
          some ("Empty fragment: " ++ label ++ " has no clauses and no bindings")
        else none)
    ++ (if duplicates.isEmpty then []
        else ["Duplicate fragment names: " ++ joinTexts ", " duplicates])
    ++ (if 5 < r.maxClauseDepth then
          ["High clause complexity: max depth " ++ intText r.maxClauseDepth]
        else [])

/-- The findings on a list of fragments, without warnings. -/
def inventory (slices : List Fragment) : Report :=
  let metrics := (slices.flatMap Fragment.clauses).map Term.metrics
  let depths := metrics.map Metrics.depth
  { totalSlices := slices.length
    totalClauses := metrics.length
    totalParameters := total (slices.map fun f => f.lets.length)
    lockedSlices := (slices.filter Fragment.isLocked).length
    providedBy := providersOf slices
    unsatisfied := gapsOf slices (unmetAt slices)
    unboundMustLet := gapsOf slices fun _ f => f.unboundMustLet
    unusedProvides := unusedOf slices
    ownedVars := ownedOf slices
    sharedPrivateNames := sharedOf slices
    maxClauseDepth := depths.foldl max 0
    avgClauseDepth :=
      if depths.isEmpty then .zero false else .ofRatio false (total depths) depths.length
    totalTermNodes := total (metrics.map Metrics.nodes) }

/-- The report on a list of fragments. -/
def ofSlices (slices : List Fragment) : Except Fault Report := do
  let duplicates ← duplicateNames slices
  let report := inventory slices
  return (report.warningsOf slices duplicates).foldl (fun r w => r.addWarning w) report

end Report

end DatalogFragments
