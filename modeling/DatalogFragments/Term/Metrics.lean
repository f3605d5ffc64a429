import DatalogFragments.Term.Symbols
import DatalogFragments.Value

/-!
# Size and depth of clauses

A symbol or a literal is one node of depth zero; a composite is one node deeper than its
deepest item. A missing item counts as nothing. An interpreter's limit on the depth of a
recursion is left out.
-/

namespace DatalogFragments

/-- What the inventory of a clause counts. -/
structure Metrics where
  depth : Nat := 0
  nodes : Nat := 0
  names : List String := []
  deriving DecidableEq, Repr

namespace Metrics

/-- Two inventories side by side. -/
def beside (a b : Metrics) : Metrics where
  depth := max a.depth b.depth
  nodes := a.nodes + b.nodes
  names := firstsBy id (a.names ++ b.names)

/-- A composite around the inventory of its items. -/
def enclosed (items : Metrics) : Metrics :=
  { items with depth := items.depth + 1, nodes := items.nodes + 1 }

end Metrics

namespace Term

mutual

/-- The inventory of a clause. -/
def metrics : Clause → Metrics
  | .sym s => { nodes := 1, names := [s.name] }
  | .seq xs _ => (metricsOf xs).enclosed
  | .vec xs _ => (metricsOf xs).enclosed
  | .lit .. => { nodes := 1 }
  | .stray .null => {}
  | .stray _ => { nodes := 1 }

/-- The inventory of items side by side. -/
def metricsOf : List Clause → Metrics
  | [] => {}
  | t :: ts => (metrics t).beside (metricsOf ts)

end

end Term

end DatalogFragments
