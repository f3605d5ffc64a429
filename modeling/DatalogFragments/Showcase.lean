import DatalogFragments.Catalogue
import DatalogFragments.Document
import DatalogFragments.Report.Text
import DatalogFragments.Yaml

/-!
# A tour of the catalogue

Reports on the fragments of the catalogue, compiles them, and shows the disjunction as a
document. Compiling and merging leave a line each in a log.

## Main definitions

* `Showcase`: what the tour shows, logs and saves;
* `Showcase.tour`: the tour.
-/

namespace DatalogFragments

/-- What a tour shows, logs and saves. -/
structure Showcase where
  shown : String
  log : List String
  /-- The query text, which is saved in a file. -/
  query : String

namespace Showcase

/-- The name of the file that the query text is saved in. -/
def queryFile : String := "example_query_output.edn"

/-- The position of a fragment in a query as it is logged. -/
def orderValue (o : SliceOrder) : Value := .tuple [.int o.index, o.name, .int o.selectivity]

/-- What compiling a query logs. -/
def compiledLine (q : Query) : String :=
  "DEBUG:qslice.compiler:Compiled " ++ intText q.slices.length ++ " slices into "
    ++ intText q.clauses.length ++ " clauses and " ++ intText q.params.length ++ " parameters: "
    ++ (Value.list (q.order.map orderValue)).display

/-- What merging branches logs. -/
def mergedLine (branches : List Fragment) : String :=
  let (required, provided) := disjunctionHeader branches
  "DEBUG:qslice.disjunction:or-join over " ++ intText branches.length ++ " branches, header "
    ++ Value.displayTerm (headerClause required provided)

/-- The lines about a query and about a disjunction. -/
def resultLines (queryText : String) (args : List Value) (document : String) : List String :=
  ["🧩 COMPILED QUERY",
    "  " ++ queryText,
    "  args: " ++ (Value.tuple args).display,
    "",
    "🔀 DISJUNCTION",
    document,
    "✅ Query exported to " ++ queryFile]

/-- The tour. -/
def tour : Except Fault Showcase := do
  let years := Value.list [.int 1970, .int 1971]
  let slices ← Catalogue.trackSlices Catalogue.someArtist years (.text "db")
  let report ← Report.ofSlices slices
  let query ← Query.compile (.list [.ofName (Symbol.plain "?title")]) slices
  let queryText ← query.edn
  let branches ← Catalogue.artistBranches Catalogue.someArtist
  let merged ← disjunction (branches.map .fragment)
  let document ← merged.toDocument
  let documentText ← document.yaml
  let lines := resultLines queryText query.args documentText
  return {
    shown := report.text ++ String.join (lines.map (· ++ "\n"))
    log := [compiledLine query, mergedLine branches]
    query := queryText }

end Showcase

end DatalogFragments
