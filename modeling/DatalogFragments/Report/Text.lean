import DatalogFragments.Report

/-!
# The printed form of a report
-/

namespace DatalogFragments.Report

/-- Names as a list of quoted texts. -/
def listText (names : List String) : String :=
  (Value.list (names.map .text)).display

/-- A table as a mapping of quoted texts. -/
def tableText (table : Table) : String :=
  (Value.mapping (table.map fun row => (.text row.1, .list (row.2.map .text)))).display

/-- The text, unless there is nothing to show. -/
def orNone (isEmpty : Bool) (text : String) : String := if isEmpty then "None" else text

/-- A rule across the page. -/
def rule : String := String.ofList (List.replicate 70 '=')

/-- The lines of the printed report. -/
def lines (r : Report) : List String :=
  let providers := r.providedBy.mergeSort fun a b => decide (a.1 ≤ b.1)
  ["", rule, "SLICE ANALYSIS REPORT", rule, "",
    "📊 BASIC METRICS",
    "  Total Slices:          " ++ intText r.totalSlices,
    "  Total Clauses:         " ++ intText r.totalClauses,
    "  Total Parameters:      " ++ intText r.totalParameters,
    "  Locked Slices:         " ++ intText r.lockedSlices,
    "",
    "🔗 PROVIDE / REQUIRE"]
  ++ providers.map (fun row => "    " ++ row.1 ++ ": provided by " ++ joinTexts ", " row.2)
  ++ ["  Unsatisfied:           " ++ orNone r.unsatisfied.isEmpty (tableText r.unsatisfied),
    "  Unbound must-let:      " ++ orNone r.unboundMustLet.isEmpty (tableText r.unboundMustLet),
    "  Unused provides:       " ++ orNone r.unusedProvides.isEmpty (listText r.unusedProvides),
    "",
    "🔒 PRIVATE VARIABLES"]
  ++ r.ownedVars.map (fun row =>
      "    " ++ row.1 ++ ": " ++ (if row.2.isEmpty then "-" else listText row.2))
  ++ (if r.sharedPrivateNames.isEmpty then []
      else ["  Shared names (renamed at compile): " ++ listText r.sharedPrivateNames])
  ++ ["",
    "📐 CLAUSE COMPLEXITY",
    "  Max Clause Depth:      " ++ intText r.maxClauseDepth,
    "  Avg Clause Depth:      " ++ r.avgClauseDepth.fixed 2,
    "  Total Term Nodes:      " ++ intText r.totalTermNodes,
    ""]
  ++ (if r.warnings.isEmpty then ["✨ NO WARNINGS - Slices look clean!"]
      else "⚠️  WARNINGS" :: r.warnings.zipIdx.map fun (w, i) =>
        "  " ++ intText (i + 1) ++ ". " ++ w)
  ++ [""]

/-- The printed report. -/
def text (r : Report) : String :=
  String.join (r.lines.map (· ++ "\n"))

end DatalogFragments.Report
