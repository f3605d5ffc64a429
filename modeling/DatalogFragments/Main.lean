import DatalogFragments.Showcase

/-!
# The tour as a program

Shows the tour of the catalogue, writes its log to the error output, and saves the query text.
-/

open DatalogFragments

/-- Runs the tour. -/
def main : IO UInt32 := do
  match Showcase.tour with
  | .ok showcase =>
    for line in showcase.log do
      IO.eprintln line
    IO.FS.writeFile Showcase.queryFile showcase.query
    IO.print showcase.shown
    return 0
  | .error fault =>
    IO.eprintln (fault.message?.getD "The tour cannot be shown.")
    return 1
