import DatalogFragments.Form.Arguments
import DatalogFragments.Json
import DatalogFragments.Main
import DatalogFragments.Term.StackWalk
import DatalogFragments.Proofs.Distinct
import DatalogFragments.Proofs.FreshName
import DatalogFragments.Proofs.Attempt
import DatalogFragments.Proofs.Form.Validity
import DatalogFragments.Proofs.Term.Renaming
import DatalogFragments.Proofs.Form.Renaming
import DatalogFragments.Proofs.Fragment.Names
import DatalogFragments.Proofs.Fragment.WellFormed
import DatalogFragments.Proofs.Fragment.Renaming
import DatalogFragments.Proofs.Fragment.RenamingRun
import DatalogFragments.Proofs.Query.Assembly
import DatalogFragments.Proofs.Query.Compilation
import DatalogFragments.Proofs.Query.CaptureFreedom
import DatalogFragments.Proofs.Query.Projection
import DatalogFragments.Proofs.Query.Outcome
import DatalogFragments.Proofs.Disjunction.Arms
import DatalogFragments.Proofs.Fragment.Inference
import DatalogFragments.Proofs.Disjunction.Composite
import DatalogFragments.Proofs.Disjunction.Scoping
import DatalogFragments.Proofs.Disjunction.Interface
import DatalogFragments.Proofs.Fragment.Construction
import DatalogFragments.Proofs.Fragment.Described
import DatalogFragments.Proofs.Fragment.LifeCycle
import DatalogFragments.Proofs.Fragment.Roles
import DatalogFragments.Proofs.Fragment.Relabelling
import DatalogFragments.Proofs.Query.ScopeClosure
import DatalogFragments.Proofs.Query.Parameters
import DatalogFragments.Proofs.Query.InputOrder
import DatalogFragments.Proofs.Fragment.Alike
import DatalogFragments.Proofs.Query.Bookkeeping
import DatalogFragments.Proofs.Query.NameChoice
import DatalogFragments.Proofs.Report.Gaps
import DatalogFragments.Proofs.Report.Clean
import DatalogFragments.Proofs.Value.Codec
import DatalogFragments.Proofs.Document.Clauses
import DatalogFragments.Proofs.Document.Resemblance
import DatalogFragments.Proofs.Fragment.Produced
import DatalogFragments.Proofs.Document.Fragments
import DatalogFragments.Proofs.Document.Loading
import DatalogFragments.Proofs.Json.Scalars
import DatalogFragments.Proofs.Json.RoundTrip
import DatalogFragments.Proofs.Document.RoundTrip
import DatalogFragments.Proofs.FreshName.Numbering
import DatalogFragments.Proofs.FreshName.Search
import DatalogFragments.Proofs.FreshName.ClosedForm
import DatalogFragments.Proofs.Listing
import DatalogFragments.Proofs.Report.Tally
import DatalogFragments.Proofs.Report.Compiled
import DatalogFragments.Proofs.Value.KeyOrder
import DatalogFragments.Proofs.Document.Reloading
import DatalogFragments.Proofs.DecimalText
import DatalogFragments.Proofs.Edn.Reader
import DatalogFragments.Proofs.Query.Text
import DatalogFragments.Proofs.Query.Reloading
import DatalogFragments.Proofs.Term.StackWalk
import DatalogFragments.Proofs.Document.Survival
import DatalogFragments.Proofs.Fragment.Refusals
import DatalogFragments.Proofs.Fragment.Acceptance
import DatalogFragments.Proofs.Fragment.Isomorphism
import DatalogFragments.Proofs.Form.Arguments
import DatalogFragments.Proofs.Form.Declaration
import DatalogFragments.Proofs.Term.Substitution
import DatalogFragments.Proofs.Edn.Quoting
import DatalogFragments.Proofs.Edn.SetOrder
import DatalogFragments.Proofs.Form.Reading
import DatalogFragments.Proofs.Term.Traversals
