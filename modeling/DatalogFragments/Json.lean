import DatalogFragments.Document
import DatalogFragments.Json.Reader
import DatalogFragments.Json.Writer

/-!
# Fragments in JSON text

## Main definitions

* `Fragment.toJson`: the text of the document of a fragment;
* `Fragment.ofJson`: the fragment that the document in a text describes.
-/

namespace DatalogFragments.Fragment

/-- The JSON text of the document of a fragment. -/
def toJson (f : Fragment) : Except Fault String := do
  let d ← f.toDocument
  d.json

/-- The fragment whose document a JSON text holds. -/
def ofJson (text : String) : Except Fault Fragment := do
  let d ← Json.read text
  ofDocument d

end DatalogFragments.Fragment
