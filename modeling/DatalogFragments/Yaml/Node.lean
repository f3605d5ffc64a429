import DatalogFragments.Yaml.Tag

/-!
# Nodes of a YAML document

A document is a tree of scalars, sequences and mappings, each with a tag. Names for nodes and
references to them are resolved: a node that is referred to stands at every place.
-/

namespace DatalogFragments.Yaml

/-- A node of a document. -/
inductive Node where
  | scalar (tag : Tag) (text : String)
  | sequence (tag : Tag) (items : List Node)
  | mapping (tag : Tag) (entries : List (Node × Node))

namespace Node

/-- The tag of a node. -/
def tag : Node → Tag
  | .scalar t _ | .sequence t _ | .mapping t _ => t

/-- The node that stands where a text has none. -/
def absent : Node := .scalar .null ""

end Node

end DatalogFragments.Yaml
