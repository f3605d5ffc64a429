/-!
# Tags

A tag tells what a scalar, sequence or mapping of a document stands for.

## Main definitions

* `Tag`: the tags of the notation, and any other one;
* `Tag.ofAddress`: the tag with a written address;
* `Tag.shorthand`: a tag of the notation as it is written.
-/

namespace DatalogFragments.Yaml

/-- What a node of a document stands for. -/
inductive Tag where
  | null
  | bool
  | int
  | float
  | text
  | bytes
  | timestamp
  /-- The key under which a mapping takes over entries of others. -/
  | merge
  /-- The key for the scalar that a mapping can stand for. -/
  | default
  | list
  | mapping
  | set
  /-- A mapping that keeps its order, as a list of pairs. -/
  | orderedMapping
  | pairs
  | other (address : String)
  deriving DecidableEq, Repr

namespace Tag

/-- What the addresses of the tags of the notation begin with. -/
def commonAddress : String := "tag:yaml.org,2002:"

/-- The tags of the notation by name. -/
def named : List (String × Tag) :=
  [("null", .null), ("bool", .bool), ("int", .int), ("float", .float), ("str", .text),
    ("binary", .bytes), ("timestamp", .timestamp), ("merge", .merge), ("value", .default),
    ("seq", .list), ("map", .mapping), ("set", .set), ("omap", .orderedMapping),
    ("pairs", .pairs)]

/-- The tag with an address. -/
def ofAddress (address : String) : Tag :=
  match named.find? fun entry => commonAddress ++ entry.1 == address with
  | some (_, tag) => tag
  | none => .other address

/-- How a tag is written. -/
def shorthand (tag : Tag) : String :=
  match tag with
  | .other address => "!<" ++ address ++ ">"
  | _ =>
    match named.find? fun entry => entry.2 == tag with
    | some (name, _) => "!!" ++ name
    | none => "!"

end Tag

end DatalogFragments.Yaml
