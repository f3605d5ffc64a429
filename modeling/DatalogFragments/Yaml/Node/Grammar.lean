import DatalogFragments.Yaml.Node
import DatalogFragments.Yaml.Scalar
import DatalogFragments.Yaml.Token

/-!
# From tokens to nodes

A text holds at most one document. Where a node is missing, the empty scalar stands. A name for
a node may be given once, and a reference needs a name whose node is complete.

## Main definitions

* `Tokens`: the tokens that are left, with the names of nodes;
* `node`: reads a node;
* `Node.ofTokens`: the node of a text, if it has one.
-/

namespace DatalogFragments.Yaml

/-- The tokens that are left to read, and the names of nodes; an open node has none yet. -/
structure Tokens where
  rest : List Token
  names : List (String × Option Node) := []

/-- Abbreviations in tags, with what they stand for. -/
abbrev Handles := List (String × String)

/-- The abbreviations that every document has. -/
def commonHandles : Handles := [("!", "!"), ("!!", Tag.commonAddress)]

namespace Tokens

/-- The tokens without the first one. -/
def drop (s : Tokens) : Tokens := { s with rest := s.rest.tail }

/-- Whether no node stands in a block collection: the next part of the structure follows. -/
def atBlockGap (s : Tokens) (inSequence : Bool) : Bool :=
  match s.rest with
  | .closeBlock :: _ => true
  | .item :: _ => inSequence
  | .key :: _ | .value :: _ => !inSequence
  | _ => false

/-- Whether no node stands in a flow collection: the next part of the structure follows. -/
def atFlowGap (s : Tokens) : Bool :=
  match s.rest with
  | .comma :: _ | .closeSequence :: _ | .closeMapping :: _ => true
  | _ => false

/-- Begins a node; its name is open. -/
def openName (name : Option String) (s : Tokens) : Except Fault Tokens :=
  match name with
  | none => .ok s
  | some n =>
    if (s.names.lookup n).isSome then malformed
    else .ok { s with names := (n, none) :: s.names }

/-- Ends a node; its name is complete. -/
def closeName (name : Option String) (node : Node) (s : Tokens) : Tokens :=
  match name with
  | none => s
  | some n => { s with names := (n, some node) :: s.names }

end Tokens

/-! ## Names and tags in front of a node -/

/-- The address of a tag. -/
def addressOf (handles : Handles) (handle : Option String) (suffix : String) :
    Except Fault String :=
  match handle with
  | none => .ok suffix
  | some h =>
    match handles.lookup h with
    | some beginning => .ok (beginning ++ suffix)
    | none => malformed

/-- What stands in front of a node. -/
structure Properties where
  name : Option String := none
  address : Option String := none

namespace Properties

/-- The tag of a collection. -/
def tagOr (p : Properties) (implied : Tag) : Tag :=
  match p.address with
  | some address => if address == "!" then implied else Tag.ofAddress address
  | none => implied

/-- The tag of a scalar; one between quotes and without a tag is a text. -/
def scalarTag (p : Properties) (text : String) (isPlain : Bool) : Tag :=
  if p.address.isNone && !isPlain then .text else p.tagOr (Tag.ofPlain text)

/-- Whether there is nothing in front of the node. -/
def isEmpty (p : Properties) : Bool := p.name.isNone && p.address.isNone

/-- Reads a name and a tag, in any order. -/
def read (handles : Handles) (s : Tokens) : Except Fault (Properties × Tokens) :=
  match s.rest with
  | .anchor name :: .tag handle suffix :: rest
  | .tag handle suffix :: .anchor name :: rest => do
    let address ← addressOf handles handle suffix
    return (⟨some name, some address⟩, { s with rest })
  | .anchor name :: rest => .ok (⟨some name, none⟩, { s with rest })
  | .tag handle suffix :: rest => do
    let address ← addressOf handles handle suffix
    return (⟨none, some address⟩, { s with rest })
  | _ => .ok ({}, s)

end Properties

/-! ## Nodes -/

/-- Where a node stands. -/
inductive Place where
  | flow
  | block
  /-- In a block mapping, where a sequence needs no indentation. -/
  | blockEntry
  deriving DecidableEq

/-- The tokens behind the comma that separates items. -/
def afterComma (t : Token) (s : Tokens) : Except Fault Tokens :=
  match t with
  | .comma => .ok s.drop
  | _ => malformed

mutual

/-- Reads a node. -/
def node (handles : Handles) : Nat → Place → Tokens → Except Fault (Node × Tokens)
  | 0, _, _ => malformed
  | fuel + 1, place, s =>
    match s.rest with
    | .alias name :: _ =>
      match s.names.lookup name with
      | some (some found) => .ok (found, s.drop)
      | _ => malformed
    | _ => do
      let (p, s) ← Properties.read handles s
      let s ← s.openName p.name
      let (result, s) ← content handles fuel place p s
      return (result, s.closeName p.name result)

/-- Reads what stands behind the properties of a node. -/
def content (handles : Handles) : Nat → Place → Properties → Tokens → Except Fault (Node × Tokens)
  | 0, _, _, _ => malformed
  | fuel + 1, place, p, s =>
    match s.rest with
    | .scalar text isPlain :: _ => .ok (.scalar (p.scalarTag text isPlain) text, s.drop)
    | .openSequence :: _ => do
      let (items, s) ← flowItems handles fuel true s.drop
      return (.sequence (p.tagOr .list) items, s)
    | .openMapping :: _ => do
      let (entries, s) ← flowEntries handles fuel true s.drop
      return (.mapping (p.tagOr .mapping) entries, s)
    | .item :: _ =>
      if place = .blockEntry then do
        let (items, s) ← bareItems handles fuel s
        return (.sequence (p.tagOr .list) items, s)
      else if p.isEmpty then malformed
      else .ok (.scalar (p.scalarTag "" true) "", s)
    | .openBlockSequence :: _ =>
      if place != .flow then do
        let (items, s) ← blockItems handles fuel s.drop
        return (.sequence (p.tagOr .list) items, s)
      else if p.isEmpty then malformed
      else .ok (.scalar (p.scalarTag "" true) "", s)
    | .openBlockMapping :: _ =>
      if place != .flow then do
        let (entries, s) ← blockEntries handles fuel s.drop
        return (.mapping (p.tagOr .mapping) entries, s)
      else if p.isEmpty then malformed
      else .ok (.scalar (p.scalarTag "" true) "", s)
    | _ =>
      if p.isEmpty then malformed else .ok (.scalar (p.scalarTag "" true) "", s)

/-- Reads the items of a block sequence and its end. -/
def blockItems (handles : Handles) : Nat → Tokens → Except Fault (List Node × Tokens)
  | 0, _ => malformed
  | fuel + 1, s =>
    match s.rest with
    | .item :: _ => do
      let (first, s) ←
        if s.drop.atBlockGap true then pure (Node.absent, s.drop)
        else node handles fuel .block s.drop
      let (items, s) ← blockItems handles fuel s
      return (first :: items, s)
    | .closeBlock :: _ => .ok ([], s.drop)
    | _ => malformed

/-- Reads the items of a sequence that is not indented; it has no end of its own. -/
def bareItems (handles : Handles) : Nat → Tokens → Except Fault (List Node × Tokens)
  | 0, _ => malformed
  | fuel + 1, s =>
    match s.rest with
    | .item :: _ => do
      let (first, s) ←
        if s.drop.atBlockGap true || s.drop.atBlockGap false then pure (Node.absent, s.drop)
        else node handles fuel .block s.drop
      let (items, s) ← bareItems handles fuel s
      return (first :: items, s)
    | _ => .ok ([], s)

/-- Reads the entries of a block mapping and its end. -/
def blockEntries (handles : Handles) : Nat → Tokens → Except Fault (List (Node × Node) × Tokens)
  | 0, _ => malformed
  | fuel + 1, s =>
    match s.rest with
    | .closeBlock :: _ => .ok ([], s.drop)
    | .key :: _ => do
      let (key, s) ←
        if s.drop.atBlockGap false then pure (Node.absent, s.drop)
        else node handles fuel .blockEntry s.drop
      let (value, s) ← blockValue handles fuel s
      let (entries, s) ← blockEntries handles fuel s
      return ((key, value) :: entries, s)
    | _ => malformed

/-- Reads the value of an entry of a block mapping; it may be missing. -/
def blockValue (handles : Handles) : Nat → Tokens → Except Fault (Node × Tokens)
  | 0, _ => malformed
  | fuel + 1, s =>
    match s.rest with
    | .value :: _ =>
      if s.drop.atBlockGap false then .ok (Node.absent, s.drop)
      else node handles fuel .blockEntry s.drop
    | _ => .ok (Node.absent, s)

/-- Reads the items of a flow sequence and its end; `first` tells that none was read yet. -/
def flowItems (handles : Handles) : Nat → Bool → Tokens → Except Fault (List Node × Tokens)
  | 0, _, _ => malformed
  | fuel + 1, first, s => do
    match s.rest with
    | .closeSequence :: _ => return ([], s.drop)
    | t :: _ =>
      let s ← if first then pure s else afterComma t s
      match s.rest with
      | .closeSequence :: _ => return ([], s.drop)
      | .key :: _ =>
        let (key, s) ← flowKey handles fuel s.drop
        let (value, s) ← flowValue handles fuel s
        let (items, s) ← flowItems handles fuel false s
        return (.mapping .mapping [(key, value)] :: items, s)
      | _ =>
        let (item, s) ← node handles fuel .flow s
        let (items, s) ← flowItems handles fuel false s
        return (item :: items, s)
    | [] => malformed

/-- Reads the entries of a flow mapping and its end; `first` tells that none was read yet. -/
def flowEntries (handles : Handles) :
    Nat → Bool → Tokens → Except Fault (List (Node × Node) × Tokens)
  | 0, _, _ => malformed
  | fuel + 1, first, s => do
    match s.rest with
    | .closeMapping :: _ => return ([], s.drop)
    | t :: _ =>
      let s ← if first then pure s else afterComma t s
      match s.rest with
      | .closeMapping :: _ => return ([], s.drop)
      | .key :: _ =>
        let (key, s) ← flowKey handles fuel s.drop
        let (value, s) ← flowValue handles fuel s
        let (entries, s) ← flowEntries handles fuel false s
        return ((key, value) :: entries, s)
      | _ =>
        let (key, s) ← node handles fuel .flow s
        let (entries, s) ← flowEntries handles fuel false s
        return ((key, Node.absent) :: entries, s)
    | [] => malformed

/-- Reads the key of an entry within a flow collection; it may be missing. -/
def flowKey (handles : Handles) : Nat → Tokens → Except Fault (Node × Tokens)
  | 0, _ => malformed
  | fuel + 1, s =>
    match s.rest with
    | .value :: _ => .ok (Node.absent, s)
    | _ => if s.atFlowGap then .ok (Node.absent, s) else node handles fuel .flow s

/-- Reads the value of an entry within a flow collection; it may be missing. -/
def flowValue (handles : Handles) : Nat → Tokens → Except Fault (Node × Tokens)
  | 0, _ => malformed
  | fuel + 1, s =>
    match s.rest with
    | .value :: _ =>
      if s.drop.atFlowGap then .ok (Node.absent, s.drop) else node handles fuel .flow s.drop
    | _ => .ok (Node.absent, s)

end

/-! ## Documents -/

/-- Abbreviations for tags and whether the version was given, as read from directives. -/
structure Preamble where
  handles : Handles := []
  hasVersion : Bool := false

/-- Reads the directives in front of a document and the mark that starts it. -/
def preamble : Preamble → List Token → Except Fault (Handles × List Token)
  | p, .documentStart :: rest => .ok (p.handles ++ commonHandles, rest)
  | p, .directive d :: rest =>
    match d with
    | .version major =>
      if p.hasVersion || major != 1 then malformed else preamble { p with hasVersion := true } rest
    | .handle name beginning =>
      if (p.handles.lookup name).isSome then malformed
      else preamble { p with handles := (name, beginning) :: p.handles } rest
    | .reserved => preamble p rest
  | _, _ => malformed

/-- Nothing but marks that end a document may follow one. -/
def checkNothingFollows : List Token → Except Fault Unit
  | [] => .ok ()
  | .documentEnd :: rest => checkNothingFollows rest
  | _ => malformed

/-- Reads the only node of the tokens. -/
def onlyNode (handles : Handles) (tokens : List Token) : Except Fault Node := do
  let (result, s) ← node handles (5 * tokens.length + 5) .block { rest := tokens }
  checkNothingFollows s.rest
  return result

/-- The node of a document whose start is marked; it may be missing. -/
def markedDocument (handles : Handles) (tokens : List Token) : Except Fault Node :=
  match tokens with
  | [] | .directive _ :: _ | .documentStart :: _ | .documentEnd :: _ => do
    checkNothingFollows tokens
    return Node.absent
  | _ => onlyNode handles tokens

/-- The node of a text, if it has one. -/
def Node.ofTokens (tokens : List Token) : Except Fault (Option Node) :=
  match tokens with
  | [] => .ok none
  | .directive _ :: _ | .documentStart :: _ => do
    let (handles, rest) ← preamble {} tokens
    let result ← markedDocument handles rest
    return some result
  | _ => do
    let result ← onlyNode commonHandles tokens
    return some result

end DatalogFragments.Yaml
