import DatalogFragments.Fragment.Construction

/-!
# Documents

Terms, binding forms, fragments and their descriptions have a form as plain data: mappings
with text keys, lists, texts, numbers, booleans and null. A keyword is written as a mapping
with the type `kw`, wherever it stands in a literal or an argument; tuples become lists.

## Main definitions

* `Value.toData`, `Value.ofData`: values with keywords written out and read back;
* `Term.toDocument`, `Term.ofDocument`: clauses;
* `Form.toDocument`, `Form.ofDocument`: binding forms;
* `Fragment.toDocument`, `Config.ofDocument`, `Fragment.ofDocument`: fragments.
-/

namespace DatalogFragments

namespace Value

/-! ## Values -/

/-- An entry under a text key. -/
def entry (key : String) (v : Value) : Value × Value := (.text key, v)

mutual

/-- The value with keywords written out; tuples become lists. -/
def toData : Value → Value
  | .keyword k => .mapping [entry "type" (.text "kw"), entry "name" (.text k)]
  | .list xs => .list (toDataAll xs)
  | .tuple xs => .list (toDataAll xs)
  | .mapping es => .mapping (toDataEntries es)
  | v => v

/-- Every value with keywords written out. -/
def toDataAll : List Value → List Value
  | [] => []
  | v :: vs => toData v :: toDataAll vs

/-- Every entry with keywords written out in its value. -/
def toDataEntries : List (Value × Value) → List (Value × Value)
  | [] => []
  | (k, v) :: rest => (k, toData v) :: toDataEntries rest

end

/-- Whether the entries carry a type tag with the given text. -/
def hasTag (tag : String) (es : Entries) : Bool :=
  match field? "type" es with
  | some (.text t) => t == tag
  | _ => false

/-- The keyword of a written-out one. -/
def keywordOfEntries (es : Entries) : Except Fault Value :=
  match field? "name" es with
  | none => .error (.entryMissing "name")
  | some (.text name) => .ok (keywordOf name)
  | some (.bytes _) => .error .wrongShape
  | some _ => .error .nameNotText

mutual

/-- The value with written-out keywords read back. -/
def ofData : Value → Except Fault Value
  | .mapping es =>
    if hasTag "kw" es then keywordOfEntries es
    else do
      let es ← ofDataEntries es
      return .mapping es
  | .list xs => do
    let xs ← ofDataAll xs
    return .list xs
  | v => .ok v

/-- Every value with written-out keywords read back. -/
def ofDataAll : List Value → Except Fault (List Value)
  | [] => .ok []
  | v :: vs => do
    let w ← ofData v
    let ws ← ofDataAll vs
    return w :: ws

/-- Every entry with written-out keywords read back in its value. -/
def ofDataEntries : List (Value × Value) → Except Fault (List (Value × Value))
  | [] => .ok []
  | (k, v) :: rest => do
    let w ← ofData v
    let es ← ofDataEntries rest
    return (k, w) :: es

end

/-- The symbol that a document names; a name that is no text makes a misnamed one. -/
def symbolNamed (name : Value) (info : Option Value) : Value :=
  match name with
  | .text s => .ofName ⟨s, info⟩
  | n => .misnamed n info

end Value

open Value (entry field?)

/-! ## Clauses -/

namespace Term

/-- The document of a node: its entries, and its display information if there is any. -/
def nodeDocument (entries : Entries) (info : Option Value) : Except Fault Value :=
  match info with
  | none => .ok (.mapping entries)
  | some i =>
    if i.isTruthy then do
      let es ← i.asEntries
      return .mapping (entries ++ [entry "meta" (.mapping es)])
    else .ok (.mapping entries)

mutual

/-- The document of a clause. -/
def toDocument : Clause → Except Fault Value
  | .sym s => nodeDocument [entry "type" (.text "sym"), entry "name" (.text s.name)] s.info
  | .seq xs i => do
    let items ← toDocuments xs
    nodeDocument [entry "type" (.text "seq"), entry "items" (.list items)] i
  | .vec xs i => do
    let items ← toDocuments xs
    nodeDocument [entry "type" (.text "vec"), entry "items" (.list items)] i
  | .lit v i => nodeDocument [entry "type" (.text "lit"), entry "value" v.toData] i
  | .stray (.misnamed n i) => nodeDocument [entry "type" (.text "sym"), entry "name" n] i
  | .stray v => .error (.notTerm v)

/-- The documents of clauses. -/
def toDocuments : List Clause → Except Fault (List Value)
  | [] => .ok []
  | t :: ts => do
    let d ← toDocument t
    let ds ← toDocuments ts
    return d :: ds

end

/-- The display information of a node document. -/
def infoOf (es : Entries) : Option Value :=
  match field? "meta" es with
  | none | some .null => none
  | some i => some i

/-- The type tag of a document. -/
def tagOf (es : Entries) : Value := (field? "type" es).getD .null

/-- The symbol that a node document describes. -/
def symbolOf (es : Entries) : Except Fault Clause :=
  match field? "name" es with
  | none => .error (.entryMissing "name")
  | some name => .ok (.ofValue (.symbolNamed name (infoOf es)))

/-- The literal that a node document describes. -/
def literalOf (es : Entries) : Except Fault Clause := do
  let v ← Value.ofData ((field? "value" es).getD .null)
  return .lit v (infoOf es)

mutual

/-- The clause that a document describes. -/
def ofDocument : Value → Except Fault Clause
  | .mapping es =>
    match tagOf es with
    | .text "sym" => symbolOf es
    | .text "lit" => literalOf es
    | .text "seq" => do
      let items ← itemsOf es
      return .seq items (infoOf es)
    | .text "vec" => do
      let items ← itemsOf es
      return .vec items (infoOf es)
    | tag => .error (.unknownTermTag tag)
  | _ => .error .notMapping

/-- The clauses under the key `items`; there are none if the key is missing. -/
def itemsOf : List (Value × Value) → Except Fault (List Clause)
  | [] => .ok []
  | (.text k, v) :: rest => if k = "items" then ofElements v else itemsOf rest
  | _ :: rest => itemsOf rest

/-- The clauses that the elements of a value describe. -/
def ofElements : Value → Except Fault (List Clause)
  | .list xs => ofDocuments xs
  | .tuple xs => ofDocuments xs
  | .set xs => ofDocuments xs
  | .frozenSet xs => ofDocuments xs
  | .stream xs => ofDocuments xs
  | .mapping es => if es.isEmpty then .ok [] else .error .notMapping
  | .text s => if s.isEmpty then .ok [] else .error .notMapping
  | .bytes bs => if bs.isEmpty then .ok [] else .error .notMapping
  | _ => .error .wrongShape

/-- The clauses that documents describe. -/
def ofDocuments : List Value → Except Fault (List Clause)
  | [] => .ok []
  | d :: ds => do
    let t ← ofDocument d
    let ts ← ofDocuments ds
    return t :: ts

end

end Term

/-! ## Binding forms -/

namespace Form

mutual

/-- The document of a binding form; display information is not kept. -/
def toDocument : Form → Except Fault Value
  | .sym s => .ok (.mapping [entry "type" (.text "sym"), entry "name" (.text s.name)])
  | .coll f => do
    let inner ← toDocument f
    return .mapping [entry "type" (.text "coll"), entry "inner" inner]
  | .tup fs => do
    let items ← toDocuments fs
    return .mapping [entry "type" (.text "tuple"), entry "items" (.list items)]
  | .stray (.misnamed n _) => .ok (.mapping [entry "type" (.text "sym"), entry "name" n])
  | .stray v => .error (.notForm v)

/-- The documents of binding forms. -/
def toDocuments : List Form → Except Fault (List Value)
  | [] => .ok []
  | f :: fs => do
    let d ← toDocument f
    let ds ← toDocuments fs
    return d :: ds

end

/-- The symbol that a form document describes. -/
def symbolOf (es : Entries) : Except Fault Form :=
  match field? "name" es with
  | none => .error (.entryMissing "name")
  | some name => .ok (.ofValue (.symbolNamed name none))

mutual

/-- The binding form that a document describes. -/
def ofDocument : Value → Except Fault Form
  | .mapping es =>
    match Term.tagOf es with
    | .text "sym" => symbolOf es
    | .text "coll" => do
      let inner ← innerOf es
      return .coll inner
    | .text "tuple" => do
      let items ← itemsOf es
      return .tup items
    | tag => .error (.unknownFormTag tag)
  | _ => .error .notMapping

/-- The form under the key `inner`. -/
def innerOf : List (Value × Value) → Except Fault Form
  | [] => .error (.entryMissing "inner")
  | (.text k, v) :: rest => if k = "inner" then ofDocument v else innerOf rest
  | _ :: rest => innerOf rest

/-- The forms under the key `items`; there are none if the key is missing. -/
def itemsOf : List (Value × Value) → Except Fault (List Form)
  | [] => .ok []
  | (.text k, v) :: rest => if k = "items" then ofElements v else itemsOf rest
  | _ :: rest => itemsOf rest

/-- The forms that the elements of a value describe. -/
def ofElements : Value → Except Fault (List Form)
  | .list xs => ofDocuments xs
  | .tuple xs => ofDocuments xs
  | .set xs => ofDocuments xs
  | .frozenSet xs => ofDocuments xs
  | .stream xs => ofDocuments xs
  | .mapping es => if es.isEmpty then .ok [] else .error .notMapping
  | .text s => if s.isEmpty then .ok [] else .error .notMapping
  | .bytes bs => if bs.isEmpty then .ok [] else .error .notMapping
  | _ => .error .wrongShape

/-- The forms that documents describe. -/
def ofDocuments : List Value → Except Fault (List Form)
  | [] => .ok []
  | d :: ds => do
    let f ← ofDocument d
    let fs ← ofDocuments ds
    return f :: fs

end

end Form

/-! ## Fragments -/

namespace Fragment

/-- The documents of bindings. -/
def letDocuments : List (Form × Value) → Except Fault (List Value)
  | [] => .ok []
  | (form, value) :: rest => do
    let d ← form.toDocument
    let ds ← letDocuments rest
    return .mapping [entry "form" d, entry "value" value.toData] :: ds

/-- The names of symbols as a list. -/
def nameList (names : List Name) : Value := .list (names.map fun s => .text s.name)

/-- The document of a fragment. -/
def toDocument (f : Fragment) : Except Fault Value := do
  let clauses ← Term.toDocuments f.clauses
  let lets ← letDocuments f.lets
  return .mapping [
    entry "name" f.name,
    entry "where" (.list clauses),
    entry "provide" (nameList f.provide),
    entry "require" (nameList f.require),
    entry "must_let" (nameList f.mustLet),
    entry "selectivity" (.int f.selectivity),
    entry "let" (.list lets),
    entry "locked" f.locked,
    entry "extra" (.mapping f.extra)]

end Fragment

namespace Config

/-- The elements of the list under a key; there are none if the key is missing. -/
def elementsAt (key : String) (es : Entries) : Except Fault (List Value) :=
  match field? key es with
  | none => .ok []
  | some v => v.asElements

/-- The binding that an entry of a list describes. -/
def letOfDocument : Value → Except Fault (Value × Value)
  | .mapping es =>
    match field? "form" es with
    | none => .error (.entryMissing "form")
    | some d => do
      let form ← Form.ofDocument d
      let value ← Value.ofData ((field? "value" es).getD .null)
      return (form.toValue, value)
  | _ => .error .wrongShape

/-- The description that a document holds; missing entries have their defaults. -/
def ofDocument (d : Value) : Except Fault Config := do
  let es ← d.asMapping
  let clauses ← (← elementsAt "where" es).mapM Term.ofDocument
  let symbolsAt := fun (key : String) => do
    let names ← elementsAt key es
    return names.map fun n => Value.symbolNamed n none
  let provide ← symbolsAt "provide"
  let require ← symbolsAt "require"
  let mustLet ← symbolsAt "must_let"
  let lets ← (← elementsAt "let" es).mapM letOfDocument
  return {
    clauses := clauses.map Term.toValue
    name := (field? "name" es).getD .null
    provide, require, mustLet
    selectivity := (field? "selectivity" es).getD (.int 0)
    lets
    locked := (field? "locked" es).getD (.bool false)
    extra := (field? "extra" es).getD (.mapping []) }

end Config

/-- The fragment that a document describes, built with every check. -/
def Fragment.ofDocument (d : Value) : Except Fault Fragment := do
  let c ← Config.ofDocument d
  Fragment.ofConfig c

end DatalogFragments
