import DatalogFragments.Failure

/-!
# Binding forms

A binding form names the variables that an argument is matched against:

* `?x` takes the argument as it is;
* `[?x ...]` takes every element of a collection;
* `[?a ?b]` destructures a value of fixed arity, `_` skipping a position;
* `[[?a ?b]]` takes every row of a relation.

## Main definitions

* `Form.ofData`: reads a form from plain data;
* `Form.symbols`: the symbols that a form binds, from left to right;
* `Form.render`: the declaration of a form as a term;
* `Form.substitute`: replaces symbols of a form.
-/

namespace DatalogFragments

/-- A binding form. A form built by hand can hold a part that is no form; `stray` is that part. -/
inductive Form where
  | sym (symbol : Name)
  | coll (inner : Form)
  | tup (items : List Form)
  | stray (value : Value)

/-- How a form takes its argument. -/
inductive FormKind where
  | scalar | collection | tuple | relation
  deriving DecidableEq, Repr

/-- The word for the way a form takes its argument. -/
def FormKind.word : FormKind → String
  | .scalar => "scalar"
  | .collection => "collection"
  | .tuple => "tuple"
  | .relation => "relation"

namespace Form

/-! ## Forms as values -/

mutual

/-- A value as a form. -/
def ofValue : Value → Form
  | .term (.sym s) => .sym s
  | .collForm v => .coll (ofValue v)
  | .tupForm vs => .tup (ofValues vs)
  | v => .stray v

/-- Every value as a form. -/
def ofValues : List Value → List Form
  | [] => []
  | v :: vs => ofValue v :: ofValues vs

end

mutual

/-- A form as a value. -/
def toValue : Form → Value
  | .sym s => .ofName s
  | .coll f => .collForm (toValue f)
  | .tup fs => .tupForm (toValues fs)
  | .stray v => v

/-- Every form as a value. -/
def toValues : List Form → List Value
  | [] => []
  | f :: fs => toValue f :: toValues fs

end

/-! ## Reading forms from plain data -/

/-- Whether the datum is the mark `...`. -/
def isEllipsis : Value → Bool
  | .text s => s == ellipsisName
  | .term (.sym s) => s.name == ellipsisName
  | _ => false

/-- Whether the datum stands for several positions. -/
def isGroup : Value → Bool
  | .list _ | .tuple _ | .tupForm _ => true
  | _ => false

mutual

/--
Reads a form from plain data: a text is a symbol, `[x, "..."]` a collection, a single nested
list a relation, any other list a destructured tuple. Symbols and forms stand for themselves.
-/
def ofData : Value → Except Fault Form
  | .text s => .ok (.sym (Symbol.plain s))
  | .list xs => ofItems xs
  | .tuple xs => ofItems xs
  | .term (.sym s) => .ok (.sym s)
  | .misnamed n i => .ok (.stray (.misnamed n i))
  | .collForm v => .ok (.coll (ofValue v))
  | .tupForm vs => .ok (.tup (ofValues vs))
  | v => refuse (.noBindingForm v) [] [(.text "form", v)]

/-- Reads the form that a list of data stands for. -/
def ofItems : List Value → Except Fault Form
  | [x] => do
    let f ← ofData x
    return if isGroup x then .coll f else .tup [f]
  | [x, y] => do
    let f ← ofData x
    if isEllipsis y then return .coll f
    else
      let g ← ofData y
      return .tup [f, g]
  | xs => do
    let fs ← ofEach xs
    return .tup fs

/-- Reads a form from every datum. -/
def ofEach : List Value → Except Fault (List Form)
  | [] => .ok []
  | x :: xs => do
    let f ← ofData x
    let fs ← ofEach xs
    return f :: fs

end

/-- Reads a form from data and makes a collection of it. -/
def collOf (data : Value) : Except Fault Form := do
  let f ← ofData data
  return .coll f

/-- Reads the items of a destructured tuple. -/
def tupOf (data : List Value) : Except Fault Form := do
  let fs ← ofEach data
  return .tup fs

/-- Reads the positions of the rows of a relation. -/
def relationOf (data : List Value) : Except Fault Form := do
  let f ← tupOf data
  return .coll f

/-! ## Views -/

/-- Whether the form is a destructured tuple. -/
def isTuple : Form → Bool
  | .tup _ => true
  | _ => false

/-- Whether the form is a symbol. -/
def isSymbol : Form → Bool
  | .sym _ => true
  | _ => false

/-- How the form takes its argument. -/
def kind : Form → FormKind
  | .coll f => if f.isTuple then .relation else .collection
  | .tup _ => .tuple
  | _ => .scalar

mutual

/-- The symbols that the form binds, from left to right; placeholders bind nothing. -/
def symbols : Form → List Name
  | .sym s => if s.name = placeholderName then [] else [s]
  | .coll f => symbols f
  | .tup fs => symbolsOf fs
  | .stray _ => []

/-- The symbols that forms bind, from left to right. -/
def symbolsOf : List Form → List Name
  | [] => []
  | f :: fs => symbols f ++ symbolsOf fs

end

/-- The names that the form binds, from left to right. -/
def names (f : Form) : List String := f.symbols.map Symbol.name

mutual

/-- Whether every part of the form is a form. -/
def isProper : Form → Bool
  | .sym _ => true
  | .coll f => isProper f
  | .tup fs => areProper fs
  | .stray _ => false

/-- Whether every part of every form is a form. -/
def areProper : List Form → Bool
  | [] => true
  | f :: fs => isProper f && areProper fs

end

/-! ## Declarations and replacement -/

mutual

/--
The declaration of the form: a collection is marked with `...`, except that the brackets of
its rows mark a relation.
-/
def render : Form → Clause
  | .sym s => .sym s
  | .coll f =>
    if f.isTuple then .vector [render f] else .vector [render f, .named ellipsisName]
  | .tup fs => .vector (renderAll fs)
  | .stray v => .stray v

/-- The declaration of every form. -/
def renderAll : List Form → List Clause
  | [] => []
  | f :: fs => render f :: renderAll fs

end

mutual

/-- Replaces every symbol that the map knows, placeholders included. -/
def substitute (m : String → Option Form) : Form → Form
  | .sym s => (m s.name).getD (.sym s)
  | .coll f => .coll (substitute m f)
  | .tup fs => .tup (substituteAll m fs)
  | .stray v => .stray v

/-- Replaces symbols in every form. -/
def substituteAll (m : String → Option Form) : List Form → List Form
  | [] => []
  | f :: fs => substitute m f :: substituteAll m fs

end

@[simp] theorem symbols_coll (f : Form) : (Form.coll f).symbols = f.symbols := rfl

@[simp] theorem symbols_tup (fs : List Form) : (Form.tup fs).symbols = symbolsOf fs := rfl

theorem symbolsOf_eq_flatMap (fs : List Form) : symbolsOf fs = fs.flatMap symbols := by
  induction fs with
  | nil => rfl
  | cons f fs ih => simp [symbolsOf, ih]

theorem renderAll_eq_map (fs : List Form) : renderAll fs = fs.map render := by
  induction fs with
  | nil => rfl
  | cons f fs ih => simp [renderAll, ih]

theorem substituteAll_eq_map (m : String → Option Form) (fs : List Form) :
    substituteAll m fs = fs.map (substitute m) := by
  induction fs with
  | nil => rfl
  | cons f fs ih => simp [substituteAll, ih]

end Form

end DatalogFragments
