import DatalogFragments.Symbol

/-!
# Clause terms

Clauses are trees, never text. A leaf is a symbol or a literal; a sequence is call-like
(rule invocations, predicate expressions, `(not …)`), a vector is pattern-like (data patterns,
expression clauses). Literals are opaque: no walk enters them.

The type is parametric in the values that literals hold and display information consists of.
A composite built by hand can hold an item that is no term at all; `stray` is that item.
-/

namespace DatalogFragments

/-- A clause tree over values of type `α`. -/
inductive Term (α : Type) where
  | sym (symbol : Symbol α)
  | seq (items : List (Term α)) (info : Option α)
  | vec (items : List (Term α)) (info : Option α)
  | lit (value : α) (info : Option α)
  | stray (value : α)

namespace Term

variable {α : Type}

/-- A symbol leaf without display information. -/
def named (name : String) : Term α := .sym (Symbol.plain name)

/-- A literal leaf without display information. -/
def literal (value : α) : Term α := .lit value none

/-- A vector without display information. -/
def vector (items : List (Term α)) : Term α := .vec items none

/-- A sequence without display information. -/
def sequence (items : List (Term α)) : Term α := .seq items none

/-- The display information of a node; an item that is no term has none. -/
def info? : Term α → Option α
  | .sym s => s.info
  | .seq _ i | .vec _ i | .lit _ i => i
  | .stray _ => none

/-- The node with other display information; an item that is no term is left as it is. -/
def withInfo (i : Option α) : Term α → Term α
  | .sym s => .sym { s with info := i }
  | .seq xs _ => .seq xs i
  | .vec xs _ => .vec xs i
  | .lit v _ => .lit v i
  | .stray v => .stray v

/-- The items of a composite; a leaf has none. -/
def items : Term α → List (Term α)
  | .seq xs _ | .vec xs _ => xs
  | _ => []

/-- Whether the node is a sequence or a vector. -/
def isComposite : Term α → Bool
  | .seq .. | .vec .. => true
  | _ => false

/-- The first item of a composite. -/
def head? (t : Term α) : Option (Term α) := t.items.head?

/-- Induction along the nesting of composites. -/
theorem induct {P : Term α → Prop} (hSym : ∀ s, P (.sym s))
    (hSeq : ∀ xs i, (∀ x ∈ xs, P x) → P (.seq xs i))
    (hVec : ∀ xs i, (∀ x ∈ xs, P x) → P (.vec xs i))
    (hLit : ∀ v i, P (.lit v i)) (hStray : ∀ v, P (.stray v)) : ∀ t, P t
  | .sym s => hSym s
  | .seq xs i => hSeq xs i fun x _ => induct hSym hSeq hVec hLit hStray x
  | .vec xs i => hVec xs i fun x _ => induct hSym hSeq hVec hLit hStray x
  | .lit v i => hLit v i
  | .stray v => hStray v

end Term

end DatalogFragments
