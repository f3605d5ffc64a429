import DatalogFragments.Calendar
import DatalogFragments.Number.Decimal
import DatalogFragments.Term

/-!
# Values

A value is anything that a caller hands over: the constants of clauses, the arguments bound to
parameters, display information, bookkeeping entries, and the entries of a configuration that
was read from a document. Terms and binding forms are values too.

A mapping is a list of entries in insertion order with no key twice, and a set is a list of
members without repetition.
-/

namespace DatalogFragments

/-- Data handed over by a caller or read from a document. -/
inductive Value where
  | null
  | bool (b : Bool)
  | int (i : Int)
  | float (x : Binary64)
  | text (s : String)
  | bytes (octets : List UInt8)
  /-- An attribute ident such as `:artist/name`; the name has its colon. -/
  | keyword (name : String)
  | list (items : List Value)
  | tuple (items : List Value)
  | mapping (entries : List (Value × Value))
  | set (members : List Value)
  | frozenSet (members : List Value)
  /-- A one-pass source of items; it is never read from. -/
  | stream (items : List Value)
  | date (day : Date)
  | moment (time : Moment)
  | term (t : Term Value)
  /-- A symbol whose name is no text, as a malformed document yields it. -/
  | misnamed (name : Value) (info : Option Value)
  /-- A binding form that binds every element of a collection. -/
  | collForm (inner : Value)
  /-- A binding form that destructures a value of fixed arity. -/
  | tupForm (items : List Value)

instance : Inhabited Value := ⟨.null⟩

/-- Entries of a mapping. -/
abbrev Entries := List (Value × Value)

/-- A clause over values. -/
abbrev Clause := Term Value

/-- A symbol with a value as display information. -/
abbrev Name := Symbol Value

/-! ## Terms as values -/

/-- A value as an item of a composite. -/
def Term.ofValue : Value → Clause
  | .term t => t
  | v => .stray v

/-- An item of a composite as a value. An item that is no term does not become one. -/
def Term.toValue : Clause → Value
  | .stray (.term t) => .term (.stray (.term t))
  | .stray v => v
  | t => .term t

namespace Value

/-- A symbol as a value. -/
def ofName (s : Name) : Value := .term (.sym s)

/-- Whether the value is a term. -/
def isTerm : Value → Bool
  | .term (.stray _) => false
  | .term _ | .misnamed .. => true
  | _ => false

/-- A keyword: a leading colon is added where it is missing. -/
def keywordOf (name : String) : Value :=
  if name.toList.head? == some ':' then .keyword name
  else .keyword (String.ofList (':' :: name.toList))

/-- A value that a condition takes for true: neither null, zero nor empty. -/
def isTruthy : Value → Bool
  | .null => false
  | .bool b => b
  | .int i => i != 0
  | .float x => !x.isZero
  | .text s => !s.isEmpty
  | .bytes bs => !bs.isEmpty
  | .list xs | .tuple xs | .set xs | .frozenSet xs => !xs.isEmpty
  | .mapping es => !es.isEmpty
  | _ => true

/--
What an iteration over the value yields: members, keys of a mapping, characters of a text,
octets. A value that cannot be iterated has no elements.
-/
def elements? : Value → Option (List Value)
  | .list xs | .tuple xs | .set xs | .frozenSet xs | .stream xs => some xs
  | .mapping es => some (es.map Prod.fst)
  | .text s => some (s.toList.map fun c => .text (String.singleton c))
  | .bytes bs => some (bs.map fun b => .int b.toNat)
  | _ => none

/-- The entry of a mapping under a text key. -/
def field? (key : String) : Entries → Option Value
  | [] => none
  | (.text k, v) :: rest => if k = key then some v else field? key rest
  | _ :: rest => field? key rest

/-! ## Terms built from plain data -/

mutual

/-- Plain data as a term: a list is a vector, a tuple a sequence, anything else a literal. -/
def toTerm : Value → Clause
  | .term t => t
  | .misnamed n i => .stray (.misnamed n i)
  | .list xs => .vec (toTerms xs) none
  | .tuple xs => .seq (toTerms xs) none
  | v => .lit v none

/-- Every item as a term. -/
def toTerms : List Value → List Clause
  | [] => []
  | x :: xs => toTerm x :: toTerms xs

end

end Value

end DatalogFragments
