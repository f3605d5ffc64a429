import DatalogFragments.Value

/-!
# Equality of values

Values are compared by what they denote, not by how they are written:

* booleans, integers and floating-point numbers are compared as numbers, `true` being 1;
* a list never equals a tuple; sets of both kinds are compared by their members;
* mappings are compared without regard to order;
* display information does not take part, and a nan equals nothing;
* a value has no identity: a stream equals no value, itself included, and a nan in a container
  keeps the container from equalling itself, where one object that is shared would do.

## Main definitions

* `Value.same`: the equality, also available as `==`;
* `Value.isKey`: whether a value can be the key of a mapping or the member of a set;
* `Value.put`, `Value.entriesOf`, `Value.membersOf`: mappings and sets without repetition.
-/

namespace DatalogFragments

/-! ## Numbers -/

/-- A value seen as a number. -/
inductive Number where
  | int (i : Int)
  | float (x : Binary64)

namespace Number

/-- Equality as numbers, exact across the two kinds. -/
def same : Number → Number → Bool
  | .int i, .int j => i == j
  | .int i, .float x => x.isInteger i
  | .float x, .int i => x.isInteger i
  | .float x, .float y => x.sameNumber y

/-- The strict order of numbers, exact across the two kinds. -/
def below : Number → Number → Bool
  | .int i, .int j => decide (i < j)
  | .int i, .float x => Binary64.intBelow i x
  | .float x, .int i => x.belowInt i
  | .float x, .float y => x.below y

end Number

namespace Value

/-- The number that a value denotes; `false` is 0 and `true` is 1. -/
def number? : Value → Option Number
  | .bool b => some (.int (if b then 1 else 0))
  | .int i => some (.int i)
  | .float x => some (.float x)
  | _ => none

/-- Equality of two values that are both numbers. -/
def sameNumbers (a b : Value) : Bool :=
  match a.number?, b.number? with
  | some m, some n => m.same n
  | _, _ => false

/-! ## Equality -/

mutual

/-- Equality of values, by their parts alone: that two values are one object does not count. -/
def same : Value → Value → Bool
  | .null, w => match w with | .null => true | _ => false
  | .bool b, w => sameNumbers (.bool b) w
  | .int i, w => sameNumbers (.int i) w
  | .float x, w => sameNumbers (.float x) w
  | .text s, w => match w with | .text t => s == t | _ => false
  | .bytes bs, w => match w with | .bytes cs => bs == cs | _ => false
  | .keyword k, w => match w with | .keyword l => k == l | _ => false
  | .list xs, w => match w with | .list ys => sameItems xs ys | _ => false
  | .tuple xs, w => match w with | .tuple ys => sameItems xs ys | _ => false
  | .mapping es, w =>
    match w with
    | .mapping fs => es.length == fs.length && entriesWithin es fs
    | _ => false
  | .set xs, w | .frozenSet xs, w =>
    match w with
    | .set ys | .frozenSet ys => xs.length == ys.length && membersWithin xs ys
    | _ => false
  | .stream _, _ => false
  | .date d, w => match w with | .date e => d == e | _ => false
  | .moment t, w => match w with | .moment u => t.same u | _ => false
  | .term t, w => match w with | .term u => sameTerm t u | _ => false
  | .misnamed n _, w => match w with | .misnamed m _ => same n m | _ => false
  | .collForm v, w => match w with | .collForm u => same v u | _ => false
  | .tupForm xs, w => match w with | .tupForm ys => sameItems xs ys | _ => false

/-- Equality item by item. -/
def sameItems : List Value → List Value → Bool
  | [], ys => ys.isEmpty
  | x :: xs, ys =>
    match ys with
    | [] => false
    | y :: ys => same x y && sameItems xs ys

/-- Whether every value equals a member of the other list. -/
def membersWithin : List Value → List Value → Bool
  | [], _ => true
  | x :: xs, ys => ys.any (same x) && membersWithin xs ys

/-- Whether every entry has an equal one in the other list. -/
def entriesWithin : Entries → Entries → Bool
  | [], _ => true
  | (k, v) :: es, fs => fs.any (fun f => same k f.1 && same v f.2) && entriesWithin es fs

/-- Equality of terms: by name, by class and items, or by literal value. -/
def sameTerm : Clause → Clause → Bool
  | .sym s, w => match w with | .sym s' => s.name == s'.name | _ => false
  | .seq xs _, w => match w with | .seq ys _ => sameTerms xs ys | _ => false
  | .vec xs _, w => match w with | .vec ys _ => sameTerms xs ys | _ => false
  | .lit v _, w => match w with | .lit u _ => same v u | _ => false
  | .stray v, w => match w with | .stray u => same v u | _ => false

/-- Equality of terms item by item. -/
def sameTerms : List Clause → List Clause → Bool
  | [], ys => ys.isEmpty
  | x :: xs, ys =>
    match ys with
    | [] => false
    | y :: ys => sameTerm x y && sameTerms xs ys

end

instance : BEq Value := ⟨same⟩

instance : BEq Clause := ⟨sameTerm⟩

@[simp] theorem beq_eq_same (a b : Value) : (a == b) = a.same b := rfl

/-! ## Keys, mappings and sets -/

mutual

/-- Whether the value can be a key of a mapping or a member of a set. -/
def isKey : Value → Bool
  | .list _ | .mapping _ | .set _ => false
  | .tuple xs | .tupForm xs => areKeys xs
  | .term t => isKeyTerm t
  | .misnamed n _ => isKey n
  | .collForm v => isKey v
  | _ => true

/-- Whether all values can be keys. -/
def areKeys : List Value → Bool
  | [] => true
  | x :: xs => isKey x && areKeys xs

/-- Whether a term can be a key: so must be the values of its literals. -/
def isKeyTerm : Clause → Bool
  | .sym _ => true
  | .seq xs _ | .vec xs _ => areKeyTerms xs
  | .lit v _ | .stray v => isKey v

/-- Whether all terms can be keys. -/
def areKeyTerms : List Clause → Bool
  | [] => true
  | x :: xs => isKeyTerm x && areKeyTerms xs

end

/--
Sets the entry of a key. A key that is there keeps its position and its written form, and
takes the new value; a new key comes last.
-/
def put (key value : Value) : Entries → Entries
  | [] => [(key, value)]
  | (k, v) :: rest => if k.same key then (k, value) :: rest else (k, v) :: put key value rest

/-- The entries that setting the pairs one after the other yields. -/
def entriesOf (pairs : Entries) : Entries :=
  pairs.foldl (fun es e => put e.1 e.2 es) []

/-- The members that a set of the values has. -/
def membersOf (values : List Value) : List Value :=
  values.foldl (fun ms v => if ms.any (·.same v) then ms else ms ++ [v]) []

/-- One mapping with the entries of another set over it. -/
def overlaid (base added : Entries) : Entries :=
  added.foldl (fun es e => put e.1 e.2 es) base

end Value

end DatalogFragments
