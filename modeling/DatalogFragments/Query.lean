import DatalogFragments.Edn
import DatalogFragments.Fragment.Renaming

/-!
# Queries compiled from fragments

A list of fragments is compiled into one query: every requirement has to be provided by
another fragment and every must-let variable bound; the fragments are ordered by selectivity,
their private variables renamed, and clauses, parameter declarations and arguments put
together. Nothing depends on anything but the fragments and the projection.

## Main definitions

* `checkSatisfied`, `checkMustLet`: the conditions on the list;
* `orderSlices`: the compiled order;
* `Assembly.ofSlices`: declarations and arguments;
* `Query.compile`: the whole;
* `Query.edn`: the query text.
-/

namespace DatalogFragments

/-! ## Conditions on a list of fragments -/

/-- The requirements of the fragment at an index that no other fragment provides. -/
def unmetAt (slices : List Fragment) (index : Nat) (f : Fragment) : List Name :=
  f.require.filter fun s => !s.isIn ((slices.eraseIdx index).flatMap Fragment.provide)

/-- The first fragment that has blamed symbols, with its index and those symbols. -/
def firstBlamed (slices : List Fragment) (blamed : Nat → Fragment → List Name) :
    Option (Nat × Fragment × List Name) :=
  slices.zipIdx.findSome? fun (f, index) =>
    match blamed index f with
    | [] => none
    | names => some (index, f, names)

/-- Stops with a failure about the fragment at an index. -/
def refuseAt (index : Nat) (f : Fragment) (cause : Cause) (unmet : List Name) :
    Except Fault Unit :=
  .error (.failure
    { cause
      fragment := some f.snapshot
      unmet := unmet.map .ofName
      context := [(.text "position", .int index)] })

/-- Refuses fragments with a requirement that no other fragment provides. -/
def checkSatisfied (slices : List Fragment) : Except Fault Unit :=
  match firstBlamed slices (unmetAt slices) with
  | some (index, f, unmet) => refuseAt index f (.requirementsUnmet f.name) unmet
  | none => .ok ()

/-- Refuses fragments with a must-let variable that is not bound. -/
def checkMustLet (slices : List Fragment) : Except Fault Unit :=
  match firstBlamed slices fun _ f => f.unboundMustLet with
  | some (index, f, unmet) => refuseAt index f (.mustLetUnbound f.name) unmet
  | none => .ok ()

/-- The fragments by ascending selectivity; equal ones keep their order. -/
def orderSlices (slices : List Fragment) : List Fragment :=
  slices.mergeSort fun f g => decide (f.selectivity ≤ g.selectivity)

/-- Renames the private variables of fragments for their positions, counted from `slice`. -/
def renameSlices (slice : Nat) (taken : List String) :
    List Fragment → Except Fault (List Fragment)
  | [] => .ok []
  | f :: rest => do
    let (g, taken) ← f.renamePrivate slice taken
    let gs ← renameSlices (slice + 1) taken rest
    return g :: gs

/-! ## Declarations and arguments -/

/-- A special is bound with different values by two fragments, of which the first one counts. -/
structure Warning where
  special : String
  first : Value
  later : Value

/-- The wording of a warning. -/
def Warning.message (w : Warning) : String :=
  "Special " ++ w.special ++ " bound by both " ++ w.first.labelText ++ " and "
    ++ w.later.labelText ++ "; keeping the binding from " ++ w.first.labelText

/-- A special with the name of the fragment that binds it first, and its argument. -/
structure SpecialBinding where
  symbol : Name
  owner : Value
  value : Value

/-- Declarations and arguments put together so far. -/
structure Assembly where
  specials : List SpecialBinding := []
  params : List Clause := []
  args : List Value := []
  declared : List (String × Value) := []
  warnings : List Warning := []

namespace Assembly

/-- Notes that a fragment declares symbols; none may be declared yet. -/
def declareAll (f : Fragment) : List (String × Value) → List Name →
    Except Fault (List (String × Value))
  | declared, [] => .ok declared
  | declared, s :: rest =>
    match declared.lookup s.name with
    | some first => f.refuse (.declaredTwice s.name first f.name) [s]
    | none => declareAll f ((s.name, f.name) :: declared) rest

/-- The special that a form binds as a whole, if it is one. -/
def wholeSpecial? : Form → Option Name
  | .sym s => if s.isSpecial then some s else none
  | _ => none

/--
Adds a binding of a fragment. A special is declared once, with its first argument; a later
different one is dropped with a warning.
-/
def add (a : Assembly) (f : Fragment) (form : Form) (value : Value) : Except Fault Assembly :=
  match wholeSpecial? form with
  | some s =>
    match a.specials.find? fun b => b.symbol.name == s.name with
    | some b =>
      if b.value.same value then .ok a
      else
        .ok { a with warnings := a.warnings ++ [⟨s.name, b.owner, f.name⟩] }
    | none => .ok { a with specials := a.specials ++ [⟨s, f.name, value⟩] }
  | none => do
    let declared ← declareAll f a.declared form.symbols
    return { a with
      declared := declared
      params := a.params ++ [form.render]
      args := a.args ++ [value] }

/-- Adds bindings of fragments in order. -/
def addAll (a : Assembly) : List (Fragment × Form × Value) → Except Fault Assembly
  | [] => .ok a
  | (f, form, value) :: rest => do
    let a ← a.add f form value
    a.addAll rest

/-- The bindings of fragments, each with the fragment that it belongs to. -/
def bindingsOf (slices : List Fragment) : List (Fragment × Form × Value) :=
  slices.flatMap fun f => f.lets.map fun pair => (f, pair.1, pair.2)

/-- The declarations and arguments of fragments. -/
def ofSlices (slices : List Fragment) : Except Fault Assembly :=
  ({} : Assembly).addAll (bindingsOf slices)

/-- Parameter declarations, specials first. -/
def allParams (a : Assembly) : List Clause :=
  a.specials.map (fun b => .sym b.symbol) ++ a.params

/-- Arguments, one per declaration. -/
def allArgs (a : Assembly) : List Value :=
  a.specials.map SpecialBinding.value ++ a.args

end Assembly

/-! ## Compilation -/

/-- The position of a fragment in a compiled query. -/
structure SliceOrder where
  index : Nat
  name : Value
  selectivity : Int

/-- A compiled query. -/
structure Query where
  /-- The projection, passed through as given. -/
  find : Value
  params : List Clause
  clauses : List Clause
  args : List Value
  order : List SliceOrder
  /-- The renamed fragments in compiled order. -/
  slices : List Fragment
  warnings : List Warning

namespace Query

/-- The positions of fragments in compiled order. -/
def orderOf (slices : List Fragment) : List SliceOrder :=
  slices.zipIdx.map fun (f, index) => ⟨index, f.name, f.selectivity⟩

/-- Compiles fragments, given in any order, into one query. -/
def compile (find : Value) (slices : List Fragment) : Except Fault Query := do
  checkSatisfied slices
  checkMustLet slices
  let ordered ← renameSlices 0 (usedNames slices) (orderSlices slices)
  let assembly ← Assembly.ofSlices ordered
  return {
    find
    params := assembly.allParams
    clauses := ordered.flatMap Fragment.clauses
    args := assembly.allArgs
    order := orderOf ordered
    slices := ordered
    warnings := assembly.warnings }

/-- Equality of the query itself: projection, declarations, clauses, arguments and order. -/
def same (a b : Query) : Bool :=
  a.find.same b.find
    && Value.sameTerms a.params b.params
    && Value.sameTerms a.clauses b.clauses
    && Value.sameItems a.args b.args
    && a.order.length == b.order.length
    && (a.order.zip b.order).all fun (o, p) =>
      o.index == p.index && o.name.same p.name && o.selectivity == p.selectivity

/-! ## Query text -/

/-- The text of a projection: a text stands for itself, a list for its items. -/
def findEdn : Value → Except Fault String
  | .text s => .ok s
  | .term t => t.edn
  | v => do
    let items ← v.asElements
    let texts ← Value.ednAll items
    return Edn.spaced texts

/-- The query text; there is no declaration part when nothing is declared. -/
def edn (q : Query) : Except Fault String := do
  let find ← findEdn q.find
  let params ← Term.ednItems q.params
  let clauses ← Term.ednItems q.clauses
  let declarations := if params.isEmpty then [] else [":in", Edn.spaced params]
  return "[" ++ Edn.spaced ([":find", find] ++ declarations ++ [":where", Edn.spaced clauses]) ++ "]"

/-- What a one-pass source has left after its items were rendered up to a first refusal. -/
def leftAfterRendering : List Value → List Value
  | [] => []
  | v :: vs =>
    match v.edn with
    | .ok _ => leftAfterRendering vs
    | .error _ => vs

/-- The query after its text was asked for: a projection that is a one-pass source is used up. -/
def afterRendering (q : Query) : Query :=
  match q.find with
  | .stream items => { q with find := .stream (leftAfterRendering items) }
  | _ => q

end Query

end DatalogFragments
