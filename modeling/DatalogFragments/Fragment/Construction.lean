import DatalogFragments.Form.Arguments
import DatalogFragments.Form.Validity
import DatalogFragments.Fragment
import DatalogFragments.Term.Specials
import DatalogFragments.Value.Entries

/-!
# Construction of fragments

A fragment is checked whenever it is made or changed:

* declared symbols are variables or specials, and none is both provided and required;
* every special of the clauses is provided or required;
* must-let symbols can be bound here;
* bindings have valid forms, bind symbols that can be bound here, each at most once, and
  their arguments have the shape of their forms.

## Main definitions

* `Fragment.check`: the conditions above, with the first reason against a fragment;
* `Fragment.checked`: a fragment with its declarations made distinct, if it passes;
* `Config`: the plain description of a fragment;
* `Fragment.ofParts`: a fragment from described parts as they are;
* `Fragment.ofConfig`: a fragment from a description, with the specials it implies required;
* `Fragment.bindAll`, `lock`, `withName`, …: changes.
-/

namespace DatalogFragments

namespace Fragment

/-! ## Checks -/

/-- What an error shows of the fragment. -/
def snapshot (f : Fragment) : Snapshot where
  name := f.name
  provide := f.provide.map .ofName
  require := f.require.map .ofName
  forms := f.lets.map fun pair => pair.1.toValue
  locked := f.locked

/-- Stops with a failure about the fragment. -/
def refuse {α : Type} (f : Fragment) (cause : Cause) (unmet : List Name) : Except Fault α :=
  .error (.failure { cause, fragment := some f.snapshot, unmet := unmet.map .ofName })

/-- Refuses a declared symbol that is neither a variable nor a special. -/
def checkDeclared (f : Fragment) (declaration : String) (names : List Name) : Except Fault Unit :=
  match names.find? fun s => !s.isDeclarable with
  | some s => f.refuse (.notDeclarable declaration (.ofName s)) [s]
  | none => .ok ()

/-- Refuses symbols that are both provided and required. -/
def checkOverlap (f : Fragment) : Except Fault Unit :=
  match f.provide.filter fun s => s.isIn f.require with
  | [] => .ok ()
  | overlap => f.refuse (.providedAndRequired f.name) overlap

/-- The fault of clauses with a symbol whose name is no text. -/
def namesFault? (clauses : List Clause) : Option Fault :=
  match Term.misnamedNamesOf clauses with
  | [] => none
  | n :: ns => if (n :: ns).all Value.isKey then some n.nameFault else some .wrongShape

/-- Refuses clauses with a symbol whose name is no text. -/
def checkNames (clauses : List Clause) : Except Fault Unit :=
  match namesFault? clauses with
  | some fault => .error fault
  | none => .ok ()

/-- Refuses specials of the clauses that are not declared. -/
def checkSpecials (f : Fragment) : Except Fault Unit :=
  match f.freeSymbols.filter fun s => s.isSpecial && !s.isIn f.require && !s.isIn f.provide with
  | [] => .ok ()
  | missing => f.refuse (.specialsUndeclared f.name) missing

/-- Refuses must-let symbols that cannot be bound here. -/
def checkMustLet (f : Fragment) : Except Fault Unit :=
  match f.mustLet.filter fun s => !s.isIn f.bindableSymbols with
  | [] => .ok ()
  | stuck => f.refuse (.mustLetNotBindable f.name) stuck

/-- Refuses symbols that cannot be bound here or are bound already; returns all bound ones. -/
def checkBound (f : Fragment) : List Name → List Name → Except Fault (List Name)
  | bound, [] => .ok bound
  | bound, s :: rest =>
    if !s.isIn f.bindableSymbols then f.refuse (.symbolNotBindable s.name f.name) [s]
    else if s.isIn bound then f.refuse (.symbolBoundTwice s.name f.name) [s]
    else checkBound f (s :: bound) rest

/-- Refuses bindings with an invalid form, a symbol out of place or an unfit argument. -/
def checkLets (f : Fragment) : List Name → List (Form × Value) → Except Fault Unit
  | _, [] => .ok ()
  | bound, (form, value) :: rest => do
    form.check true
    let bound ← f.checkBound bound form.symbols
    form.checkArgument value
    checkLets f bound rest

/-- Refuses a fragment that is not well formed. -/
def check (f : Fragment) : Except Fault Unit := do
  f.checkDeclared "provide" f.provide
  f.checkDeclared "require" f.require
  f.checkDeclared "must-let" f.mustLet
  f.checkOverlap
  checkNames f.clauses
  f.checkSpecials
  f.checkMustLet
  f.checkLets [] f.lets

/-- The fragment with every declaration made distinct. -/
def distinct (f : Fragment) : Fragment :=
  { f with
    provide := distinctNames f.provide
    require := distinctNames f.require
    mustLet := distinctNames f.mustLet }

/-- The fragment with distinct declarations, if it is well formed. -/
def checked (f : Fragment) : Except Fault Fragment := do
  f.distinct.check
  return f.distinct

/-- A fragment as construction leaves it. -/
def Valid (f : Fragment) : Prop := f.checked = .ok f

end Fragment

/-! ## Descriptions -/

/-- The plain description of a fragment. It carries no guarantee; construction checks it. -/
structure Config where
  clauses : List Value := []
  name : Value := .null
  provide : List Value := []
  require : List Value := []
  mustLet : List Value := []
  selectivity : Value := .int 0
  lets : List (Value × Value) := []
  locked : Value := .bool false
  extra : Value := .mapping []

namespace Config

/-- What an error shows of the description. -/
def snapshot (c : Config) : Snapshot where
  name := c.name
  provide := c.provide
  require := c.require
  forms := c.lets.map Prod.fst
  locked := c.locked

/-- Stops with a failure about the description. -/
def refuse {α : Type} (c : Config) (cause : Cause) (unmet : List Value) (context : Entries) :
    Except Fault α :=
  .error (.failure { cause, fragment := some c.snapshot, unmet, context })

/-- The clauses of the description; all of them have to be terms. -/
def asClauses (c : Config) : Except Fault (List Clause) :=
  match c.clauses.find? fun v => !v.isTerm with
  | some v => c.refuse (.clauseNotTerm v) [] [(.text "clause", v)]
  | none => .ok (c.clauses.map Term.ofValue)

/-- The ordering key of the description; it has to be an integer. -/
def asSelectivity (c : Config) : Except Fault Int :=
  match c.selectivity with
  | .int i => .ok i
  | v => c.refuse (.selectivityNotInteger v) [] []

/-- Declared symbols of the description; all of them have to be variables or specials. -/
def asDeclared (c : Config) (declaration : String) : List Value → Except Fault (List Name)
  | [] => .ok []
  | v :: rest =>
    match v with
    | .misnamed n _ => .error n.nameFault
    | .term (.sym s) =>
      if s.isDeclarable then do
        let names ← asDeclared c declaration rest
        return s :: names
      else c.refuse (.notDeclarable declaration v) [v] []
    | v => c.refuse (.notDeclarable declaration v) [v] []

/-- An entry of a declaration list as a symbol: a text names one. -/
def asSymbol : Value → Except Fault Value
  | .text s => .ok (.ofName (Symbol.plain s))
  | .term (.sym s) => .ok (.ofName s)
  | .misnamed n i => .ok (.misnamed n i)
  | v => DatalogFragments.refuse (.symbolExpected v) [] [(.text "value", v)]

/-- Entries of a declaration list as distinct symbols. -/
def asSymbols (entries : List Value) : Except Fault (List Value) := do
  let symbols ← entries.mapM fun v => do
    let s ← asSymbol v
    if s.isKey then return s else throw .wrongShape
  return firstsBy id symbols

end Config

namespace Fragment

/-- A fragment from described parts as they are. -/
def ofParts (c : Config) : Except Fault Fragment := do
  let provide ← Value.asKeys c.provide
  let require ← Value.asKeys c.require
  let mustLet ← Value.asKeys c.mustLet
  let extra ← c.extra.asEntries
  let c := { c with provide, require, mustLet }
  let clauses ← c.asClauses
  let selectivity ← c.asSelectivity
  let provide ← c.asDeclared "provide" c.provide
  let require ← c.asDeclared "require" c.require
  let mustLet ← c.asDeclared "must-let" c.mustLet
  let lets := c.lets.map fun pair => (Form.ofValue pair.1, pair.2)
  checked
    { name := c.name
      clauses, provide, require, lets, mustLet, selectivity
      locked := c.locked
      extra }

/-! ## Changes -/

/-- Reads binding forms from plain data and refuses invalid ones. -/
def readForms : List (Value × Value) → Except Fault (List (Form × Value))
  | [] => .ok []
  | (data, value) :: rest => do
    let form ← Form.ofData data
    form.check true
    let pairs ← readForms rest
    return (form, value) :: pairs

/-- Replaces all bindings; forms may be given as plain data. A locked fragment refuses. -/
def bindAll (f : Fragment) (pairs : List (Value × Value)) : Except Fault Fragment := do
  if f.isLocked then f.refuse (.fragmentLocked f.name) [] else
  let lets ← readForms pairs
  checked { f with lets }

/-- Replaces all bindings by a single one. -/
def bindOne (f : Fragment) (form value : Value) : Except Fault Fragment :=
  f.bindAll [(form, value)]

/-- Freezes the bindings. There is no way back. -/
def lock (f : Fragment) : Fragment :=
  if f.isLocked then f else { f with locked := .bool true }

/-- The fragment with another ordering key, which has to be an integer. -/
def withSelectivity (f : Fragment) (selectivity : Value) : Except Fault Fragment :=
  match selectivity with
  | .int i => .ok { f with selectivity := i }
  | v => f.refuse (.selectivityNotInteger v) []

/-- The fragment under another name. -/
def withName (f : Fragment) (name : Value) : Fragment := { f with name }

/-- The fragment with further bookkeeping entries. -/
def withExtra (f : Fragment) (entries : Entries) : Fragment :=
  { f with extra := Value.overlaid f.extra entries }

/-! ## Fragments from descriptions -/

/-- Specials that clauses imply or mention, each once. -/
def foundSpecials (clauses : List Clause) : List Name :=
  distinctNames ((Term.impliedSpecials clauses).map Symbol.plain
    ++ (Term.firstSymbols clauses).filter Symbol.isSpecial)

/-- Refuses clauses with a symbol whose name is no text where a name is needed. -/
def checkHeads (clauses : List Clause) : Except Fault Unit :=
  match Term.misnamedBody? clauses with
  | some n => .error n.nameFault
  | none => checkNames clauses

/-- The names among declared symbols. -/
def namesOf (symbols : List Value) : List String :=
  symbols.filterMap fun v =>
    match v with
    | .term (.sym s) => some s.name
    | _ => none

/--
A fragment from a description: clauses may be plain data, symbols may be texts, and every
special that the clauses imply or mention is required unless it is declared.
-/
def ofConfig (c : Config) : Except Fault Fragment := do
  let clauses := c.clauses.map Value.toTerm
  let provide ← Config.asSymbols c.provide
  let explicit ← Config.asSymbols c.require
  checkHeads clauses
  let declared := namesOf provide ++ namesOf explicit
  let implied := (foundSpecials clauses).filter fun s => !declared.contains s.name
  let mustLet ← c.mustLet.mapM Config.asSymbol
  let f ← ofParts
    { clauses := clauses.map Term.toValue
      name := c.name
      provide := provide
      require := explicit ++ implied.map .ofName
      mustLet := mustLet
      selectivity := c.selectivity
      extra := c.extra }
  let f ← if c.lets.isEmpty then pure f else f.bindAll c.lets
  return if c.locked.isTruthy then f.lock else f

end Fragment

end DatalogFragments
