import DatalogFragments.Value.Display

/-!
# Failures and faults

A *failure* is a refusal that this library words itself: a malformed fragment, a form or value
that cannot be bound, a plan with a gap. It says what went wrong (`Cause`), which symbols are
to blame (`unmet`), which fragment it happened to, and carries further detail as entries.

A *fault* is anything that can stop an operation: a failure, or data of the wrong shape.

## Main definitions

* `Cause`, `Cause.kind`, `Cause.message`: the reasons, their classes and their wording;
* `Failure`, `Failure.text`: a refusal and its one-line form;
* `Fault`: failures and malformed data.
-/

namespace DatalogFragments

/-- The class of a failure. -/
inductive FailureKind where
  /-- A fragment is malformed at construction. -/
  | configuration
  /-- A binding form or its value cannot be bound. -/
  | bindingForm
  /-- A locked fragment was to be bound. -/
  | locked
  /-- No other fragment provides a required symbol. -/
  | requirement
  /-- A must-let variable is unbound at compile time. -/
  | mustLet
  /-- A fragment cannot be used as a branch of a disjunction. -/
  | branch
  deriving DecidableEq, Repr

/-- The tag of a failure class. -/
def FailureKind.tag : FailureKind → String
  | .configuration => "invalid-configuration"
  | .bindingForm => "invalid-binding-form"
  | .locked => "locked-fragment"
  | .requirement => "unsatisfied-requirement"
  | .mustLet => "unsatisfied-must-let"
  | .branch => "invalid-branch"

/-- The reason of a failure. Names of fragments are kept as given, `null` for an unnamed one. -/
inductive Cause where
  | clauseNotTerm (clause : Value)
  | selectivityNotInteger (selectivity : Value)
  | notDeclarable (declaration : String) (entry : Value)
  | providedAndRequired (name : Value)
  | specialsUndeclared (name : Value)
  | mustLetNotBindable (name : Value)
  | symbolNotBindable (symbol : String) (name : Value)
  | symbolBoundTwice (symbol : String) (name : Value)
  | fragmentLocked (name : Value)
  | symbolExpected (entry : Value)
  | noBindingForm (data : Value)
  | operatorBound (symbol : String)
  | specialInCollection
  | emptyTuple
  | specialInTuple
  | tupleBindsNothing
  | unsupportedForm (form : Value)
  | collectionExpected (declaration : Clause) (got : Value)
  | sequenceExpected (declaration : Clause) (got : Value)
  | arityMismatch (expected got : Nat)
  | requirementsUnmet (name : Value)
  | mustLetUnbound (name : Value)
  | declaredTwice (symbol : String) (first second : Value)
  | noBranches
  | branchNotFragment (index : Nat) (branch : Value)
  | branchUnbound (name : Value)
  | branchSpecials (name : Value)
  | branchEscapes (name : Value)
  | nothingExposed
  /-- A failure stated by a caller in its own words. -/
  | stated (kind : FailureKind) (message : String)

namespace Cause

/-- The class that a reason belongs to. -/
def kind : Cause → FailureKind
  | .clauseNotTerm _ | .selectivityNotInteger _ | .notDeclarable .. | .providedAndRequired _
  | .specialsUndeclared _ | .mustLetNotBindable _ | .symbolExpected _ => .configuration
  | .symbolNotBindable .. | .symbolBoundTwice .. | .noBindingForm _ | .operatorBound _
  | .specialInCollection | .emptyTuple | .specialInTuple | .tupleBindsNothing
  | .unsupportedForm _ | .collectionExpected .. | .sequenceExpected .. | .arityMismatch ..
  | .declaredTwice .. => .bindingForm
  | .fragmentLocked _ => .locked
  | .requirementsUnmet _ => .requirement
  | .mustLetUnbound _ => .mustLet
  | .noBranches | .branchNotFragment .. | .branchUnbound _ | .branchSpecials _
  | .branchEscapes _ | .nothingExposed => .branch
  | .stated k _ => k

/-- A sentence about a fragment. -/
private def aboutFragment (name : Value) (rest : String) : String :=
  "Fragment " ++ name.labelText ++ rest

/-- A sentence about a branch. -/
private def aboutBranch (name : Value) (rest : String) : String :=
  "Branch " ++ name.labelText ++ rest

/-- The wording of a reason. -/
def message : Cause → String
  | .clauseNotTerm c => "Clause " ++ c.display ++ " is not a term"
  | .selectivityNotInteger v => "Selectivity must be an integer, got " ++ v.display
  | .notDeclarable declaration e =>
    declaration ++ " entry " ++ e.display ++ " is neither a variable nor a special"
  | .providedAndRequired n => aboutFragment n " both provides and requires"
  | .specialsUndeclared n => aboutFragment n " uses specials it neither provides nor requires"
  | .mustLetNotBindable n => aboutFragment n " lists must-let variables it cannot bind"
  | .symbolNotBindable s n => s ++ " is not bindable in fragment " ++ n.labelText
  | .symbolBoundTwice s n => s ++ " is bound more than once in fragment " ++ n.labelText
  | .fragmentLocked n => aboutFragment n " is locked"
  | .symbolExpected e => "Expected a symbol, got " ++ e.display
  | .noBindingForm d => "Cannot build a binding form from " ++ d.display
  | .operatorBound s => "Binding symbol " ++ s ++ " is neither a variable nor a special"
  | .specialInCollection => "A special cannot be bound as a collection"
  | .emptyTuple => "Tuple binding needs at least one item"
  | .specialInTuple => "A special cannot be destructured"
  | .tupleBindsNothing => "Tuple binding binds nothing"
  | .unsupportedForm f => "Unsupported binding form: " ++ f.display
  | .collectionExpected d v =>
    "Collection binding for " ++ d.plain ++ " needs an iterable value, got " ++ v.kindName
  | .sequenceExpected d v =>
    "Tuple binding for " ++ d.plain ++ " needs a sequence value, got " ++ v.kindName
  | .arityMismatch m n =>
    "Tuple binding expects " ++ intText m ++ " values, got " ++ intText n
  | .requirementsUnmet n => aboutFragment n " has requirements no other fragment provides"
  | .mustLetUnbound n => aboutFragment n " has must-let variables without a binding"
  | .declaredTwice s m n =>
    s ++ " is declared as a parameter by both " ++ m.labelText ++ " and " ++ n.labelText
  | .noBranches => "A disjunction needs at least one branch"
  | .branchNotFragment i b => "Branch " ++ intText i ++ " is not a fragment: " ++ b.display
  | .branchUnbound n => aboutBranch n " has unbound must-let variables"
  | .branchSpecials n =>
    aboutBranch n " provides or binds specials, which cannot escape a disjunction"
  | .branchEscapes n => aboutBranch n " provides variables it never binds"
  | .nothingExposed => "A disjunction must expose at least one variable"
  | .stated _ m => m

end Cause

/-- What an error shows of the fragment that it happened to. -/
structure Snapshot where
  name : Value
  provide : List Value
  require : List Value
  forms : List Value
  locked : Value

/-- A refusal in this library's words. -/
structure Failure where
  cause : Cause
  fragment : Option Snapshot := none
  unmet : List Value := []
  context : Entries := []

namespace Failure

/-- The class of the failure. -/
def kind (f : Failure) : FailureKind := f.cause.kind

/-- The message of the failure. -/
def message (f : Failure) : String := f.cause.message

/-- The message, followed by the symbols to blame in brackets if there are any. -/
def text (f : Failure) : String :=
  if f.unmet.isEmpty then f.message
  else f.message ++ " [" ++ joinTexts " " (f.unmet.map Value.plain) ++ "]"

end Failure

/-- What can stop an operation. -/
inductive Fault where
  | failure (f : Failure)
  /-- A term was expected where the value stands. -/
  | notTerm (value : Value)
  /-- A term document has an unknown type tag. -/
  | unknownTermTag (tag : Value)
  /-- A binding form was expected where the value stands. -/
  | notForm (value : Value)
  /-- A binding document has an unknown type tag. -/
  | unknownFormTag (tag : Value)
  /-- A value has no query text. -/
  | notRenderable (value : Value)
  /-- A mapping lacks the entry. -/
  | entryMissing (key : String)
  /-- Entries were looked up in a value that is no mapping. -/
  | notMapping
  /-- A name is no text. -/
  | nameNotText
  /-- A value has the wrong shape: it cannot be iterated, be a key, be ordered or be joined. -/
  | wrongShape
  /-- A value has the right shape and unusable content. -/
  | wrongContent
  /-- A text marked as a number is empty. -/
  | emptyNumber
  /-- A text marked as a point in time is none. -/
  | notTimestamp
  /-- A text is no JSON document. -/
  | malformedJson
  /-- A text is no YAML document, or a value has no YAML form. -/
  | malformedYaml

namespace Fault

/-- The wording of a fault, for those that are worded. -/
def message? : Fault → Option String
  | .failure f => some f.message
  | .notTerm v => some ("Unsupported Term type: " ++ v.className)
  | .unknownTermTag t => some ("Unsupported term dict type: " ++ t.plain)
  | .notForm v => some ("Unsupported binding form: " ++ v.className)
  | .unknownFormTag t => some ("Unsupported binding dict type: " ++ t.plain)
  | .notRenderable v => some ("Cannot render " ++ v.kindName ++ " as EDN")
  | _ => none

end Fault

/-- Stops with a failure that names no fragment. -/
def refuse {α : Type} (cause : Cause) (unmet : List Value) (context : Entries) : Except Fault α :=
  .error (.failure { cause, unmet, context })

end DatalogFragments
