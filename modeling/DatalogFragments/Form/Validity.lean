import DatalogFragments.Form

/-!
# Valid binding forms

At the top level a form is a variable, a special, or built from collections and tuples. Below
the top level a placeholder may stand for a position. A special is only ever bound as a whole,
and a tuple has items and binds something.

## Main definitions

* `Form.check`: refuses a form that is not valid, with the first reason from the left.
-/

namespace DatalogFragments

/-- The fault of a name that is no text. -/
def Value.nameFault : Value → Fault
  | .bytes _ => .wrongShape
  | _ => .nameNotText

namespace Form

/-- The special that the form is, if it is one. -/
def special? : Form → Option Name
  | .sym s => if s.isSpecial then some s else none
  | _ => none

/-- Refuses a part that is no form. -/
def refuseStray : Value → Except Fault Unit
  | .misnamed n _ => .error n.nameFault
  | v => refuse (.unsupportedForm v) [] [(.text "form", v)]

/-- The entry that shows a form. -/
def shown (f : Form) : Entries := [(.text "form", f.toValue)]

mutual

/-- Refuses an invalid form; `top` tells whether the form stands at the top level. -/
def check (top : Bool) : Form → Except Fault Unit
  | .sym s =>
    if s.name = placeholderName && !top then .ok ()
    else if s.isDeclarable then .ok ()
    else refuse (.operatorBound s.name) [.ofName s] []
  | .coll f =>
    match f.special? with
    | some s => refuse .specialInCollection [.ofName s] []
    | none => check false f
  | .tup fs => do
    if fs.isEmpty then refuse .emptyTuple [] (shown (.tup fs)) else
    checkItems fs
    if (symbolsOf fs).isEmpty then refuse .tupleBindsNothing [] (shown (.tup fs)) else .ok ()
  | .stray v => refuseStray v

/-- Refuses invalid items of a tuple. -/
def checkItems : List Form → Except Fault Unit
  | [] => .ok ()
  | f :: fs => do
    match f.special? with
    | some s => refuse .specialInTuple [.ofName s] []
    | none => check false f
    checkItems fs

end

end Form

end DatalogFragments
