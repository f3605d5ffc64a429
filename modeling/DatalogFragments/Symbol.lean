/-!
# Symbols

A symbol is a name with optional display information. Its first character gives its kind:

* `?name` is a variable;
* `$name` is a datasource (`$` alone is the default one);
* `%name` is a ruleset (`%` alone is the default one);
* any other name is an operator, a rule name, `_` or `...`.

Symbols are compared by name; the information is carried along and never interpreted.
-/

namespace DatalogFragments

/-- A name with display information of type `α`. -/
structure Symbol (α : Type) where
  name : String
  info : Option α := none

/-- A variable name: a question mark followed by at least one character. -/
def isVariableName (name : String) : Bool :=
  match name.toList with
  | '?' :: _ :: _ => true
  | _ => false

/-- A datasource name. -/
def isDatasourceName (name : String) : Bool := name.toList.head? == some '$'

/-- A ruleset name. -/
def isRulesetName (name : String) : Bool := name.toList.head? == some '%'

/-- A special is a datasource or a ruleset. -/
def isSpecialName (name : String) : Bool := isDatasourceName name || isRulesetName name

/-- The default datasource. -/
def defaultDatasource : String := "$"

/-- The default ruleset. -/
def defaultRuleset : String := "%"

/-- Skips a position of a destructured value. -/
def placeholderName : String := "_"

/-- Marks a collection declaration. -/
def ellipsisName : String := "..."

namespace Symbol

variable {α : Type}

/-- A symbol without display information. -/
def plain (name : String) : Symbol α := ⟨name, none⟩

/-- Whether the symbol is a variable. -/
def isVariable (s : Symbol α) : Bool := isVariableName s.name

/-- Whether the symbol is a datasource. -/
def isDatasource (s : Symbol α) : Bool := isDatasourceName s.name

/-- Whether the symbol is a ruleset. -/
def isRuleset (s : Symbol α) : Bool := isRulesetName s.name

/-- Whether the symbol is a datasource or a ruleset. -/
def isSpecial (s : Symbol α) : Bool := isSpecialName s.name

/-- A symbol that a fragment can declare: a variable or a special. -/
def isDeclarable (s : Symbol α) : Bool := s.isVariable || s.isSpecial

@[simp] theorem name_plain (name : String) : (plain name : Symbol α).name = name := rfl

end Symbol

end DatalogFragments
