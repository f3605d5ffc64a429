import DatalogFragments.Yaml.Node.Block
import DatalogFragments.Yaml.Node.Grammar
import DatalogFragments.Yaml.Node.Value
import DatalogFragments.Yaml.Token.Lexer

/-!
# YAML text of values

## Main definitions

* `Yaml.read`: the value of a text; a text without a document stands for null;
* `Value.yaml`: the text of a value.
-/

namespace DatalogFragments

/-- The value of a YAML text with at most one document. -/
def Yaml.read (text : String) : Except Fault Value := do
  let tokens ← Yaml.Token.ofText text
  match ← Yaml.Node.ofTokens tokens with
  | some node => node.toValue
  | none => return .null

/-- The YAML text of a value; only plain data has one. -/
def Value.yaml (v : Value) : Except Fault String := do
  let node ← Yaml.Node.ofValue v
  return node.text

end DatalogFragments
