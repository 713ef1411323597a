import CellScript.Text

/-! The tokens of a YAML text. Indentation shows as tokens that open and close blocks. -/
namespace CellScript.Yaml

inductive Token where
  | streamEnd
  | version (major minor : Nat)
  | tagDirective (handle start : Text)
  | documentStart
  | documentEnd
  | blockListStart
  | blockMapStart
  | blockEnd
  | flowListStart
  | flowListEnd
  | flowMapStart
  | flowMapEnd
  /-- The dash before an item of a block. -/
  | item
  /-- The comma between entries of a flow. -/
  | separator
  | key
  | value
  | alias (name : Text)
  | anchor (name : Text)
  | tag (handle suffix : Text)
  | scalar (plain : Bool) (text : Text)
deriving DecidableEq, Repr

namespace Token

/-- Whether a token can only stand between documents. -/
def endsDocument : Token → Bool
  | streamEnd | version .. | tagDirective .. | documentStart | documentEnd => true
  | _ => false

end Token

end CellScript.Yaml
